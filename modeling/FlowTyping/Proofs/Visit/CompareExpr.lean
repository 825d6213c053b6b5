import FlowTyping.Proofs.Visit.Compare
import FlowTyping.Proofs.Visit.Expr

/-!
# Comparing visits to expressions

Main statement: `Setting.Comparison.visitor_agrees`. What a comparison relates primitive by
primitive it relates for every expression, if it relates the one thing that reads a recorded mask:
narrowing by an order once its operands have been visited.
-/

namespace FlowTyping

open Visit

namespace Setting.Comparison

variable {env : Setting} {p : OrderedMap RoutineId Summary} (C : env.Comparison p)

/-- Two ways to visit sub-expressions that go together. -/
structure Visitors (v v' : Visitor) : Prop where
  value : ∀ e access, C.Agrees (v.value e access) (v'.value e access)
  condition : ∀ e branch, C.Agrees (v.condition e branch) (v'.condition e branch)

namespace Visitors

variable {C} {v v' : Visitor}

theorem below (hv : C.Visitors v v') (parent : ExprId) :
    C.Visitors (v.below parent) (v'.below parent) where
  value e access := C.ite (hv.value e access) (C.throw _)
  condition e branch := C.ite (hv.condition e branch) (C.throw _)

theorem read (hv : C.Visitors v v') (e : ExprId) : C.Agrees (v.read e) (v'.read e) :=
  C.skip (hv.value e .read)

theorem readAll (hv : C.Visitors v v') (es : List ExprId) :
    C.Agrees (v.readAll es) (v'.readAll es) :=
  C.forM fun e _ => hv.read e

end Visitors

/-- Two parts that start in one state, and the join of where they end. -/
theorem both_agrees {α β : Type} {x x' : Visit α} {y y' : Visit β} (hx : C.Agrees x x')
    (hy : C.Agrees y y') : C.Agrees (both x y) (both x' y') := by
  apply C.bind C.getState
  intro before before' hbefore
  apply C.seq hx
  intro a
  apply C.bind (C.swapState_relates hbefore)
  intro after after' hafter
  apply C.seq hy
  intro b
  exact C.seq (C.joinState_agrees hafter) fun _ => C.pure rfl

variable {v v' : Visitor} (hv : C.Visitors v v')

/-! ### Calls -/

theorem isDeferred_agrees (arg : Argument) :
    C.Agrees (isDeferred env arg) (isDeferred (env.against p) arg) :=
  C.ite (C.pure rfl) (C.expr_bind arg.value fun _ _ => C.pure rfl)

theorem bindCall_agrees (candidates : List RoutineId) (types : List ArgumentType) :
    C.Agrees (bindCall env candidates types) (bindCall (env.against p) candidates types) :=
  C.seq C.selfClass?_agrees fun _ => C.onTable (.resolve _ _ _)

theorem reportNoPlace_agrees (arg : Argument) (callee : RoutineId) (q : ParamDecl) :
    C.Agrees (reportNoPlace arg callee q) (reportNoPlace arg callee q) :=
  C.note (.diagnostic _)

theorem bindingResult_agrees (binding : Binding) :
    C.Agrees (bindingResult env binding) (bindingResult (env.against p) binding) := by
  cases binding with
  | resolved callee =>
      have hdecls : (env.against p).decls = env.decls := rfl
      rw [bindingResult, bindingResult, hdecls]
      cases env.decls.routine? callee with
      | some r => exact C.routineResult r
      | none => exact C.pure rfl
  | ambiguous callees =>
      apply C.foldlM
      intro acc r
      exact C.seq (C.routineResult r) fun _ => C.pure rfl
  | missing => exact C.pure rfl

theorem useLocals_agrees (name : Name) : C.Agrees (useLocals name) (useLocals name) := by
  rw [useLocals]
  split
  · exact C.seq (C.forgetAll _) fun _ => C.note .dynamicLocals
  · exact C.pure rfl

include hv

theorem argumentTypes_agrees (args : List Argument) :
    C.Agrees (argumentTypes env v args) (argumentTypes (env.against p) v' args) := by
  apply C.mapM
  intro arg
  apply C.seq (C.isDeferred_agrees arg)
  intro deferred
  apply C.ite
  · exact C.seq (C.peek_agrees arg.value) fun _ => C.pure rfl
  · exact C.seq (hv.value arg.value .read) fun _ => C.pure rfl

theorem passArgument_agrees (r : RoutineDecl) (position : Nat) (arg : Argument) :
    C.Agrees (passArgument env v r position arg)
      (passArgument (env.against p) v' r position arg) := by
  apply C.seq (C.isDeferred_agrees arg)
  intro deferred
  cases (r.paramAt? position).filter ParamDecl.byRef with
  | some q =>
      apply C.ite
      · exact C.seq (C.onTable (.hintMask? q.hint?)) fun m => C.skip (hv.value arg.value (.write m))
      · exact C.reportNoPlace_agrees arg r.id q
  | none => exact C.ite (hv.read arg.value) (C.pure rfl)

theorem passToAny_agrees (rs : List RoutineDecl) (position : Nat) (arg : Argument) :
    C.Agrees (passToAny env v rs position arg) (passToAny (env.against p) v' rs position arg) := by
  apply C.seq (C.isDeferred_agrees arg)
  intro deferred
  apply C.ite
  · apply C.ite (hv.read arg.value)
    apply C.seq
    · apply C.foldlM
      intro acc q
      exact C.seq (C.onTable (.hintMask? q.2.hint?)) fun _ => C.pure rfl
    · intro m
      exact C.skip (hv.value arg.value (.write m))
  · apply C.ite (C.pure rfl)
    apply C.forM
    intro q _
    exact C.reportNoPlace_agrees arg q.1 q.2

theorem passAllToUnknown_agrees (id : ExprId) (args : List Argument) :
    C.Agrees (passAllToUnknown env v id args) (passAllToUnknown (env.against p) v' id args) := by
  apply C.seq
  · apply C.forM
    intro arg _
    apply C.seq (C.isDeferred_agrees arg)
    intro deferred
    exact C.ite (C.skip (hv.value arg.value .share)) (C.pure rfl)
  · intro _
    exact C.seq (C.note (.callTarget id _)) fun _ => C.pure rfl

theorem passArguments_agrees (id : ExprId) (binding : Binding) (args : List Argument) :
    C.Agrees (passArguments env v id binding args)
      (passArguments (env.against p) v' id binding args) := by
  cases binding with
  | resolved callee =>
      have hdecls : (env.against p).decls = env.decls := rfl
      rw [passArguments, passArguments, hdecls]
      cases env.decls.routine? callee with
      | none => exact C.passAllToUnknown_agrees hv id args
      | some r =>
          apply C.seq
          · apply C.forM
            intro arg _
            exact C.passArgument_agrees hv r arg.2 arg.1
          · intro _
            exact C.seq (C.note (.callTarget id _)) fun _ => C.pure rfl
  | ambiguous callees =>
      apply C.seq
      · apply C.forM
        intro arg _
        exact C.passToAny_agrees hv _ arg.2 arg.1
      · intro _
        exact C.seq (C.note (.callTarget id _)) fun _ => C.pure rfl
  | missing => exact C.passAllToUnknown_agrees hv id args

theorem applyBinding_agrees (id : ExprId) (binding : Binding) (args : List Argument) :
    C.Agrees (applyBinding env v id binding args)
      (applyBinding (env.against p) v' id binding args) :=
  C.seq (C.passArguments_agrees hv id binding args) C.bindingResult_agrees

theorem visitUnknownCall_agrees (id : ExprId) (args : List Argument) :
    C.Agrees (visitUnknownCall env v id args) (visitUnknownCall (env.against p) v' id args) :=
  C.seq (C.argumentTypes_agrees hv args) fun _ => C.applyBinding_agrees hv id .missing args

theorem visitKnownCall_agrees (id : ExprId) (candidates : List RoutineId) (args : List Argument) :
    C.Agrees (visitKnownCall env v id candidates args)
      (visitKnownCall (env.against p) v' id candidates args) := by
  apply C.seq (C.argumentTypes_agrees hv args)
  intro types
  apply C.seq (C.bindCall_agrees candidates types)
  intro binding
  exact C.applyBinding_agrees hv id binding args

theorem visitUndeclaredCall_agrees (id : ExprId) (name : Name) (args : List Argument) :
    C.Agrees (visitUndeclaredCall env v id name args)
      (visitUndeclaredCall (env.against p) v' id name args) := by
  apply C.seq (C.onTable (.builtinResult? name))
  intro m?
  cases m? with
  | some m =>
      apply C.seq (hv.readAll (args.map Argument.value))
      intro _
      exact C.seq (C.note (.callTarget id _)) fun _ => C.pure rfl
  | none => exact C.visitUnknownCall_agrees hv id args

theorem visitCall_agrees (id : ExprId) (name : Name) (args : List Argument) :
    C.Agrees (visitCall env v id name args) (visitCall (env.against p) v' id name args) := by
  apply C.ite
  · apply C.seq (C.visitUndeclaredCall_agrees hv id name args)
    intro m
    exact C.seq (C.useLocals_agrees name) fun _ => C.pure rfl
  · apply C.seq (C.visitKnownCall_agrees hv id _ args)
    intro m
    exact C.seq (C.useLocals_agrees name) fun _ => C.pure rfl

theorem visitMethodCall_agrees (id receiver : ExprId) (method : String) (args : List Argument) :
    C.Agrees (visitMethodCall env v id receiver method args)
      (visitMethodCall (env.against p) v' id receiver method args) := by
  have hmethods (classes : List Name) : C.Agrees
      (do
        let methods := classes.map fun cls => env.decls.method? cls method
        if methods.isEmpty || methods.any Option.isNone then visitUnknownCall env v id args
        else
          let types ← argumentTypes env v args
          let bindings ← methods.mapM fun m => bindCall env m.toList types
          applyBinding env v id (combine bindings) args)
      (do
        let methods := classes.map fun cls => env.decls.method? cls method
        if methods.isEmpty || methods.any Option.isNone then
          visitUnknownCall (env.against p) v' id args
        else
          let types ← argumentTypes (env.against p) v' args
          let bindings ← methods.mapM fun m => bindCall (env.against p) m.toList types
          applyBinding (env.against p) v' id (combine bindings) args) := by
    apply C.ite (C.visitUnknownCall_agrees hv id args)
    apply C.seq (C.argumentTypes_agrees hv args)
    intro types
    apply C.seq
    · apply C.mapM
      intro m
      exact C.bindCall_agrees m.toList types
    · intro bindings
      exact C.applyBinding_agrees hv id _ args
  apply C.seq (hv.value receiver .read)
  intro object
  apply C.ite
  · exact C.seq (C.pure rfl) hmethods
  · exact C.bind C.getTable fun _ _ ht => C.seq (C.classes ht object) hmethods

theorem resolveClass_agrees (cls : ClassRef) :
    C.Agrees (resolveClass env v cls) (resolveClass (env.against p) v' cls) := by
  cases cls with
  | named cls => exact C.pure rfl
  | selfClass => exact C.seq C.selfClass?_agrees fun _ => C.pure rfl
  | parent => exact C.seq C.parentClass?_agrees fun _ => C.pure rfl
  | lateStatic =>
      apply C.seq (C.note .lateStaticBinding)
      intro _
      exact C.seq C.selfClass?_agrees fun _ => C.pure rfl
  | dynamic e => exact C.seq (hv.read e) fun _ => C.pure rfl

theorem visitStaticCall_agrees (id : ExprId) (cls : ClassRef) (method : String)
    (args : List Argument) :
    C.Agrees (visitStaticCall env v id cls method args)
      (visitStaticCall (env.against p) v' id cls method args) := by
  have hdecls : (env.against p).decls = env.decls := rfl
  apply C.seq (C.resolveClass_agrees hv cls)
  intro cls?
  rw [hdecls]
  cases cls?.bind fun found => env.decls.method? found.1 method with
  | none => exact C.visitUnknownCall_agrees hv id args
  | some r => exact C.visitKnownCall_agrees hv id [r] args

theorem visitConstructor_agrees (id : ExprId) (cls : Name) (args : List Argument) :
    C.Agrees (visitConstructor env v id cls args)
      (visitConstructor (env.against p) v' id cls args) := by
  have hdecls : (env.against p).decls = env.decls := rfl
  rw [visitConstructor, visitConstructor, hdecls]
  cases env.decls.method? cls "__construct" with
  | none => exact hv.readAll (args.map Argument.value)
  | some r =>
      apply C.seq (C.argumentTypes_agrees hv args)
      intro types
      apply C.seq (C.bindCall_agrees [r] types)
      intro binding
      exact C.skip (C.passArguments_agrees hv id binding args)

theorem visitNew_agrees (id : ExprId) (cls : ClassRef) (args : List Argument) :
    C.Agrees (visitNew env v id cls args) (visitNew (env.against p) v' id cls args) := by
  apply C.seq (C.resolveClass_agrees hv cls)
  intro cls?
  cases cls? with
  | none => exact C.skip (C.visitUnknownCall_agrees hv id args)
  | some found =>
      apply C.seq (C.visitConstructor_agrees hv id found.1 args)
      intro _
      exact C.onTable (.instanceOf _ _)

/-! ### Expressions -/

theorem visitLogical_agrees (op : LogicalOp) (left right : ExprId) (branch : Branch) :
    C.Agrees (visitLogical v op left right branch) (visitLogical v' op left right branch) := by
  by_cases hbranch : branch = if op = .and then .holds else .fails
  · rw [visitLogical, visitLogical, if_pos hbranch, if_pos hbranch]
    exact C.seq (hv.condition left _) fun _ => C.skip (hv.condition right branch)
  · rw [visitLogical_eq v op left right hbranch, visitLogical_eq v' op left right hbranch]
    apply C.skip (C.both_agrees _ (hv.condition left _))
    exact C.seq (hv.condition left _) fun _ => hv.condition right branch

theorem visitTernary_agrees (cond : ExprId) (ifTrue? : Option ExprId) (ifFalse : ExprId) :
    C.Agrees (visitTernary v cond ifTrue? ifFalse) (visitTernary v' cond ifTrue? ifFalse) := by
  have hthen : C.Agrees (visitThen v cond ifTrue?) (visitThen v' cond ifTrue?) := by
    apply C.seq (hv.condition cond .holds)
    intro m
    cases ifTrue? with
    | some e => exact hv.value e .read
    | none => exact C.pure rfl
  have helse : C.Agrees (visitElse v cond ifFalse) (visitElse v' cond ifFalse) :=
    C.seq (hv.condition cond .fails) fun _ => hv.value ifFalse .read
  rw [visitTernary_eq, visitTernary_eq]
  exact C.seq (C.both_agrees hthen helse) fun _ => C.pure rfl

theorem visitArray_agrees (items : List ArrayItem) :
    C.Agrees (visitArray v items) (visitArray v' items) := by
  have hitem (elem : Mask) (item : ArrayItem) :
      C.Agrees (visitArrayItem v elem item) (visitArrayItem v' elem item) := by
    apply C.seq (C.optionForM hv.read item.key?)
    intro _
    apply C.seq (hv.value item.value _)
    intro m
    exact C.ite (C.elementMask_bind m fun _ => C.pure rfl) (C.pure rfl)
  exact C.seq (C.foldlM hitem items .empty) fun elem => C.onTable (.arrayOf elem)

theorem visitList_agrees (items : List (Option ExprId)) (access : Access) :
    C.Agrees (visitList v items access) (visitList v' items access) := by
  cases access with
  | write m =>
      apply C.elementMask_bind m
      intro elem
      apply C.seq
      · apply C.forM
        intro e _
        exact C.skip (hv.value e (.write elem))
      · intro _
        exact C.pure rfl
  | read | peek | share => exact C.seq (hv.readAll _) fun _ => C.onTable .anyArray

theorem visitAssign_agrees (target value : ExprId) :
    C.Agrees (visitAssign env v target value) (visitAssign (env.against p) v' target value) := by
  apply C.seq (hv.value value .read)
  intro m
  apply C.seq (hv.value target _)
  intro _
  apply C.expr_bind target
  intro x _
  apply C.expr_bind value
  intro y _
  split
  · exact C.seq (C.change (.setBelowMax _ _)) fun _ => C.pure rfl
  · exact C.pure rfl

theorem visitCompound_agrees (op : BinaryOp) (target value : ExprId) :
    C.Agrees (visitCompound env v op target value)
      (visitCompound (env.against p) v' op target value) := by
  apply C.seq (hv.value target .read)
  intro current
  apply C.seq (hv.value value .read)
  intro operand
  have hrest (bounded : Bool) : C.Agrees
      (do
        let result ← Visit.onTable (Operator.binaryResult op current operand bounded)
        let _ ← v.value target (.write result)
        return result)
      (do
        let result ← Visit.onTable (Operator.binaryResult op current operand bounded)
        let _ ← v'.value target (.write result)
        return result) := by
    apply C.seq (C.onTable (.binaryResult op current operand bounded))
    intro result
    exact C.skip (hv.value target (.write result))
  apply C.ite
  · exact C.seq (C.isBoundedStep_agrees target value) hrest
  · exact C.seq (C.pure rfl) hrest

theorem visitIncDec_agrees (target : ExprId) (increment yieldsNew : Bool) :
    C.Agrees (visitIncDec env v target increment yieldsNew)
      (visitIncDec (env.against p) v' target increment yieldsNew) := by
  apply C.seq (hv.value target .read)
  intro current
  have hrest (bounded : Bool) : C.Agrees
      (do
        let updated ← Operator.stepResult (← Visit.getTable) current increment bounded
        let _ ← v.value target (.write updated)
        return if yieldsNew then updated else current)
      (do
        let updated ← Operator.stepResult (← Visit.getTable) current increment bounded
        let _ ← v'.value target (.write updated)
        return if yieldsNew then updated else current) := by
    apply C.bind C.getTable
    intro t t' ht
    apply C.seq (C.stepResult ht current increment bounded)
    intro updated
    exact C.skip (hv.value target (.write updated))
  apply C.ite
  · exact C.seq (C.isBoundedCounter_agrees target) hrest
  · exact C.seq (C.pure rfl) hrest

theorem visitBinary_agrees (op : BinaryOp) (left right : ExprId) :
    C.Agrees (visitBinary env v op left right) (visitBinary (env.against p) v' op left right) := by
  apply C.seq (hv.value left .read)
  intro leftMask
  apply C.seq (hv.value right .read)
  intro rightMask
  have hrest (bounded : Bool) :
      C.Agrees (Visit.onTable (Operator.binaryResult op leftMask rightMask bounded))
        (Visit.onTable (Operator.binaryResult op leftMask rightMask bounded)) :=
    C.onTable (.binaryResult op leftMask rightMask bounded)
  apply C.ite
  · apply C.seq (C.isBoundedStep_agrees left right)
    intro bounded
    apply C.ite
    · exact C.seq (C.pure rfl) hrest
    · exact C.seq (C.isBoundedStep_agrees right left) hrest
  · exact C.seq (C.pure rfl) hrest

theorem visitCoalesce_agrees (left right : ExprId) :
    C.Agrees (visitCoalesce v left right) (visitCoalesce v' left right) := by
  apply C.seq (hv.value left .peek)
  intro leftMask
  apply C.bind C.getState
  intro skipped skipped' hskipped
  apply C.seq (hv.value right .read)
  intro rightMask
  exact C.seq (C.joinState_agrees hskipped) fun _ => C.pure rfl

theorem writeItem_agrees (array : ExprId) (value : Mask) :
    C.Agrees (writeItem env v array value) (writeItem (env.against p) v' array value) := by
  apply C.seq (C.peek_agrees array)
  intro container
  apply C.seq (C.onTable (.storeInMask container value))
  intro rebuilt
  exact C.skip (hv.value array (.write rebuilt))

theorem visitItem_agrees (array : ExprId) (index? : Option ExprId) (access : Access) :
    C.Agrees (visitItem env v array index? access)
      (visitItem (env.against p) v' array index? access) := by
  apply C.seq (C.optionForM hv.read index?)
  intro _
  cases access with
  | write m => exact C.skip (C.writeItem_agrees hv array m)
  | share => exact C.skip (C.writeItem_agrees hv array sharedMask)
  | read | peek =>
      apply C.seq (hv.value array _)
      intro container
      exact C.elementMask_bind container fun _ => C.pure rfl

theorem visitField_agrees (object : ExprId) (field : String) (access : Access) :
    C.Agrees (visitField env v object field access)
      (visitField (env.against p) v' object field access) := by
  apply C.seq (hv.value object .read)
  intro receiver
  cases access with
  | write m => exact C.pure rfl
  | share => exact C.pure rfl
  | read | peek => exact C.objectFieldMask_agrees receiver field

theorem visitStaticField_agrees (cls : ClassRef) (field : String) (access : Access) :
    C.Agrees (visitStaticField env v cls field access)
      (visitStaticField (env.against p) v' cls field access) := by
  apply C.seq (C.resolveClass_agrees hv cls)
  intro resolved
  cases access with
  | write m => exact C.pure rfl
  | share => exact C.pure rfl
  | read | peek =>
      cases resolved with
      | some found => exact C.fieldMask_agrees found.1 field
      | none => exact C.pure rfl

theorem visitForeignCode_agrees (operand : ExprId) :
    C.Agrees (visitForeignCode v operand) (visitForeignCode v' operand) := by
  apply C.seq (hv.read operand)
  intro _
  apply C.seq (C.forgetAll true)
  intro _
  exact C.seq (C.note .dynamicLocals) fun _ => C.pure rfl

theorem visitVarVar_agrees (name : ExprId) (access : Access) :
    C.Agrees (visitVarVar v name access) (visitVarVar v' name access) := by
  apply C.seq (hv.read name)
  intro _
  have hmark : C.Agrees (do updateFacts (·.markDynamicLocals); return Mask.top)
      (do updateFacts (·.markDynamicLocals); return Mask.top) :=
    C.seq (C.note .dynamicLocals) fun _ => C.pure rfl
  exact C.ite (C.seq (C.forgetAll true) fun _ => hmark) hmark

theorem visitYield_agrees (operands : List ExprId) :
    C.Agrees (visitYield v operands) (visitYield v' operands) := by
  apply C.seq (hv.readAll operands)
  intro _
  exact C.seq (C.note .generator) fun _ => C.pure rfl

/-- Every form of expression is visited alike if its sub-expressions are. -/
theorem visitForm_agrees (id : ExprId) (access : Access) (x : Expr) :
    C.Agrees (visitForm env v id access x) (visitForm (env.against p) v' id access x) := by
  cases x with
  | literal l => exact C.pure rfl
  | var x => exact C.visitVar_agrees id x access
  | varVar name => exact C.visitVarVar_agrees hv name access
  | assign target value => exact C.visitAssign_agrees hv target value
  | assignRef target value =>
      exact C.seq (hv.value value .share) fun _ => C.skip (hv.value target .share)
  | compound op target value => exact C.visitCompound_agrees hv op target value
  | incDec target increment yieldsNew => exact C.visitIncDec_agrees hv target increment yieldsNew
  | binary op left right => exact C.visitBinary_agrees hv op left right
  | logical op left right => exact C.visitLogical_agrees hv op left right .either
  | unary op operand =>
      exact C.seq (hv.value operand .read) fun m => C.onTable (.unaryResult op m)
  | ternary cond ifTrue? ifFalse => exact C.visitTernary_agrees hv cond ifTrue? ifFalse
  | coalesce left right => exact C.visitCoalesce_agrees hv left right
  | array items => exact C.visitArray_agrees hv items
  | list items => exact C.visitList_agrees hv items access
  | item array index? => exact C.visitItem_agrees hv array index? access
  | field object field => exact C.visitField_agrees hv object field access
  | staticField cls field => exact C.visitStaticField_agrees hv cls field access
  | isInstance operand cls =>
      exact C.seq (hv.read operand) fun _ => C.skip (C.resolveClass_agrees hv cls)
  | isset operands =>
      apply C.seq (C.forM fun e _ => C.skip (hv.value e .peek))
      exact fun _ => C.pure rfl
  | isBlank operand => exact C.skip (hv.value operand .peek)
  | call name args => exact C.visitCall_agrees hv id name args
  | dynamicCall callee args =>
      exact C.seq (hv.read callee) fun _ => C.visitUnknownCall_agrees hv id args
  | methodCall receiver name args => exact C.visitMethodCall_agrees hv id receiver name args
  | staticCall cls name args => exact C.visitStaticCall_agrees hv id cls name args
  | new cls args => exact C.visitNew_agrees hv id cls args
  | closure _ captures => exact C.visitClosure_agrees captures
  | eval code => exact C.visitForeignCode_agrees hv code
  | load path => exact C.visitForeignCode_agrees hv path
  | yield key? value? => exact C.visitYield_agrees hv _
  | yieldFrom source => exact C.visitYield_agrees hv [source]
  | constant name => exact C.pure rfl

theorem visitValue_agrees (id : ExprId) (access : Access) :
    C.Agrees (visitValue env v id access) (visitValue (env.against p) v' id access) := by
  apply C.expr_bind id
  intro x _
  apply C.seq (C.visitForm_agrees hv id access x)
  intro m
  exact C.seq (C.record id m) fun _ => C.pure rfl

omit hv

/-- Narrowing by an order goes together once the comparison has been visited. An order is the one
condition by which narrowing reads a recorded mask. -/
def Orders (v v' : Visitor) (id : ExprId) : Prop :=
  ∀ op left right, env.body.exprs[id]? = some (.binary op left right) → op = .less ∨ op = .greater →
    ∀ holds, C.Agrees
      (do let m ← visitValue env v id .read; narrow env id holds; return m)
      (do let m ← visitValue (env.against p) v' id .read; narrow (env.against p) id holds; return m)

/-- If the recorded masks are read alike, so are the bounds of an order. -/
theorem orders_of_masks (hv : C.Visitors v v')
    (hmasks : C.Relates (fun f f' => ∀ e, f.exprMask e = f'.exprMask e) getFacts getFacts)
    (id : ExprId) : C.Orders v v' id := by
  intro op left right _ _ holds
  apply C.seq (C.visitValue_agrees hv id .read)
  intro m
  apply C.skip
  apply C.narrow_agrees
  intro op left right _
  apply C.narrowCompared_agrees
  intro counter bound _ _ _
  apply C.seq (C.varOf?_agrees counter)
  intro x?
  cases x? with
  | none => exact C.pure rfl
  | some x =>
      apply C.seq (C.varMask_agrees x)
      intro m
      apply C.bind hmasks
      intro f f' hsame
      rw [hsame bound]
      exact C.ite (C.change (.setBelowMax x true)) (C.pure rfl)

theorem visitCondition_agrees (hv : C.Visitors v v') (id : ExprId) (horders : C.Orders v v' id)
    (branch : Branch) :
    C.Agrees (visitCondition env v id branch) (visitCondition (env.against p) v' id branch) := by
  apply C.ite (C.visitValue_agrees hv id .read)
  apply C.expr_bind id
  intro x hx
  split
  · apply C.seq (C.visitLogical_agrees hv _ _ _ branch)
    intro m
    exact C.seq (C.record id m) fun _ => C.pure rfl
  · apply C.seq (hv.condition _ branch.flip)
    intro _
    exact C.seq (C.record id .bool) fun _ => C.pure rfl
  · by_cases horder : ∃ op left right, x = .binary op left right ∧ (op = .less ∨ op = .greater)
    · obtain ⟨op, left, right, rfl, hop⟩ := horder
      exact horders op left right hx hop _
    · apply C.seq (C.visitValue_agrees hv id .read)
      intro m
      apply C.skip
      apply C.narrow_agrees
      intro op left right hbinary
      apply C.narrowCompared_agrees
      intro _ _ _ _ hop
      cases hx.symm.trans hbinary
      exact absurd ⟨op, left, right, rfl, hop⟩ horder

/-- The visitors of the two settings go together, if narrowing by an order does. -/
theorem visitor_agrees (horders : ∀ limit id,
      C.Visitors (visitorBelow env limit) (visitorBelow (env.against p) limit) →
        C.Orders ((visitorBelow env limit).below id)
          ((visitorBelow (env.against p) limit).below id) id) :
    C.Visitors (visitor env) (visitor (env.against p)) := by
  have hbelow (limit : Nat) :
      C.Visitors (visitorBelow env limit) (visitorBelow (env.against p) limit) := by
    induction limit with
    | zero => exact ⟨fun _ _ => C.throw _, fun _ _ => C.throw _⟩
    | succ limit ih =>
        constructor
        · intro id access
          exact C.visitValue_agrees (ih.below id) id access
        · intro id branch
          exact C.visitCondition_agrees (ih.below id) id (horders limit id ih) branch
  exact hbelow _

end Setting.Comparison

end FlowTyping
