import FlowTyping.Proofs.Visit.Block
import FlowTyping.Proofs.Visit.Dispatch

/-!
# A visit to a block goes through its expressions

Every run of a visit binds just the calls in the expressions of the block, whatever the state of the
variables is. Main statements: `visitForm_binds`, `visitor_binding` and `visitBlock_binds`.
-/

namespace FlowTyping

open Visit

variable {env : Setting} {v : Visitor} {s s' : Scene}

/-! ### Forms of expressions -/

/-- What is left to do once the operands of a binary operator are visited. -/
theorem binaryResult_quiet (env : Setting) (op : BinaryOp) (left right : ExprId)
    (leftMask rightMask : Mask) : Quiet (do
      let bounded ←
        if op = .add then
          if ← isBoundedStep env left right then pure true else isBoundedStep env right left
        else pure false
      onTable (Operator.binaryResult op leftMask rightMask bounded)) := by
  have hresult (bounded : Bool) : Quiet
    (onTable (Operator.binaryResult op leftMask rightMask bounded)) :=
    onTable_quiet (Operator.binaryResult_adds op leftMask rightMask bounded)
  apply Quiet.ite
  · apply Quiet.bind (isBoundedStep_quiet env left right)
    intro isLeft
    exact .ite (hresult true) (.bind (isBoundedStep_quiet env right left) hresult)
  · exact hresult false

section Forms

variable (hv : v.Binding env) (hs : s.Of env.body)

include hv hs

theorem visitVarVar_binds (name : ExprId) (access : Access) :
    Binds env [name] (visitVarVar v name access) s fun _ _ => True := by
  apply Binds.bind_quiet (hv.read name hs)
  intro _
  have hmark : Quiet (updateFacts (·.markDynamicLocals) >>= fun _ => pure .top : Visit Mask) :=
    .bind markDynamicLocals_quiet fun _ => .pure _
  exact .ite (.bind (forgetAll_quiet true) fun _ => hmark) hmark

theorem visitAssign_binds (target value : ExprId) :
    Binds env [value, target] (visitAssign env v target value) s fun _ _ => True := by
  apply Binds.bind hs (hv.value value .read hs)
  intro m s₁ _ hs₁ _
  apply Binds.bind_quiet (hv.value target _ hs₁)
  intro _
  apply Quiet.bind (env.expr_quiet target)
  intro x
  apply Quiet.bind (env.expr_quiet value)
  intro y
  split
  · exact .bind (updateState_quiet _) fun _ => .pure _
  · exact .pure _

theorem visitCompound_binds (op : BinaryOp) (target value : ExprId) :
    Binds env [value, target] (visitCompound env v op target value) s fun _ _ => True := by
  have hbinds : Binds env ([target] ++ ([value] ++ [target]))
    (visitCompound env v op target value) s
      fun _ _ => True := by
    apply Binds.bind hs (hv.value target .read hs)
    intro current s₁ _ hs₁ _
    apply Binds.bind hs₁ (hv.value value .read hs₁)
    intro operand s₂ _ hs₂ _
    have hwrite {s₃ : Scene} (hs₃ : s₃.Of env.body) (bounded : Bool) : Binds env [target]
        (do
          let result ← onTable (Operator.binaryResult op current operand bounded)
          let _ ← v.value target (.write result)
          return result) s₃ fun _ _ => True := by
      apply Binds.quiet_bind hs₃
        (onTable_quiet (Operator.binaryResult_adds op current operand bounded))
      intro result s₄ hs₄
      exact .bind_quiet (hv.value target _ hs₄) fun _ => .pure _
    apply Binds.ite
    · intro _
      apply Binds.quiet_bind hs₂ (isBoundedStep_quiet env target value)
      intro bounded s₃ hs₃
      exact hwrite hs₃ bounded
    · intro _
      exact hwrite hs₂ false
  apply hbinds.congr
  intro e
  simp only [List.cons_append, List.nil_append, List.mem_cons, List.not_mem_nil, or_false]
  tauto

theorem visitIncDec_binds (target : ExprId) (increment yieldsNew : Bool) :
    Binds env [target] (visitIncDec env v target increment yieldsNew) s fun _ _ => True := by
  have hbinds : Binds env ([target] ++ [target]) (visitIncDec env v target increment yieldsNew) s
      fun _ _ => True := by
    apply Binds.bind hs (hv.value target .read hs)
    intro current s₁ _ hs₁ _
    have hwrite {s₂ : Scene} (hs₂ : s₂.Of env.body) (bounded : Bool) : Binds env [target]
        (do
          let updated ← Operator.stepResult (← getTable) current increment bounded
          let _ ← v.value target (.write updated)
          return if yieldsNew then updated else current) s₂ fun _ _ => True := by
      apply Binds.quiet_bind hs₂ getTable_quiet
      intro t s₃ hs₃
      apply Binds.quiet_bind hs₃ (.lift _)
      intro updated s₄ hs₄
      exact .bind_quiet (hv.value target _ hs₄) fun _ => .pure _
    apply Binds.ite
    · intro _
      apply Binds.quiet_bind hs₁ (isBoundedCounter_quiet env target)
      intro bounded s₂ hs₂
      exact hwrite hs₂ bounded
    · intro _
      exact hwrite hs₁ false
  apply hbinds.congr
  intro e
  simp only [List.cons_append, List.nil_append, List.mem_cons, List.not_mem_nil, or_false, or_self]

theorem visitBinary_binds (op : BinaryOp) (left right : ExprId) :
    Binds env [left, right] (visitBinary env v op left right) s fun _ _ => True := by
  apply Binds.bind hs (hv.value left .read hs)
  intro leftMask s₁ _ hs₁ _
  apply Binds.bind_quiet (hv.value right .read hs₁)
  intro rightMask
  exact binaryResult_quiet env op left right leftMask rightMask

/-- Both operands are visited, whatever outcome is assumed. -/
theorem visitLogical_binds (op : LogicalOp) (left right : ExprId) (branch : Branch) :
    Binds env [left, right] (visitLogical v op left right branch) s fun _ _ => True := by
  apply Binds.ite
  · intro _
    apply Binds.bind hs (hv.condition left _ hs)
    intro _ s₁ _ hs₁ _
    exact .bind_quiet (hv.condition right branch hs₁) fun _ => .pure _
  · intro _
    have hbinds : Binds env ([left] ++ ([right] ++ [left]))
        (do
          let before ← getState
          let _ ← v.condition left (if op = .and then .holds else .fails)
          let _ ← v.condition right branch
          let evaluated ← swapState before
          let _ ← v.condition left (Branch.flip (if op = .and then .holds else .fails))
          joinState evaluated
          return Mask.bool) s fun _ _ => True := by
      apply Binds.quiet_bind hs getState_quiet
      intro before s₁ hs₁
      apply Binds.bind hs₁ (hv.condition left _ hs₁)
      intro _ s₂ _ hs₂ _
      apply Binds.bind hs₂ (hv.condition right branch hs₂)
      intro _ s₃ _ hs₃ _
      apply Binds.quiet_bind hs₃ (swapState_quiet before)
      intro evaluated s₄ hs₄
      apply Binds.bind_quiet (hv.condition left _ hs₄)
      intro _
      exact .bind (joinState_quiet evaluated) fun _ => .pure _
    apply hbinds.congr
    intro e
    simp only [List.cons_append, List.nil_append, List.mem_cons, List.not_mem_nil, or_false]
    tauto

theorem visitThen_binds (cond : ExprId) (ifTrue? : Option ExprId) :
    Binds env (cond :: ifTrue?.toList) (visitThen v cond ifTrue?) s fun _ _ => True := by
  apply Binds.bind hs (hv.condition cond .holds hs)
  intro m s₁ _ hs₁ _
  cases ifTrue? with
  | none => exact .of_quiet env (.pure _) s₁
  | some e => exact (hv.value e .read hs₁).any

theorem visitElse_binds (cond ifFalse : ExprId) :
    Binds env [cond, ifFalse] (visitElse v cond ifFalse) s fun _ _ => True := by
  apply Binds.bind hs (hv.condition cond .fails hs)
  intro _ s₁ _ hs₁ _
  exact (hv.value ifFalse .read hs₁).any

theorem visitTernary_binds (cond : ExprId) (ifTrue? : Option ExprId) (ifFalse : ExprId) :
    Binds env (cond :: ifTrue?.toList ++ [ifFalse]) (visitTernary v cond ifTrue? ifFalse) s
      fun _ _ => True := by
  have hbinds : Binds env (cond :: ifTrue?.toList ++ [cond, ifFalse])
      (visitTernary v cond ifTrue? ifFalse) s fun _ _ => True := by
    rw [visitTernary_eq]
    apply Binds.bind_quiet _ fun _ => .pure _
    · exact fun _ _ => True
    apply Binds.quiet_bind hs getState_quiet
    intro before s₁ hs₁
    apply Binds.bind hs₁ (visitThen_binds hv hs₁ cond ifTrue?)
    intro a s₂ _ hs₂ _
    apply Binds.quiet_bind hs₂ (swapState_quiet before)
    intro after s₃ hs₃
    apply Binds.bind_quiet (visitElse_binds hv hs₃ cond ifFalse)
    intro b
    exact .bind (joinState_quiet after) fun _ => .pure _
  apply hbinds.congr
  intro e
  simp only [List.mem_append, List.mem_cons, List.not_mem_nil, or_false]
  tauto

theorem visitCoalesce_binds (left right : ExprId) :
    Binds env [left, right] (visitCoalesce v left right) s fun _ _ => True := by
  apply Binds.bind hs (hv.value left .peek hs)
  intro leftMask s₁ _ hs₁ _
  apply Binds.quiet_bind hs₁ getState_quiet
  intro skipped s₂ hs₂
  apply Binds.bind_quiet (hv.value right .read hs₂)
  intro rightMask
  exact .bind (joinState_quiet skipped) fun _ => .pure _

theorem visitArray_binds (items : List ArrayItem) :
    Binds env (items.flatMap fun item => item.key?.toList ++ [item.value]) (visitArray v items) s
      fun _ _ => True := by
  apply Binds.bind_quiet _ fun elem => onTable_quiet (KindTable.arrayOf_adds elem)
  · exact fun _ _ => True
  apply Binds.foldlM _ _ _ hs
  intro item _ elem s₁ hs₁
  apply Binds.bind hs₁ (hv.readOption item.key? hs₁)
  intro _ s₂ _ hs₂ _
  apply Binds.bind_quiet (hv.value item.value _ hs₂)
  intro m
  exact .ite (.bind getTable_quiet fun _ => .bind (.lift _) fun _ => .pure _) (.pure _)

theorem visitList_binds (items : List (Option ExprId)) (access : Access) :
    Binds env (items.filterMap id) (visitList v items access) s fun _ _ => True := by
  have harray : Binds env (items.filterMap id)
      (v.readAll (items.filterMap id) >>= fun _ => onTable KindTable.anyArray) s fun _ _ => True :=
    .bind_quiet (hv.readAll _ hs) fun _ => onTable_quiet KindTable.anyArray_adds
  cases access with
  | write m =>
      apply Binds.quiet_bind hs getTable_quiet
      intro t s₁ hs₁
      apply Binds.quiet_bind hs₁ (.lift _)
      intro elem s₂ hs₂
      apply Binds.bind_quiet _ fun _ => .pure m
      · exact fun _ _ => True
      have hloop : Binds env ((items.filterMap id).flatMap fun e => [e])
          ((items.filterMap id).forM fun e => do let _ ← v.value e (.write elem)) s₂
          fun _ _ => True := by
        apply Binds.forM _ _ hs₂
        intro e _ s₃ hs₃
        exact .bind_quiet (hv.value e _ hs₃) fun _ => .pure _
      rwa [List.flatMap_singleton'] at hloop
  | read => exact harray
  | peek => exact harray
  | share => exact harray

theorem visitItem_binds (array : ExprId) (index? : Option ExprId) (access : Access) :
    Binds env (array :: index?.toList) (visitItem env v array index? access) s fun _ _ => True := by
  have hwrite {s₁ : Scene} (hs₁ : s₁.Of env.body) (m : Mask) :
      Binds env [array] (writeItem env v array m) s₁ fun _ _ => True := by
    apply Binds.quiet_bind hs₁ (peek_quiet env array)
    intro container s₂ hs₂
    apply Binds.quiet_bind hs₂ (onTable_quiet (storeInMask_adds container m))
    intro rebuilt s₃ hs₃
    exact .bind_quiet (hv.value array _ hs₃) fun _ => .pure _
  have hbinds : Binds env (index?.toList ++ [array]) (visitItem env v array index? access) s
      fun _ _ => True := by
    apply Binds.bind hs (hv.readOption index? hs)
    intro _ s₁ _ hs₁ _
    cases access with
    | write m => exact .bind_quiet (hwrite hs₁ m) fun _ => .pure _
    | share => exact .bind_quiet (hwrite hs₁ sharedMask) fun _ => .pure _
    | read | peek =>
        apply Binds.bind_quiet (hv.value array _ hs₁)
        intro container
        exact .bind getTable_quiet fun _ => .bind (.lift _) fun _ => .pure _
  apply hbinds.congr
  intro e
  rw [List.mem_append, List.mem_singleton, List.mem_cons, or_comm]

theorem visitField_binds (object : ExprId) (field : String) (access : Access) :
    Binds env [object] (visitField env v object field access) s fun _ _ => True := by
  apply Binds.bind_quiet (hv.value object .read hs)
  intro receiver
  cases access with
  | write m => exact .pure _
  | share => exact .pure _
  | read | peek => exact objectFieldMask_quiet env receiver field

theorem visitStaticField_binds (cls : ClassRef) (field : String) (access : Access) :
    Binds env cls.expr?.toList (visitStaticField env v cls field access) s fun _ _ => True := by
  apply Binds.bind_quiet (resolveClass_binds hv hs cls)
  intro resolved
  cases access with
  | write m => exact .pure _
  | share => exact .pure _
  | read | peek =>
      cases resolved with
      | none => exact .pure _
      | some found => exact fieldMask_quiet env found.1 field

theorem visitForeignCode_binds (operand : ExprId) :
    Binds env [operand] (visitForeignCode v operand) s fun _ _ => True := by
  apply Binds.bind_quiet (hv.read operand hs)
  intro _
  apply Quiet.bind (forgetAll_quiet true)
  intro _
  exact .bind markDynamicLocals_quiet fun _ => .pure _

theorem visitYield_binds (operands : List ExprId) :
    Binds env operands (visitYield v operands) s fun _ _ => True := by
  apply Binds.bind_quiet (hv.readAll operands hs)
  intro _
  have hmark : Quiet (updateFacts (·.markGenerator)) :=
    updateFacts_quiet (fun f => .generator f) (fun _ => rfl) fun _ => rfl
  exact .bind hmark fun _ => .pure _

end Forms

/-! ### Values and conditions -/

section Visitors

variable {id : ExprId} {x : Expr}

/-- An expression that is no call goes through its sub-expressions. -/
theorem visitForm_binds (hv : v.Binding env) (hs : s.Of env.body)
    (hx : env.body.exprs[id]? = some x) (hcall : x.isCall = false) (access : Access) :
    Binds env x.children (visitForm env v id access x) s fun _ _ => True := by
  have hid : ¬env.body.IsCall id := by
    rintro ⟨y, hy, hisCall⟩
    cases hx.symm.trans hy
    rw [hcall] at hisCall
    cases hisCall
  cases x with
  | literal l => exact .of_quiet env (.pure _) s
  | var x => exact .of_quiet env (visitVar_quiet id x access) s
  | varVar name => exact visitVarVar_binds hv hs name access
  | assign target value => exact visitAssign_binds hv hs target value
  | assignRef target value =>
      apply Binds.bind hs (hv.value value .share hs)
      intro _ s₁ _ hs₁ _
      exact .bind_quiet (hv.value target .share hs₁) fun _ => .pure _
  | compound op target value => exact visitCompound_binds hv hs op target value
  | incDec target increment yieldsNew => exact visitIncDec_binds hv hs target increment yieldsNew
  | binary op left right => exact visitBinary_binds hv hs op left right
  | logical op left right => exact visitLogical_binds hv hs op left right .either
  | unary op operand =>
      apply Binds.bind_quiet (hv.value operand .read hs)
      intro m
      exact onTable_quiet (Operator.unaryResult_adds op m)
  | ternary cond ifTrue? ifFalse => exact visitTernary_binds hv hs cond ifTrue? ifFalse
  | coalesce left right => exact visitCoalesce_binds hv hs left right
  | array items => exact visitArray_binds hv hs items
  | list items => exact visitList_binds hv hs items access
  | item array index? => exact visitItem_binds hv hs array index? access
  | field object field => exact visitField_binds hv hs object field access
  | staticField cls field => exact visitStaticField_binds hv hs cls field access
  | isInstance operand cls =>
      apply Binds.bind hs (hv.read operand hs)
      intro _ s₁ _ hs₁ _
      exact .bind_quiet (resolveClass_binds hv hs₁ cls) fun _ => .pure _
  | isset operands =>
      apply Binds.bind_quiet _ fun _ => .pure _
      · exact fun _ _ => True
      have hloop : Binds env (operands.flatMap fun e => [e])
          (operands.forM fun e => do let _ ← v.value e .peek) s fun _ _ => True := by
        apply Binds.forM _ _ hs
        intro e _ s₁ hs₁
        exact .bind_quiet (hv.value e .peek hs₁) fun _ => .pure _
      rwa [List.flatMap_singleton'] at hloop
  | isBlank operand => exact .bind_quiet (hv.value operand .peek hs) fun _ => .pure _
  | call name args => cases hcall
  | dynamicCall callee args =>
      apply Binds.bind hs (hv.read callee hs)
      intro _ s₁ _ hs₁ _
      exact (visitUnknownCall_calls hv hs₁ args).binds hid
  | methodCall receiver name args => cases hcall
  | staticCall cls name args => cases hcall
  | new cls args => exact visitNew_binds hid hv hs cls args
  | closure routine captures => exact .of_quiet env (visitClosure_quiet captures) s
  | eval code => exact visitForeignCode_binds hv hs code
  | load path => exact visitForeignCode_binds hv hs path
  | yield key? value? => exact visitYield_binds hv hs _
  | yieldFrom source => exact visitYield_binds hv hs _
  | constant name => exact .of_quiet env (.pure _) s

/-- A call goes through its sub-expressions and then notes its target. -/
theorem visitForm_calls (hv : v.Binding env) (hs : s.Of env.body) (hcall : x.isCall = true)
    (access : Access) :
    Calls env id x.children (visitForm env v id access x) s fun used m s' =>
      ∀ receiver method args, x = .methodCall receiver method args →
        ∃ object, s'.facts.exprMask receiver ∪ object = s'.facts.exprMask receiver ∧
          Dispatches env.decls s'.facts.table object method used.target m := by
  cases x with
  | call name args =>
      apply (visitCall_calls hv hs name args).mono
      intro _ _ _ _ _ receiver method args hx
      cases hx
  | methodCall receiver name args =>
      apply (visitMethodCall_calls hv hs receiver name args).mono
      rintro used m s' _ ⟨object, s₁, -, hobject, hdispatches⟩ _ _ _ hx
      cases hx
      exact ⟨object, hobject, hdispatches⟩
  | staticCall cls name args =>
      apply (visitStaticCall_calls hv hs cls name args).mono
      intro _ _ _ _ _ receiver method args hx
      cases hx
  | _ => cases hcall

theorem exprMask_record_self (hs : s.Of env.body) (hx : env.body.exprs[id]? = some x) (m : Mask) :
    (s.facts.record id m).exprMask id = s.facts.exprMask id ∪ m := by
  have hlt : id < s.facts.exprMasks.size := by
    rw [hs.size]
    exact (Array.getElem?_eq_some_iff.1 hx).1
  rw [Facts.exprMask_record, if_pos ⟨rfl, hlt⟩]

/-- Recording the mask of a call that was made completes it. -/
theorem Applies.rebinds {used : Binding} {m : Mask} (h : Applies env id used m s s')
    (hs : s.Of env.body) (hx : env.body.exprs[id]? = some x)
    (hdispatches : ∀ receiver method args, x = .methodCall receiver method args →
      ∃ object, s'.facts.exprMask receiver ∪ object = s'.facts.exprMask receiver ∧
        Dispatches env.decls s'.facts.table object method used.target m) :
    Rebinds env (· = id) s { s' with facts := s'.facts.record id m } := by
  have hkeeps : s'.Keeps { s' with facts := s'.facts.record id m } :=
    ⟨(Facts.Step.record s'.facts id m).keeps, rfl, Array.size_modify, fun _ _ href => href⟩
  have hsame : (s'.facts.record id m).callTargets = s'.facts.callTargets := rfl
  refine ⟨h.keeps.trans hkeeps, ?_, fun e _ he => ?_⟩
  · rintro e rfl y hy -
    cases hx.symm.trans hy
    refine ⟨used.target, by rw [hsame, h.target], ?_⟩
    rw [exprMask_record_self (h.keeps.of hs) hx]
    constructor
    · exact (h.answers _).mono hkeeps (.refl _)
    · intro receiver method args heq
      obtain ⟨object, hobject, hcall⟩ := hdispatches receiver method args heq
      exact ⟨object, hkeeps.facts.exprMask receiver object hobject,
        hcall.mono hkeeps.facts.table (.union_right _ m)⟩
  · rw [hsame]
    exact h.others e he

/-- Of an expression that is no call only the sub-expressions count. -/
theorem Visit.Binds.parent {α : Type} {y : Visit α} {P : α → Scene → Prop}
    (h : Binds env x.children y s P) (hx : env.body.exprs[id]? = some x)
    (hcall : x.isCall = false) : Binds env [id] y s P := by
  intro a s' hrun
  obtain ⟨hrebinds, hp⟩ := h a s' hrun
  refine ⟨⟨hrebinds.keeps, fun e he => ?_, fun e hcall he => ?_⟩, hp⟩
  · rcases (Body.parts_singleton hx).1 he with he | rfl
    · exact hrebinds.bound e he
    · intro z hz hisCall
      cases hx.symm.trans hz
      rw [hcall] at hisCall
      cases hisCall
  · exact hrebinds.others e hcall fun he' => he ((Body.parts_singleton hx).2 (Or.inl he'))

theorem Visit.Binds.record {α : Type} {y : Visit α} {P : α → Scene → Prop} (hs : s.Of env.body)
    (hx : env.body.exprs[id]? = some x) (h : Binds env [id] y s P) (f : α → Mask) :
    Binds env [id] (y >>= fun a => record id (f a) >>= fun _ => pure (f a)) s
      fun m s' => s'.facts.exprMask id ∪ m = s'.facts.exprMask id := by
  apply Binds.bind hs h
  intro a s₁ _ hs₁ _
  apply Binds.of_run env (.bind (record_quiet id (f a)) fun _ => .pure _)
  intro m s' hrun
  cases hrun
  dsimp only
  rw [exprMask_record_self hs₁ hx]
  exact Mask.union_absorb _ _

/-- A visit to an expression binds the calls in it, and its mask holds what was found. -/
theorem visitValue_binds (hv : v.Binding env) (hs : s.Of env.body) (id : ExprId) (access : Access) :
    Binds env [id] (visitValue env v id access) s
      fun m s' => s'.facts.exprMask id ∪ m = s'.facts.exprMask id := by
  apply Binds.expr_bind
  intro x hx
  cases hcall : x.isCall with
  | false => exact ((visitForm_binds hv hs hx hcall access).parent hx hcall).record hs hx fun m => m
  | true =>
      intro m s' hrun
      obtain ⟨m', s₁, hform, hrun⟩ := exists_of_run_bind hrun
      obtain ⟨u, s₂, hrecord, hrun⟩ := exists_of_run_bind hrun
      cases hrecord
      cases hrun
      obtain ⟨used, s₃, hrebinds, happlies, hdispatches⟩ :=
        visitForm_calls hv hs hcall access m s₁ hform
      have hs₃ := hrebinds.keeps.of hs
      constructor
      · apply (hrebinds.trans (happlies.rebinds hs₃ hx hdispatches)).congr
        intro e
        exact (Body.parts_singleton hx).symm
      · dsimp only
        rw [exprMask_record_self (happlies.keeps.of hs₃) hx]
        exact Mask.union_absorb _ _

/-- A condition binds the calls in it. -/
theorem visitCondition_binds (hv : v.Binding env) (hs : s.Of env.body) (id : ExprId)
    (branch : Branch) : Binds env [id] (visitCondition env v id branch) s fun _ _ => True := by
  apply Binds.ite
  · intro _
    exact (visitValue_binds hv hs id .read).any
  · intro _
    apply Binds.expr_bind
    intro x hx
    split
    · rename_i op left right
      exact (((visitLogical_binds hv hs op left right branch).parent hx rfl).record hs hx
        fun m => m).any
    · rename_i operand
      exact (((hv.condition operand branch.flip hs).parent hx rfl).record hs hx fun _ => .bool).any
    · apply Binds.bind_quiet (visitValue_binds hv hs id .read)
      intro m
      exact .bind (narrow_quiet env id _) fun _ => .pure _

theorem Visitor.Binding.below (hv : v.Binding env) (parent : ExprId) :
    (v.below parent).Binding env where
  value e access hs := .ite (fun _ => hv.value e access hs) fun _ => .throw _ _
  condition e branch hs := .ite (fun _ => hv.condition e branch hs) fun _ => .throw _ _

/-- The visitor below a limit binds calls. -/
theorem visitorBelow_binding (env : Setting) (limit : Nat) :
    (visitorBelow env limit).Binding env := by
  induction limit with
  | zero => exact ⟨fun _ _ _ => .throw _ _, fun _ _ _ => .throw _ _⟩
  | succ limit ih =>
      constructor
      · intro s e access hs
        exact visitValue_binds (ih.below e) hs e access
      · intro s e branch hs
        exact visitCondition_binds (ih.below e) hs e branch

theorem visitor_binding (env : Setting) : (visitor env).Binding env :=
  visitorBelow_binding env _

end Visitors

/-! ### Blocks -/

/-- The expressions that a visit to the end of a block goes through. A loop does not evaluate its
collection again. -/
def Edge.visited : Edge → List ExprId
  | .advance _ key? value _ _ _ => key?.toList ++ [value]
  | edge => edge.exprs

/-- The expressions that a visit to a block goes through. -/
def Block.visited (block : Block) : List ExprId :=
  block.actions.flatMap Action.exprs ++ block.edge.visited

theorem visitUnset_binds (e : ExprId) (hs : s.Of env.body) :
    Binds env [e] (visitUnset env e) s fun _ _ => True := by
  have hv := visitor_binding env
  apply Binds.expr_bind
  intro x hx
  split
  · apply Binds.parent _ hx rfl
    exact .of_quiet env (.bind (updateState_quiet _) fun _ => record_quiet e .null) s
  · rename_i array index?
    apply Binds.parent _ hx rfl
    have hbinds : Binds env (index?.toList ++ [array])
        (do
          index?.forM (visitor env).read
          let _ ← (visitor env).value array .peek) s fun _ _ => True := by
      apply Binds.bind hs (hv.readOption index? hs)
      intro _ s₁ _ hs₁ _
      exact .bind_quiet (hv.value array .peek hs₁) fun _ => .pure _
    apply hbinds.congr
    intro c
    rw [Expr.children, List.mem_append, List.mem_singleton, List.mem_cons, or_comm]
  · exact .bind_quiet (hv.value e .peek hs) fun _ => .pure _

/-- An action binds the calls in its expressions. -/
theorem visitAction_binds (a : Action) (hs : s.Of env.body) :
    Binds env a.exprs (visitAction env a) s fun _ _ => True := by
  have hv := visitor_binding env
  cases a with
  | eval e => exact hv.read e hs
  | echo es => exact hv.readAll es hs
  | unset es =>
      have hloop : Binds env (es.flatMap fun e => [e])
        (es.forM (visitUnset env)) s fun _ _ => True :=
        .forM _ (fun e _ s hs => visitUnset_binds e hs) hs
      rwa [List.flatMap_singleton'] at hloop
  | bindGlobals vars => exact .of_quiet env (.forM share_quiet vars) s
  | bindStatics vars =>
      have hloop : Binds env (vars.flatMap fun x => x.init?.toList) (vars.forM (visitStatic env)) s
          fun _ _ => True := by
        apply Binds.forM _ _ hs
        intro x _ s₁ hs₁
        exact .bind_quiet (hv.readOption x.init? hs₁) fun _ => share_quiet x.var
      apply hloop.congr
      intro e
      simp only [Action.exprs, List.mem_flatMap, List.mem_filterMap, Option.mem_toList]
  | bindException x? classes =>
      cases x? with
      | none => exact .of_quiet env (.pure _) s
      | some x =>
          apply Binds.of_quiet
          exact .bind (onTable_quiet (exceptionMask_adds classes)) fun _ => updateState_quiet _

theorem visitActions_binds (watched : Bool) (thrown? : Option State) (actions : List Action)
    (hs : s.Of env.body) :
    Binds env (actions.flatMap Action.exprs) (visitActions env watched thrown? actions) s
      fun _ _ => True := by
  induction actions generalizing s thrown? with
  | nil => exact .of_quiet env (.pure _) s
  | cons a rest ih =>
      rw [List.flatMap_cons]
      apply Binds.bind hs (visitAction_binds a hs)
      intro _ s₁ _ hs₁ _
      apply Binds.quiet_bind hs₁ (noteThrow_quiet watched thrown?)
      intro thrown? s₂ hs₂
      exact ih thrown? hs₂

theorem settle_binds {es : List ExprId} (watched : Bool) (thrown? : Option State)
    {exits : Visit (List (BlockId × State))} (h : Binds env es exits s fun _ _ => True) :
    Binds env es (settle watched thrown? exits) s fun _ _ => True :=
  .bind_quiet h fun _ => .bind (noteThrow_quiet watched thrown?) fun _ => .pure _

theorem visitBranchEdge_binds (watched : Bool) (thrown? : Option State) (cond : ExprId)
    (ifTrue ifFalse : BlockId) (hs : s.Of env.body) :
    Binds env [cond] (visitBranchEdge env watched thrown? cond ifTrue ifFalse) s
      fun _ _ => True := by
  have hv := visitor_binding env
  have hbinds : Binds env ([cond] ++ [cond])
      (visitBranchEdge env watched thrown? cond ifTrue ifFalse) s fun _ _ => True := by
    apply Binds.quiet_bind hs getState_quiet
    intro before s₁ hs₁
    apply Binds.bind hs₁ (hv.condition cond .holds hs₁)
    intro _ s₂ _ hs₂ _
    apply Binds.quiet_bind hs₂ (swapState_quiet before)
    intro trueState s₃ hs₃
    apply Binds.quiet_bind hs₃ (noteThrow_quiet watched thrown?)
    intro thrown? s₄ hs₄
    apply Binds.bind_quiet (hv.condition cond .fails hs₄)
    intro _
    apply Quiet.bind getState_quiet
    intro falseState
    exact .bind (noteThrow_quiet watched thrown?) fun _ => .pure _
  apply hbinds.congr
  intro e
  rw [List.mem_append, or_self]

theorem visitAdvance_binds (collection : ExprId) (key? : Option ExprId) (value : ExprId)
    (byRef : Bool) (body stop : BlockId) (hs : s.Of env.body) :
    Binds env (key?.toList ++ [value]) (visitAdvance env collection key? value byRef body stop) s
      fun _ _ => True := by
  have hv := visitor_binding env
  apply Binds.quiet_bind hs (exitTo_quiet [stop])
  intro done s₁ hs₁
  apply Binds.quiet_bind hs₁ getTable_quiet
  intro t s₂ hs₂
  apply Binds.quiet_bind hs₂ getFacts_quiet
  intro f s₃ hs₃
  apply Binds.quiet_bind hs₃ (.lift _)
  intro elem s₄ hs₄
  have hkey : Binds env (key?.toList.flatMap fun e => [e])
      (key?.forM fun key => do let _ ← (visitor env).value key (.write (.long ∪ .string))) s₄
      fun _ _ => True := by
    apply Binds.optionForM
    intro key _
    exact .bind_quiet (hv.value key _ hs₄) fun _ => .pure _
  rw [List.flatMap_singleton'] at hkey
  apply Binds.bind hs₄ hkey
  intro _ s₅ _ hs₅ _
  apply Binds.bind_quiet (hv.value value _ hs₅)
  intro _
  exact .bind (exitTo_quiet [body]) fun _ => .pure _

/-- An edge binds the calls in the expressions that it visits. -/
theorem visitEdge_binds (watched : Bool) (thrown? : Option State) (edge : Edge)
    (hs : s.Of env.body) :
    Binds env edge.visited (visitEdge env watched thrown? edge) s fun _ _ => True := by
  have hv := visitor_binding env
  cases edge with
  | goto target => exact settle_binds watched thrown? (.of_quiet env (exitTo_quiet _) s)
  | leave target => exact settle_binds watched thrown? (.of_quiet env (exitTo_quiet _) s)
  | branch cond ifTrue ifFalse => exact visitBranchEdge_binds watched thrown? cond ifTrue ifFalse hs
  | switch value arms stop =>
      apply settle_binds
      apply Binds.bind hs (hv.read value hs)
      intro _ s₁ _ hs₁ _
      exact .bind_quiet (hv.readAll _ hs₁) fun _ => exitTo_quiet _
  | protect body catches finally? stop =>
      exact settle_binds watched thrown? (.of_quiet env (exitTo_quiet _) s)
  | iterate collection byRef advance =>
      apply settle_binds
      apply Binds.expr_bind
      intro x _
      exact .bind_quiet (hv.value collection _ hs) fun _ => exitTo_quiet _
  | advance collection key? value byRef body stop =>
      exact settle_binds watched thrown?
        (visitAdvance_binds collection key? value byRef body stop hs)
  | ret value? =>
      apply settle_binds
      have hreturn (m : Mask) : Quiet (updateFacts (·.addReturn m) >>= fun _ =>
          (pure [] : Visit (List (BlockId × State)))) :=
        .bind (updateFacts_quiet (fun f => .addReturn f m) (fun _ => rfl) fun _ => rfl)
          fun _ => .pure _
      cases value? with
      | none => exact .of_quiet env (hreturn _) s
      | some e => exact .bind_quiet (hv.value e .read hs) hreturn
  | raise value =>
      apply settle_binds
      exact .bind_quiet (hv.read value hs) fun _ => .pure _
  | exit value? =>
      apply settle_binds
      exact .bind_quiet (hv.readOption value? hs) fun _ => .pure _

/-- Every visit to a block binds just the calls in the expressions it goes through. -/
theorem visitBlock_binds (block : Block) (hs : s.Of env.body) :
    Binds env block.visited (visitBlock env block) s fun _ _ => True := by
  apply Binds.quiet_bind hs (noteThrow_quiet _ none)
  intro thrown? s₁ hs₁
  apply Binds.bind hs₁ (visitActions_binds _ thrown? block.actions hs₁)
  intro thrown? s₂ _ hs₂ _
  exact visitEdge_binds _ thrown? block.edge hs₂

end FlowTyping
