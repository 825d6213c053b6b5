import FlowTyping.Proofs.Visit.Logic
import FlowTyping.Visit.Block

/-!
# Comparing two visits

Many properties of a visit compare it with another one that walks through the same code: from other
recorded masks, for the routine on its own, or, for an invariant, with nothing at all. A
`Setting.Comparison` is a relation between parts of two visits that is closed under sequences and
under the primitive operations of a visit. What is closed in this way relates whole visits: the walk
over the forms of expressions is made once, here and in the next two modules, and each property is
an instance.

This module treats the parts that visit no sub-expressions.
-/

namespace FlowTyping

/-- What a visit does to one variable, short of its removal. -/
inductive State.Change : (State → Except Fault State) → Prop
  | assign (v : VarId) (m : Mask) : Change (·.assign v m)
  | share (v : VarId) : Change (·.share v)
  | markAssigned (v : VarId) : Change (·.markAssigned v)
  | narrow (v : VarId) (m : Mask) : Change (·.narrow v m)
  | setBelowMax (v : VarId) (b : Bool) : Change (·.setBelowMax v b)

/-- Every change is made to the slot of a single variable. -/
theorem State.Change.exists_update {h : State → Except Fault State} (hh : State.Change h) :
    ∃ v f, h = (·.update v f) := by
  cases hh with
  | assign v m => exact ⟨v, _, rfl⟩
  | share v => exact ⟨v, _, rfl⟩
  | markAssigned v => exact ⟨v, _, rfl⟩
  | narrow v m => exact ⟨v, _, rfl⟩
  | setBelowMax v b => exact ⟨v, _, rfl⟩

/-- What a visit notes about the routine, besides the masks of its expressions. -/
inductive Facts.Note : (Facts → Facts) → Prop
  | unassignedRead (e : ExprId) : Note (·.markUnassignedRead e)
  | returned (m : Mask) : Note (·.addReturn m)
  | dynamicLocals : Note (·.markDynamicLocals)
  | lateStaticBinding : Note (·.markLateStaticBinding)
  | generator : Note (·.markGenerator)
  | callTarget (e : ExprId) (target : CallTarget) : Note (·.setCallTarget e target)
  | diagnostic (d : Diagnostic) : Note (·.report d)

theorem Facts.Note.routine {h : Facts → Facts} (hh : Facts.Note h) (f : Facts) :
    (h f).routine = f.routine := by
  cases hh <;> rfl

/-- What a visit asks the kind table of the routine. -/
inductive Setting.Asks (env : Setting) : {α : Type} → Typing α → Prop
  | hintMask (hint : Hint) : Asks env (KindTable.hintMask hint)
  | hintMask? (hint? : Option Hint) : Asks env (KindTable.hintMask? hint?)
  | arrayOf (elem : Mask) : Asks env (KindTable.arrayOf elem)
  | anyArray : Asks env KindTable.anyArray
  | instanceOf (cls : Name) (late : Bool) : Asks env (KindTable.instanceOf cls late)
  | binaryResult (op : BinaryOp) (left right : Mask) (bounded : Bool) :
      Asks env (Operator.binaryResult op left right bounded)
  | unaryResult (op : UnaryOp) (operand : Mask) : Asks env (Operator.unaryResult op operand)
  | storeInMask (container value : Mask) : Asks env (storeInMask container value)
  | testedMask (test : KindTest) (current : Mask) (holds : Bool) :
      Asks env (testedMask test current holds)
  | instanceMask (cls : Name) (current : Mask) (holds : Bool) :
      Asks env (instanceMask env.decls cls current holds)
  | resolve (candidates : List RoutineDecl) (types : List ArgumentType) (scope? : Option Name) :
      Asks env (Overload.resolve env.decls candidates types scope?)
  | builtinResult? (name : Name) : Asks env (builtinResult? name)
  | exceptionMask (classes : List Name) : Asks env (exceptionMask classes)

/-- Notes the block as waiting for a routine, and the routine as pending if it may still change. -/
def noteWaiting (env : Setting) (callee : RoutineId) : Visit Unit := do
  let scene ← get
  let own := scene.facts.routine
  let (unstable, agenda) := scene.agenda.await callee (own, env.block)
  let pending? :=
    if unstable && callee != own && scene.pending?.isNone then some callee else scene.pending?
  set { scene with agenda := agenda, pending? := pending? }

/-- A published result is read once the block is noted as waiting for it. -/
theorem routineResult_eq {env : Setting} {r : RoutineDecl} {summary : Summary}
    (hreturns : r.returns? = none) (hpublished : env.published.find? r.id = some summary) :
    routineResult env r =
      (do noteWaiting env r.id; Visit.onTable (KindTable.adopt summary)) := by
  rw [routineResult, hreturns, hpublished]
  rfl

/-- The result of a routine is declared, unknown, or read from what is published. -/
theorem routineResult_cases {env : Setting} {r : RoutineDecl} {P : Visit Mask → Prop}
    (hdeclared : ∀ hint, P (Visit.onTable (KindTable.hintMask hint))) (hunknown : P (pure .top))
    (hread : ∀ summary, P (do noteWaiting env r.id; Visit.onTable (KindTable.adopt summary))) :
    P (routineResult env r) := by
  cases hreturns : r.returns? with
  | some hint =>
      rw [routineResult, hreturns]
      exact hdeclared hint
  | none =>
      cases hpublished : env.published.find? r.id with
      | none =>
          rw [routineResult, hreturns, hpublished]
          exact hunknown
      | some summary =>
          rw [routineResult_eq hreturns hpublished]
          exact hread summary

theorem KindTable.self?_congr {t t' : KindTable} (h : t = t') : t.self? = t'.self? :=
  congrArg self? h

/-- A way to compare parts of a visit with parts of a visit against other published results: a
relation that is closed under sequences and under every primitive operation. -/
structure Setting.Comparison (env : Setting) (p : OrderedMap RoutineId Summary) where
  /-- The two parts go together, and what they yield is related. -/
  Relates : {α β : Type} → (α → β → Prop) → Visit α → Visit β → Prop
  /-- States that go together. -/
  States : State → State → Prop
  /-- Kind tables that go together. -/
  Tables : KindTable → KindTable → Prop
  pure : ∀ {α β : Type} {R : α → β → Prop} {a : α} {b : β}, R a b → Relates R (pure a) (pure b)
  throw : ∀ {α β : Type} {R : α → β → Prop} (fault : Fault), Relates R (throw fault) (throw fault)
  bind : ∀ {α α' β β' : Type} {R : α → α' → Prop} {S : β → β' → Prop} {x : Visit α} {y : Visit α'}
    {f : α → Visit β} {g : α' → Visit β'}, Relates R x y → (∀ a b, R a b → Relates S (f a) (g b)) →
      Relates S (x >>= f) (y >>= g)
  getState : Relates States Visit.getState Visit.getState
  setState : ∀ {s s' : State}, States s s' → Relates Eq (Visit.setState s) (Visit.setState s')
  slot : ∀ v : VarId, Relates Eq (Visit.slot v) (Visit.slot v)
  change : ∀ {h : State → Except Fault State}, State.Change h →
    Relates Eq (Visit.updateState h) (Visit.updateState h)
  forgetAll : ∀ share : Bool, Relates Eq (Visit.forgetAll share) (Visit.forgetAll share)
  join : ∀ {s s' t t' : State}, States s s' → States t t' →
    Relates States (liftM (s.join t)) (liftM (s'.join t'))
  kind : Relates (fun f f' => f.kind = f'.kind) Visit.getFacts Visit.getFacts
  record : ∀ (e : ExprId) (m : Mask), Relates Eq (Visit.record e m) (Visit.record e m)
  note : ∀ {h : Facts → Facts}, Facts.Note h →
    Relates Eq (Visit.updateFacts h) (Visit.updateFacts h)
  getTable : Relates Tables Visit.getTable Visit.getTable
  self : ∀ {t t' : KindTable}, Tables t t' → t.self? = t'.self?
  elementMask : ∀ {t t' : KindTable}, Tables t t' → ∀ m : Mask,
    Relates Eq (liftM (t.elementMask m)) (liftM (t'.elementMask m))
  classes : ∀ {t t' : KindTable}, Tables t t' → ∀ m : Mask,
    Relates Eq (liftM (t.classes m)) (liftM (t'.classes m))
  stepResult : ∀ {t t' : KindTable}, Tables t t' → ∀ (m : Mask) (increment bounded : Bool),
    Relates Eq (liftM (Operator.stepResult t m increment bounded))
      (liftM (Operator.stepResult t' m increment bounded))
  onTable : ∀ {α : Type} {z : Typing α}, env.Asks z → Relates Eq (Visit.onTable z) (Visit.onTable z)
  routineResult : ∀ r : RoutineDecl,
    Relates Eq (routineResult env r) (routineResult (env.against p) r)

namespace Setting.Comparison

open Visit

variable {env : Setting} {p : OrderedMap RoutineId Summary} (C : env.Comparison p) {α β γ : Type}

/-- The two parts go together and yield the same. -/
abbrev Agrees (x y : Visit α) : Prop :=
  C.Relates Eq x y

variable {x y x' y' : Visit α} {f g : α → Visit β}

theorem seq {δ : Type} {R : β → δ → Prop} {g : α → Visit δ} (hx : C.Agrees x y)
    (hf : ∀ a, C.Relates R (f a) (g a)) : C.Relates R (x >>= f) (y >>= g) := by
  apply C.bind hx
  rintro a _ rfl
  exact hf a

/-- A part whose yield is passed over. -/
theorem skip {a : β} (hx : C.Agrees x y) :
    C.Agrees (do let _ ← x; return a) (do let _ ← y; return a) :=
  C.seq hx fun _ => C.pure rfl

theorem ite {δ : Type} {R : α → δ → Prop} {y y' : Visit δ} {c : Prop} [Decidable c]
    (hx : C.Relates R x y) (hx' : C.Relates R x' y') :
    C.Relates R (if c then x else x') (if c then y else y') := by
  split
  · exact hx
  · exact hx'

theorem foldlM {f g : β → γ → Visit β} (hf : ∀ b c, C.Agrees (f b c) (g b c)) (l : List γ) (b : β) :
    C.Agrees (l.foldlM f b) (l.foldlM g b) := by
  induction l generalizing b with
  | nil => exact C.pure rfl
  | cons c rest ih =>
      rw [List.foldlM_cons, List.foldlM_cons]
      exact C.seq (hf b c) ih

theorem forM {f g : γ → Visit Unit} {l : List γ} (hf : ∀ c ∈ l, C.Agrees (f c) (g c)) :
    C.Agrees (l.forM f) (l.forM g) := by
  induction l with
  | nil => exact C.pure rfl
  | cons c rest ih =>
      apply C.seq (hf c List.mem_cons_self)
      intro _
      exact ih fun c' hc' => hf c' (List.mem_cons_of_mem c hc')

theorem mapM {f g : γ → Visit β} (hf : ∀ c, C.Agrees (f c) (g c)) (l : List γ) :
    C.Agrees (l.mapM f) (l.mapM g) := by
  induction l with
  | nil => exact C.pure rfl
  | cons c rest ih =>
      rw [List.mapM_cons, List.mapM_cons]
      exact C.seq (hf c) fun b => C.seq ih fun bs => C.pure rfl

theorem optionForM {f g : γ → Visit Unit} (hf : ∀ c, C.Agrees (f c) (g c)) (o : Option γ) :
    C.Agrees (o.forM f) (o.forM g) := by
  cases o with
  | none => exact C.pure rfl
  | some c => exact hf c

/-! ### The scene -/

theorem swapState_relates {s s' : State} (hs : C.States s s') :
    C.Relates C.States (swapState s) (swapState s') := by
  apply C.bind C.getState
  intro old old' hold
  exact C.seq (C.setState hs) fun _ => C.pure hold

theorem joinState_agrees {s s' : State} (hs : C.States s s') :
    C.Agrees (joinState s) (joinState s') := by
  apply C.bind C.getState
  intro now now' hnow
  exact C.bind (C.join hnow hs) fun _ _ hjoined => C.setState hjoined

theorem varMask_agrees (v : VarId) : C.Agrees (varMask v) (varMask v) :=
  C.seq (C.slot v) fun _ => C.pure rfl

theorem selfClass?_agrees : C.Agrees selfClass? selfClass? :=
  C.bind C.getTable fun _ _ ht => C.pure (C.self ht)

/-- The element mask of the routine's own table. -/
theorem elementMask_bind {δ : Type} {R : β → δ → Prop} {f : Mask → Visit β} {g : Mask → Visit δ}
    (m : Mask) (hf : ∀ elem, C.Relates R (f elem) (g elem)) :
    C.Relates R (do f (← (← Visit.getTable).elementMask m))
      (do g (← (← Visit.getTable).elementMask m)) :=
  C.bind C.getTable fun _ _ ht => C.seq (C.elementMask ht m) hf

/-- The expression at a position, or the same fault in both. -/
theorem expr_relates (e : ExprId) :
    C.Relates (fun x x' => x = x' ∧ env.body.exprs[e]? = some x) (env.expr e)
      ((env.against p).expr e) := by
  change C.Relates _ (env.expr e) (env.expr e)
  rw [Setting.expr]
  cases env.body.exprs[e]? with
  | some x => exact C.pure ⟨rfl, rfl⟩
  | none => exact C.throw _

/-- What is done with the expression at a position. -/
theorem expr_bind {δ : Type} {R : β → δ → Prop} {f : Expr → Visit β} {g : Expr → Visit δ}
    (e : ExprId) (hf : ∀ x, env.body.exprs[e]? = some x → C.Relates R (f x) (g x)) :
    C.Relates R (env.expr e >>= f) ((env.against p).expr e >>= g) := by
  apply C.bind (C.expr_relates e)
  rintro x _ ⟨rfl, hx⟩
  exact hf x hx

theorem varOf?_agrees (e : ExprId) : C.Agrees (env.varOf? e) ((env.against p).varOf? e) := by
  apply C.expr_bind e
  intro x _
  cases x <;> exact C.pure rfl

/-- What is done with the variable that an expression names, if it names one. -/
theorem varOf?_bind (e : ExprId) {f g : VarId → Visit Unit} (hf : ∀ v, C.Agrees (f v) (g v)) :
    C.Agrees
      (do
        match ← env.varOf? e with
        | some v => f v
        | none => return ())
      (do
        match ← (env.against p).varOf? e with
        | some v => g v
        | none => return ()) := by
  apply C.seq (C.varOf?_agrees e)
  intro v?
  cases v? with
  | none => exact C.pure rfl
  | some v => exact hf v

/-! ### Places -/

theorem assign_agrees (v : VarId) (m : Mask) : C.Agrees (assign v m) (assign v m) :=
  C.change (.assign v m)

theorem share_agrees (v : VarId) : C.Agrees (share v) (share v) :=
  C.change (.share v)

theorem visitVar_agrees (id : ExprId) (v : VarId) (access : Access) :
    C.Agrees (visitVar id v access) (visitVar id v access) := by
  cases access with
  | write m => exact C.seq (C.assign_agrees v m) fun _ => C.varMask_agrees v
  | share => exact C.seq (C.share_agrees v) fun _ => C.varMask_agrees v
  | read | peek =>
      apply C.seq (C.slot v)
      intro s
      apply C.ite (C.pure rfl)
      apply C.bind C.kind
      intro facts facts' hkind
      rw [hkind]
      apply C.ite
      · exact C.seq (C.assign_agrees v _) fun _ => C.pure rfl
      · apply C.ite
        · exact C.seq (C.note (.unassignedRead id)) fun _ => C.pure rfl
        · exact C.pure rfl

theorem peekWithin_agrees (depth : Nat) (e : ExprId) :
    C.Agrees (peekWithin env depth e) (peekWithin (env.against p) depth e) := by
  induction depth generalizing e with
  | zero => exact C.throw _
  | succ depth ih =>
      apply C.expr_bind e
      intro x _
      split
      · exact C.varMask_agrees _
      · apply C.ite _ (C.throw _)
        apply C.seq (ih _)
        intro container
        exact C.bind C.getTable fun _ _ ht => C.elementMask ht container
      · exact C.pure rfl

theorem peek_agrees (e : ExprId) : C.Agrees (peek env e) (peek (env.against p) e) :=
  C.peekWithin_agrees _ e

theorem fieldMask_agrees (cls : Name) (field : String) :
    C.Agrees (fieldMask env cls field) (fieldMask (env.against p) cls field) := by
  change C.Agrees (fieldMask env cls field) (fieldMask env cls field)
  rw [fieldMask]
  split
  · exact C.onTable (.hintMask _)
  · exact C.pure rfl

theorem objectFieldMask_agrees (object : Mask) (field : String) :
    C.Agrees (objectFieldMask env object field) (objectFieldMask (env.against p) object field) := by
  apply C.ite (C.pure rfl)
  apply C.bind C.getTable
  intro t t' ht
  apply C.seq (C.classes ht object)
  intro classes
  apply C.ite (C.pure rfl)
  apply C.foldlM
  intro acc cls
  exact C.seq (C.fieldMask_agrees cls field) fun _ => C.pure rfl

theorem isBoundedCounter_agrees (counter : ExprId) :
    C.Agrees (isBoundedCounter env counter) (isBoundedCounter (env.against p) counter) := by
  apply C.seq (C.varOf?_agrees counter)
  intro v?
  cases v? with
  | none => exact C.pure rfl
  | some v => exact C.seq (C.slot v) fun _ => C.pure rfl

theorem isBoundedStep_agrees (counter step : ExprId) :
    C.Agrees (isBoundedStep env counter step) (isBoundedStep (env.against p) counter step) := by
  apply C.expr_bind step
  intro x _
  split
  · exact C.isBoundedCounter_agrees counter
  · exact C.pure rfl

theorem visitClosure_agrees (captures : List Capture) :
    C.Agrees (visitClosure captures) (visitClosure captures) := by
  apply C.seq
  · apply C.forM
    intro capture _
    exact C.ite (C.share_agrees capture.var) (C.pure rfl)
  · intro _
    exact C.onTable (.instanceOf _ _)

theorem parentClass?_agrees : C.Agrees (parentClass? env) (parentClass? (env.against p)) :=
  C.seq C.selfClass?_agrees fun _ => C.pure rfl

theorem staticClass?_agrees (cls : ClassRef) :
    C.Agrees (staticClass? env cls) (staticClass? (env.against p) cls) := by
  cases cls with
  | named cls => exact C.pure rfl
  | selfClass => exact C.selfClass?_agrees
  | parent => exact C.parentClass?_agrees
  | lateStatic => exact C.selfClass?_agrees
  | dynamic e => exact C.pure rfl

/-! ### Narrowing -/

theorem narrowTo_agrees (v : VarId) (m : Mask) : C.Agrees (narrowTo v m) (narrowTo v m) :=
  C.ite (C.pure rfl) (C.change (.narrow v m))

theorem assumeNotNull_agrees (v : VarId) : C.Agrees (assumeNotNull v) (assumeNotNull v) := by
  apply C.seq (C.varMask_agrees v)
  intro m
  exact C.seq (C.narrowTo_agrees v _) fun _ => C.change (.markAssigned v)

theorem narrowTested_agrees (test : KindTest) (arg : Argument) (holds : Bool) :
    C.Agrees (narrowTested env test arg holds) (narrowTested (env.against p) test arg holds) := by
  apply C.ite (C.pure rfl)
  apply C.seq (C.varOf?_agrees arg.value)
  intro v?
  cases v? with
  | none => exact C.pure rfl
  | some v =>
      apply C.seq (C.varMask_agrees v)
      intro current
      apply C.seq (C.onTable (.testedMask test current holds))
      intro m
      apply C.ite
      · exact C.seq (C.change (.markAssigned v)) fun _ => C.narrowTo_agrees v m
      · exact C.narrowTo_agrees v m

theorem isNullLiteral_agrees (e : ExprId) :
    C.Agrees (isNullLiteral env e) (isNullLiteral (env.against p) e) := by
  apply C.expr_bind e
  intro x _
  split <;> exact C.pure rfl

theorem comparedWithNull?_agrees (left right : ExprId) :
    C.Agrees (comparedWithNull? env left right) (comparedWithNull? (env.against p) left right) := by
  apply C.seq (C.isNullLiteral_agrees right)
  intro isRight
  apply C.ite (C.varOf?_agrees left)
  apply C.seq (C.isNullLiteral_agrees left)
  intro isLeft
  exact C.ite (C.varOf?_agrees right) (C.pure rfl)

/-- What narrowing does with the variable that is compared with `null`. -/
theorem narrowByNull_agrees (v : VarId) (isNull? : Option Bool) :
    C.Agrees
      (match isNull? with
        | some true => narrowTo v .null
        | some false => assumeNotNull v
        | none => return ())
      (match isNull? with
        | some true => narrowTo v .null
        | some false => assumeNotNull v
        | none => return ()) := by
  split
  · exact C.narrowTo_agrees v .null
  · exact C.assumeNotNull_agrees v
  · exact C.pure rfl

/-- Narrowing by a comparison; only an order reads a recorded mask, and it is left to the caller. -/
theorem narrowCompared_agrees (op : BinaryOp) (left right : ExprId) (holds : Bool)
    (hbound : ∀ counter bound, counter ∈ [left, right] → bound ∈ [left, right] →
      op = .less ∨ op = .greater →
        C.Agrees (noteUpperBound env counter bound)
          (noteUpperBound (env.against p) counter bound)) :
    C.Agrees (narrowCompared env op left right holds)
      (narrowCompared (env.against p) op left right holds) := by
  cases op with
  | identical | notIdentical | equal | notEqual =>
      apply C.seq (C.comparedWithNull?_agrees left right)
      intro v?
      cases v? with
      | none => exact C.pure rfl
      | some v => exact C.narrowByNull_agrees v _
  | less =>
      exact C.ite (hbound left right (by simp) (by simp) (.inl rfl)) (C.pure rfl)
  | greater =>
      exact C.ite (hbound right left (by simp) (by simp) (.inr rfl)) (C.pure rfl)
  | _ => exact C.pure rfl

theorem narrowIsset_agrees (operands : List ExprId) (holds : Bool) :
    C.Agrees (narrowIsset env operands holds) (narrowIsset (env.against p) operands holds) := by
  apply C.ite
  · apply C.forM
    intro e _
    exact C.varOf?_bind e C.assumeNotNull_agrees
  · split
    · apply C.varOf?_bind
      intro v
      apply C.seq (C.varMask_agrees v)
      intro m
      exact C.ite (C.narrowTo_agrees v .null) (C.pure rfl)
    · exact C.pure rfl

/-- Narrowing by a condition, if narrowing by a comparison goes together. -/
theorem narrow_agrees (e : ExprId) (holds : Bool)
    (hcompared : ∀ op left right, env.body.exprs[e]? = some (.binary op left right) →
      C.Agrees (narrowCompared env op left right holds)
        (narrowCompared (env.against p) op left right holds)) :
    C.Agrees (narrow env e holds) (narrow (env.against p) e holds) := by
  apply C.expr_bind e
  intro x hx
  split
  · exact C.ite (C.assumeNotNull_agrees _) (C.pure rfl)
  · apply C.ite _ (C.pure rfl)
    apply C.varOf?_bind
    intro v
    exact C.seq (C.varMask_agrees v) fun _ => C.narrowTo_agrees v _
  · rename_i operand cls
    apply C.seq (C.varOf?_agrees operand)
    intro v?
    cases v? with
    | none => exact C.pure rfl
    | some v =>
        apply C.seq (C.staticClass?_agrees cls)
        intro cls?
        cases cls? with
        | none => exact C.pure rfl
        | some cls =>
            apply C.seq (C.varMask_agrees v)
            intro current
            apply C.seq (C.onTable (.instanceMask cls current holds))
            intro m
            exact C.narrowTo_agrees v m
  · exact C.narrowIsset_agrees _ holds
  · exact C.ite (C.varOf?_bind _ C.assumeNotNull_agrees) (C.pure rfl)
  · exact hcompared _ _ _ hx
  · split
    · exact C.narrowTested_agrees _ _ holds
    · exact C.pure rfl
  · exact C.pure rfl

end Setting.Comparison

end FlowTyping
