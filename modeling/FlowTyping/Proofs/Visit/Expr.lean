import FlowTyping.Proofs.Visit.Call

/-!
# Visits to expressions

Every form of expression is visited without fault, given visitors for the expressions before it;
`visitor_safe` ties the knot.
-/

namespace FlowTyping

open Visit

variable {env : Setting} {p : OrderedMap RoutineId Summary} {v v' : Visitor} {limit : ExprId}
  {s : Scene}

theorem Literal.fits_mask (l : Literal) {n : Nat} (hn : 6 ≤ n) : l.mask.Fits n := by
  cases l <;> exact Mask.Fits.bit (by omega)

theorem fits_constantMask (name : Name) {n : Nat} (hn : 6 ≤ n) : (constantMask name).Fits n := by
  rw [constantMask]
  split <;> first | exact Mask.Fits.top | exact Mask.Fits.bit (by omega)

/-! ### Counters -/

theorem isBoundedCounter_run (hb : env.body.WellFormed) {counter : ExprId}
    (hc : counter < env.body.exprs.size) (hs : s.Fits env.body) :
    ∃ b, (isBoundedCounter env counter).run s = .ok (b, s) := by
  obtain ⟨x?, hx?, hlt⟩ := Setting.varOf?_run hb hc s
  rw [isBoundedCounter, run_bind_ok hx?]
  cases x? with
  | none => exact ⟨false, rfl⟩
  | some x =>
      obtain ⟨slot, hslot, _⟩ := slot_run hs (hlt x rfl)
      exact ⟨slot.belowMax && slot.mask.isLongOnly, run_bind_ok hslot⟩

theorem isBoundedStep_run (hb : env.body.WellFormed) {counter step : ExprId}
    (hc : counter < env.body.exprs.size) (hstep : step < env.body.exprs.size)
    (hs : s.Fits env.body) : ∃ b, (isBoundedStep env counter step).run s = .ok (b, s) := by
  obtain ⟨x, hx⟩ := Setting.exists_expr hstep
  rw [isBoundedStep, run_bind_ok (Setting.expr_run hx)]
  split
  · exact isBoundedCounter_run hb hc hs
  · exact ⟨false, rfl⟩

theorem visitClosure_runs {captures : List Capture}
    (hc : ∀ c ∈ captures, c.var < env.body.vars.length) (hs : s.Fits env.body) :
    Yields env p (visitClosure captures) (visitClosure captures) s := by
  refine Runs.bind (Runs.forM (fun c hmem s' _ hs' => ?_) hs) fun _ s' _ hs' _ =>
    onTable_runs hs' (KindTable.instanceOf_runs hs'.facts.table _ false)
  exact Runs.ite (fun _ => share_runs hs' (hc c hmem)) fun _ => Runs.pure hs' trivial

/-! ### Paths that split and join -/

/-- Runs two computations from the same state, one after the other, and joins what they lead to. -/
def Visit.both {α β : Type} (x : Visit α) (y : Visit β) : Visit (α × β) := do
  let before ← getState
  let a ← x
  let after ← swapState before
  let b ← y
  joinState after
  return (a, b)

/-- The condition of a conditional expression holds. -/
def visitThen (v : Visitor) (cond : ExprId) (ifTrue? : Option ExprId) : Visit Mask := do
  let m ← v.condition cond .holds
  match ifTrue? with
  | some e => v.value e .read
  | none => return m.withoutNull

/-- The condition of a conditional expression fails. -/
def visitElse (v : Visitor) (cond ifFalse : ExprId) : Visit Mask := do
  let _ ← v.condition cond .fails
  v.value ifFalse .read

theorem visitTernary_eq (v : Visitor) (cond : ExprId) (ifTrue? : Option ExprId) (ifFalse : ExprId) :
    visitTernary v cond ifTrue? ifFalse = do
      let (a, b) ← both (visitThen v cond ifTrue?) (visitElse v cond ifFalse)
      return a ∪ b := by
  cases ifTrue? <;>
    simp only [visitTernary, both, visitThen, visitElse, bind_assoc, pure_bind]

theorem visitLogical_eq (v : Visitor) (op : LogicalOp) (left right : ExprId) {branch : Branch}
    (h : branch ≠ if op = .and then .holds else .fails) :
    visitLogical v op left right branch = do
      let runsRight : Branch := if op = .and then .holds else .fails
      let _ ← both (v.condition left runsRight >>= fun _ => v.condition right branch)
        (v.condition left runsRight.flip)
      return .bool := by
  simp only [visitLogical, if_neg h, both, bind_assoc, pure_bind]

theorem both_runs {α β : Type} {x x' : Visit α} {y y' : Visit β} {P : α → Scene → Prop}
    {Q : β → Scene → Prop} {R : α × β → Scene → Prop} (hs : s.Fits env.body)
    (hx : Runs env p x x' s P)
    (hy : ∀ s', Moves env s s' → s'.Fits env.body → s'.state = s.state → Runs env p y y' s' Q)
    (hR : ∀ a b s₁ s₂ j, Moves env s₁ s₂ → P a s₁ → Q b s₂ → s₂.state.join s₁.state = .ok j →
      R (a, b) { s₂ with state := j }) : Runs env p (both x y) (both x' y') s R := by
  refine Runs.read rfl (Runs.bind hx fun a s₁ h₁ hs₁ ha => ?_)
  have hswap : Runs env p (swapState s.state) (swapState s.state) s₁ fun after s₂ =>
      after = s₁.state ∧ s₂ = { s₁ with state := s.state } :=
    (swapState_runs hs₁ (hs.state.grow h₁.table)).of_run fun _ _ hrun _ => by
      cases hrun
      exact ⟨rfl, rfl⟩
  refine Runs.bind hswap fun after s₂ h₂ hs₂ ⟨hafter, hscene⟩ => ?_
  subst hafter
  refine Runs.bind (hy s₂ (h₁.trans h₂) hs₂ (by rw [hscene])) fun b s₃ h₃ hs₃ hb => ?_
  have htable := (h₂.trans h₃).table
  have hjoin : Runs env p (joinState s₁.state) (joinState s₁.state) s₃ fun _ => R (a, b) :=
    (joinState_runs hs₃ (hs₁.state.grow htable)).of_run fun _ s₄ hrun _ => by
      obtain ⟨j, hj, rfl⟩ := state_of_updateState hrun
      exact hR a b s₁ s₃ j (h₂.trans h₃) ha hb hj
  exact Runs.bind hjoin fun _ s₄ _ hs₄ hr => Runs.pure hs₄ hr

/-! ### Forms of expressions -/

section Forms

variable (hb : env.body.WellFormed) (hv : v.Safe env p v' limit)
  (hlimit : limit ≤ env.body.exprs.size)

include hv

/-- A logical operation does not fail if its operands do not. -/
theorem visitLogical_runs (op : LogicalOp) {left right : ExprId} (branch : Branch)
    (hl : left < limit) (hr : right < limit) (hs : s.Fits env.body) :
    Yields env p (visitLogical v op left right branch)
      (visitLogical v' op left right branch) s := by
  have hbool {s' : Scene} (hs' : s'.Fits env.body) : s'.Holds .bool := hs'.holds_bit (by decide)
  by_cases hbranch : branch = if op = .and then .holds else .fails
  · refine Runs.ite (fun _ => ?_) fun h => absurd hbranch h
    refine Runs.bind (hv.condition hl hs) fun _ s₁ _ hs₁ _ => ?_
    exact Runs.bind (hv.condition hr hs₁) fun _ _ _ hs₂ _ => Runs.pure hs₂ (hbool hs₂)
  · rw [visitLogical_eq v op left right hbranch, visitLogical_eq v' op left right hbranch]
    refine Runs.bind (both_runs (R := fun _ _ => True) hs
      (Runs.bind (hv.condition hl hs) fun _ _ _ hs₁ _ => hv.condition hr hs₁)
      (fun _ _ hs' _ => hv.condition hl hs') fun _ _ _ _ _ _ _ _ _ => trivial) ?_
    exact fun _ _ _ hs' _ => Runs.pure hs' (hbool hs')

theorem visitThen_runs {cond : ExprId} {ifTrue? : Option ExprId} (hc : cond < limit)
    (ht : ∀ e ∈ ifTrue?, e < limit) (hs : s.Fits env.body) :
    Yields env p (visitThen v cond ifTrue?) (visitThen v' cond ifTrue?) s := by
  refine Runs.bind (hv.condition hc hs) fun m s₁ _ hs₁ hm => ?_
  cases ifTrue? with
  | none => exact Runs.pure hs₁ hm.withoutNull
  | some e => exact hv.value (ht e rfl) hs₁ trivial

theorem visitElse_runs {cond ifFalse : ExprId} (hc : cond < limit) (hf : ifFalse < limit)
    (hs : s.Fits env.body) :
    Yields env p (visitElse v cond ifFalse) (visitElse v' cond ifFalse) s :=
  Runs.bind (hv.condition hc hs) fun _ _ _ hs₁ _ => hv.value hf hs₁ trivial

/-- A conditional expression does not fail if its parts do not. -/
theorem visitTernary_runs {cond ifFalse : ExprId} {ifTrue? : Option ExprId} (hc : cond < limit)
    (ht : ∀ e ∈ ifTrue?, e < limit) (hf : ifFalse < limit) (hs : s.Fits env.body) :
    Yields env p (visitTernary v cond ifTrue? ifFalse)
      (visitTernary v' cond ifTrue? ifFalse) s := by
  rw [visitTernary_eq, visitTernary_eq]
  refine Runs.bind (both_runs (R := fun r s' => s'.Holds (r.1 ∪ r.2)) hs
    (visitThen_runs hv hc ht hs) (fun _ _ hs' _ => visitElse_runs hv hc hf hs')
    fun _ _ _ _ _ h ha hb _ => (h.holds ha).union hb) ?_
  exact fun _ _ _ hs' hr => Runs.pure hs' hr

theorem visitArray_runs {items : List ArrayItem}
    (hkeys : ∀ item ∈ items, ∀ e ∈ item.key?, e < limit)
    (hvalues : ∀ item ∈ items, item.value < limit)
    (hs : s.Fits env.body) : Yields env p (visitArray v items) (visitArray v' items) s := by
  refine Runs.bind (Runs.foldlM (I := fun m s' => s'.Holds m)
    (fun item hitem elem s' hs' helem => ?_) hs Mask.Fits.empty) fun elem s' _ hs' hm =>
      (onTable_runs hs' (KindTable.arrayOf_runs hs'.facts.table hm)).mono fun _ _ _ _ h => h.1
  refine Runs.bind (hv.readOption (hkeys item hitem) hs') fun _ s₁ h₁ hs₁ _ => ?_
  have haccess : (if item.byRef then Access.share else .read).Fits s₁.facts.table.size := by
    split <;> trivial
  refine Runs.bind (hv.value (hvalues item hitem) hs₁ haccess) fun m s₂ h₂ hs₂ hm => ?_
  have helem₂ := h₂.holds (h₁.holds helem)
  refine Runs.ite (fun _ => ?_) fun _ => Runs.pure hs₂ (helem₂.union hm)
  obtain ⟨inner, hinner, hfit⟩ := elementMask_runs hs₂ hm
  exact Runs.read rfl (Runs.lift hinner (Runs.pure hs₂ (helem₂.union hfit)))

theorem visitList_runs {items : List (Option ExprId)} {access : Access}
    (hitems : ∀ e ∈ items.filterMap id, e < limit) (hs : s.Fits env.body)
    (ha : access.Fits s.facts.table.size) :
    Yields env p (visitList v items access) (visitList v' items access) s := by
  cases access with
  | write m =>
      obtain ⟨elem, helem, hfit⟩ := elementMask_runs hs ha
      refine Runs.read rfl (Runs.lift helem ?_)
      refine Runs.bind (Runs.forM (fun e he s' h hs' => ?_) hs) fun _ s' h hs' _ =>
        Runs.pure hs' (h.holds ha)
      exact Runs.bind (hv.value (hitems e he) hs' (h.holds hfit)) fun _ _ _ hs'' _ =>
        Runs.pure hs'' trivial
  | read | peek | share =>
      refine Runs.bind (hv.readAll hitems hs) fun _ s' _ hs' _ => ?_
      exact (onTable_runs hs' (KindTable.anyArray_runs hs'.facts.table)).mono fun _ _ _ _ h => h.1

theorem visitCoalesce_runs {left right : ExprId} (hl : left < limit) (hr : right < limit)
    (hs : s.Fits env.body) :
    Yields env p (visitCoalesce v left right) (visitCoalesce v' left right) s := by
  refine Runs.bind (hv.value hl hs trivial) fun leftMask s₁ h₁ hs₁ hm => Runs.read rfl ?_
  refine Runs.bind (hv.value hr hs₁ trivial) fun rightMask s₂ h₂ hs₂ hm' => ?_
  refine Runs.bind (joinState_runs hs₂ (hs₁.state.grow h₂.table)) fun _ s₃ h₃ hs₃ _ => ?_
  exact Runs.pure hs₃ (h₃.holds ((h₂.holds hm.withoutNull).union hm'))

theorem visitField_runs {object : ExprId} (field : String) {access : Access} (ho : object < limit)
    (hs : s.Fits env.body) (ha : access.Fits s.facts.table.size) :
    Yields env p (visitField env v object field access)
      (visitField (env.against p) v' object field access) s := by
  refine Runs.bind (hv.value ho hs trivial) fun receiver s' h hs' hm => ?_
  cases access with
  | write m => exact Runs.pure hs' (h.holds ha)
  | share => exact Runs.pure hs' Mask.fits_sharedMask
  | read | peek => exact objectFieldMask_runs field hs' hm

theorem visitStaticField_runs {cls : ClassRef} (field : String) {access : Access}
    (hcls : ∀ e ∈ cls.expr?, e < limit) (hs : s.Fits env.body)
    (ha : access.Fits s.facts.table.size) :
    Yields env p (visitStaticField env v cls field access)
      (visitStaticField (env.against p) v' cls field access) s := by
  refine Runs.bind (resolveClass_runs hv hcls hs) fun resolved s' h hs' _ => ?_
  cases access with
  | write m => exact Runs.pure hs' (h.holds ha)
  | share => exact Runs.pure hs' Mask.fits_sharedMask
  | read | peek =>
      match resolved with
      | some (cls, _) => exact fieldMask_runs cls field hs'
      | none => exact Runs.pure hs' Mask.Fits.top

theorem visitForeignCode_runs {operand : ExprId} (ho : operand < limit) (hs : s.Fits env.body) :
    Yields env p (visitForeignCode v operand) (visitForeignCode v' operand) s := by
  refine Runs.bind (hv.read ho hs) fun _ s₁ _ hs₁ _ => ?_
  refine Runs.bind (forgetAll_runs true hs₁) fun _ s₂ _ hs₂ _ => ?_
  exact Runs.bind (updateFacts_runs hs₂ (.dynamicLocals s₂.facts) { hs₂.facts with })
    fun _ _ _ hs₃ _ => Runs.pure hs₃ Mask.Fits.top

theorem visitVarVar_runs {name : ExprId} (access : Access) (hn : name < limit)
    (hs : s.Fits env.body) :
    Yields env p (visitVarVar v name access) (visitVarVar v' name access) s := by
  have hmark {s' : Scene} (hs' : s'.Fits env.body) :
      Yields env p (updateFacts (·.markDynamicLocals) >>= fun _ => pure .top)
        (updateFacts (·.markDynamicLocals) >>= fun _ => pure .top) s' :=
    Runs.bind (updateFacts_runs hs' (.dynamicLocals s'.facts) { hs'.facts with })
      fun _ _ _ hs'' _ => Runs.pure hs'' Mask.Fits.top
  refine Runs.bind (hv.read hn hs) fun _ s₁ _ hs₁ _ => Runs.ite (fun _ => ?_) fun _ => hmark hs₁
  exact Runs.bind (forgetAll_runs true hs₁) fun _ _ _ hs₂ _ => hmark hs₂

theorem visitYield_runs {operands : List ExprId} (ho : ∀ e ∈ operands, e < limit)
    (hs : s.Fits env.body) : Yields env p (visitYield v operands) (visitYield v' operands) s := by
  refine Runs.bind (hv.readAll ho hs) fun _ s₁ _ hs₁ _ => ?_
  exact Runs.bind (updateFacts_runs hs₁ (.generator s₁.facts) { hs₁.facts with })
    fun _ _ _ hs₂ _ => Runs.pure hs₂ Mask.Fits.top

include hb hlimit

/-- An assignment does not fail if its value and its target do not. -/
theorem visitAssign_runs {target value : ExprId} (ht : target < limit) (hvalue : value < limit)
    (hs : s.Fits env.body) :
    Yields env p (visitAssign env v target value)
      (visitAssign (env.against p) v' target value) s := by
  refine Runs.bind (hv.value hvalue hs trivial) fun m s₁ h₁ hs₁ hm => ?_
  refine Runs.bind (hv.value ht hs₁ (hm.withRef false)) fun _ s₂ h₂ hs₂ _ => ?_
  have hm₂ : s₂.Holds (m.withRef false) := h₂.holds (hm.withRef false)
  obtain ⟨x, hx⟩ := Setting.exists_expr (Nat.lt_of_lt_of_le ht hlimit)
  obtain ⟨y, hy⟩ := Setting.exists_expr (Nat.lt_of_lt_of_le hvalue hlimit)
  refine Runs.read (Setting.expr_run hx) (Runs.read (Setting.expr_run hy) ?_)
  split
  · rename_i x n
    have hvar := hb.exprVars hx x (List.mem_singleton.2 rfl)
    refine Runs.bind (updateSlot_runs hs₂ hvar fun _ hslot => hslot.setBelowMax _)
      fun _ _ h₃ hs₃ _ => Runs.pure hs₃ (h₃.holds hm₂)
  · exact Runs.pure hs₂ hm₂

theorem visitCompound_runs (op : BinaryOp) {target value : ExprId} (ht : target < limit)
    (hvalue : value < limit) (hs : s.Fits env.body) :
    Yields env p (visitCompound env v op target value)
      (visitCompound (env.against p) v' op target value) s := by
  refine Runs.bind (hv.value ht hs trivial) fun current s₁ h₁ hs₁ hm => ?_
  refine Runs.bind (hv.value hvalue hs₁ trivial) fun operand s₂ h₂ hs₂ hm' => ?_
  obtain ⟨bounded, hbounded⟩ := isBoundedStep_run hb (Nat.lt_of_lt_of_le ht hlimit)
    (Nat.lt_of_lt_of_le hvalue hlimit) hs₂
  refine Runs.ite (fun _ => Runs.read hbounded ?_) fun _ => Runs.read rfl ?_
  all_goals
    refine Runs.bind (onTable_runs hs₂
      (Operator.binaryResult_runs op _ hs₂.facts.table (h₂.holds hm) hm')) fun m s₃ _ hs₃ hm₃ => ?_
    exact Runs.bind (hv.value ht hs₃ hm₃) fun _ _ h₄ hs₄ _ => Runs.pure hs₄ (h₄.holds hm₃)

theorem visitIncDec_runs {target : ExprId} (increment yieldsNew : Bool) (ht : target < limit)
    (hs : s.Fits env.body) :
    Yields env p (visitIncDec env v target increment yieldsNew)
      (visitIncDec (env.against p) v' target increment yieldsNew) s := by
  refine Runs.bind (hv.value ht hs trivial) fun current s₁ h₁ hs₁ hm => ?_
  have hwrite (bounded : Bool) : ∃ updated, s₁.Holds updated ∧
      Operator.stepResult s₁.facts.table current increment bounded = .ok updated := by
    obtain ⟨updated, hupdated, hfit⟩ :=
      Operator.stepResult_ok hs₁.facts.table hm increment bounded
    exact ⟨updated, hfit, hupdated⟩
  obtain ⟨bounded, hbounded⟩ := isBoundedCounter_run hb (Nat.lt_of_lt_of_le ht hlimit) hs₁
  refine Runs.ite (fun _ => Runs.read hbounded ?_) fun _ => Runs.read rfl ?_
  all_goals
    obtain ⟨updated, hfit, hupdated⟩ := hwrite _
    refine Runs.read rfl (Runs.lift hupdated ?_)
    refine Runs.bind (hv.value ht hs₁ hfit) fun _ s₂ h₂ hs₂ _ => Runs.pure hs₂ ?_
    split
    · exact h₂.holds hfit
    · exact h₂.holds hm

/-- A binary operation does not fail if its operands do not. -/
theorem visitBinary_runs (op : BinaryOp) {left right : ExprId} (hl : left < limit)
    (hr : right < limit) (hs : s.Fits env.body) :
    Yields env p (visitBinary env v op left right)
      (visitBinary (env.against p) v' op left right) s := by
  refine Runs.bind (hv.value hl hs trivial) fun leftMask s₁ h₁ hs₁ hm => ?_
  refine Runs.bind (hv.value hr hs₁ trivial) fun rightMask s₂ h₂ hs₂ hm' => ?_
  have hl' := Nat.lt_of_lt_of_le hl hlimit
  have hr' := Nat.lt_of_lt_of_le hr hlimit
  obtain ⟨bounded, hbounded⟩ := isBoundedStep_run hb hl' hr' hs₂
  obtain ⟨bounded', hbounded'⟩ := isBoundedStep_run hb hr' hl' hs₂
  refine Runs.ite (fun _ => Runs.read hbounded (Runs.ite (fun _ => Runs.read rfl ?_)
    fun _ => Runs.read hbounded' ?_)) fun _ => Runs.read rfl ?_
  all_goals
    exact onTable_runs hs₂ (Operator.binaryResult_runs op _ hs₂.facts.table (h₂.holds hm) hm')

/-- Every form of expression at position `limit` is visited without fault. -/
theorem visitForm_runs {x : Expr} {access : Access} (hx : env.body.exprs[limit]? = some x)
    (hs : s.Fits env.body) (ha : access.Fits s.facts.table.size) :
    Yields env p (visitForm env v limit access x)
      (visitForm (env.against p) v' limit access x) s := by
  have hc : ∀ c ∈ x.children, c < limit := hb.children hx
  have hargs {args : List Argument} (h : ∀ c ∈ args.map Argument.value, c < limit) :
      ∀ arg ∈ args, arg.value < limit := List.forall_mem_map.1 h
  cases x with
  | literal l => exact Runs.pure hs (l.fits_mask hs.facts.table.six_le_size)
  | var x => exact visitVar_runs limit (hb.exprVars hx x (List.mem_singleton.2 rfl)) hs ha
  | varVar name => exact visitVarVar_runs hv access (hc name (List.mem_singleton.2 rfl)) hs
  | assign target value =>
      exact visitAssign_runs hb hv hlimit (hc target (by simp [Expr.children]))
        (hc value (by simp [Expr.children])) hs
  | assignRef target value =>
      refine Runs.bind (hv.value (hc value (by simp [Expr.children])) hs trivial)
        fun _ s₁ _ hs₁ _ => ?_
      exact Runs.bind (hv.value (hc target (by simp [Expr.children])) hs₁ trivial)
        fun _ _ _ hs₂ _ => Runs.pure hs₂ Mask.fits_sharedMask
  | compound op target value =>
      exact visitCompound_runs hb hv hlimit op (hc target (by simp [Expr.children]))
        (hc value (by simp [Expr.children])) hs
  | incDec target increment yieldsNew =>
      exact visitIncDec_runs hb hv hlimit increment yieldsNew (hc target (List.mem_singleton.2 rfl))
        hs
  | binary op left right =>
      exact visitBinary_runs hb hv hlimit op (hc left (by simp [Expr.children]))
        (hc right (by simp [Expr.children])) hs
  | logical op left right =>
      exact visitLogical_runs hv op .either (hc left (by simp [Expr.children]))
        (hc right (by simp [Expr.children])) hs
  | unary op operand =>
      refine Runs.bind (hv.value (hc operand (List.mem_singleton.2 rfl)) hs trivial)
        fun m s' _ hs' hm => ?_
      exact onTable_runs hs' (Operator.unaryResult_runs op hs'.facts.table hm)
  | ternary cond ifTrue? ifFalse =>
      exact visitTernary_runs hv (hc cond (by simp [Expr.children]))
        (fun e he => hc e (by simp [Expr.children, Option.mem_def.1 he]))
        (hc ifFalse (by simp [Expr.children])) hs
  | coalesce left right =>
      exact visitCoalesce_runs hv (hc left (by simp [Expr.children]))
        (hc right (by simp [Expr.children])) hs
  | array items =>
      refine visitArray_runs hv (fun item hitem e he => hc e ?_)
        (fun item hitem => hc item.value ?_) hs
      · exact List.mem_flatMap.2 ⟨item, hitem, by simp [Option.mem_def.1 he]⟩
      · exact List.mem_flatMap.2 ⟨item, hitem, by simp⟩
  | list items => exact visitList_runs hv hc hs ha
  | item array index? =>
      exact visitItem_runs hb hv hlimit (hc array (by simp [Expr.children]))
        (fun e he => hc e (by simp [Expr.children, Option.mem_def.1 he])) hs ha
  | field object field =>
      exact visitField_runs hv field (hc object (List.mem_singleton.2 rfl)) hs ha
  | staticField cls field =>
      exact visitStaticField_runs hv field
        (fun e he => hc e (by simp [Expr.children, Option.mem_def.1 he])) hs ha
  | isInstance operand cls =>
      refine Runs.bind (hv.read (hc operand (by simp [Expr.children])) hs) fun _ s₁ _ hs₁ _ => ?_
      exact Runs.bind (resolveClass_runs hv
        (fun e he => hc e (by simp [Expr.children, Option.mem_def.1 he])) hs₁)
        fun _ s₂ _ hs₂ _ => Runs.pure hs₂ (hs₂.holds_bit (by decide))
  | isset operands =>
      refine Runs.bind (Runs.forM (fun e he s' _ hs' => ?_) hs) fun _ s' _ hs' _ =>
        Runs.pure hs' (hs'.holds_bit (by decide))
      exact Runs.bind (hv.value (hc e he) hs' trivial) fun _ _ _ hs'' _ => Runs.pure hs'' trivial
  | isBlank operand =>
      exact Runs.bind (hv.value (hc operand (List.mem_singleton.2 rfl)) hs trivial)
        fun _ s' _ hs' _ => Runs.pure hs' (hs'.holds_bit (by decide))
  | call name args => exact visitCall_runs hb hv hlimit (hargs hc) limit name hs
  | dynamicCall callee args =>
      refine Runs.bind (hv.read (hc callee (by simp [Expr.children])) hs) fun _ s' _ hs' _ => ?_
      exact visitUnknownCall_runs hb hv hlimit (hargs (List.forall_mem_cons.1 hc).2) limit hs'
  | methodCall receiver name args =>
      exact visitMethodCall_runs hb hv hlimit (hargs (List.forall_mem_cons.1 hc).2) limit name
        (hc receiver (by simp [Expr.children])) hs
  | staticCall cls name args =>
      exact visitStaticCall_runs hb hv hlimit (hargs (List.forall_mem_append.1 hc).1) limit name
        (fun e he => hc e (by simp [Expr.children, Option.mem_def.1 he])) hs
  | new cls args =>
      exact visitNew_runs hb hv hlimit (hargs (List.forall_mem_append.1 hc).1) limit
        (fun e he => hc e (by simp [Expr.children, Option.mem_def.1 he])) hs
  | closure routine captures =>
      exact visitClosure_runs (List.forall_mem_map.1 (hb.exprVars hx)) hs
  | eval code => exact visitForeignCode_runs hv (hc code (List.mem_singleton.2 rfl)) hs
  | load path => exact visitForeignCode_runs hv (hc path (List.mem_singleton.2 rfl)) hs
  | yield key? value? => exact visitYield_runs hv hc hs
  | yieldFrom source => exact visitYield_runs hv hc hs
  | constant name => exact Runs.pure hs (fits_constantMask name hs.facts.table.six_le_size)

/-- An expression is visited without fault, and its mask is recorded. -/
theorem visitValue_runs {access : Access} (he : limit < env.body.exprs.size) (hs : s.Fits env.body)
    (ha : access.Fits s.facts.table.size) :
    Yields env p (visitValue env v limit access)
      (visitValue (env.against p) v' limit access) s := by
  obtain ⟨x, hx⟩ := Setting.exists_expr he
  refine Runs.read (Setting.expr_run hx) ?_
  refine Runs.bind (visitForm_runs hb hv hlimit hx hs ha) fun m s₁ _ hs₁ hm => ?_
  exact Runs.bind (record_runs limit hs₁ hm) fun _ _ h₂ hs₂ _ => Runs.pure hs₂ (h₂.holds hm)

/-- A condition is visited without fault, for every outcome that is asked for. -/
theorem visitCondition_runs (branch : Branch) (he : limit < env.body.exprs.size)
    (hs : s.Fits env.body) :
    Yields env p (visitCondition env v limit branch)
      (visitCondition (env.against p) v' limit branch) s := by
  have hvalue : Yields env p (visitValue env v limit .read)
      (visitValue (env.against p) v' limit .read) s := visitValue_runs hb hv hlimit he hs trivial
  refine Runs.ite (fun _ => hvalue) fun _ => ?_
  obtain ⟨x, hx⟩ := Setting.exists_expr he
  have hc : ∀ c ∈ x.children, c < limit := hb.children hx
  refine Runs.read (Setting.expr_run hx) ?_
  split
  · rename_i op left right
    refine Runs.bind (visitLogical_runs hv op branch (hc left (by simp [Expr.children]))
      (hc right (by simp [Expr.children])) hs) fun m s₁ _ hs₁ hm => ?_
    exact Runs.bind (record_runs limit hs₁ hm) fun _ _ h₂ hs₂ _ => Runs.pure hs₂ (h₂.holds hm)
  · rename_i operand
    refine Runs.bind (hv.condition (hc operand (List.mem_singleton.2 rfl)) hs)
      fun _ s₁ _ hs₁ _ => ?_
    exact Runs.bind (record_runs limit hs₁ (hs₁.holds_bit (by decide))) fun _ _ _ hs₂ _ =>
      Runs.pure hs₂ (hs₂.holds_bit (by decide))
  · refine Runs.bind hvalue fun m s₁ _ hs₁ hm => ?_
    exact Runs.bind (narrow_runs hb he _ hs₁) fun _ _ h₂ hs₂ _ => Runs.pure hs₂ (h₂.holds hm)

end Forms

/-! ### The knot -/

theorem Visitor.Safe.below (hv : v.Safe env p v' limit) {e : ExprId} (he : e ≤ limit) :
    (v.below e).Safe env p (v'.below e) e where
  value hc hs ha :=
    Runs.ite (fun h => hv.value (Nat.lt_of_lt_of_le h he) hs ha) fun h => absurd hc h
  condition hc hs :=
    Runs.ite (fun h => hv.condition (Nat.lt_of_lt_of_le h he) hs) fun h => absurd hc h

/-- The visitor of the expressions below a limit never fails on a well-formed body. -/
theorem visitorBelow_safe (hb : env.body.WellFormed) {limit : ExprId}
    (hlimit : limit ≤ env.body.exprs.size) :
    (visitorBelow env limit).Safe env p (visitorBelow (env.against p) limit) limit := by
  induction limit with
  | zero => exact ⟨fun h => absurd h (Nat.not_lt_zero _), fun h => absurd h (Nat.not_lt_zero _)⟩
  | succ limit ih =>
      have hinner := ih (Nat.le_of_succ_le hlimit)
      constructor
      · intro e access s he hs ha
        have he' : e < env.body.exprs.size := Nat.lt_of_lt_of_le he hlimit
        exact visitValue_runs hb (hinner.below (Nat.le_of_lt_succ he)) (Nat.le_of_lt he') he' hs ha
      · intro e branch s he hs
        have he' : e < env.body.exprs.size := Nat.lt_of_lt_of_le he hlimit
        exact visitCondition_runs hb (hinner.below (Nat.le_of_lt_succ he)) (Nat.le_of_lt he') branch
          he' hs

/-- The expressions of a well-formed body are visited without fault. -/
theorem visitor_safe (hb : env.body.WellFormed) :
    (visitor env).Safe env p (visitor (env.against p)) env.body.exprs.size :=
  visitorBelow_safe hb (Nat.le_refl _)

theorem Visitor.below_value {c e : ExprId} (h : c < e) (access : Access) :
    (v.below e).value c access = v.value c access :=
  if_pos h

theorem Visitor.below_condition {c e : ExprId} (h : c < e) (branch : Branch) :
    (v.below e).condition c branch = v.condition c branch :=
  if_pos h

/-- How an expression is visited does not depend on the limit. -/
theorem visitorBelow_congr {e : ExprId} {n n' : Nat} (hn : e < n) (hn' : e < n') :
    (visitorBelow env n).value e = (visitorBelow env n').value e ∧
      (visitorBelow env n).condition e = (visitorBelow env n').condition e := by
  induction e using Nat.strongRecOn generalizing n n' with
  | ind e ih =>
      obtain ⟨n, rfl⟩ := Nat.exists_eq_succ_of_ne_zero (Nat.ne_of_gt (Nat.zero_lt_of_lt hn))
      obtain ⟨n', rfl⟩ := Nat.exists_eq_succ_of_ne_zero (Nat.ne_of_gt (Nat.zero_lt_of_lt hn'))
      have hbelow : (visitorBelow env n).below e = (visitorBelow env n').below e := by
        simp only [Visitor.below, Visitor.mk.injEq]
        refine ⟨funext fun c => funext fun access => ?_, funext fun c => funext fun branch => ?_⟩
        · by_cases hc : c < e
          · rw [if_pos hc, if_pos hc, (ih c hc (Nat.lt_of_lt_of_le hc (Nat.le_of_lt_succ hn))
              (Nat.lt_of_lt_of_le hc (Nat.le_of_lt_succ hn'))).1]
          · rw [if_neg hc, if_neg hc]
        · by_cases hc : c < e
          · rw [if_pos hc, if_pos hc, (ih c hc (Nat.lt_of_lt_of_le hc (Nat.le_of_lt_succ hn))
              (Nat.lt_of_lt_of_le hc (Nat.le_of_lt_succ hn'))).2]
          · rw [if_neg hc, if_neg hc]
      simp only [visitorBelow, hbelow, and_self]

/-- An expression is visited with the visitor itself for its sub-expressions. -/
theorem visitor_value {e : ExprId} (he : e < env.body.exprs.size) (access : Access) :
    (visitor env).value e access = visitValue env ((visitor env).below e) e access := by
  have hcongr : (visitor env).value e = (visitorBelow env (env.body.exprs.size + 1)).value e :=
    (visitorBelow_congr he (Nat.lt_succ_of_lt he)).1
  rw [hcongr]
  rfl

/-- A condition is visited with the visitor of the expressions below it. -/
theorem visitor_condition {e : ExprId} (he : e < env.body.exprs.size) (branch : Branch) :
    (visitor env).condition e branch = visitCondition env ((visitor env).below e) e branch := by
  have hcongr : (visitor env).condition e =
      (visitorBelow env (env.body.exprs.size + 1)).condition e :=
    (visitorBelow_congr he (Nat.lt_succ_of_lt he)).2
  rw [hcongr]
  rfl

/-- Writing to a variable assigns it. -/
theorem state_of_write_var {e : ExprId} {x : VarId} {m m' : Mask} {s' : Scene}
    (hx : env.body.exprs[e]? = some (.var x))
    (h : ((visitor env).value e (.write m)).run s = .ok (m', s')) :
    s.state.assign x m = .ok s'.state := by
  rw [visitor_value (Array.getElem?_eq_some_iff.1 hx).1, visitValue,
    run_bind_ok (Setting.expr_run hx)] at h
  obtain ⟨m₁, s₁, hform, hrecord⟩ := exists_of_run_bind h
  obtain ⟨u, s₂, hassign, hread⟩ := exists_of_run_bind hform
  obtain ⟨st, hst, rfl⟩ := state_of_updateState hassign
  obtain ⟨slot, s₃, hslot, hmask⟩ := exists_of_run_bind hread
  obtain ⟨-, rfl⟩ := scene_of_slot hslot
  cases hmask
  cases hrecord
  exact hst

end FlowTyping
