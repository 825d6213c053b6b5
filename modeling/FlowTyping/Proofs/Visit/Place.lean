import FlowTyping.Proofs.Visit.Logic

/-!
# Visits to places, and narrowing

Reading, writing and narrowing succeed in every scene that fits, given visitors that do so on the
sub-expressions.
-/

namespace FlowTyping

open Visit

/-- The mask that is written fits a table with `n` kinds. -/
def Access.Fits : Access → Nat → Prop
  | .write m, n => m.Fits n
  | _, _ => True

namespace Visit

variable {α : Type}

/-- A visit that yields a mask which fits the scene after it. -/
abbrev Yields (env : Setting) (p : OrderedMap RoutineId Summary) (x x' : Visit Mask) (s : Scene) :
    Prop :=
  Runs env p x x' s fun m s' => s'.Holds m

/-- The parts of the visits succeed; nothing is said about what they yield. -/
abbrev Succeeds (env : Setting) (p : OrderedMap RoutineId Summary) (x x' : Visit α) (s : Scene) :
    Prop :=
  Runs env p x x' s fun _ _ => True

end Visit

/-- Two visitors, for a visit and for the same visit against other published results, that succeed
on every expression before `limit`. -/
structure Visitor.Safe (env : Setting) (p : OrderedMap RoutineId Summary) (v v' : Visitor)
    (limit : ExprId) : Prop where
  value : ∀ {e : ExprId} {access : Access} {s : Scene}, e < limit → s.Fits env.body →
    access.Fits s.facts.table.size → Yields env p (v.value e access) (v'.value e access) s
  condition : ∀ {e : ExprId} {branch : Branch} {s : Scene}, e < limit → s.Fits env.body →
    Yields env p (v.condition e branch) (v'.condition e branch) s

variable {env : Setting} {p : OrderedMap RoutineId Summary} {v v' : Visitor} {limit : ExprId}
  {s : Scene}

namespace Visitor.Safe

theorem read {e : ExprId} (h : Safe env p v v' limit) (he : e < limit) (hs : s.Fits env.body) :
    Succeeds env p (v.read e) (v'.read e) s :=
  Runs.bind (h.value he hs trivial) fun _ _ _ hs' _ => Runs.pure hs' trivial

theorem readAll {es : List ExprId} (h : Safe env p v v' limit) (hes : ∀ e ∈ es, e < limit)
    (hs : s.Fits env.body) : Succeeds env p (v.readAll es) (v'.readAll es) s :=
  Runs.forM (fun e he _ _ hs' => h.read (hes e he) hs') hs

theorem readArguments {args : List Argument} (h : Safe env p v v' limit)
    (hargs : ∀ arg ∈ args, arg.value < limit) (hs : s.Fits env.body) :
    Succeeds env p (v.readAll (args.map Argument.value)) (v'.readAll (args.map Argument.value)) s :=
  h.readAll (List.forall_mem_map.2 hargs) hs

theorem readOption {e? : Option ExprId} (h : Safe env p v v' limit) (he : ∀ e ∈ e?, e < limit)
    (hs : s.Fits env.body) : Succeeds env p (e?.forM v.read) (e?.forM v'.read) s :=
  Runs.optionForM (fun e hmem => h.read (he e hmem) hs) hs

end Visitor.Safe

/-! ### Places -/

/-- A variable of the routine can be visited. -/
theorem visitVar_runs (id : ExprId) {x : VarId} {access : Access} (hx : x < env.body.vars.length)
    (hs : s.Fits env.body) (ha : access.Fits s.facts.table.size) :
    Yields env p (visitVar id x access) (visitVar id x access) s := by
  have hnull : s.Holds .null := hs.holds_bit (by decide)
  cases access with
  | write m => exact Runs.bind (assign_runs hs hx ha) fun _ _ _ hs' _ => varMask_runs hs' hx
  | share => exact Runs.bind (share_runs hs hx) fun _ _ _ hs' _ => varMask_runs hs' hx
  | read | peek =>
      obtain ⟨slot, hslot, hfit⟩ := slot_run hs hx
      refine Runs.read hslot (Runs.ite (fun _ => Runs.pure hs hfit.mask) fun _ => ?_)
      refine Runs.read rfl (Runs.ite (fun _ => ?_) fun _ => Runs.ite (fun _ => ?_) fun _ => ?_)
      · exact Runs.bind (assign_runs hs hx Mask.Fits.top) fun _ _ _ hs' _ =>
          Runs.pure hs' Mask.Fits.top
      · refine Runs.bind (updateFacts_runs hs (.unassignedRead s.facts id) ?_) fun _ _ hm hs' _ =>
          Runs.pure hs' (hm.holds (hfit.mask.union hnull))
        exact { hs.facts with }
      · exact Runs.pure hs (hfit.mask.union hnull)

/-- Seeing through elements goes no deeper than the expressions are numbered. -/
theorem peekWithin_runs (hb : env.body.WellFormed) {depth : Nat} {e : ExprId} (hd : e < depth)
    (he : e < env.body.exprs.size) (hs : s.Fits env.body) :
    Yields env p (peekWithin env depth e) (peekWithin (env.against p) depth e) s := by
  induction depth generalizing e s with
  | zero => exact absurd hd (Nat.not_lt_zero e)
  | succ depth ih =>
      obtain ⟨x, hx⟩ := Setting.exists_expr he
      refine Runs.read (Setting.expr_run hx) ?_
      cases x with
      | var x => exact varMask_runs hs (hb.exprVars hx x (List.mem_singleton.2 rfl))
      | item array index? =>
          have harray : array < e := hb.children hx array (List.mem_cons_self ..)
          refine Runs.ite (fun _ => ?_) fun h => absurd harray h
          refine Runs.bind (ih (Nat.lt_of_lt_of_le harray (Nat.le_of_lt_succ hd))
            (Nat.lt_trans harray he) hs) fun container s' _ hs' hm => ?_
          obtain ⟨elem, helem, hfit⟩ := KindTable.elementMask_ok hs'.facts.table hm
          refine Runs.read rfl ⟨elem, s', ?_, .refl, hs', hfit, fun _ => ?_⟩
          · rw [helem]
            rfl
          · rw [helem]
            rfl
      | _ => exact Runs.pure hs Mask.Fits.top

/-- A place can be looked at without a visit. -/
theorem peek_runs (hb : env.body.WellFormed) {e : ExprId} (he : e < env.body.exprs.size)
    (hs : s.Fits env.body) : Yields env p (peek env e) (peek (env.against p) e) s :=
  peekWithin_runs hb he he hs

/-- The elements of a container. -/
theorem elementMask_runs {m : Mask} (hs : s.Fits env.body) (hm : s.Holds m) :
    ∃ elem, s.facts.table.elementMask m = .ok elem ∧ s.Holds elem :=
  KindTable.elementMask_ok hs.facts.table hm

section Place

variable (hb : env.body.WellFormed) (hv : v.Safe env p v' limit)
  (hlimit : limit ≤ env.body.exprs.size)

include hb hv hlimit

theorem writeItem_runs {array : ExprId} {value : Mask} (harray : array < limit)
    (hs : s.Fits env.body) (hm : s.Holds value) :
    Succeeds env p (writeItem env v array value) (writeItem (env.against p) v' array value) s := by
  refine Runs.bind (peek_runs hb (Nat.lt_of_lt_of_le harray hlimit) hs)
    fun container s₁ h₁ hs₁ _ => ?_
  refine Runs.bind (onTable_runs hs₁ (storeInMask_runs container hs₁.facts.table (h₁.holds hm)))
    fun rebuilt s₂ _ hs₂ hfit => ?_
  exact Runs.bind (hv.value harray hs₂ hfit) fun _ _ _ hs₃ _ => Runs.pure hs₃ trivial

theorem visitItem_runs {array : ExprId} {index? : Option ExprId} {access : Access}
    (harray : array < limit) (hindex : ∀ e ∈ index?, e < limit) (hs : s.Fits env.body)
    (ha : access.Fits s.facts.table.size) :
    Yields env p (visitItem env v array index? access)
      (visitItem (env.against p) v' array index? access) s := by
  refine Runs.bind (hv.readOption hindex hs) fun _ s₁ h₁ hs₁ _ => ?_
  cases access with
  | write m =>
      exact Runs.bind (writeItem_runs hb hv hlimit harray hs₁ (h₁.holds ha)) fun _ _ h₂ hs₂ _ =>
        Runs.pure hs₂ (h₂.holds (h₁.holds ha))
  | share =>
      exact Runs.bind (writeItem_runs hb hv hlimit harray hs₁ Mask.fits_sharedMask)
        fun _ _ _ hs₂ _ => Runs.pure hs₂ Mask.fits_sharedMask
  | read | peek =>
      refine Runs.bind (hv.value harray hs₁ trivial) fun container s₂ _ hs₂ hm => ?_
      obtain ⟨elem, helem, hfit⟩ := elementMask_runs hs₂ hm
      have hnull : s₂.Holds .null := hs₂.holds_bit (by decide)
      exact Runs.read rfl (Runs.lift helem (Runs.pure hs₂ (hfit.union hnull)))

end Place

theorem fieldMask_runs (cls : Name) (field : String) (hs : s.Fits env.body) :
    Yields env p (fieldMask env cls field) (fieldMask (env.against p) cls field) s := by
  change Yields env p (fieldMask env cls field) (fieldMask env cls field) s
  rw [fieldMask]
  split
  · exact onTable_runs hs (KindTable.hintMask_runs _ hs.facts.table)
  · exact Runs.pure hs Mask.Fits.top

theorem objectFieldMask_runs {object : Mask} (field : String) (hs : s.Fits env.body)
    (hm : s.Holds object) :
    Yields env p (objectFieldMask env object field)
      (objectFieldMask (env.against p) object field) s := by
  refine Runs.ite (fun _ => Runs.pure hs Mask.Fits.top) fun _ => ?_
  obtain ⟨classes, hclasses⟩ := KindTable.classes_ok hm
  refine Runs.read rfl (Runs.lift hclasses (Runs.ite (fun _ => Runs.pure hs Mask.Fits.top)
    fun _ => ?_))
  refine Runs.foldlM (I := fun m s' => s'.Holds m) (fun cls _ acc s' hs' hacc => ?_) hs
    Mask.Fits.empty
  exact Runs.bind (fieldMask_runs cls field hs') fun _ _ h hs'' hm =>
    Runs.pure hs'' ((h.holds hacc).union hm)

/-! ### Class names -/

theorem resolveClass_runs (hv : v.Safe env p v' limit) {cls : ClassRef}
    (hcls : ∀ e ∈ cls.expr?, e < limit) (hs : s.Fits env.body) :
    Succeeds env p (resolveClass env v cls) (resolveClass (env.against p) v' cls) s := by
  cases cls with
  | named | selfClass | parent => exact Runs.pure hs trivial
  | lateStatic =>
      refine Runs.bind (updateFacts_runs hs (.lateStatic s.facts) { hs.facts with })
        fun _ _ _ hs' _ => Runs.pure hs' trivial
  | dynamic e => exact Runs.bind (hv.read (hcls e rfl) hs) fun _ _ _ hs' _ => Runs.pure hs' trivial

theorem staticClass?_run (env : Setting) (cls : ClassRef) (s : Scene) :
    ∃ r, (staticClass? env cls).run s = .ok (r, s) := by
  cases cls <;> exact ⟨_, rfl⟩

/-! ### Narrowing -/

section Narrow

variable {x : VarId}

theorem narrowTo_runs {m : Mask} (hs : s.Fits env.body) (hx : x < env.body.vars.length)
    (hm : s.Holds m) : Succeeds env p (narrowTo x m) (narrowTo x m) s :=
  Runs.ite (fun _ => Runs.pure hs trivial) fun _ =>
    updateSlot_runs hs hx fun _ hslot => hslot.narrow hm

theorem assumeNotNull_runs (hs : s.Fits env.body) (hx : x < env.body.vars.length) :
    Succeeds env p (assumeNotNull x) (assumeNotNull x) s := by
  obtain ⟨m, hm, hfit⟩ := varMask_run hs hx
  refine Runs.read hm (Runs.bind (narrowTo_runs hs hx hfit.withoutNull) fun _ _ _ hs' _ => ?_)
  exact updateSlot_runs hs' hx fun _ hslot => hslot.markAssigned

theorem isNullLiteral_run {e : ExprId} (he : e < env.body.exprs.size) (s : Scene) :
    ∃ b, (isNullLiteral env e).run s = .ok (b, s) := by
  obtain ⟨x, hx⟩ := Setting.exists_expr he
  rw [isNullLiteral, run_bind_ok (Setting.expr_run hx)]
  cases x with
  | literal l => cases l <;> exact ⟨_, rfl⟩
  | _ => exact ⟨_, rfl⟩

variable (hb : env.body.WellFormed)

include hb

/-- What is compared with null is a variable of the routine. -/
theorem comparedWithNull?_run {left right : ExprId} (hl : left < env.body.exprs.size)
    (hr : right < env.body.exprs.size) (s : Scene) :
    ∃ x?, (comparedWithNull? env left right).run s = .ok (x?, s) ∧
      ∀ x, x? = some x → x < env.body.vars.length := by
  obtain ⟨b, hright⟩ := isNullLiteral_run hr s
  obtain ⟨c, hleft⟩ := isNullLiteral_run hl s
  rw [comparedWithNull?, run_bind_ok hright]
  cases b with
  | true => exact Setting.varOf?_run hb hl s
  | false =>
      rw [if_neg Bool.false_ne_true, run_bind_ok hleft]
      cases c with
      | true => exact Setting.varOf?_run hb hr s
      | false => exact ⟨none, rfl, fun x hx => nomatch hx⟩

/-- Narrowing the variable that an expression names, if it names one. -/
theorem varOf?_bind_runs {e : ExprId} (he : e < env.body.exprs.size) (hs : s.Fits env.body)
    {f f' : Option VarId → Visit Unit} (hnone : f none = pure () ∧ f' none = pure ())
    (hsome : ∀ x, x < env.body.vars.length → Succeeds env p (f (some x)) (f' (some x)) s) :
    Succeeds env p (env.varOf? e >>= f) ((env.against p).varOf? e >>= f') s := by
  obtain ⟨x?, hx?, hlt⟩ := Setting.varOf?_run hb he s
  refine Runs.read hx? ?_
  cases x? with
  | none =>
      rw [hnone.1, hnone.2]
      exact Runs.pure hs trivial
  | some x => exact hsome x (hlt x rfl)

theorem narrowTested_runs (test : KindTest) {arg : Argument} (holds : Bool)
    (harg : arg.value < env.body.exprs.size) (hs : s.Fits env.body) :
    Succeeds env p (narrowTested env test arg holds)
      (narrowTested (env.against p) test arg holds) s := by
  refine Runs.ite (fun _ => Runs.pure hs trivial) fun _ => ?_
  refine varOf?_bind_runs hb harg hs ⟨rfl, rfl⟩ fun x hx => ?_
  obtain ⟨m, hm, hfit⟩ := varMask_run hs hx
  refine Runs.read hm (Runs.bind (onTable_runs hs (testedMask_runs test holds hs.facts.table hfit))
    fun m' s' _ hs' hfit' => ?_)
  refine Runs.ite (fun _ => ?_) fun _ => narrowTo_runs hs' hx hfit'
  refine Runs.bind (updateSlot_runs hs' hx fun _ hslot => hslot.markAssigned) fun _ _ h hs'' _ => ?_
  exact narrowTo_runs hs'' hx (h.holds hfit')

theorem noteUpperBound_runs {counter : ExprId} (bound : ExprId)
    (hc : counter < env.body.exprs.size) (hs : s.Fits env.body) :
    Succeeds env p (noteUpperBound env counter bound)
      (noteUpperBound (env.against p) counter bound) s := by
  refine varOf?_bind_runs hb hc hs ⟨rfl, rfl⟩ fun x hx => ?_
  obtain ⟨m, hm, _⟩ := varMask_run hs hx
  refine Runs.read hm (Runs.read rfl (Runs.ite (fun _ => ?_) fun _ => Runs.pure hs trivial))
  exact updateSlot_runs hs hx fun _ hslot => hslot.setBelowMax true

omit hb in
/-- What follows from a comparison with `null` is assumed. -/
theorem narrowByNull_runs (isNull? : Option Bool) (hs : s.Fits env.body)
    (hx : x < env.body.vars.length) :
    Succeeds env p
      (match isNull? with
        | some true => narrowTo x .null
        | some false => assumeNotNull x
        | none => return ())
      (match isNull? with
        | some true => narrowTo x .null
        | some false => assumeNotNull x
        | none => return ()) s := by
  match isNull? with
  | some true => exact narrowTo_runs hs hx (hs.holds_bit (by decide))
  | some false => exact assumeNotNull_runs hs hx
  | none => exact Runs.pure hs trivial

theorem narrowCompared_runs (op : BinaryOp) {left right : ExprId} (holds : Bool)
    (hl : left < env.body.exprs.size) (hr : right < env.body.exprs.size) (hs : s.Fits env.body) :
    Succeeds env p (narrowCompared env op left right holds)
      (narrowCompared (env.against p) op left right holds) s := by
  cases op with
  | identical | notIdentical | equal | notEqual =>
      obtain ⟨x?, hx?, hlt⟩ := comparedWithNull?_run hb hl hr s
      refine Runs.read hx? ?_
      cases x? with
      | none => exact Runs.pure hs trivial
      | some x => exact narrowByNull_runs _ hs (hlt x rfl)
  | less =>
      exact Runs.ite (fun _ => noteUpperBound_runs hb right hl hs) fun _ => Runs.pure hs trivial
  | greater =>
      exact Runs.ite (fun _ => noteUpperBound_runs hb left hr hs) fun _ => Runs.pure hs trivial
  | _ => exact Runs.pure hs trivial

theorem narrowIsset_runs {operands : List ExprId} (holds : Bool)
    (ho : ∀ e ∈ operands, e < env.body.exprs.size) (hs : s.Fits env.body) :
    Succeeds env p (narrowIsset env operands holds)
      (narrowIsset (env.against p) operands holds) s := by
  refine Runs.ite (fun _ => ?_) fun _ => ?_
  · refine Runs.forM (fun e he s' _ hs' => ?_) hs
    exact varOf?_bind_runs hb (ho e he) hs' ⟨rfl, rfl⟩ fun x hx => assumeNotNull_runs hs' hx
  · match operands with
    | [] => exact Runs.pure hs trivial
    | [e] =>
        refine varOf?_bind_runs hb (ho e (List.mem_singleton.2 rfl)) hs ⟨rfl, rfl⟩ fun x hx => ?_
        obtain ⟨m, hm, _⟩ := varMask_run hs hx
        refine Runs.read hm (Runs.ite (fun _ => ?_) fun _ => Runs.pure hs trivial)
        exact narrowTo_runs hs hx (hs.holds_bit (by decide))
    | _ :: _ :: _ => exact Runs.pure hs trivial

/-- To narrow by an expression does not fail. -/
theorem narrow_runs {e : ExprId} (he : e < env.body.exprs.size) (holds : Bool)
    (hs : s.Fits env.body) :
    Succeeds env p (narrow env e holds) (narrow (env.against p) e holds) s := by
  obtain ⟨x, hx⟩ := Setting.exists_expr he
  have hchild : ∀ c ∈ x.children, c < env.body.exprs.size := fun c hc =>
    Nat.lt_trans (hb.children hx c hc) he
  refine Runs.read (Setting.expr_run hx) ?_
  cases x with
  | var x =>
      refine Runs.ite (fun _ => ?_) fun _ => Runs.pure hs trivial
      exact assumeNotNull_runs hs (hb.exprVars hx x (List.mem_singleton.2 rfl))
  | assign target value =>
      refine Runs.ite (fun _ => ?_) fun _ => Runs.pure hs trivial
      refine varOf?_bind_runs hb (hchild target (by simp [Expr.children])) hs ⟨rfl, rfl⟩
        fun x hx => ?_
      obtain ⟨m, hm, hfit⟩ := varMask_run hs hx
      exact Runs.read hm (narrowTo_runs hs hx hfit.withoutNull)
  | isInstance operand cls =>
      refine varOf?_bind_runs hb (hchild operand (List.mem_cons_self ..)) hs ⟨rfl, rfl⟩
        fun x hx => ?_
      obtain ⟨cls?, hcls⟩ := staticClass?_run env cls s
      refine Runs.read hcls ?_
      cases cls? with
      | none => exact Runs.pure hs trivial
      | some cls =>
          obtain ⟨m, hm, hfit⟩ := varMask_run hs hx
          refine Runs.read hm (Runs.bind (onTable_runs hs
            (instanceMask_runs env.decls cls holds hs.facts.table hfit)) fun _ _ _ hs' hfit' => ?_)
          exact narrowTo_runs hs' hx hfit'
  | isset operands => exact narrowIsset_runs hb holds hchild hs
  | isBlank operand =>
      refine Runs.ite (fun _ => ?_) fun _ => Runs.pure hs trivial
      exact varOf?_bind_runs hb (hchild operand (List.mem_cons_self ..)) hs ⟨rfl, rfl⟩
        fun x hx => assumeNotNull_runs hs hx
  | binary op left right =>
      exact narrowCompared_runs hb op holds (hchild left (by simp [Expr.children]))
        (hchild right (by simp [Expr.children])) hs
  | call name args =>
      match htest : KindTest.ofFunction? name, args with
      | some test, [arg] =>
          have harg : arg.value < env.body.exprs.size := hchild arg.value (by simp [Expr.children])
          simpa only [htest] using narrowTested_runs hb test holds harg hs
      | none, _ => simpa only [htest] using Runs.pure hs trivial
      | some _, [] => simpa only [htest] using Runs.pure hs trivial
      | some _, _ :: _ :: _ => simpa only [htest] using Runs.pure hs trivial
  | _ => exact Runs.pure hs trivial

end Narrow

end FlowTyping
