import FlowTyping.Proofs.Soundness.Place

/-!
# Forms of expressions

Each form of expression is visited soundly, given that its parts are.
-/

namespace FlowTyping

open Visit

variable {rt : Runtime} {env : Setting} {s : Scene} {σ σ₁ σ₂ : Store} {x : VarId}
  {u w r : Value} {left right target value limit : ExprId} {v : Visitor}

/-- A computation on the kind table leaves the state alone. -/
theorem onTable_tells {y : Typing Mask} (hs : s.Fits env.body)
    (hy : Typing.Runs y s.facts.table fun m t => m.Describes rt t r) (hσ : s.Describes rt σ) :
    Ends env (onTable y) s fun m s' => s'.Tells rt m r σ := by
  obtain ⟨m, t, hrun, hw, hg, hm⟩ := hy
  exact Runs.move (onTable_run hrun) (.facts s (.table s.facts hg))
    ⟨hs.facts.grow hw hg, hs.state.grow hg⟩ ⟨hm, hσ.grow hg⟩

/-- An assignment yields what it assigns; a literal that is assigned tells whether it is the largest
`long`. -/
theorem visitAssign_tells (hb : env.body.WellFormed) (hx : env.body.exprs[target]? = some (.var x))
    (hlt : value < env.body.exprs.size) (hu : Eval rt env.body σ value u σ₁)
    (hvalue : v.Sound env rt value σ u σ₁) (hwrite : v.Writes env rt target x)
    (hs : s.Fits env.body) (hσ : s.Describes rt σ) :
    Ends env (visitAssign env v target value) s fun m s' => s'.Tells rt m u (σ₁.set x u) := by
  refine Runs.bind (hvalue.value rfl hs hσ) fun m s₁ _ hs₁ ⟨hm, htells, _⟩ => ?_
  have hcovers₁ : s₁.Covers rt (m.withRef false) u := htells.covers.withRef false
  refine Runs.bind (hwrite.write hs₁ (hm.withRef false) hcovers₁ htells.describes)
    fun _ s₂ h₂ hs₂ hσ₂ => ?_
  have hcovers : s₂.Covers rt (m.withRef false) u := h₂.covers hcovers₁
  obtain ⟨form, hform⟩ := Setting.exists_expr hlt
  refine Runs.read (Setting.expr_run hx) (Runs.read (Setting.expr_run hform) ?_)
  split
  · rename_i y n hy
    cases hy
    obtain ⟨rfl, rfl⟩ := hu.of_literal hform
    have hvar := hb.exprVars hx x (List.mem_singleton.2 rfl)
    refine Runs.bind (updateSlot_describes hs₂ hvar (fun _ hslot => hslot.setBelowMax _) hσ₂
      (fun _ _ => rfl) fun _ _ hslot => hslot.setBelowMax fun hbelow k hk => ?_)
      fun _ s₃ h₃ hs₃ hσ₃ => Runs.pure hs₃ ⟨h₃.covers hcovers, hσ₃⟩
    rw [Store.set, if_pos rfl] at hk
    cases hk
    exact of_decide_eq_true hbelow
  · exact Runs.pure hs₂ ⟨hcovers, hσ₂⟩

/-- Adding `1` to a counter that is below the largest `long` gives a `long`. -/
theorem exists_long_of_boundedStep {counter step : ExprId}
    (hstep : env.body.exprs[step]? = some (.literal (.long 1)))
    (hcounter : ∃ x, env.body.exprs[counter]? = some (.var x) ∧ (σ₂.read x).IsBounded)
    (hsum : Eval rt env.body σ counter u σ₁ ∧ Eval rt env.body σ₁ step w σ₂ ∧ u.add rt w = some r ∨
      Eval rt env.body σ step w σ₁ ∧ Eval rt env.body σ₁ counter u σ₂ ∧ w.add rt u = some r) :
    ∃ n, r = .long n := by
  obtain ⟨x, hx, hbounded⟩ := hcounter
  rcases hsum with ⟨hu, hw, hr⟩ | ⟨hw, hu, hr⟩
  · obtain ⟨rfl, rfl⟩ := hu.of_var hx
    obtain ⟨rfl, rfl⟩ := hw.of_literal hstep
    exact Value.exists_long_of_bounded (Or.inl ⟨hbounded, rfl⟩) hr
  · obtain ⟨rfl, rfl⟩ := hw.of_literal hstep
    obtain ⟨rfl, rfl⟩ := hu.of_var hx
    exact Value.exists_long_of_bounded (Or.inr ⟨rfl, hbounded⟩) hr

/-- A binary operator yields its result, and its operands are recorded. -/
theorem visitBinary_tells {op : BinaryOp} (hb : env.body.WellFormed)
    (hl : left < env.body.exprs.size) (hr : right < env.body.exprs.size)
    (hu : Eval rt env.body σ left u σ₁) (hw : Eval rt env.body σ₁ right w σ₂)
    (hop : op.value? rt u w = some r) (hleft : v.Sound env rt left σ u σ₁)
    (hright : v.Sound env rt right σ₁ w σ₂) (hs : s.Fits env.body) (hσ : s.Describes rt σ) :
    Ends env (visitBinary env v op left right) s fun m s' =>
      s'.Tells rt m r σ₂ ∧ s'.Records rt left u ∧ s'.Records rt right w := by
  refine Runs.bind (hleft.value rfl hs hσ) fun m₁ s₁ _ hs₁ ⟨hm₁, htells₁, hrec₁⟩ => ?_
  refine Runs.bind (hright.value rfl hs₁ htells₁.describes)
    fun m₂ s₂ h₂ hs₂ ⟨hm₂, htells₂, hrec₂⟩ => ?_
  have hresult {bounded : Bool} (hbounded : bounded = true → ∃ n, r = .long n) :
      Ends env (onTable (Operator.binaryResult op m₁ m₂ bounded)) s₂ fun m s' =>
        s'.Tells rt m r σ₂ ∧ s'.Records rt left u ∧ s'.Records rt right w := by
    have htable := Operator.binaryResult_describes op hs₂.facts.table (h₂.holds hm₁) hm₂
      (h₂.covers htells₁.covers) htells₂.covers hop hbounded
    exact (onTable_tells hs₂ htable htells₂.describes).mono fun m s₃ h₃ _ htells =>
      ⟨htells, h₃.records (h₂.records hrec₁), h₃.records hrec₂⟩
  refine Runs.ite (fun hadd => ?_) fun _ => Runs.read rfl (hresult fun h => nomatch h)
  subst hadd
  obtain ⟨first, hfirst, hstep⟩ := isBoundedStep_bounded hb hl hr hs₂ htells₂.describes
  obtain ⟨second, hsecond, hstep'⟩ := isBoundedStep_bounded hb hr hl hs₂ htells₂.describes
  refine Runs.read hfirst (Runs.ite (fun htrue => Runs.read rfl (hresult fun _ => ?_))
    fun _ => Runs.read hsecond (hresult fun htrue => ?_))
  · obtain ⟨hone, hcounter⟩ := hstep htrue
    exact exists_long_of_boundedStep hone hcounter (Or.inl ⟨hu, hw, hop⟩)
  · obtain ⟨hone, hcounter⟩ := hstep' htrue
    exact exists_long_of_boundedStep hone hcounter (Or.inr ⟨hu, hw, hop⟩)

/-- A sum is written back to the variable that it was read from. -/
theorem visitCompound_tells (hb : env.body.WellFormed)
    (hx : env.body.exprs[target]? = some (.var x)) (hlt : value < env.body.exprs.size)
    (hw : Eval rt env.body σ value w σ₁) (hsum : (σ.read x).add rt w = some r)
    (htarget : v.Sound env rt target σ (σ.read x) σ) (hvalue : v.Sound env rt value σ w σ₁)
    (hwrite : v.Writes env rt target x) (hs : s.Fits env.body) (hσ : s.Describes rt σ) :
    Ends env (visitCompound env v .add target value) s
      fun m s' => s'.Tells rt m r (σ₁.set x r) := by
  have htlt : target < env.body.exprs.size := (Array.getElem?_eq_some_iff.1 hx).1
  refine Runs.bind (htarget.value rfl hs hσ) fun m₁ s₁ _ hs₁ ⟨hm₁, htells₁, _⟩ => ?_
  refine Runs.bind (hvalue.value rfl hs₁ htells₁.describes) fun m₂ s₂ h₂ hs₂ ⟨hm₂, htells₂, _⟩ => ?_
  obtain ⟨bounded, hrun, hstep⟩ := isBoundedStep_bounded hb htlt hlt hs₂ htells₂.describes
  refine Runs.read hrun ?_
  have hbounded (h : bounded = true) : ∃ n, r = .long n := by
    obtain ⟨hone, hcounter⟩ := hstep h
    exact exists_long_of_boundedStep hone hcounter (Or.inl ⟨.var hx, hw, hsum⟩)
  have htable := Operator.binaryResult_describes .add hs₂.facts.table (h₂.holds hm₁) hm₂
    (h₂.covers htells₁.covers) htells₂.covers hsum hbounded
  have hfit := onTable_runs (p := env.published) hs₂
    (Operator.binaryResult_runs .add bounded hs₂.facts.table (h₂.holds hm₁) hm₂)
  refine Runs.bind (hfit.and (onTable_tells hs₂ htable htells₂.describes))
    fun m₃ s₃ _ hs₃ ⟨hm₃, htells₃⟩ => ?_
  exact hwrite.yields hs₃ hm₃ htells₃.covers htells₃.describes htells₃.covers

/-- Counting writes the new value, and yields the old or the new one. -/
theorem visitIncDec_tells {increment yieldsNew : Bool} (hb : env.body.WellFormed)
    (hx : env.body.exprs[target]? = some (.var x)) (hr : (σ.read x).step rt increment = r)
    (htarget : v.Sound env rt target σ (σ.read x) σ) (hwrite : v.Writes env rt target x)
    (hs : s.Fits env.body) (hσ : s.Describes rt σ) :
    Ends env (visitIncDec env v target increment yieldsNew) s fun m s' =>
      s'.Tells rt m (if yieldsNew then r else σ.read x) (σ.set x r) := by
  have hlt : target < env.body.exprs.size := (Array.getElem?_eq_some_iff.1 hx).1
  refine Runs.bind (htarget.value rfl hs hσ) fun current s₁ _ hs₁ ⟨hm, htells, _⟩ => ?_
  have hcount (bounded : Bool) (hbounded : bounded = true → increment = true ∧
      ∀ n, σ.read x = .long n → n < Int64.maxValue) :
      ∃ updated, Operator.stepResult s₁.facts.table current increment bounded = .ok updated ∧
        s₁.Holds updated ∧ s₁.Covers rt updated r := by
    obtain ⟨updated, hupdated, hfit⟩ := Operator.stepResult_ok hs₁.facts.table hm increment bounded
    refine ⟨updated, hupdated, hfit, ?_⟩
    rw [← hr]
    exact Operator.stepResult_describes hupdated hs₁.facts.table htells.covers hbounded
  have hyield {updated : Mask} (hcovers : s₁.Covers rt updated r) :
      s₁.Covers rt (if yieldsNew then updated else current)
        (if yieldsNew then r else σ.read x) := by
    cases yieldsNew with
    | true => exact hcovers
    | false => exact htells.covers
  refine Runs.ite (fun hup => ?_) fun _ => ?_
  · obtain ⟨bounded, hrun, hcounter⟩ := isBoundedCounter_bounded hb hlt hs₁ htells.describes
    have hbounded (h : bounded = true) (n : Int64) (hn : σ.read x = .long n) :
        n < Int64.maxValue := by
      obtain ⟨y, hy, hbounded⟩ := hcounter h
      cases hx.symm.trans hy
      rw [hn] at hbounded
      exact hbounded
    obtain ⟨updated, hupdated, hfit, hcovers⟩ := hcount bounded fun h => ⟨hup, hbounded h⟩
    refine Runs.read hrun (Runs.read rfl (Runs.lift hupdated ?_))
    exact hwrite.yields hs₁ hfit hcovers htells.describes (hyield hcovers)
  · obtain ⟨updated, hupdated, hfit, hcovers⟩ := hcount false fun h => nomatch h
    refine Runs.read rfl (Runs.read rfl (Runs.lift hupdated ?_))
    exact hwrite.yields hs₁ hfit hcovers htells.describes (hyield hcovers)

/-! ### Paths that split and join -/

section Both

variable {α β : Type} {y : Visit β}

/-- What is found on the first path holds where the paths join. -/
theorem both_tells_first {x : Visit Mask} {Q : β → Scene → Prop} (hs : s.Fits env.body)
    (hx : Ends env x s fun m s' => s'.Tells rt m r σ₁)
    (hy : ∀ s', s'.Fits env.body → Ends env y s' Q) :
    Ends env (both x y) s fun found s' => s'.Tells rt found.1 r σ₁ :=
  both_runs hs hx (fun s' _ hs' _ => hy s' hs') fun _ _ _ _ _ h ha _ hj =>
    ⟨h.covers ha.covers, (ha.describes.grow h.table).join_right hj⟩

/-- What is found on the second path holds where the paths join. -/
theorem both_tells_second {x : Visit α} {y : Visit Mask} {P : α → Scene → Prop}
    (hs : s.Fits env.body) (hσ : s.Describes rt σ) (hx : Ends env x s P)
    (hy : ∀ s', s'.Fits env.body → s'.Describes rt σ →
      Ends env y s' fun m s'' => s''.Tells rt m r σ₁) :
    Ends env (both x y) s fun found s' => s'.Tells rt found.2 r σ₁ := by
  refine both_runs hs hx (fun s' h hs' hstate => hy s' hs' ?_) fun _ _ _ _ _ _ _ hb hj =>
    ⟨hb.covers, hb.describes.join_left hj⟩
  rw [Scene.Describes, hstate]
  exact hσ.grow h.table

end Both

theorem Scene.Fits.covers_bool (hs : s.Fits env.body) (b : Bool) : s.Covers rt .bool (.bool b) :=
  .bit hs.facts.table (k := .bool) rfl rfl

theorem Branch.allows_flip {branch : Branch} {outcome : Bool} :
    branch.flip.Allows outcome ↔ branch.Allows (!outcome) := by
  cases branch <;> cases outcome <;> simp [Branch.flip, Branch.Allows]

/-- The right operand runs unless the left one settles the condition. -/
theorem LogicalOp.allows_iff {op : LogicalOp} {outcome : Bool} :
    (if op = .and then Branch.holds else .fails).Allows outcome ↔ outcome = !op.settledBy := by
  cases op <;> simp [Branch.Allows, LogicalOp.settledBy]

section Logical

variable {op : LogicalOp} {branch : Branch} (hv : v.Safe env env.published v limit)
  (hl : left < limit)

include hv hl

/-- The left operand settles a condition. -/
theorem visitLogical_settled (hr : right < limit) (hop : u.truthy = op.settledBy)
    (hbranch : branch.Allows u.truthy) (hleft : v.Sound env rt left σ u σ₁) (hs : s.Fits env.body)
    (hσ : s.Describes rt σ) :
    Ends env (visitLogical v op left right branch) s fun m s' =>
      s'.Tells rt m (.bool u.truthy) σ₁ := by
  have hother : branch ≠ if op = .and then .holds else .fails := by
    rintro rfl
    rw [LogicalOp.allows_iff, hop] at hbranch
    cases op <;> cases hbranch
  have hskips : (if op = .and then Branch.holds else .fails).flip.Allows u.truthy := by
    rw [Branch.allows_flip, LogicalOp.allows_iff, hop]
  rw [visitLogical_eq v op left right hother]
  refine Runs.bind (both_tells_second hs hσ
    (Runs.bind (hv.condition hl hs) fun _ _ _ hs₁ _ => hv.condition hr hs₁) fun s' hs' hσ' =>
      (hleft.condition hskips hs' hσ').mono fun _ _ _ _ h => h.2) fun _ s' _ hs' htells => ?_
  exact Runs.pure hs' ⟨hs'.covers_bool _, htells.describes⟩

/-- Both operands of a condition run. -/
theorem visitLogical_unsettled (hop : u.truthy = !op.settledBy) (hbranch : branch.Allows w.truthy)
    (hleft : v.Sound env rt left σ u σ₁) (hright : v.Sound env rt right σ₁ w σ₂)
    (hs : s.Fits env.body) (hσ : s.Describes rt σ) :
    Ends env (visitLogical v op left right branch) s fun m s' =>
      s'.Tells rt m (.bool w.truthy) σ₂ := by
  have hruns : (if op = .and then Branch.holds else .fails).Allows u.truthy :=
    LogicalOp.allows_iff.2 hop
  by_cases hbranch' : branch = if op = .and then .holds else .fails
  · refine Runs.ite (fun _ => ?_) fun h => absurd hbranch' h
    refine Runs.bind (hleft.condition hruns hs hσ) fun _ s₁ _ hs₁ ⟨_, htells⟩ => ?_
    exact Runs.bind (hright.condition hbranch hs₁ htells.describes) fun _ s₂ _ hs₂ h =>
      Runs.pure hs₂ ⟨hs₂.covers_bool _, h.2.describes⟩
  · rw [visitLogical_eq v op left right hbranch']
    have hpath : Ends env (v.condition left (if op = .and then .holds else .fails) >>= fun _ =>
        v.condition right branch) s fun m s' => s'.Tells rt m w σ₂ := by
      refine Runs.bind (hleft.condition hruns hs hσ) fun _ s₁ _ hs₁ ⟨_, htells⟩ => ?_
      exact (hright.condition hbranch hs₁ htells.describes).mono fun _ _ _ _ h => h.2
    refine Runs.bind (both_tells_first hs hpath fun s' hs' => hv.condition hl hs')
      fun _ s' _ hs' htells => ?_
    exact Runs.pure hs' ⟨hs'.covers_bool _, htells.describes⟩

end Logical

/-! ### Choices between values -/

section Ternary

variable {cond ifFalse : ExprId} {ifTrue? : Option ExprId}
  (hv : v.Safe env env.published v limit) (hc : cond < limit)
  (hcond : v.Sound env rt cond σ u σ₁) (hs : s.Fits env.body) (hσ : s.Describes rt σ)

include hv hc hcond hs hσ

/-- The condition holds, and its own value stands for a middle part that is left out. -/
theorem visitTernary_holds (hf : ifFalse < limit) (htrue : u.truthy = true)
    (hthen : ∀ e ∈ ifTrue?, v.Sound env rt e σ₁ r σ₂) (hself : ifTrue? = none → r = u ∧ σ₂ = σ₁) :
    Ends env (visitTernary v cond ifTrue? ifFalse) s fun m s' => s'.Tells rt m r σ₂ := by
  have hpath : Ends env (visitThen v cond ifTrue?) s fun m s' => s'.Tells rt m r σ₂ := by
    refine Runs.bind (hcond.condition htrue hs hσ)
      fun m s₁ _ hs₁ ⟨_, htells⟩ => ?_
    cases ifTrue? with
    | none =>
        obtain ⟨rfl, rfl⟩ := hself rfl
        have hcovers := htells.covers.withoutNull hs₁.facts.table (Value.isNull_of_truthy htrue)
        exact Runs.pure hs₁ ⟨hcovers, htells.describes⟩
    | some e =>
        exact ((hthen e rfl).value rfl hs₁ htells.describes).mono fun _ _ _ _ h => h.2.1
  rw [visitTernary_eq]
  refine Runs.bind (both_tells_first hs hpath fun s' hs' => visitElse_runs hv hc hf hs')
    fun _ s' _ hs' htells => ?_
  exact Runs.pure hs' ⟨htells.covers.union_left, htells.describes⟩

/-- The condition fails. -/
theorem visitTernary_fails (ht : ∀ e ∈ ifTrue?, e < limit) (hfalse : u.truthy = false)
    (helse : v.Sound env rt ifFalse σ₁ r σ₂) :
    Ends env (visitTernary v cond ifTrue? ifFalse) s fun m s' => s'.Tells rt m r σ₂ := by
  have hpath (s' : Scene) (hs' : s'.Fits env.body) (hσ' : s'.Describes rt σ) :
      Ends env (visitElse v cond ifFalse) s' fun m s'' => s''.Tells rt m r σ₂ := by
    refine Runs.bind (hcond.condition hfalse hs' hσ')
      fun _ s₁ _ hs₁ ⟨_, htells⟩ => ?_
    exact (helse.value rfl hs₁ htells.describes).mono fun _ _ _ _ h => h.2.1
  rw [visitTernary_eq]
  refine Runs.bind (both_tells_second hs hσ (visitThen_runs hv hc ht hs) hpath)
    fun _ s' _ hs' htells => ?_
  exact Runs.pure hs' ⟨htells.covers.union_right, htells.describes⟩

end Ternary

/-- After a join, the state describes what either of the two described. -/
theorem joinState_describes {st : State} (hs : s.Fits env.body)
    (hst : st.Fits env.body.vars.length s.facts.table)
    (hσ : s.Describes rt σ ∨ st.Describes rt s.facts.table σ) :
    Ends env (joinState st) s fun _ s' => s'.Describes rt σ := by
  refine (joinState_runs hs hst).of_run fun _ s' hrun _ => ?_
  obtain ⟨j, hj, rfl⟩ := state_of_updateState hrun
  rcases hσ with hσ | hσ
  · exact hσ.join_left hj
  · exact hσ.join_right hj

section Coalesce

variable (hleft : v.Sound env rt left σ u σ₁) (hs : s.Fits env.body) (hσ : s.Describes rt σ)

include hleft hs hσ

/-- The left operand of `??` is not `null`. -/
theorem visitCoalesce_present (hv : v.Safe env env.published v limit) (hr : right < limit)
    (hsome : u.isNull = false) :
    Ends env (visitCoalesce v left right) s fun m s' => s'.Tells rt m u σ₁ := by
  refine Runs.bind (hleft.value rfl hs hσ)
    fun m₁ s₁ _ hs₁ ⟨_, htells, _⟩ => Runs.read rfl ?_
  have hcovers := htells.covers.withoutNull hs₁.facts.table hsome
  refine Runs.bind (hv.value hr hs₁ trivial) fun m₂ s₂ h₂ hs₂ _ => ?_
  refine Runs.bind (joinState_describes hs₂ (hs₁.state.grow h₂.table)
    (Or.inr (htells.describes.grow h₂.table))) fun _ s₃ h₃ hs₃ hσ₃ => ?_
  exact Runs.pure hs₃ ⟨(h₃.covers (h₂.covers hcovers)).union_left, hσ₃⟩

/-- The left operand of `??` is `null`. -/
theorem visitCoalesce_absent (hright : v.Sound env rt right σ₁ r σ₂) :
    Ends env (visitCoalesce v left right) s fun m s' => s'.Tells rt m r σ₂ := by
  refine Runs.bind (hleft.value rfl hs hσ)
    fun m₁ s₁ _ hs₁ ⟨_, htells, _⟩ => Runs.read rfl ?_
  refine Runs.bind (hright.value rfl hs₁ htells.describes) fun m₂ s₂ h₂ hs₂ ⟨_, htells₂, _⟩ => ?_
  refine Runs.bind (joinState_describes hs₂ (hs₁.state.grow h₂.table) (Or.inl htells₂.describes))
    fun _ s₃ h₃ hs₃ hσ₃ => ?_
  exact Runs.pure hs₃ ⟨(h₃.covers htells₂.covers).union_right, hσ₃⟩

end Coalesce

end FlowTyping
