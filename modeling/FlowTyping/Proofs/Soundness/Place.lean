import FlowTyping.Proofs.Soundness.Narrow
import FlowTyping.Proofs.Visit.Expr

/-!
# Reading and writing variables

What a visitor has to say about an expression that runs, and that it says so about variables:
reading one yields a mask that describes its value, and writing one keeps the store described.
-/

namespace FlowTyping

open Visit

/-- The branch is for conditions with this outcome. -/
def Branch.Allows : Branch → Bool → Prop
  | .either, _ => True
  | .holds, outcome => outcome = true
  | .fails, outcome => outcome = false

/-- A mask describes a value, and the state describes a store. -/
structure Scene.Tells (rt : Runtime) (s : Scene) (m : Mask) (v : Value) (σ : Store) : Prop where
  covers : s.Covers rt m v
  describes : s.Describes rt σ

/-- The visitor describes what an expression does when it runs from `σ` to `σ'` and yields `u`: as a
value, and as a condition with the outcome it has. -/
structure Visitor.Sound (env : Setting) (rt : Runtime) (v : Visitor) (e : ExprId) (σ : Store)
    (u : Value) (σ' : Store) : Prop where
  value : ∀ {access : Access} {s : Scene}, access.isRead = true → s.Fits env.body →
    s.Describes rt σ → Ends env (v.value e access) s fun m s' =>
      s'.Holds m ∧ s'.Tells rt m u σ' ∧ s'.Records rt e u
  condition : ∀ {branch : Branch} {s : Scene}, branch.Allows u.truthy → s.Fits env.body →
    s.Describes rt σ → Ends env (v.condition e branch) s fun m s' =>
      s'.Holds m ∧ s'.Tells rt m u σ'

variable {rt : Runtime} {env : Setting} {s s' : Scene} {σ σ' σ₁ σ₂ : Store} {x : VarId} {m : Mask}
  {u w r : Value} {e left right limit : ExprId} {v : Visitor}

/-- A sound visitor is sound below an expression. -/
theorem Visitor.Sound.below {c : ExprId} (h : v.Sound env rt c σ u σ') (hc : c < e) :
    (v.below e).Sound env rt c σ u σ' where
  value ha hs hσ := by
    rw [Visitor.below_value hc]
    exact h.value ha hs hσ
  condition hb hs hσ := by
    rw [Visitor.below_condition hc]
    exact h.condition hb hs hσ

/-! ### Recording -/

/-- What is recorded of an expression is contained in its mask from then on. -/
theorem Facts.record_contains {f : Facts} (he : e < f.exprMasks.size) :
    ((f.record e m).exprMask e).contains m = true := by
  simp only [Facts.exprMask, Facts.record, Array.getD_eq_getD_getElem?, Array.getElem?_modify]
  rw [if_pos trivial, Array.getElem?_eq_getElem he]
  exact Mask.contains_union_right _ m

/-- To record a mask that describes the value keeps the scene right. -/
theorem record_tells (hs : s.Fits env.body) (he : e < env.body.exprs.size) (hm : s.Holds m)
    (ht : s.Tells rt m u σ) :
    Ends env (record e m) s fun _ s' => s'.Tells rt m u σ ∧ s'.Records rt e u := by
  refine (record_runs e hs hm).of_run fun _ s' hrun _ => ?_
  cases hrun
  refine ⟨⟨ht.covers, ht.describes⟩, ?_⟩
  exact ht.covers.of_contains (Facts.record_contains (hs.facts.size ▸ he))

/-! ### Variables -/

/-- Outside top-level code, reading a variable that may not be set allows for `null`. -/
theorem visitVar_tells {access : Access} (hkind : env.body.kind ≠ .globalCode) (id : ExprId)
    (hx : x < env.body.vars.length) (ha : access.isRead = true) (hs : s.Fits env.body)
    (hσ : s.Describes rt σ) :
    Ends env (visitVar id x access) s fun m s' => s'.Tells rt m (σ.read x) σ := by
  obtain ⟨found, hrun, hfit, hfound⟩ := slot_describes hs hx hσ
  have hcovers : s.Covers rt (found.mask ∪ .null) (σ.read x) := by
    cases hv : σ x with
    | none =>
        rw [Store.read, hv]
        exact (Mask.Describes.bit hs.facts.table (k := .null) rfl rfl).union_right
    | some v =>
        rw [Store.read, hv]
        exact (hfound.mask v hv).union_left
  have hassigned (h : found.assigned = true) : s.Covers rt found.mask (σ.read x) := by
    obtain ⟨v, hv⟩ := Option.isSome_iff_exists.1 (hfound.assigned h)
    rw [Store.read, hv]
    exact hfound.mask v hv
  cases access with
  | write | share => cases ha
  | read | peek =>
      refine Runs.read hrun (Runs.ite (fun h => Runs.pure hs ⟨hassigned h, hσ⟩) fun _ => ?_)
      refine Runs.read rfl (Runs.ite (fun hglobal => ?_) fun _ => ?_)
      · exact absurd (hs.facts.kind.symm.trans hglobal) hkind
      · have hmark : Ends env (updateFacts (·.markUnassignedRead id)) s
            fun _ s' => s'.Tells rt (found.mask ∪ .null) (σ.read x) σ := by
          refine (updateFacts_runs hs (.unassignedRead s.facts id) { hs.facts with }).of_run ?_
          rintro _ s' ⟨⟩ -
          exact ⟨hcovers, hσ⟩
        apply Runs.ite
        · intro _
          exact Runs.bind hmark fun _ _ _ hs' ht => Runs.pure hs' ht
        · intro _
          exact Runs.pure hs ⟨hcovers, hσ⟩

/-- Through this visitor, a value that a mask describes can be written to a variable. -/
structure Visitor.Writes (env : Setting) (rt : Runtime) (v : Visitor) (e : ExprId) (x : VarId) :
    Prop where
  write : ∀ {m : Mask} {s : Scene} {σ : Store} {u : Value}, s.Fits env.body → s.Holds m →
    s.Covers rt m u → s.Describes rt σ →
      Ends env (v.value e (.write m)) s fun _ s' => s'.Describes rt (σ.set x u)

/-- To visit a variable as a target assigns to it. -/
theorem visitor_writes (hb : env.body.WellFormed) (hx : env.body.exprs[e]? = some (.var x)) :
    (visitor env).Writes env rt e x := by
  constructor
  intro m s σ u hs hm hu hσ
  have he : e < env.body.exprs.size := (Array.getElem?_eq_some_iff.1 hx).1
  have hwrite : Yields env env.published ((visitor env).value e (.write m)) _ s :=
    (visitor_safe hb).value he hs hm
  refine hwrite.of_run fun m' s' hrun hmoves => ?_
  have hassign : s'.state.Describes rt s.facts.table (σ.set x u) := by
    refine hσ.update (state_of_write_var hx hrun) (fun y hy => if_neg hy) fun slot _ _ => ?_
    rw [Store.set, if_pos rfl]
    exact .assign slot hu
  exact hassign.grow hmoves.table

namespace Visitor.Writes

theorem below {c : ExprId} (h : v.Writes env rt c x) (hc : c < e) :
    (v.below e).Writes env rt c x := by
  constructor
  intro m s σ u hs hm hu hσ
  rw [Visitor.below_value hc]
  exact h.write hs hm hu hσ

/-- Writing comes last, and the form yields something that was known before. -/
theorem yields {result : Mask} (h : v.Writes env rt e x) (hs : s.Fits env.body) (hm : s.Holds m)
    (hu : s.Covers rt m u) (hσ : s.Describes rt σ) (hresult : s.Covers rt result r) :
    Ends env (v.value e (.write m) >>= fun _ => pure result) s fun m' s' =>
      s'.Tells rt m' r (σ.set x u) :=
  Runs.bind (h.write hs hm hu hσ) fun _ _ h' hs' hσ' => Runs.pure hs' ⟨h'.covers hresult, hσ'⟩

end Visitor.Writes

/-! ### Counters -/

/-- A counter that is taken for bounded is. -/
theorem isBoundedCounter_bounded (hb : env.body.WellFormed) {counter : ExprId}
    (hc : counter < env.body.exprs.size) (hs : s.Fits env.body) (hσ : s.Describes rt σ) :
    ∃ bounded, (isBoundedCounter env counter).run s = .ok (bounded, s) ∧ (bounded = true →
      ∃ x, env.body.exprs[counter]? = some (.var x) ∧ (σ.read x).IsBounded) := by
  obtain ⟨x?, hx?, hlt⟩ := Setting.varOf?_run hb hc s
  rw [isBoundedCounter, run_bind_ok hx?]
  cases x? with
  | none => exact ⟨false, rfl, fun h => absurd h Bool.false_ne_true⟩
  | some x =>
      obtain ⟨found, hrun, -, hfound⟩ := slot_describes hs (hlt x rfl) hσ
      refine ⟨found.belowMax && found.mask.isLongOnly, run_bind_ok hrun, fun hbounded => ?_⟩
      obtain ⟨hbelow, hlong⟩ := Bool.and_eq_true_iff.1 hbounded
      refine ⟨x, Setting.var_of_varOf? hx?, ?_⟩
      cases hv : σ x with
      | none =>
          rw [Store.read, hv]
          trivial
      | some w =>
          rw [Store.read, hv]
          obtain ⟨n, rfl⟩ := (hfound.mask w hv).exists_long hs.facts.table hlong
          exact hfound.belowMax hbelow n hv

/-- A step that is taken for bounded adds one to a bounded counter. -/
theorem isBoundedStep_bounded (hb : env.body.WellFormed) {counter step : ExprId}
    (hc : counter < env.body.exprs.size) (hstep : step < env.body.exprs.size)
    (hs : s.Fits env.body) (hσ : s.Describes rt σ) :
    ∃ bounded, (isBoundedStep env counter step).run s = .ok (bounded, s) ∧ (bounded = true →
      env.body.exprs[step]? = some (.literal (.long 1)) ∧
        ∃ x, env.body.exprs[counter]? = some (.var x) ∧ (σ.read x).IsBounded) := by
  obtain ⟨form, hform⟩ := Setting.exists_expr hstep
  rw [isBoundedStep, run_bind_ok (Setting.expr_run hform)]
  split
  · obtain ⟨bounded, hrun, hbounded⟩ := isBoundedCounter_bounded hb hc hs hσ
    exact ⟨bounded, hrun, fun h => ⟨hform, hbounded h⟩⟩
  · exact ⟨false, rfl, fun h => absurd h Bool.false_ne_true⟩

end FlowTyping
