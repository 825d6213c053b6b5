import FlowTyping.Proofs.Soundness.Operator
import FlowTyping.Proofs.Visit.Place

/-!
# Narrowing keeps stores described

Once a condition has come out one way, narrowing by this outcome leaves a state that still describes
the store.
-/

namespace FlowTyping

open Visit

/-- The computation succeeds, moves as a visit does, and ends in a scene that fits and has `Q`. -/
abbrev Visit.Ends {α : Type} (env : Setting) (x : Visit α) (s : Scene) (Q : α → Scene → Prop) :
    Prop :=
  Runs env env.published x x s Q

/-- What is recorded for an expression describes a value. -/
abbrev Scene.Records (rt : Runtime) (s : Scene) (e : ExprId) (v : Value) : Prop :=
  s.Covers rt (s.facts.exprMask e) v

variable {rt : Runtime} {env : Setting} {s s' : Scene} {σ σ' σ₁ σ₂ : Store} {x : VarId} {m : Mask}
  {u v w : Value} {e left right : ExprId} {op : BinaryOp}

namespace Moves

theorem covers (h : Moves env s s') (hm : s.Covers rt m v) : s'.Covers rt m v :=
  hm.grow h.table

theorem records (h : Moves env s s') (he : s.Records rt e v) : s'.Records rt e v :=
  (h.covers he).of_contains (h.exprMask_contains e)

end Moves

/-- A variable that is not null has been assigned. -/
theorem Store.exists_of_read (h : (σ.read x).isNull = false) :
    ∃ v, σ x = some v ∧ v.isNull = false := by
  cases hx : σ x with
  | none => simp [Store.read, hx, Value.isNull] at h
  | some v => exact ⟨v, rfl, by simpa [Store.read, hx] using h⟩

/-- Null is not true. -/
theorem Value.isNull_of_truthy (h : v.truthy = true) : v.isNull = false := by
  cases v with
  | null => cases h
  | _ => rfl

/-! ### Slots -/

/-- Changing one slot, along with what its variable holds. -/
theorem updateSlot_describes {g : Slot → Slot} (hs : s.Fits env.body)
    (hx : x < env.body.vars.length)
    (hfit : ∀ slot : Slot, slot.Fits s.facts.table.size → (g slot).Fits s.facts.table.size)
    (hσ : s.Describes rt σ) (hother : ∀ y, y ≠ x → σ' y = σ y)
    (hg : ∀ slot, s.state.slots[x]? = some slot → slot.Describes rt s.facts.table (σ x) →
      (g slot).Describes rt s.facts.table (σ' x)) :
    Ends env (updateState (·.update x g)) s fun _ s' => s'.Describes rt σ' := by
  refine (updateSlot_runs hs hx hfit).of_run fun _ s' hrun _ => ?_
  obtain ⟨st, hst, rfl⟩ := state_of_updateState hrun
  exact hσ.update hst hother hg

/-- A variable may be narrowed to a mask that describes its value. -/
theorem narrowTo_describes (hs : s.Fits env.body) (hx : x < env.body.vars.length)
    (hm : s.Holds m) (hσ : s.Describes rt σ) (hv : ∀ v, σ x = some v → s.Covers rt m v) :
    Ends env (narrowTo x m) s fun _ s' => s'.Describes rt σ := by
  refine Runs.ite (fun _ => Runs.pure hs hσ) fun _ => ?_
  exact updateSlot_describes hs hx (fun _ hslot => hslot.narrow hm) hσ (fun _ _ => rfl)
    fun _ _ hslot => hslot.narrow hv

/-- The slot of a variable describes its value. -/
theorem slot_describes (hs : s.Fits env.body) (hx : x < env.body.vars.length)
    (hσ : s.Describes rt σ) :
    ∃ found, (slot x).run s = .ok (found, s) ∧ s.Holds found.mask ∧
      found.Describes rt s.facts.table (σ x) := by
  obtain ⟨found, hrun, hfit⟩ := slot_run hs hx
  refine ⟨found, hrun, hfit.mask, hσ x found ?_⟩
  have hslot := (scene_of_slot hrun).1
  rw [State.slot] at hslot
  split at hslot
  · rename_i hfound
    rw [hfound, Except.ok.inj hslot]
  · cases hslot

/-- The mask of a variable describes what it holds. -/
theorem varMask_covers (hs : s.Fits env.body) (hx : x < env.body.vars.length)
    (hσ : s.Describes rt σ) :
    ∃ m, (varMask x).run s = .ok (m, s) ∧ s.Holds m ∧ ∀ v, σ x = some v → s.Covers rt m v := by
  obtain ⟨found, hrun, hfit, hfound⟩ := slot_describes hs hx hσ
  refine ⟨found.mask, ?_, hfit, hfound.mask⟩
  rw [varMask, run_bind_ok hrun]
  rfl

/-- A variable that is not null may be narrowed to that. -/
theorem assumeNotNull_describes (hs : s.Fits env.body) (hx : x < env.body.vars.length)
    (hσ : s.Describes rt σ) (hv : (σ.read x).isNull = false) :
    Ends env (assumeNotNull x) s fun _ s' => s'.Describes rt σ := by
  obtain ⟨v, hv, hnull⟩ := Store.exists_of_read hv
  obtain ⟨m, hm, hfit, hcovers⟩ := varMask_covers hs hx hσ
  have hwithout : ∀ w, σ x = some w → s.Covers rt m.withoutNull w := by
    intro w hw
    cases hv.symm.trans hw
    exact (hcovers v hv).withoutNull hs.facts.table hnull
  refine Runs.read hm (Runs.bind (narrowTo_describes hs hx hfit.withoutNull hσ hwithout)
    fun _ s' _ hs' hσ' => ?_)
  refine updateSlot_describes hs' hx (fun _ hslot => hslot.markAssigned) hσ' (fun _ _ => rfl)
    fun slot _ hslot => ?_
  rw [hv] at hslot ⊢
  exact hslot.markAssigned

/-! ### Comparisons -/

theorem Setting.varOf?_of_var (hx : env.body.exprs[e]? = some (.var x)) (s : Scene) :
    (env.varOf? e).run s = .ok (some x, s) := by
  rw [Setting.varOf?, run_bind_ok (Setting.expr_run hx)]
  rfl

/-- An expression that names a variable is one. -/
theorem Setting.var_of_varOf? (h : (env.varOf? e).run s = .ok (some x, s')) :
    env.body.exprs[e]? = some (.var x) := by
  rw [Setting.varOf?] at h
  obtain ⟨form, s₁, hform, h⟩ := exists_of_run_bind h
  rw [Setting.expr] at hform
  split at hform
  · rename_i hfound
    cases hform
    rw [hfound]
    cases form with
    | var => cases h; rfl
    | _ => cases h
  · cases hform

/-- What is taken for the literal null is null. -/
theorem isNull_of_isNullLiteral (h : (isNullLiteral env e).run s = .ok (true, s')) :
    env.body.IsNull e := by
  rw [isNullLiteral] at h
  obtain ⟨form, s₁, hform, h⟩ := exists_of_run_bind h
  rw [Setting.expr] at hform
  split at hform
  · rename_i hfound
    cases hform
    rw [Body.IsNull, hfound]
    cases form with
    | literal l =>
        cases l with
        | null => exact Or.inl rfl
        | _ => cases h
    | constant name =>
        have hkey : name.key = "null" := by
          have hspelled : name.isSpelled "null" = true := congrArg Prod.fst (Except.ok.inj h)
          exact beq_iff_eq.1 hspelled
        exact Or.inr ⟨name, rfl, by simp [constantValue?, hkey]⟩
    | _ => cases h
  · cases hform

/-- A comparison with `null` is about a variable on the other side. -/
theorem of_comparedWithNull? (h : (comparedWithNull? env left right).run s = .ok (some x, s')) :
    env.body.exprs[left]? = some (.var x) ∧ env.body.IsNull right ∨
      env.body.IsNull left ∧ env.body.exprs[right]? = some (.var x) := by
  rw [comparedWithNull?] at h
  obtain ⟨onRight, s₁, hright, h⟩ := exists_of_run_bind h
  cases onRight with
  | true => exact Or.inl ⟨Setting.var_of_varOf? h, isNull_of_isNullLiteral hright⟩
  | false =>
      obtain ⟨onLeft, s₂, hleft, h⟩ := exists_of_run_bind h
      cases onLeft with
      | true => exact Or.inr ⟨isNull_of_isNullLiteral hleft, Setting.var_of_varOf? h⟩
      | false => cases h

theorem Value.equalsNull_of_isNull (h : v.isNull = true) : v.equalsNull = true := by
  cases v with
  | null => rfl
  | _ => cases h

/-- What the outcome of a comparison with `null` implies is true of the operands. -/
theorem isNull_of_impliesNull? {isNull : Bool} (hv : op.value? rt u w = some v)
    (h : impliesNull? op v.truthy = some isNull) : (u.isNull && w.isNull) = isNull := by
  have hloose : (u.equalsNull && w.equalsNull) = false → (u.isNull && w.isNull) = false := by
    intro hnot
    cases hboth : u.isNull && w.isNull with
    | false => rfl
    | true =>
        obtain ⟨hu, hw⟩ := Bool.and_eq_true_iff.1 hboth
        rw [Value.equalsNull_of_isNull hu, Value.equalsNull_of_isNull hw] at hnot
        cases hnot
  cases op with
  | identical =>
      cases hv
      exact Option.some.inj h
  | notIdentical =>
      cases hv
      rw [← Option.some.inj h]
      exact (Bool.not_not _).symm
  | equal =>
      cases hv
      cases hboth : u.equalsNull && w.equalsNull with
      | true => simp [Value.truthy, hboth, impliesNull?] at h
      | false =>
          simp only [Value.truthy, hboth, impliesNull?, Option.some.injEq] at h
          rw [hloose hboth, h]
  | notEqual =>
      cases hv
      cases hboth : u.equalsNull && w.equalsNull with
      | true => simp [Value.truthy, hboth, impliesNull?] at h
      | false =>
          simp only [Value.truthy, hboth, impliesNull?, Bool.not_false, Option.some.injEq] at h
          rw [hloose hboth, h]
  | _ => cases h

/-- A `long` that is less than another one is not the largest. -/
theorem noteUpperBound_describes (hb : env.body.WellFormed) {counter bound : ExprId}
    (hc : counter < env.body.exprs.size) (hs : s.Fits env.body) (hσ : s.Describes rt σ)
    (hcounter : ∀ x, env.body.exprs[counter]? = some (.var x) → u = σ.read x)
    (hbound : s.Records rt bound w) (hless : u.less rt w = true) :
    Ends env (noteUpperBound env counter bound) s fun _ s' => s'.Describes rt σ := by
  obtain ⟨x?, hx?, hlt⟩ := Setting.varOf?_run hb hc s
  refine Runs.read hx? ?_
  cases x? with
  | none => exact Runs.pure hs hσ
  | some x =>
      obtain ⟨m, hm, -, hcovers⟩ := varMask_covers hs (hlt x rfl) hσ
      refine Runs.read hm (Runs.read rfl (Runs.ite (fun hlong => ?_) fun _ => Runs.pure hs hσ))
      refine updateSlot_describes hs (hlt x rfl) (fun _ hslot => hslot.setBelowMax true) hσ
        (fun _ _ => rfl) fun slot _ hslot => hslot.setBelowMax fun _ n hn => ?_
      obtain ⟨k, rfl⟩ := hbound.exists_long hs.facts.table (Bool.and_eq_true_iff.1 hlong).2
      have hu := hcounter x (Setting.var_of_varOf? hx?)
      rw [Store.read, hn] at hu
      subst hu
      exact Int64.lt_of_lt_of_le (of_decide_eq_true hless) (Int64.le_maxValue k)

/-- A variable that is null may be narrowed to null. -/
theorem narrowToNull_describes (hs : s.Fits env.body) (hx : x < env.body.vars.length)
    (hσ : s.Describes rt σ) (hnull : (σ.read x).isNull = true) :
    Ends env (narrowTo x .null) s fun _ s' => s'.Describes rt σ := by
  have hfit : s.Holds .null := hs.holds_bit (by decide)
  refine narrowTo_describes hs hx hfit hσ fun v hv => ?_
  rw [Store.read, hv] at hnull
  cases v with
  | null => exact .bit hs.facts.table (k := .null) rfl rfl
  | _ => cases hnull

theorem narrowByNull_describes {isNull? : Option Bool} (hs : s.Fits env.body)
    (hx : x < env.body.vars.length) (hσ : s.Describes rt σ)
    (hnull : ∀ isNull, isNull? = some isNull → (σ.read x).isNull = isNull) :
    Ends env
      (match isNull? with
        | some true => narrowTo x .null
        | some false => assumeNotNull x
        | none => return ()) s fun _ s' => s'.Describes rt σ := by
  match isNull? with
  | some true => exact narrowToNull_describes hs hx hσ (hnull true rfl)
  | some false => exact assumeNotNull_describes hs hx hσ (hnull false rfl)
  | none => exact Runs.pure hs hσ

/-- Narrowing by the outcome of a comparison that has just been visited. -/
theorem narrowCompared_describes (hb : env.body.WellFormed) (hl : left < env.body.exprs.size)
    (hr : right < env.body.exprs.size) (hs : s.Fits env.body) (hσ : s.Describes rt σ₂)
    (hops : env.body.Operands left right op) (hu : Eval rt env.body σ left u σ₁)
    (hw : Eval rt env.body σ₁ right w σ₂) (hv : op.value? rt u w = some v)
    (hleft : s.Records rt left u) (hright : s.Records rt right w) :
    Ends env (narrowCompared env op left right v.truthy) s fun _ s' => s'.Describes rt σ₂ := by
  cases op with
  | identical | notIdentical | equal | notEqual =>
      obtain ⟨x?, hx?, hlt⟩ := comparedWithNull?_run hb hl hr s
      refine Runs.read hx? ?_
      cases x? with
      | none => exact Runs.pure hs hσ
      | some x =>
          have hnull : (u.isNull && w.isNull) = (σ₂.read x).isNull := by
            rcases of_comparedWithNull? hx? with ⟨hx, hnull⟩ | ⟨hnull, hx⟩
            · obtain ⟨rfl, rfl⟩ := hu.of_var hx
              obtain ⟨rfl, rfl⟩ := hw.of_null hnull
              exact Bool.and_true _
            · obtain ⟨rfl, rfl⟩ := hu.of_null hnull
              obtain ⟨rfl, rfl⟩ := hw.of_var hx
              exact Bool.true_and _
          exact narrowByNull_describes hs (hlt x rfl) hσ fun isNull h =>
            hnull.symm.trans (isNull_of_impliesNull? hv h)
  | less =>
      refine Runs.ite (fun hless => ?_) fun _ => Runs.pure hs hσ
      cases hv
      refine noteUpperBound_describes hb hl hs hσ (fun x hx => ?_) hright hless
      cases hw.of_atom hops.2
      obtain ⟨hread, rfl⟩ := hu.of_var hx
      exact hread
  | greater =>
      refine Runs.ite (fun hless => ?_) fun _ => Runs.pure hs hσ
      cases hv
      refine noteUpperBound_describes hb hr hs hσ (fun x hx => ?_) hleft hless
      obtain ⟨hread, rfl⟩ := hw.of_var hx
      exact hread
  | _ => exact Runs.pure hs hσ

/-- Narrowing by the outcome of `isset`. -/
theorem narrowIsset_describes {operands : List ExprId} {holds : Bool} (hb : env.body.WellFormed)
    (hs : s.Fits env.body) (hσ : s.Describes rt σ)
    (hvars : ∀ c ∈ operands, ∃ x, env.body.exprs[c]? = some (.var x))
    (hholds : holds = true ↔ ∀ c ∈ operands, ∀ x, env.body.exprs[c]? = some (.var x) →
      (σ.read x).isNull = false) :
    Ends env (narrowIsset env operands holds) s fun _ s' => s'.Describes rt σ := by
  have hlt {c : ExprId} {x : VarId} (hx : env.body.exprs[c]? = some (.var x)) :
      x < env.body.vars.length := hb.exprVars hx x (List.mem_singleton.2 rfl)
  refine Runs.ite (fun htrue => ?_) fun hfalse => ?_
  · refine Runs.forM_keeps (I := fun s' => s'.Describes rt σ) (fun c hc s' _ hs' hσ' => ?_) hs hσ
    obtain ⟨x, hx⟩ := hvars c hc
    refine Runs.read (Setting.varOf?_of_var hx s') ?_
    exact assumeNotNull_describes hs' (hlt hx) hσ' (hholds.1 htrue c hc x hx)
  · match operands with
    | [] => exact Runs.pure hs hσ
    | [c] =>
        obtain ⟨x, hx⟩ := hvars c (List.mem_singleton.2 rfl)
        obtain ⟨m, hm, -, -⟩ := varMask_covers hs (hlt hx) hσ
        refine Runs.read (Setting.varOf?_of_var hx s) (Runs.read hm ?_)
        refine Runs.ite (fun _ => ?_) fun _ => Runs.pure hs hσ
        refine narrowToNull_describes hs (hlt hx) hσ ?_
        apply Decidable.of_not_not
        intro hnull
        apply hfalse
        rw [hholds]
        intro c' hc' y hy
        cases List.mem_singleton.1 hc'
        cases hx.symm.trans hy
        exact Bool.eq_false_iff.2 hnull
    | _ :: _ :: _ => exact Runs.pure hs hσ

end FlowTyping
