import FlowTyping.Proofs.Visit.Logic

/-!
# What is known stays known

Facts are only ever added. Main statement: `Moves.keeps`. After any part of a visit, the recorded
masks and what the routine returns absorb whatever they absorbed before, flags included.
-/

namespace FlowTyping

namespace Mask

variable {a b c : Mask}

/-- What one mask absorbs, the other absorbs as well. -/
def Below (a b : Mask) : Prop :=
  ∀ x, a ∪ x = a → b ∪ x = b

namespace Below

theorem refl (a : Mask) : a.Below a := by
  intro x hx
  exact hx

theorem trans (hab : a.Below b) (hbc : b.Below c) : a.Below c := by
  intro x hx
  exact hbc x (hab x hx)

theorem union (a b : Mask) : a.Below (a ∪ b) := by
  intro x hx
  calc a ∪ b ∪ x = a ∪ (b ∪ x) := union_assoc a b x
    _ = a ∪ (x ∪ b) := by rw [union_comm b x]
    _ = a ∪ x ∪ b := (union_assoc a x b).symm
    _ = a ∪ b := by rw [hx]

theorem union_right (a b : Mask) : b.Below (a ∪ b) := by
  rw [union_comm a b]
  exact union b a

end Below

end Mask

namespace Facts

/-- What one routine's facts tell, the others tell as well. -/
structure Keeps (f g : Facts) : Prop where
  table : f.table.Grows g.table
  exprMask : ∀ e, (f.exprMask e).Below (g.exprMask e)
  returned : f.returned.Below g.returned
  generator : f.effects.generator = true → g.effects.generator = true

namespace Keeps

variable {f g h : Facts}

theorem refl (f : Facts) : f.Keeps f :=
  ⟨.refl _, fun _ => .refl _, .refl _, id⟩

theorem trans (hfg : f.Keeps g) (hgh : g.Keeps h) : f.Keeps h where
  table := hfg.table.trans hgh.table
  exprMask e := (hfg.exprMask e).trans (hgh.exprMask e)
  returned := hfg.returned.trans hgh.returned
  generator := hgh.generator ∘ hfg.generator

theorem onTable (f : Facts) {t : KindTable} (h : f.table.Grows t) : f.Keeps { f with table := t } :=
  ⟨h, fun _ => .refl _, .refl _, id⟩

end Keeps

/-- To record a mask adds to the mask of one expression. -/
theorem exprMask_record (f : Facts) (e e' : ExprId) (m : Mask) :
    (f.record e m).exprMask e' =
      if e = e' ∧ e < f.exprMasks.size then f.exprMask e' ∪ m else f.exprMask e' := by
  simp only [exprMask, record, Array.getD_eq_getD_getElem?, Array.getElem?_modify]
  by_cases he : e = e'
  · subst he
    rcases Nat.lt_or_ge e f.exprMasks.size with hlt | hge
    · simp [hlt]
    · simp [Nat.not_lt.2 hge]
  · simp [he]

/-- A step keeps what was recorded. -/
theorem Step.keeps {f g : Facts} (h : f.Step g) : f.Keeps g := by
  cases h with
  | record e m =>
      refine ⟨.refl _, fun e' => ?_, .refl _, id⟩
      rw [exprMask_record]
      split
      · exact .union _ _
      · exact .refl _
  | addReturn m => exact ⟨.refl _, fun _ => .refl _, .union _ _, id⟩
  | generator => exact ⟨.refl _, fun _ => .refl _, .refl _, fun _ => rfl⟩
  | table h => exact .onTable f h
  | unassignedRead | dynamicLocals | lateStatic | callTarget | report =>
      exact ⟨.refl _, fun _ => .refl _, .refl _, id⟩

end Facts

/-- A visit keeps what is known. -/
theorem Moves.keeps {env : Setting} {s s' : Scene} (h : Moves env s s') :
    s.facts.Keeps s'.facts := by
  induction h with
  | refl => exact .refl _
  | tail _ hmove ih =>
      cases hmove with
      | state => exact ih
      | facts h => exact ih.trans h.keeps
      | await => exact ih

end FlowTyping
