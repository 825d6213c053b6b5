import FlowTyping.Proofs.Kind.Store
import FlowTyping.Proofs.Soundness.Allow

/-!
# Elements of a new array

Main statement: `elementMask_arrayOf_allows_iff`. The elements of an array are listed without their
flags. So what was put into an array is described when it is taken out again, unless it is an object
that only the flag for subclasses accounted for.
-/

namespace FlowTyping

open Typing

variable {d : Declarations} {t t' : KindTable} {m : Mask} {v : Value}

/-- Without its flags a mask still describes a value, unless the value is an object of a class that
the mask does not list. -/
theorem Mask.Allows.shape_iff (hm : m.Fits t.size) (hg : t.Grows t') (hv : m.Allows d t v) :
    m.shape.Allows d t' v ↔
      ¬(m.any = false ∧ ∃ cls id, v = .object cls id ∧
        ∀ c, t.Offers m (.object c) → (cls == c) = false) := by
  constructor
  · rintro h ⟨hany, cls, id, rfl, hother⟩
    obtain ⟨k, ⟨i, hi, hk⟩, hof⟩ := h.exists_kind (m := m.shape) hany
    obtain ⟨k', hk', -⟩ := KindTable.kindAt_ok (hm.lt i hi)
    cases (hg.kind? hk').symm.trans hk
    cases k with
    | object c =>
        rcases hof with hsame | ⟨hsub, -⟩
        · exact Bool.noConfusion (hsame.symm.trans (hother c ⟨i, hi, hk'⟩))
        · exact Bool.false_ne_true hsub
    | _ => cases hof
  · intro hlisted
    apply Mask.Allows.grow hg
    cases hany : m.any with
    | true => exact .any hany
    | false =>
        obtain ⟨⟨k, hk, hof⟩, hitems⟩ := (Mask.Allows.iff_of_not_any hany).1 hv
        cases v with
        | object cls id =>
            -- The class itself is listed, perhaps beside one that the flag would extend.
            have hcls : ∃ c, t.Offers m (.object c) ∧ (cls == c) = true := by
              by_contra hnone
              refine hlisted ⟨hany, cls, id, rfl, fun c hc => ?_⟩
              exact Bool.eq_false_iff.2 fun hsame => hnone ⟨c, hc, hsame⟩
            obtain ⟨c, hc, hsame⟩ := hcls
            exact .plain (m := m.shape) hc (Or.inl hsame) rfl
        | _ => exact (Mask.Allows.iff_of_not_any (m := m.shape) hany).2 ⟨⟨k, hk, hof⟩, hitems⟩

/-- What a mask describes is described by what is found in an array of the mask, with one exception:
an object of a class that the mask does not list, so that only the flag for subclasses accounts for
it. A full table that does not list the array leaves out nothing. -/
theorem elementMask_arrayOf_allows_iff (ht : t.WellFormed) (hm : m.Fits t.size)
    (hv : m.Allows d t v) :
    Runs (KindTable.arrayOf m) t fun r t' => ∃ e, t'.elementMask r = .ok e ∧
      (e.Allows d t' v ↔
        ¬(m.any = false ∧ (t.size < t.cap ∨ (t.indexOf? (.array m.shape)).isSome = true) ∧
          ∃ cls id, v = .object cls id ∧ ∀ c, t.Offers m (.object c) → (cls == c) = false)) := by
  refine (KindTable.elementMask_arrayOf ht hm).mono fun r t' _ hg hr => ⟨_, hr, ?_⟩
  by_cases hlisted : t.size < t.cap ∨ (t.indexOf? (.array m.shape)).isSome = true
  · rw [if_pos hlisted, Mask.Allows.shape_iff hm hg hv]
    simp only [hlisted, true_and]
  · rw [if_neg hlisted]
    exact iff_of_true (.any rfl) fun h => hlisted h.2.1

namespace Wrapped

/-- The primitive kinds and `A`. -/
def table : KindTable :=
  (KindTable.new 0 60 none).push (.object ⟨"A"⟩) rfl

theorem wellFormed : table.WellFormed :=
  (KindTable.WellFormed.new 0 60 none).push rfl (by decide) fun _ h => Kind.noConfusion h

end Wrapped

/-- An object of the class that the mask lists. -/
theorem elementMask_arrayOf_allows_iff_of_listed :
    Wrapped.table.WellFormed ∧ Inherited.objects.Fits Wrapped.table.size ∧
      Inherited.objects.Allows Inherited.decls Wrapped.table (.object ⟨"A"⟩ 1) ∧
      Runs (KindTable.arrayOf Inherited.objects) Wrapped.table fun r t' => ∃ e,
        t'.elementMask r = .ok e ∧
        e.Allows Inherited.decls t' (.object ⟨"A"⟩ 1) := by
  have hallows : Inherited.objects.Allows Inherited.decls Wrapped.table (.object ⟨"A"⟩ 1) :=
    Inherited.allows rfl .refl
  have hruns := elementMask_arrayOf_allows_iff Wrapped.wellFormed
    (Inherited.fits (by decide)) hallows
  refine ⟨Wrapped.wellFormed, (Inherited.fits (by decide)), hallows,
    hruns.mono fun r t' _ _ h => ?_⟩
  obtain ⟨e, he, hiff⟩ := h
  refine ⟨e, he, hiff.2 ?_⟩
  -- The mask lists the very class of the object.
  rintro ⟨-, -, _, _, hobject, hother⟩
  cases hobject
  cases hother ⟨"A"⟩ ⟨6, by decide, rfl⟩

/-- Objects of `A` and of its subclasses are put into an array, and what is found in it counts as
objects of `A` alone, although an object of the subclass `B` may have been put in. -/
theorem not_allows_of_wrapped_subclass :
    Inherited.objects.Allows Inherited.decls Wrapped.table (.object ⟨"B"⟩ 1) ∧
      Inherited.objects.ref = false ∧ Inherited.objects.void = false ∧
      Runs (KindTable.arrayOf Inherited.objects) Wrapped.table fun r t' => ∃ e,
        t'.elementMask r = .ok e ∧
        ¬e.Allows Inherited.decls t' (.object ⟨"B"⟩ 1) := by
  have hallows : Inherited.objects.Allows Inherited.decls Wrapped.table (.object ⟨"B"⟩ 1) :=
    Inherited.allows rfl Inherited.extends_base
  refine ⟨hallows, rfl, rfl, ?_⟩
  refine (KindTable.elementMask_arrayOf Wrapped.wellFormed (Inherited.fits (by decide))).mono
    fun r t' _ hg hr => ⟨_, hr, ?_⟩
  rw [if_pos (Or.inl (by decide)), Mask.Allows.shape_iff (Inherited.fits (by decide)) hg hallows,
    not_not]
  refine ⟨rfl, _, _, rfl, ?_⟩
  rintro c ⟨i, -, hk⟩
  have hmem : Kind.object c ∈ Kind.primitives ++ [.object ⟨"A"⟩] := List.mem_of_getElem? hk
  have hc : c = ⟨"A"⟩ := by simpa [Kind.primitives] using hmem
  rw [hc]
  decide

end FlowTyping
