import FlowTyping.Proofs.Lattice
import Mathlib.Algebra.GroupWithZero.Nat
import Mathlib.Data.Finset.Card

/-!
# Ranks

The rank of a mask, a slot or a state counts how far it is up its lattice. Main statement:
`State.rank_lt_of_join`. A join that changes a state raises its rank, and the rank of a state is
bounded by the number of its variables alone, so that a state can change only so often.
-/

namespace FlowTyping

namespace Mask

variable {a b : Mask}

/-- The numbers of the kinds in the mask. -/
def kindSet (m : Mask) : Finset Nat :=
  (Finset.range kindLimit).filter fun i => m.has i = true

theorem mem_kindSet {m : Mask} {i : Nat} : i ∈ m.kindSet ↔ m.has i = true := by
  rw [kindSet, Finset.mem_filter, Finset.mem_range]
  constructor
  · intro h
    exact h.2
  · intro h
    exact ⟨lt_of_has h, h⟩

/-- A mask lists sixty kinds at most. -/
theorem card_kindSet_le (m : Mask) : m.kindSet.card ≤ 60 := by
  calc m.kindSet.card ≤ (Finset.range kindLimit).card := Finset.card_filter_le _ _
    _ = 60 := Finset.card_range 60

/-- Two masks with the same kinds have the same bits. -/
theorem kinds_eq_of_kindSet (h : a.kindSet = b.kindSet) : a.kinds = b.kinds := by
  apply BitVec.eq_of_getLsbD_eq
  intro i _
  have hi : i ∈ a.kindSet ↔ i ∈ b.kindSet := by rw [h]
  rw [mem_kindSet, mem_kindSet] at hi
  exact Bool.eq_iff_iff.2 hi

/-- How many kinds the mask lists; any value counts for more than all kinds. -/
def breadth (m : Mask) : Nat :=
  if m.any then 61 else m.kindSet.card

/-- The place of a mask in the lattice. -/
def rank (m : Mask) : Nat :=
  m.breadth + m.subclasses.toNat + m.void.toNat + m.ref.toNat

/-- Any value counts for more than all kinds together. -/
theorem breadth_le (m : Mask) : m.breadth ≤ 61 := by
  rw [breadth]
  split
  · exact Nat.le_refl _
  · exact Nat.le_succ_of_le m.card_kindSet_le

/-- What a mask lists counts for 61 at most, and three flags count for one each. -/
theorem rank_le (m : Mask) : m.rank ≤ 64 := by
  have hbreadth := m.breadth_le
  have hsub := m.subclasses.toNat_le
  have hvoid := m.void.toNat_le
  have href := m.ref.toNat_le
  rw [rank]
  omega

theorem breadth_le_union (a b : Mask) : a.breadth ≤ (a ∪ b).breadth := by
  rw [breadth, breadth, any_union]
  cases ha : a.any with
  | true => simp
  | false =>
      cases hb : b.any with
      | true => simpa using Nat.le_succ_of_le a.card_kindSet_le
      | false =>
          apply Finset.card_le_card
          intro i hi
          rw [mem_kindSet] at hi ⊢
          rw [has_union, ha, hb, hi]
          rfl

/-- A union of the same breadth lists the same kinds. -/
theorem union_of_breadth_eq (ha : a.Normal) (h : (a ∪ b).breadth = a.breadth) :
    (a ∪ b).kinds = a.kinds ∧ (a ∪ b).any = a.any := by
  cases hany : a.any with
  | true =>
      have hu : (a ∪ b).any = true := by rw [any_union, hany, Bool.true_or]
      exact ⟨(normal_union hu).trans (ha hany).symm, hu⟩
  | false =>
      have hcard := a.card_kindSet_le
      have hu : (a ∪ b).any = false := by
        cases hu : (a ∪ b).any with
        | false => rfl
        | true =>
            rw [breadth, breadth, hu, hany] at h
            simp only [if_true, Bool.false_eq_true, if_false] at h
            omega
      refine ⟨?_, hu⟩
      rw [breadth, breadth, hu, hany] at h
      simp only [Bool.false_eq_true, if_false] at h
      apply kinds_eq_of_kindSet
      symm
      apply Finset.eq_of_subset_of_card_le _ (Nat.le_of_eq h)
      intro i hi
      rw [mem_kindSet] at hi ⊢
      rw [any_union, Bool.or_eq_false_iff] at hu
      rw [has_union, hu.1, hu.2, hi]
      rfl

/-- Joining something in does not lower the rank. -/
theorem rank_le_union (a b : Mask) : a.rank ≤ (a ∪ b).rank := by
  have hbreadth := breadth_le_union a b
  rw [rank, rank, subclasses_union, void_union, ref_union]
  cases a.subclasses <;> cases a.void <;> cases a.ref <;>
    simp only [Bool.false_or, Bool.true_or, Bool.toNat_true, Bool.toNat_false] <;> omega

/-- A union that adds something has a higher rank. -/
theorem rank_lt_union (ha : a.Normal) (h : a ∪ b ≠ a) : a.rank < (a ∪ b).rank := by
  apply Nat.lt_of_le_of_ne (rank_le_union a b)
  intro heq
  have hbreadth := breadth_le_union a b
  have hflag (x y : Bool) : x.toNat ≤ (x || y).toNat := by cases x <;> cases y <;> decide
  have hsub := hflag a.subclasses b.subclasses
  have hvoid := hflag a.void b.void
  have href := hflag a.ref b.ref
  rw [rank, rank, subclasses_union, void_union, ref_union] at heq
  -- No summand goes down, so that equal ranks agree in each of them.
  have hsame : (a ∪ b).breadth = a.breadth ∧
      (a.subclasses || b.subclasses).toNat = a.subclasses.toNat ∧
      (a.void || b.void).toNat = a.void.toNat ∧ (a.ref || b.ref).toNat = a.ref.toNat := by omega
  have hinj : ∀ x y : Bool, x.toNat = y.toNat → x = y := by decide
  obtain ⟨hkinds, hany⟩ := union_of_breadth_eq ha hsame.1
  apply h
  apply Mask.ext hkinds hany
  · rw [subclasses_union]
    exact hinj _ _ hsame.2.1
  · rw [void_union]
    exact hinj _ _ hsame.2.2.1
  · rw [ref_union]
    exact hinj _ _ hsame.2.2.2

end Mask

namespace Slot

variable {a b : Slot}

/-- The place of a slot in the lattice: sharing a variable counts for more than any mask. -/
def rank (s : Slot) : Nat :=
  (if s.shared then 65 else s.mask.rank) + (!s.assigned).toNat + (!s.belowMax).toNat

theorem rank_le (s : Slot) : s.rank ≤ 67 := by
  have hmask : (if s.shared then 65 else s.mask.rank) ≤ 65 := by
    split
    · exact Nat.le_refl _
    · exact Nat.le_succ_of_le s.mask.rank_le
  have hassigned := (!s.assigned).toNat_le
  have hbelow := (!s.belowMax).toNat_le
  rw [rank]
  omega

/-- A join that changes a slot raises its rank. -/
theorem rank_lt_join (ha : a.Proper) (h : a.join b ≠ a) : a.rank < (a.join b).rank := by
  have hflag (x y : Bool) : (!x).toNat ≤ (!(x && y)).toNat ∧
      ((!(x && y)).toNat = (!x).toNat → (x && y) = x) := by
    cases x <;> cases y <;> decide
  obtain ⟨hassigned, hassigned'⟩ := hflag a.assigned b.assigned
  obtain ⟨hbelow, hbelow'⟩ := hflag a.belowMax b.belowMax
  have hmask : (if a.shared then 65 else a.mask.rank) ≤
        (if a.shared || b.shared then 65 else (a.mask ∪ b.mask).rank) ∧
      ((if a.shared || b.shared then 65 else (a.mask ∪ b.mask).rank) =
          (if a.shared then 65 else a.mask.rank) →
        (a.join b).mask = a.mask ∧ (a.shared || b.shared) = a.shared) := by
    cases hs : a.shared with
    | true => simp [join, hs, ha.shared hs]
    | false =>
        have hle := a.mask.rank_le
        cases hs' : b.shared with
        | true =>
            simp only [Bool.false_or, if_true, Bool.false_eq_true, if_false]
            exact ⟨by omega, fun heq => by omega⟩
        | false =>
            simp only [join, hs, hs', Bool.false_or, Bool.false_eq_true, if_false]
            refine ⟨Mask.rank_le_union .., fun heq => ⟨?_, trivial⟩⟩
            by_contra hne
            exact absurd heq (Nat.ne_of_gt (Mask.rank_lt_union ha.normal hne))
  apply Nat.lt_of_not_le
  intro hge
  apply h
  have hsame : (a.join b).rank = (if a.shared || b.shared then 65 else (a.mask ∪ b.mask).rank) +
      (!(a.assigned && b.assigned)).toNat + (!(a.belowMax && b.belowMax)).toNat := by
    rw [rank]
    cases hs : a.shared || b.shared <;> simp [join, hs]
  rw [hsame, rank] at hge
  obtain ⟨hm, hshared⟩ := hmask.2 (by omega)
  exact Slot.ext hm (hassigned' (by omega)) hshared (hbelow' (by omega))

theorem rank_le_join (ha : a.Proper) : a.rank ≤ (a.join b).rank := by
  by_cases h : a.join b = a
  · rw [h]
  · exact Nat.le_of_lt (rank_lt_join ha h)

end Slot

namespace State

variable {a b j : State}

/-- The place of a state in the lattice. -/
def rank (s : State) : Nat :=
  (s.slots.map Slot.rank).sum

/-- The rank of a state is bounded by the number of its variables. -/
theorem rank_le (s : State) : s.rank ≤ 67 * s.slots.length := by
  rw [rank]
  induction s.slots with
  | nil => simp
  | cons x xs ih =>
      have hx := x.rank_le
      simp only [List.map_cons, List.sum_cons, List.length_cons]
      omega

/-- Joining slot by slot, the rank goes up unless nothing changes. -/
theorem rank_zipWith_join {xs ys : List Slot} (hxs : ∀ x ∈ xs, x.Proper)
    (hlength : xs.length = ys.length) :
    (xs.map Slot.rank).sum ≤ ((List.zipWith Slot.join xs ys).map Slot.rank).sum ∧
      (List.zipWith Slot.join xs ys ≠ xs →
        (xs.map Slot.rank).sum < ((List.zipWith Slot.join xs ys).map Slot.rank).sum) := by
  induction xs generalizing ys with
  | nil => simp
  | cons x xs ih =>
      cases ys with
      | nil => simp at hlength
      | cons y ys =>
          obtain ⟨hx, hxs⟩ := List.forall_mem_cons.1 hxs
          obtain ⟨hle, hlt⟩ := ih hxs (Nat.succ.inj hlength)
          have hhead : x.rank ≤ (x.join y).rank := Slot.rank_le_join hx
          simp only [List.zipWith_cons_cons, List.map_cons, List.sum_cons]
          refine ⟨by omega, fun hne => ?_⟩
          by_cases hxy : x.join y = x
          · have htail : List.zipWith Slot.join xs ys ≠ xs := fun heq => hne (by rw [hxy, heq])
            have := hlt htail
            omega
          · have := Slot.rank_lt_join hx hxy
            omega

/-- The rank of a state does not fall when another one is joined in. -/
theorem rank_le_of_join (ha : a.Proper) (h : a.join b = .ok j) : a.rank ≤ j.rank := by
  obtain ⟨-, hlength, rfl⟩ := join_eq_ok_iff.1 h
  exact (rank_zipWith_join ha hlength).1

/-- A join that changes a state raises its rank. -/
theorem rank_lt_of_join (ha : a.Proper) (h : a.join b = .ok j) (hne : j ≠ a) : a.rank < j.rank := by
  obtain ⟨-, hlength, rfl⟩ := join_eq_ok_iff.1 h
  apply (rank_zipWith_join ha hlength).2
  intro heq
  exact hne (State.ext rfl heq)

end State

end FlowTyping
