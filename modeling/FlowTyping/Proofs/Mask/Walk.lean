import FlowTyping.Proofs.Lattice

/-!
# Walking through the bits of a word

A walk takes the lowest bit out of a word until nothing is left. One step splits the bits into the
lowest one and those above it, so the whole walk lists every place once and in increasing order, as
many as there are bits. The kinds of a mask are listed so, and the listed kinds add up to the mask.
-/

namespace FlowTyping

namespace Mask

variable {m : Mask} {n i j k : Nat} {bits rest : BitVec n}

/-! ### One step -/

/-- Adding all ones carries into a place when there is a one below it. -/
theorem carry_allOnes (hk : k ≤ n) :
    BitVec.carry k bits (BitVec.allOnes n) false = true ↔ ∃ j < k, bits.getLsbD j = true := by
  induction k with
  | zero => simp
  | succ k ih =>
      have hone : (BitVec.allOnes n).getLsbD k = true := by
        rw [BitVec.getLsbD_allOnes]
        exact decide_eq_true hk
      have hcarry : BitVec.carry (k + 1) bits (BitVec.allOnes n) false =
          (bits.getLsbD k || BitVec.carry k bits (BitVec.allOnes n) false) := by
        rw [BitVec.carry_succ, hone]
        cases bits.getLsbD k <;> simp
      rw [hcarry, Bool.or_eq_true, ih (Nat.le_of_lt hk)]
      simp only [Nat.lt_succ_iff_lt_or_eq, or_and_right, exists_or, exists_eq_left]
      exact or_comm

/-- A word shares with its predecessor all of its bits but the lowest. -/
theorem getLsbD_and_pred :
    (bits &&& (bits - 1#n)).getLsbD j = true ↔
      bits.getLsbD j = true ∧ ∃ i < j, bits.getLsbD i = true := by
  rw [BitVec.getLsbD_and, Bool.and_eq_true]
  apply and_congr_right
  intro hj
  have hlt : j < n := BitVec.lt_of_getLsbD hj
  -- Subtracting one is adding all ones, so the bit stays when the addition carries into it.
  rw [BitVec.sub_eq_add_neg, BitVec.neg_one_eq_allOnes, BitVec.getLsbD_add hlt, hj,
    BitVec.getLsbD_allOnes, decide_eq_true hlt, ← carry_allOnes (Nat.le_of_lt hlt)]
  simp

/-- The walk is at its end just if no bit is left. -/
theorem next?_eq_none : next? bits = none ↔ bits = 0#n := by
  rw [next?]
  split <;> simp_all

/-- One step splits the bits of a word into the lowest one and those above it. -/
theorem next?_splits (h : next? bits = some (i, rest)) :
    (∀ j, bits.getLsbD j = true ↔ j = i ∨ rest.getLsbD j = true) ∧
      ∀ j, rest.getLsbD j = true → i < j := by
  rw [next?] at h
  split at h
  · cases h
  rename_i hne
  cases h
  have hmem : bits.getLsbD bits.ctz.toNat = true := BitVec.getLsbD_true_ctz_of_ne_zero hne
  have hlow (j : Nat) (hj : bits.getLsbD j = true) : bits.ctz.toNat ≤ j := by
    apply Nat.le_of_not_lt
    intro hlt
    rw [BitVec.getLsbD_false_of_lt_ctz hlt] at hj
    cases hj
  simp only [getLsbD_and_pred]
  constructor
  · intro j
    constructor
    · intro hj
      rcases Nat.eq_or_lt_of_le (hlow j hj) with heq | hlt
      · exact Or.inl heq.symm
      · exact Or.inr ⟨hj, _, hlt, hmem⟩
    · rintro (rfl | ⟨hj, -⟩)
      · exact hmem
      · exact hj
  · rintro j ⟨-, i, hij, hi⟩
    exact Nat.lt_of_le_of_lt (hlow i hi) hij

/-! ### The whole walk -/

theorem walk_of_none (h : next? bits = none) : walk bits = [] := by
  rw [walk]
  split
  · rfl
  · rename_i hsome
    cases h.symm.trans hsome

theorem walk_of_some (h : next? bits = some (i, rest)) : walk bits = i :: walk rest := by
  rw [walk]
  split
  · rename_i hnone
    cases h.symm.trans hnone
  · rename_i hsome
    cases h.symm.trans hsome
    rfl

theorem walk_zero : walk 0#n = [] :=
  walk_of_none (next?_eq_none.2 rfl)

/-- The walk lists the places of the bits. -/
theorem mem_walk : j ∈ walk bits ↔ bits.getLsbD j = true := by
  fun_induction walk bits with
  | case1 bits h =>
      rw [next?_eq_none.1 h]
      simp
  | case2 bits i rest h ih => rw [List.mem_cons, ih, (next?_splits h).1]

/-- The walk goes upwards. -/
theorem walk_increasing (bits : BitVec n) : (walk bits).Pairwise (· < ·) := by
  fun_induction walk bits with
  | case1 => exact List.Pairwise.nil
  | case2 bits i rest h ih => exact ih.cons fun j hj => (next?_splits h).2 j (mem_walk.1 hj)

/-- A word, walked through to the end, yields a list of places. -/
inductive Yields {n : Nat} : BitVec n → List Nat → Prop
  | done {bits : BitVec n} (h : next? bits = none) : Yields bits []
  | step {bits rest : BitVec n} {i : Nat} {l : List Nat} (h : next? bits = some (i, rest))
      (tail : Yields rest l) : Yields bits (i :: l)

/-- Every walk comes to its end, and in one way only. -/
theorem yields_iff {l : List Nat} : Yields bits l ↔ l = walk bits := by
  constructor
  · intro hl
    induction hl with
    | done h => exact (walk_of_none h).symm
    | step h tail ih => rw [walk_of_some h, ih]
  · rintro rfl
    fun_induction walk bits with
    | case1 bits h => exact .done h
    | case2 bits i rest h ih => exact .step h ih

/-- A walk lists what any increasing list of the places of the bits lists. -/
theorem walk_eq_of_increasing {l : List Nat} (hl : l.Pairwise (· < ·))
    (hmem : ∀ i, i ∈ l ↔ bits.getLsbD i = true) : walk bits = l := by
  have hwalk := walk_increasing bits
  have hperm : (walk bits).Perm l := by
    rw [List.perm_ext_iff_of_nodup (hwalk.imp Nat.ne_of_lt) (hl.imp Nat.ne_of_lt)]
    intro i
    rw [mem_walk, hmem]
  exact hperm.eq_of_pairwise (fun _ _ _ _ hlt hgt => absurd hgt (Nat.lt_asymm hlt)) hwalk hl

/-- The walk is the list of all places, but for those without a bit. -/
theorem walk_eq_filter (bits : BitVec n) : walk bits = (List.range n).filter bits.getLsbD := by
  apply walk_eq_of_increasing (List.pairwise_lt_range.filter _)
  intro i
  rw [List.mem_filter, List.mem_range]
  exact ⟨And.right, fun hi => ⟨BitVec.lt_of_getLsbD hi, hi⟩⟩

/-- Counting the bits below a bound. -/
theorem cpopNatRec_eq_length (bits : BitVec n) (k : Nat) :
    bits.cpopNatRec k 0 = ((List.range k).filter bits.getLsbD).length := by
  induction k with
  | zero => rfl
  | succ k ih =>
      rw [BitVec.cpopNatRec_succ, BitVec.cpopNatRec_add, ih, List.range_succ, List.filter_append,
        List.length_append]
      cases hk : bits.getLsbD k <;> simp [hk]

/-- A walk comes to as many places as there are bits. -/
theorem toNat_cpop_eq_length (bits : BitVec n) : bits.cpop.toNat = (walk bits).length := by
  rw [BitVec.toNat_cpop, cpopNatRec_eq_length, walk_eq_filter]

/-! ### The kinds of a mask -/

/-- The numbers that a mask lists are those of its kinds. -/
theorem mem_members : i ∈ m.members ↔ m.has i = true :=
  mem_walk

/-- The kinds of a mask are those below the limit that it has. -/
theorem members_eq_filter (m : Mask) : m.members = (List.range kindLimit).filter m.has :=
  walk_eq_filter m.kinds

/-- The bits are counted as the walk counts them. -/
theorem count_eq (m : Mask) : m.count = m.members.length :=
  toNat_cpop_eq_length m.kinds

/-! ### Adding up kinds -/

/-- Masks with the same kinds and flags are the same. -/
theorem eq_of_has {a b : Mask} (hhas : ∀ i, a.has i = b.has i) (hany : a.any = b.any)
    (hsubclasses : a.subclasses = b.subclasses) (hvoid : a.void = b.void) (href : a.ref = b.ref) :
    a = b := by
  ext i
  · rw [← BitVec.getLsbD_eq_getElem, ← BitVec.getLsbD_eq_getElem]
    exact hhas i
  · rw [hany]
  · rw [hsubclasses]
  · rw [hvoid]
  · rw [href]

/-- The mask with some more kinds. -/
def withBits (m : Mask) (numbers : List Nat) : Mask :=
  numbers.foldl (fun acc i => acc ∪ .bit i) m

variable {numbers : List Nat}

theorem withBits_cons (m : Mask) (i : Nat) (numbers : List Nat) :
    m.withBits (i :: numbers) = (m ∪ .bit i).withBits numbers :=
  rfl

theorem any_withBits : (m.withBits numbers).any = m.any := by
  induction numbers generalizing m with
  | nil => rfl
  | cons i numbers ih =>
      rw [withBits_cons, ih, any_union, show (bit i).any = false from rfl, Bool.or_false]

/-- Adding bits leaves the flags alone. -/
theorem flags_withBits : (m.withBits numbers).flags = m.flags := by
  induction numbers generalizing m with
  | nil => rfl
  | cons i numbers ih =>
      rw [withBits_cons, ih]
      simp [flags, bit]

/-- Adding bits lists them, if they are within the limit. -/
theorem has_withBits (hm : m.any = false) {j : Nat} :
    (m.withBits numbers).has j = true ↔ m.has j = true ∨ j < kindLimit ∧ j ∈ numbers := by
  induction numbers generalizing m with
  | nil => simp [withBits]
  | cons i numbers ih =>
      have hany : (m ∪ bit i).any = false := by rw [any_union, hm]; rfl
      rw [withBits_cons, ih hany, has_union, has_bit, hm, show (bit i).any = false from rfl]
      grind

/-- Adding up the kinds of a mask gives back its kinds and nothing else. -/
theorem empty_withBits_members (m : Mask) :
    empty.withBits m.members = { empty with kinds := m.kinds } := by
  have hflags : (empty.withBits m.members).flags = empty.flags := flags_withBits
  apply eq_of_has
  · intro i
    rw [Bool.eq_iff_iff, has_withBits rfl, mem_members]
    constructor
    · rintro (hempty | ⟨_, hi⟩)
      · simp [empty, has] at hempty
      · exact hi
    · intro hi
      exact Or.inr ⟨lt_of_has hi, hi⟩
  · exact any_withBits
  · exact (congrArg Mask.subclasses hflags :)
  · exact (congrArg Mask.void hflags :)
  · exact (congrArg Mask.ref hflags :)

/-- Adding up the masks of some numbers adds their bits. -/
theorem foldlM_ofIndex (hnumbers : ∀ i ∈ numbers, i < kindLimit) :
    numbers.foldlM (fun acc i => do return acc ∪ (← ofIndex i)) m = .ok (m.withBits numbers) := by
  induction numbers generalizing m with
  | nil => rfl
  | cons i numbers ih =>
      obtain ⟨hi, hrest⟩ := List.forall_mem_cons.1 hnumbers
      rw [List.foldlM_cons, ofIndex, if_pos hi, withBits_cons]
      exact ih hrest

end Mask

end FlowTyping
