import FlowTyping.Mask.Word
import FlowTyping.Proofs.Mask.Walk
import Mathlib.Logic.Equiv.Defs

/-!
# Words and masks

Masks and words are the same thing: every word is the word of one mask, and what is done with words
bit by bit is what is done with their masks. Main statement: `types_enumerates`, by which the walk
through the type bits of any word lists exactly the kinds that the word has.
-/

namespace FlowTyping

namespace Word

variable {w : Word} {i : Nat}

/-! ### Bit by bit -/

/-- The type bits are the lowest sixty. -/
theorem getLsbD_typeBits : typeBits.getLsbD i = decide (i < kindLimit) := by
  have hones : typeBits = (BitVec.allOnes 60).setWidth 64 := by decide
  rw [hones, BitVec.getLsbD_setWidth, BitVec.getLsbD_allOnes]
  grind

theorem getLsbD_and_typeBits : (w &&& typeBits).getLsbD i =
      (decide (i < kindLimit) && w.getLsbD i) := by
  rw [BitVec.getLsbD_and, getLsbD_typeBits, Bool.and_comm]

/-- A single bit is tested by masking all others. -/
theorem and_shiftLeft_bne_zero (hi : i < 64) : (w &&& (1#64 <<< i) != 0#64) = w.getLsbD i := by
  change (w &&& BitVec.twoPow 64 i != 0#64) = _
  rw [BitVec.and_twoPow]
  cases w.getLsbD i with
  | true =>
      have hbit : (BitVec.twoPow 64 i).getLsbD i = true := by simp [hi]
      rw [if_pos rfl, bne_iff_ne]
      intro hzero
      rw [hzero] at hbit
      simp at hbit
  | false => rfl

/-- Any value has the bit after those of the kinds. -/
theorem isAny_eq (w : Word) : w.isAny = w.getLsbD 60 :=
  and_shiftLeft_bne_zero (by decide)

/-- A word has a kind just if the kind is within the limit and its bit is set. -/
theorem hasType_eq (w : Word) (i : Nat) :
    w.hasType i = (decide (i < kindLimit) && w.getLsbD i) := by
  rw [hasType]
  by_cases hi : i < kindLimit
  · rw [and_shiftLeft_bne_zero (Nat.lt_trans hi (by decide))]
  · simp [hi]

/-- A union has the flags of both words, and their kinds unless one of them is any value. -/
theorem getLsbD_union (a b : Word) (i : Nat) :
    (a.union b).getLsbD i =
      ((a.getLsbD i || b.getLsbD i) &&
        !(decide (i < kindLimit) && (a.getLsbD 60 || b.getLsbD 60))) := by
  rw [union, normalize, isAny_eq, BitVec.getLsbD_or]
  split
  · rename_i hany
    rw [BitVec.getLsbD_and, BitVec.getLsbD_not, getLsbD_typeBits, BitVec.getLsbD_or, hany,
      Bool.and_true]
    by_cases hi : i < 64
    · simp [hi]
    · simp [BitVec.getLsbD_of_ge _ _ (Nat.le_of_not_lt hi)]
  · rename_i hany
    rw [Bool.not_eq_true] at hany
    rw [BitVec.getLsbD_or, hany, Bool.and_false, Bool.not_false, Bool.and_true]

end Word

namespace Mask

variable {w : Word}

/-! ### Words are masks -/

/-- A mask holds the whole word. -/
theorem toWord_ofWord (w : Word) : (ofWord w).toWord = w := by
  apply BitVec.eq_of_getLsbD_eq
  intro i hi
  have hplace : i < 60 ∨ i = 60 ∨ i = 61 ∨ i = 62 ∨ i = 63 := by omega
  simp only [ofWord, toWord, BitVec.getLsbD_append, BitVec.getLsbD_extractLsb',
    BitVec.getLsbD_ofBool]
  rcases hplace with hlt | rfl | rfl | rfl | rfl
  · simp [hlt]
  all_goals simp

/-- Masks are words. -/
def equivWord : Mask ≃ Word where
  toFun := toWord
  invFun := ofWord
  left_inv := ofWord_toWord
  right_inv := toWord_ofWord

theorem has_ofWord (w : Word) (i : Nat) : (ofWord w).has i = w.hasType i := by
  rw [Word.hasType_eq, has, ofWord, BitVec.getLsbD_extractLsb', Nat.zero_add]

/-- A mask lists the kinds that its word walks through. -/
theorem members_ofWord (w : Word) : (ofWord w).members = w.types := by
  apply walk_eq_of_increasing (walk_increasing _)
  intro i
  rw [mem_walk, Word.getLsbD_and_typeBits, ← Word.hasType_eq, ← has_ofWord, has]

/-- A mask counts the kinds as its word does. -/
theorem count_ofWord (w : Word) : (ofWord w).count = w.typeCount := by
  rw [count_eq, members_ofWord, Word.typeCount, toNat_cpop_eq_length, Word.types]

/-- The union of words is the union of their masks. -/
theorem ofWord_union (a b : Word) : ofWord (a.union b) = ofWord a ∪ ofWord b := by
  have hflag {i : Nat} (hi : ¬i < kindLimit) :
      (a.union b).getLsbD i = (a.getLsbD i || b.getLsbD i) := by
    rw [Word.getLsbD_union, decide_eq_false hi, Bool.false_and, Bool.not_false, Bool.and_true]
  apply eq_of_has
  · intro i
    rw [has_union, has_ofWord, has_ofWord, has_ofWord]
    simp only [Word.hasType_eq, Word.getLsbD_union, ofWord]
    grind
  · exact (hflag (by decide)).trans (any_union (ofWord a) (ofWord b)).symm
  · exact (hflag (by decide)).trans (subclasses_union (ofWord a) (ofWord b)).symm
  · exact (hflag (by decide)).trans (void_union (ofWord a) (ofWord b)).symm
  · exact (hflag (by decide)).trans (ref_union (ofWord a) (ofWord b)).symm

theorem ofWord_shiftLeft {i : Nat} (hi : i < kindLimit) : ofWord (1#64 <<< i) = bit i := by
  have hplace (j : Nat) : (1#64 <<< i).getLsbD j = decide (i = j) := by
    have hlt : i < 64 := Nat.lt_trans hi (by decide)
    exact (BitVec.getLsbD_twoPow i j).trans (by rw [decide_eq_true hlt, Bool.true_and])
  have hflag {j : Nat} (hj : ¬j < kindLimit) : (1#64 <<< i).getLsbD j = false := by
    rw [hplace]
    exact decide_eq_false fun heq => hj (heq ▸ hi)
  apply eq_of_has
  · intro j
    rw [has_ofWord, Word.hasType_eq, hplace, has_bit]
    grind
  · exact hflag (by decide)
  · exact hflag (by decide)
  · exact hflag (by decide)
  · exact hflag (by decide)

/-- The word of a kind is the word of its mask. -/
theorem map_ofWord_fromIndex (i : Nat) : (Word.fromIndex i).map ofWord = ofIndex i := by
  rw [Word.fromIndex, ofIndex]
  split
  · rename_i hi
    exact congrArg Except.ok (ofWord_shiftLeft hi)
  · rfl

/-- The type bits alone are a mask without flags. -/
theorem ofWord_and_typeBits (w : Word) :
    ofWord (w &&& Word.typeBits) = { empty with kinds := (ofWord w).kinds } := by
  have hflag {j : Nat} (hj : ¬j < kindLimit) : (w &&& Word.typeBits).getLsbD j = false := by
    rw [Word.getLsbD_and_typeBits, decide_eq_false hj, Bool.false_and]
  apply eq_of_has
  · intro i
    change (ofWord _).has i = (ofWord w).has i
    rw [has_ofWord, has_ofWord, Word.hasType_eq, Word.hasType_eq, Word.getLsbD_and_typeBits]
    grind
  · exact hflag (by decide)
  · exact hflag (by decide)
  · exact hflag (by decide)
  · exact hflag (by decide)

/-- A loop that unites words is a loop that unites their masks. -/
theorem map_ofWord_foldlM (numbers : List Nat) (w : Word) :
    (numbers.foldlM (fun acc i => do return Word.union acc (← Word.fromIndex i)) w).map ofWord =
      numbers.foldlM (fun acc i => do return acc ∪ (← ofIndex i)) (ofWord w) := by
  induction numbers generalizing w with
  | nil => rfl
  | cons i numbers ih =>
      rw [List.foldlM_cons, List.foldlM_cons, ← map_ofWord_fromIndex]
      cases Word.fromIndex i with
      | error fault => rfl
      | ok bit =>
          refine (ih (w.union bit)).trans ?_
          rw [ofWord_union]
          rfl

end Mask

namespace Word

open Mask

/-- Adding up the kinds of a word gives back its type bits. -/
theorem foldlM_fromIndex_types (w : Word) :
    w.types.foldlM (fun acc i => do return union acc (← fromIndex i)) 0#64 =
      .ok (w &&& typeBits) := by
  have hmask : (w.types.foldlM (fun acc i => do return union acc (← fromIndex i)) 0#64).map ofWord =
      .ok (ofWord (w &&& typeBits)) := by
    have hzero : ofWord 0#64 = empty := by decide
    rw [map_ofWord_foldlM, ← members_ofWord, hzero,
      foldlM_ofIndex fun i hi => lt_of_has (mem_members.1 hi), empty_withBits_members,
      ofWord_and_typeBits]
  cases hfold : w.types.foldlM (fun acc i => do return union acc (← fromIndex i)) 0#64 with
  | error fault =>
      rw [hfold] at hmask
      cases hmask
  | ok sum =>
      rw [hfold] at hmask
      exact congrArg Except.ok (equivWord.symm.injective (Except.ok.inj hmask))

/-- The walk through the type bits of a word, normal or not and under any flags, comes to its end
and lists in increasing order exactly the numbers of the kinds that the word has, as many as it
counts. Added up, they give back the type bits of the word without the flags and "any value". All
this is what it is for the mask of the word. -/
theorem types_enumerates (w : Word) :
    (∀ l, Yields (w &&& typeBits) l ↔ l = w.types) ∧
      w.types.Pairwise (· < ·) ∧
      (∀ i, i ∈ w.types ↔ i < kindLimit ∧ w.hasType i = true) ∧
      w.types.length = w.typeCount ∧
      w.types.foldlM (fun acc i => do return union acc (← fromIndex i)) 0#64 =
        .ok (w &&& typeBits) ∧
      w.types = (ofWord w).members ∧ (∀ i, w.hasType i = (ofWord w).has i) ∧
      w.typeCount = (ofWord w).count := by
  refine ⟨fun _ => yields_iff, walk_increasing _, fun i => ?_, (toNat_cpop_eq_length _).symm,
    foldlM_fromIndex_types w, (members_ofWord w).symm, fun i => (has_ofWord w i).symm,
    (count_ofWord w).symm⟩
  rw [types, mem_walk, getLsbD_and_typeBits, ← hasType_eq]
  refine ⟨fun hi => ⟨?_, hi⟩, And.right⟩
  rw [hasType_eq, Bool.and_eq_true] at hi
  exact of_decide_eq_true hi.1

/-- A word that is not normal: "any value" and "shared" beside three kinds. -/
example : types 0x9800000000000012#64 = [1, 4, 59] := by
  decide +kernel

end Word

end FlowTyping
