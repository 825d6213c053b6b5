import FlowTyping.Fault

/-!
# Masks

A mask says which values may occur at a point: a set of kinds, given by their numbers in a kind
table, or any value at all. Three flags ride along: class kinds stand for their subclasses too, a
routine may end without a value, and the value may be shared through a reference.
-/

namespace FlowTyping

/-- Number of kinds that a mask can tell apart. -/
abbrev kindLimit : Nat := 60

/-- What a value may be: some of the kinds that a table lists, or any value; and what else is
known. -/
@[ext]
structure Mask where
  kinds : BitVec 60
  any : Bool
  subclasses : Bool
  void : Bool
  ref : Bool
  deriving DecidableEq, Repr, Inhabited

namespace Mask

/-- No value. -/
def empty : Mask :=
  ⟨0#60, false, false, false, false⟩

/-- Any value. -/
def top : Mask :=
  ⟨0#60, true, false, false, false⟩

/-- The values of one kind. -/
def bit (i : Nat) : Mask :=
  ⟨BitVec.twoPow 60 i, false, false, false, false⟩

/-- The values of one kind, for a number that a mask has a bit for. -/
def ofIndex (i : Nat) : Except Fault Mask :=
  if i < kindLimit then .ok (bit i) else .error (.kindIndex i)

/-- The mask lists the kind with a number. -/
def has (m : Mask) (i : Nat) : Bool :=
  m.kinds.getLsbD i

/-- No kind and not any value; the flags do not count. -/
def isEmpty (m : Mask) : Bool :=
  m.kinds == 0#60 && !m.any

/-- The mask with or without the mark of a reference. -/
def withRef (m : Mask) (b : Bool) : Mask :=
  { m with ref := b }

/-- The mask with or without the mark that nothing may be returned. -/
def withVoid (m : Mask) (b : Bool) : Mask :=
  { m with void := b }

/-- The mask with or without the mark that its classes stand for their subclasses too. -/
def withSubclasses (m : Mask) (b : Bool) : Mask :=
  { m with subclasses := b }

/-- The mask without its flags. -/
def shape (m : Mask) : Mask :=
  ⟨m.kinds, m.any, false, false, false⟩

/-- The flags alone, on no kind. -/
def flags (m : Mask) : Mask :=
  ⟨0#60, false, m.subclasses, m.void, m.ref⟩

/-- Any value absorbs every kind. -/
def normalize (m : Mask) : Mask :=
  if m.any then { m with kinds := 0#60 } else m

/-- The values of either mask, with the flags of both. -/
def union (a b : Mask) : Mask :=
  normalize
    ⟨a.kinds ||| b.kinds, a.any || b.any, a.subclasses || b.subclasses, a.void || b.void,
      a.ref || b.ref⟩

instance : Union Mask :=
  ⟨union⟩

/-- Takes the kinds of `b` out of `a`; nothing can be taken out of any value. -/
def without (a b : Mask) : Mask :=
  if a.any then a else { a with kinds := a.kinds &&& ~~~b.kinds }

/-- Every value of `b` is a value of `a`. -/
def contains (a b : Mask) : Bool :=
  a.any || (!b.any && b.kinds &&& ~~~a.kinds == 0#60)

/-- One step of a walk through the bits of a word, lowest first: the place it comes to, and the bits
that are left. Subtracting one clears the lowest bit and sets only bits that the word does not
have. -/
def next? {n : Nat} (bits : BitVec n) : Option (Nat × BitVec n) :=
  if bits = 0#n then none else some (bits.ctz.toNat, bits &&& (bits - 1#n))

/-- What is left is a smaller word. -/
theorem toNat_lt_of_next? {n i : Nat} {bits rest : BitVec n} (h : next? bits = some (i, rest)) :
    rest.toNat < bits.toNat := by
  rw [next?] at h
  split at h
  · cases h
  · rename_i hne
    cases h
    have hpos : 0 < bits.toNat := Nat.pos_of_ne_zero fun h0 => hne (BitVec.eq_of_toNat_eq h0)
    have hone : (1#n).toNat = 1 := by
      rw [BitVec.toNat_ofNat]
      exact Nat.mod_eq_of_lt (Nat.lt_of_le_of_lt hpos bits.isLt)
    have hle : 1#n ≤ bits := BitVec.le_def.2 (Nat.le_trans (Nat.le_of_eq hone) hpos)
    have hpred : (bits - 1#n).toNat = bits.toNat - 1 := by
      rw [BitVec.toNat_sub_of_le hle, hone]
    have hand : (bits &&& (bits - 1#n)).toNat ≤ (bits - 1#n).toNat := by
      rw [BitVec.toNat_and]
      exact Nat.and_le_right
    omega

-- Open to unfolding, so that what is said of given masks can be evaluated.
/-- The places that a walk comes to. -/
@[semireducible]
def walk {n : Nat} (bits : BitVec n) : List Nat :=
  match _h : next? bits with
  | none => []
  | some (i, rest) => i :: walk rest
termination_by bits.toNat
decreasing_by exact toNat_lt_of_next? ‹_›

/-- The numbers of the kinds in the mask, in increasing order. -/
def members (m : Mask) : List Nat :=
  walk m.kinds

/-- How many kinds the mask has. -/
def count (m : Mask) : Nat :=
  m.kinds.cpop.toNat

/-- Values of exactly one kind. -/
def isSingle (m : Mask) : Bool :=
  !m.any && m.count == 1

/-! ### Membership -/

/-- A mask has no kinds beyond the limit. -/
theorem lt_of_has {m : Mask} {i : Nat} (h : m.has i = true) : i < kindLimit :=
  BitVec.lt_of_getLsbD h

/-- A bit beyond the limit lists nothing. -/
theorem has_bit (i j : Nat) : (bit i).has j = (decide (i < kindLimit) && decide (i = j)) :=
  BitVec.getLsbD_twoPow i j

theorem any_union (a b : Mask) : (a ∪ b).any = (a.any || b.any) := by
  change (normalize _).any = _
  rw [normalize]
  split <;> rfl

/-- Unless it is any value, a union has the kinds of both sides. -/
theorem has_union (a b : Mask) (i : Nat) :
    (a ∪ b).has i = (!(a.any || b.any) && (a.has i || b.has i)) := by
  change (normalize _).has i = _
  rw [normalize]
  split
  · rename_i h
    have hab : (a.any || b.any) = true := h
    simp [has, hab]
  · rename_i h
    have hab : (a.any || b.any) = false := by simpa using h
    simp only [has, hab, BitVec.getLsbD_or, Bool.not_false, Bool.true_and]

/-- A mask contains another one if it allows any value, or lists every kind of the other. -/
theorem contains_iff {a b : Mask} :
    a.contains b = true ↔ a.any = true ∨ b.any = false ∧ ∀ i, b.has i = true → a.has i = true := by
  simp only [contains, Bool.or_eq_true, Bool.and_eq_true, Bool.not_eq_true', beq_iff_eq]
  refine or_congr Iff.rfl (and_congr Iff.rfl ⟨fun h i hi => ?_, fun h => ?_⟩)
  · have hbit := congrArg (fun x => BitVec.getLsbD x i) h
    have hlt : i < 60 := lt_of_has hi
    simp only [has] at hi ⊢
    simpa [hi, hlt] using hbit
  · apply BitVec.eq_of_getLsbD_eq
    intro i hi
    have hsub := h i
    simp only [has] at hsub
    cases hb : b.kinds.getLsbD i <;> simp_all

end Mask

end FlowTyping
