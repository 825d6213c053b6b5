import FlowTyping.Proofs.Soundness.Value
import FlowTyping.Proofs.Visit.Fit

/-!
# What masks and states say about values

A mask describes a value whose kind it lists, and any value at all describes every one. A state
describes a store when the mask of each variable describes what the variable holds, variables that
are assigned are set, and a `long` in a variable below the largest one is not the largest one. What
is described stays described when paths join and when the kind table grows.
-/

namespace FlowTyping

/-- The mask lists a kind. -/
def KindTable.Offers (t : KindTable) (m : Mask) (k : Kind) : Prop :=
  ∃ i, m.has i = true ∧ t.kinds[i]? = some k

namespace Value

/-- The value is of the sort that a kind is about; elements and classes do not count. -/
def isLike : Value → Kind → Bool
  | .null, .null => true
  | .bool _, .bool => true
  | .long _, .long => true
  | .double _, .double => true
  | .string _, .string => true
  | .resource _, .resource => true
  | .array _, .array _ => true
  | .object _ _, .object _ => true
  | _, _ => false

/-- The value is of a kind, and no array. -/
def IsPlain (rt : Runtime) : Value → Kind → Prop
  | .array _, _ => False
  | .object cls _, .object c => rt.IsA cls c
  | v, k => v.isLike k = true

end Value

/-- The value may occur where the mask says what occurs. The elements of an array are described by
the array kinds of the mask, each by one of them. -/
inductive Mask.Describes (rt : Runtime) (t : KindTable) : Mask → Value → Prop
  | any {m v} (h : m.any = true) : Describes rt t m v
  | plain {m v k} (hk : t.Offers m k) (hv : v.IsPlain rt k) : Describes rt t m v
  | array {m items elem} {elemOf : Key × Value → Mask} (hk : t.Offers m (.array elem))
      (hoffers : ∀ item ∈ items, t.Offers m (.array (elemOf item)))
      (hitems : ∀ item ∈ items, Describes rt t (elemOf item) item.2) :
      Describes rt t m (.array items)

variable {rt : Runtime} {t t' : KindTable} {m m' : Mask} {v : Value}

theorem Value.IsPlain.isLike {k : Kind} (h : v.IsPlain rt k) : v.isLike k = true := by
  cases v with
  | array => cases h
  | object =>
      cases k with
      | object => rfl
      | _ => exact h
  | _ => exact h

theorem KindTable.Grows.offers (hg : t.Grows t') {k : Kind} (h : t.Offers m k) : t'.Offers m k := by
  obtain ⟨i, hi, hk⟩ := h
  exact ⟨i, hi, hg.kind? hk⟩

theorem KindTable.offers_bit {i : Nat} {k : Kind} (hi : i < kindLimit) (hk : t.kinds[i]? = some k) :
    t.Offers (.bit i) k := by
  refine ⟨i, ?_, hk⟩
  rw [Mask.has_bit, decide_eq_true hi, decide_eq_true rfl]
  rfl

namespace Mask.Describes

/-- A description stays right as the table grows. -/
theorem grow (hg : t.Grows t') (h : m.Describes rt t v) : m.Describes rt t' v := by
  induction h with
  | any h => exact .any h
  | plain hk hv => exact .plain (hg.offers hk) hv
  | array hk hoffers _ ih => exact .array (hg.offers hk) (fun x hx => hg.offers (hoffers x hx)) ih

/-- A value that is described is of the sort of a listed kind. -/
theorem exists_isLike (h : m.Describes rt t v) :
    m.any = true ∨ ∃ k, t.Offers m k ∧ v.isLike k = true := by
  cases h with
  | any h => exact Or.inl h
  | plain hk hv => exact Or.inr ⟨_, hk, hv.isLike⟩
  | array hk => exact Or.inr ⟨_, hk, rfl⟩

/-- Only the kinds of the value's own sort matter. -/
theorem of_offers (h : m.Describes rt t v) (hany : m.any = true → m'.any = true)
    (hk : m'.any = false → ∀ k, v.isLike k = true → t.Offers m k → t.Offers m' k) :
    m'.Describes rt t v := by
  cases hm' : m'.any with
  | true => exact .any hm'
  | false =>
      cases h with
      | any h => exact .any (hany h)
      | plain hoffers hv => exact .plain (hk hm' _ hv.isLike hoffers) hv
      | array hoffers helems hitems =>
          exact .array (hk hm' _ rfl hoffers) (fun x hx => hk hm' _ rfl (helems x hx)) hitems

/-- A mask that contains another one describes more. -/
theorem of_contains (hc : m'.contains m = true) (h : m.Describes rt t v) : m'.Describes rt t v := by
  rcases Mask.contains_iff.1 hc with hany | ⟨hnot, hsub⟩
  · exact .any hany
  · apply h.of_offers
    · intro hany
      exact absurd (hnot.symm.trans hany) (by decide)
    · rintro - k - ⟨i, hi, hk⟩
      exact ⟨i, hsub i hi, hk⟩

theorem union_left (h : m.Describes rt t v) : (m ∪ m').Describes rt t v :=
  h.of_contains (Mask.contains_union_left m m')

theorem union_right (h : m'.Describes rt t v) : (m ∪ m').Describes rt t v :=
  h.of_contains (Mask.contains_union_right m m')

theorem withRef (h : m.Describes rt t v) (b : Bool) : (m.withRef b).Describes rt t v :=
  h.of_contains (Mask.contains_refl m)

theorem shape (h : m.Describes rt t v) : m.shape.Describes rt t v :=
  h.of_contains (Mask.contains_refl m)

/-- The mask of a primitive kind describes the values of that sort. -/
theorem bit (ht : t.WellFormed) {i : Nat} {k : Kind} (hi : Kind.primitives[i]? = some k)
    (hv : v.isLike k = true) : (Mask.bit i).Describes rt t v := by
  have hlt : i < 6 := (List.getElem?_eq_some_iff.1 hi).1
  refine .plain (KindTable.offers_bit (Nat.lt_of_lt_of_le hlt (by decide)) (ht.primitive? hi)) ?_
  have hmem := List.mem_of_getElem? hi
  cases v with
  | array | object => cases k <;> simp [Value.isLike, Kind.primitives] at hv hmem
  | _ => exact hv

/-- A mask of one kind describes values of that sort only. -/
theorem isLike_of_only (ht : t.WellFormed) {i : Nat} {k : Kind} (hi : Kind.primitives[i]? = some k)
    (hm : m.shape = .bit i) (h : m.Describes rt t v) : v.isLike k = true := by
  have hany : m.any = false := congrArg Mask.any hm
  rcases h.exists_isLike with h | ⟨k', ⟨j, hj, hk'⟩, hlike⟩
  · exact absurd (hany.symm.trans h) (by decide)
  · have hbit : m.shape.has j = true := hj
    rw [hm, Mask.has_bit, Bool.and_eq_true, decide_eq_true_eq, decide_eq_true_eq] at hbit
    obtain ⟨-, rfl⟩ := hbit
    rw [ht.primitive? hi] at hk'
    cases hk'
    exact hlike

/-- A mask of `long`s describes `long`s only. -/
theorem exists_long (ht : t.WellFormed) (hm : m.isLongOnly = true) (h : m.Describes rt t v) :
    ∃ n, v = .long n := by
  have hlike := h.isLike_of_only ht (i := 2) (k := .long) rfl (beq_iff_eq.1 hm)
  cases v with
  | long n => exact ⟨n, rfl⟩
  | _ => cases hlike

/-- A mask of `double`s describes `double`s only. -/
theorem exists_double (ht : t.WellFormed) (hm : m.isDoubleOnly = true) (h : m.Describes rt t v) :
    ∃ x, v = .double x := by
  have hlike := h.isLike_of_only ht (i := 3) (k := .double) rfl (beq_iff_eq.1 hm)
  cases v with
  | double x => exact ⟨x, rfl⟩
  | _ => cases hlike

/-- Without null, a mask still describes a value that is not null. -/
theorem withoutNull (ht : t.WellFormed) (hv : v.isNull = false) (h : m.Describes rt t v) :
    m.withoutNull.Describes rt t v := by
  rw [Mask.withoutNull, Mask.without]
  split
  · exact h
  · refine h.of_offers id ?_
    rintro - k hlike ⟨i, hi, hk⟩
    refine ⟨i, ?_, hk⟩
    have hne : i ≠ 0 := by
      rintro rfl
      rw [ht.primitive? (i := 0) (k := .null) rfl] at hk
      cases hk
      cases v with
      | null => cases hv
      | _ => cases hlike
    have hlt := Mask.lt_of_has hi
    simp only [Mask.has, BitVec.getLsbD_and, BitVec.getLsbD_not, Mask.null, Mask.bit,
      BitVec.getLsbD_twoPow] at hi ⊢
    simp [hi, hlt, Ne.symm hne]

end Mask.Describes

namespace Slot

/-- What a slot says is true of what its variable holds. -/
structure Describes (rt : Runtime) (t : KindTable) (s : Slot) (v? : Option Value) : Prop where
  mask : ∀ v, v? = some v → s.mask.Describes rt t v
  assigned : s.assigned = true → v?.isSome = true
  belowMax : s.belowMax = true → ∀ n, v? = some (.long n) → n < Int64.maxValue

namespace Describes

variable {s a b : Slot} {v? : Option Value}

/-- A slot stays right as the table grows. -/
theorem grow (hg : t.Grows t') (h : s.Describes rt t v?) : s.Describes rt t' v? :=
  ⟨fun v hv => (h.mask v hv).grow hg, h.assigned, h.belowMax⟩

/-- The join of two slots describes what either describes. -/
theorem join_left (h : a.Describes rt t v?) : (a.join b).Describes rt t v? := by
  constructor
  · intro v hv
    simp only [Slot.join]
    split
    · exact .any rfl
    · exact (h.mask v hv).union_left
  · intro hassigned
    exact h.assigned (Bool.and_eq_true_iff.1 hassigned).1
  · intro hbelow
    exact h.belowMax (Bool.and_eq_true_iff.1 hbelow).1

theorem join_right (h : b.Describes rt t v?) : (a.join b).Describes rt t v? := by
  rw [Slot.join_comm]
  exact h.join_left

/-- After an assignment, the slot describes the value that was assigned. -/
theorem assign (s : Slot) (h : m.Describes rt t v) : (s.assign m).Describes rt t (some v) := by
  constructor
  · rintro _ ⟨⟩
    simp only [Slot.assign]
    split
    · exact .any rfl
    · exact h.withRef false
  · intro _
    rfl
  · intro hbelow
    cases hbelow

theorem markAssigned (h : s.Describes rt t (some v)) : s.markAssigned.Describes rt t (some v) :=
  ⟨h.mask, fun _ => rfl, h.belowMax⟩

/-- A slot may be narrowed to a mask that describes its value. -/
theorem narrow (h : s.Describes rt t v?) (hm : ∀ v, v? = some v → m.Describes rt t v) :
    (s.narrow m).Describes rt t v? := by
  rw [Slot.narrow]
  split
  · exact h
  · exact ⟨fun v hv => (hm v hv).withRef false, h.assigned, h.belowMax⟩

theorem setBelowMax {below : Bool} (h : s.Describes rt t v?)
    (hbelow : below = true → ∀ n, v? = some (.long n) → n < Int64.maxValue) :
    (s.setBelowMax below).Describes rt t v? :=
  ⟨h.mask, h.assigned, fun hb => hbelow (Bool.and_eq_true_iff.1 hb).1⟩

end Describes

end Slot

namespace State

/-- What a state says is true of a store. -/
def Describes (rt : Runtime) (t : KindTable) (st : State) (σ : Store) : Prop :=
  ∀ (x : VarId) (slot : Slot), st.slots[x]? = some slot → slot.Describes rt t (σ x)

namespace Describes

variable {a b j : State} {σ σ' : Store}

theorem grow (hg : t.Grows t') (h : a.Describes rt t σ) : a.Describes rt t' σ :=
  fun x slot hslot => (h x slot hslot).grow hg

theorem join_left (hj : a.join b = .ok j) (h : a.Describes rt t σ) : j.Describes rt t σ := by
  intro x slot hslot
  obtain ⟨l, r, hl, -, rfl⟩ := slot_of_join hj hslot
  exact (h x l hl).join_left

theorem join_right (hj : a.join b = .ok j) (h : b.Describes rt t σ) : j.Describes rt t σ := by
  intro x slot hslot
  obtain ⟨l, r, -, hr, rfl⟩ := slot_of_join hj hslot
  exact (h x r hr).join_right

/-- Changing one slot concerns one variable. -/
theorem update {x : VarId} {f : Slot → Slot} (hu : a.update x f = .ok b) (h : a.Describes rt t σ)
    (hother : ∀ y, y ≠ x → σ' y = σ y)
    (hf : ∀ slot, a.slots[x]? = some slot → slot.Describes rt t (σ x) →
      (f slot).Describes rt t (σ' x)) : b.Describes rt t σ' := by
  rw [State.update] at hu
  split at hu
  · cases hu
    intro y slot hslot
    rw [List.getElem?_modify] at hslot
    obtain ⟨old, hold, rfl⟩ := Option.map_eq_some_iff.1 hslot
    by_cases hy : x = y
    · subst hy
      rw [if_pos rfl]
      exact hf old hold (h x old hold)
    · rw [if_neg hy, hother y (Ne.symm hy)]
      exact h y old hold
  · cases hu

end Describes

end State

namespace Scene

/-- The state of the scene describes a store. -/
abbrev Describes (rt : Runtime) (s : Scene) (σ : Store) : Prop :=
  s.state.Describes rt s.facts.table σ

/-- A mask over the kind table of the scene describes a value. -/
abbrev Covers (rt : Runtime) (s : Scene) (m : Mask) (v : Value) : Prop :=
  m.Describes rt s.facts.table v

end Scene

end FlowTyping
