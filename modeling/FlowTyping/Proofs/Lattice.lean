import FlowTyping.Kind.Basic
import FlowTyping.State

/-!
# The order of masks, slots and states

Union of masks and join of slots and states are commutative and associative, and absorb what they
already hold. A mask is normal when "any value" stands alone; joining a state to itself changes
nothing as long as its masks are normal and its shared variables carry the mask of shared variables.
-/

namespace FlowTyping

namespace Mask

variable (a b c : Mask)

/-- Any value absorbs all kinds. -/
theorem kinds_union : (a ∪ b).kinds = if a.any || b.any then 0#60 else a.kinds ||| b.kinds := by
  change (normalize _).kinds = _
  rw [normalize]
  split <;> simp_all

@[simp] theorem subclasses_union : (a ∪ b).subclasses = (a.subclasses || b.subclasses) := by
  change (normalize _).subclasses = _
  rw [normalize]
  split <;> rfl

@[simp] theorem void_union : (a ∪ b).void = (a.void || b.void) := by
  change (normalize _).void = _
  rw [normalize]
  split <;> rfl

@[simp] theorem ref_union : (a ∪ b).ref = (a.ref || b.ref) := by
  change (normalize _).ref = _
  rw [normalize]
  split <;> rfl

theorem union_comm : a ∪ b = b ∪ a := by
  apply Mask.ext
  · rw [kinds_union, kinds_union, Bool.or_comm, BitVec.or_comm]
  · rw [any_union, any_union, Bool.or_comm]
  · rw [subclasses_union, subclasses_union, Bool.or_comm]
  · rw [void_union, void_union, Bool.or_comm]
  · rw [ref_union, ref_union, Bool.or_comm]

/-- Any value absorbs all kinds at whichever step it comes in. -/
theorem union_assoc : a ∪ b ∪ c = a ∪ (b ∪ c) := by
  apply Mask.ext
  · simp only [kinds_union, any_union]
    cases a.any <;> cases b.any <;> cases c.any <;> simp [BitVec.or_assoc]
  · simp only [any_union, Bool.or_assoc]
  · simp only [subclasses_union, Bool.or_assoc]
  · simp only [void_union, Bool.or_assoc]
  · simp only [ref_union, Bool.or_assoc]

/-- A union already holds its right side. -/
theorem union_absorb : a ∪ b ∪ b = a ∪ b := by
  apply Mask.ext
  · simp only [kinds_union, any_union]
    cases a.any <;> cases b.any <;> simp [BitVec.or_assoc]
  · simp only [any_union, Bool.or_assoc, Bool.or_self]
  · simp only [subclasses_union, Bool.or_assoc, Bool.or_self]
  · simp only [void_union, Bool.or_assoc, Bool.or_self]
  · simp only [ref_union, Bool.or_assoc, Bool.or_self]

/-- "Any value" stands alone. -/
def Normal (m : Mask) : Prop :=
  m.any = true → m.kinds = 0#60

variable {a b c}

/-- A mask in normal form is its own union; a union drops the kinds next to any value. -/
theorem union_self (h : a.Normal) : a ∪ a = a := by
  apply Mask.ext
  · rw [kinds_union, Bool.or_self]
    cases ha : a.any with
    | false => simp
    | true => simpa using (h ha).symm
  · rw [any_union, Bool.or_self]
  · rw [subclasses_union, Bool.or_self]
  · rw [void_union, Bool.or_self]
  · rw [ref_union, Bool.or_self]

/-- Every union is in normal form. -/
theorem normal_union : (a ∪ b).Normal := by
  intro h
  rw [any_union] at h
  rw [kinds_union, if_pos h]

theorem contains_refl (a : Mask) : a.contains a = true := by
  rw [contains_iff]
  cases a.any with
  | true => exact Or.inl rfl
  | false => exact Or.inr ⟨rfl, fun _ h => h⟩

/-- Containment is transitive; any value contains everything. -/
theorem contains_trans (hab : a.contains b = true) (hbc : b.contains c = true) :
    a.contains c = true := by
  rw [contains_iff] at *
  rcases hab with ha | ⟨hb, hab⟩
  · exact Or.inl ha
  · rcases hbc with hb' | ⟨hc, hbc⟩
    · rw [hb] at hb'
      cases hb'
    · exact Or.inr ⟨hc, fun i hi => hab i (hbc i hi)⟩

theorem contains_union_left (a b : Mask) : (a ∪ b).contains a = true := by
  rw [contains_iff, any_union]
  cases ha : a.any with
  | true => simp
  | false =>
      cases hb : b.any with
      | true => simp
      | false =>
          refine Or.inr ⟨rfl, fun i hi => ?_⟩
          rw [has_union, ha, hb, hi]
          rfl

theorem contains_union_right (a b : Mask) : (a ∪ b).contains b = true := by
  rw [union_comm]
  exact contains_union_left b a

/-- What a union absorbs, it contains. -/
theorem contains_of_union_eq (h : a ∪ b = a) : a.contains b = true := by
  have hb := contains_union_right a b
  rwa [h] at hb

/-- A mask admits values of a kind, or values of which no kind is known. -/
def Admits (m : Mask) : Option Nat → Prop
  | some i => m.any = true ∨ m.has i = true
  | none => m.any = true

/-- A union admits what its parts admit. -/
theorem admits_union {k : Option Nat} : (a ∪ b).Admits k ↔ a.Admits k ∨ b.Admits k := by
  cases k with
  | none => simp [Admits, any_union]
  | some i =>
      simp only [Admits, any_union, has_union]
      cases a.any <;> cases b.any <;> simp

theorem admits_withRef {r : Bool} {k : Option Nat} : (a.withRef r).Admits k ↔ a.Admits k := by
  cases k <;> exact Iff.rfl

/-- A mask contains another one just if it admits all that the other one admits. -/
theorem contains_iff_admits : a.contains b = true ↔ ∀ k, b.Admits k → a.Admits k := by
  rw [contains_iff]
  constructor
  · rintro (ha | ⟨hb, hsub⟩) k hk
    · cases k with
      | none => exact ha
      | some i => exact Or.inl ha
    · cases k with
      | none => exact absurd (hb.symm.trans hk) (by decide)
      | some i =>
          exact Or.inr (hsub i (hk.resolve_left fun h => absurd (hb.symm.trans h) (by decide)))
  · intro h
    cases ha : a.any with
    | true => exact Or.inl rfl
    | false =>
        refine Or.inr ⟨Bool.eq_false_iff.2 fun hb => ?_, fun i hi => ?_⟩
        · exact absurd (ha.symm.trans (h none hb)) (by decide)
        · exact (h (some i) (Or.inr hi)).resolve_left
            fun h' => absurd (ha.symm.trans h') (by decide)

end Mask

namespace Slot

variable (a b c : Slot)

theorem join_comm : a.join b = b.join a := by
  simp only [join, Bool.or_comm b.shared, Bool.and_comm b.assigned, Bool.and_comm b.belowMax,
    Mask.union_comm b.mask]

theorem join_assoc : (a.join b).join c = a.join (b.join c) := by
  obtain ⟨m, i, sh, l⟩ := a
  obtain ⟨m', i', sh', l'⟩ := b
  obtain ⟨m'', i'', sh'', l''⟩ := c
  simp only [join, Bool.or_assoc, Bool.and_assoc]
  cases sh <;> cases sh' <;> cases sh'' <;> simp [Mask.union_assoc]

/-- A join already holds its right side. -/
theorem join_absorb : (a.join b).join b = a.join b := by
  simp only [join, Bool.or_assoc, Bool.and_assoc, Bool.or_self, Bool.and_self]
  cases a.shared <;> cases b.shared <;> simp [Mask.union_absorb]

/-- The mask is normal, and that of a shared variable is the one of all shared variables. -/
structure Proper (s : Slot) : Prop where
  normal : s.mask.Normal
  shared : s.shared = true → s.mask = sharedMask

variable {a b}

/-- A proper slot is its own join. -/
theorem join_self (h : a.Proper) : a.join a = a := by
  apply Slot.ext
  · simp only [join, Bool.or_self]
    cases ha : a.shared with
    | true => simpa using (h.shared ha).symm
    | false => simpa using Mask.union_self h.normal
  · exact Bool.and_self _
  · exact Bool.or_self _
  · exact Bool.and_self _

/-- A slot that absorbs another one is shared or contains its mask. -/
theorem shared_or_contains_of_join_eq (h : a.join b = a) :
    a.shared = true ∨ a.mask.contains b.mask = true := by
  cases ha : a.shared with
  | true => exact Or.inl rfl
  | false =>
      have hshared := congrArg Slot.shared h
      have hmask := congrArg Slot.mask h
      simp only [join, ha, Bool.false_or] at hshared hmask
      rw [hshared] at hmask
      exact Or.inr (Mask.contains_of_union_eq hmask)

end Slot

namespace State

variable {a b c j k : State}

/-- A join succeeds for states of the same variables, and joins slot by slot. -/
theorem join_eq_ok_iff :
    a.join b = .ok j ↔
      a.context = b.context ∧ a.slots.length = b.slots.length ∧
        j = ⟨a.context, List.zipWith Slot.join a.slots b.slots⟩ := by
  simp only [join_eq, compatible, Bool.and_eq_true, beq_iff_eq]
  constructor
  · intro h
    split at h
    · rename_i hc
      exact ⟨hc.1, hc.2, (Except.ok.inj h).symm⟩
    · cases h
  · rintro ⟨hc, hl, rfl⟩
    rw [if_pos ⟨hc, hl⟩]

/-- States of one routine are joined slot by slot. -/
theorem join_of_compatible (hc : a.context = b.context) (hl : a.slots.length = b.slots.length) :
    a.join b = .ok ⟨a.context, List.zipWith Slot.join a.slots b.slots⟩ :=
  join_eq_ok_iff.2 ⟨hc, hl, rfl⟩

/-- Absorbing succeeds with the join, and tells whether it is another state. -/
theorem absorb_eq_ok_iff {changed : Bool} :
    a.absorb b = .ok (changed, j) ↔ a.join b = .ok j ∧ changed = (j != a) := by
  rw [absorb_eq]
  cases a.join b with
  | error fault =>
      constructor
      · rintro ⟨⟩
      · rintro ⟨⟨⟩, -⟩
  | ok joined =>
      constructor
      · rintro ⟨⟩
        exact ⟨rfl, rfl⟩
      · rintro ⟨⟨⟩, rfl⟩
        rfl

/-- A join has a slot for every variable. -/
theorem length_of_join (h : a.join b = .ok j) : j.slots.length = a.slots.length := by
  obtain ⟨_, hl, rfl⟩ := join_eq_ok_iff.1 h
  simp [hl]

/-- The slot of a variable in a join. -/
theorem slots_of_join (h : a.join b = .ok j) (v : VarId) :
    j.slots[v]? = (a.slots[v]?).bind fun s => (b.slots[v]?).map s.join := by
  obtain ⟨_, _, rfl⟩ := join_eq_ok_iff.1 h
  rw [List.getElem?_zipWith]
  cases a.slots[v]? <;> cases b.slots[v]? <;> rfl

/-- A state subsumes another one just if joining that one in changes nothing. -/
theorem subsumes_iff : a.subsumes b = .ok true ↔ a.join b = .ok a := by
  simp only [subsumes]
  cases h : a.join b with
  | error f => simp [bind, Except.bind]
  | ok j => simp [bind, Except.bind, pure, Except.pure]

/-- A join subsumes its right side. -/
theorem join_subsumes_right (h : a.join b = .ok j) : j.subsumes b = .ok true := by
  obtain ⟨hc, hl, rfl⟩ := join_eq_ok_iff.1 h
  rw [subsumes_iff, join_eq_ok_iff]
  refine ⟨hc, by simp [hl], State.ext rfl ?_⟩
  apply List.ext_getElem?
  intro i
  simp only [List.getElem?_zipWith]
  cases a.slots[i]? <;> cases b.slots[i]? <;> simp [Slot.join_absorb]

/-- What a state subsumes, its joins subsume. -/
theorem subsumes_of_join (h : a.join c = .ok j) (hb : a.subsumes b = .ok true) :
    j.subsumes b = .ok true := by
  rw [subsumes_iff] at hb
  obtain ⟨hc, hl, hj⟩ := join_eq_ok_iff.1 h
  obtain ⟨hc', hl', ha⟩ := join_eq_ok_iff.1 hb
  have hslot (i : Nat) : (a.slots[i]?).bind (fun s => (b.slots[i]?).map s.join) = a.slots[i]? := by
    rw [← slots_of_join hb i]
  rw [subsumes_iff, join_eq_ok_iff]
  refine ⟨?_, ?_, State.ext rfl ?_⟩
  · rw [hj, hc']
  · rw [length_of_join h, hl']
  apply List.ext_getElem?
  intro i
  rw [List.getElem?_zipWith, slots_of_join h i]
  have hi := hslot i
  cases hs : a.slots[i]? <;> cases ht : b.slots[i]? <;> cases hu : c.slots[i]? <;>
    simp only [hs, ht, Option.bind_some, Option.map_some, Option.map_none, Option.bind_none,
      Option.some.injEq, reduceCtorEq] at hi ⊢
  · rename_i s t u
    -- The slots commute, so that `t` meets the slot that absorbs it.
    rw [Slot.join_assoc, Slot.join_comm u t, ← Slot.join_assoc, hi]

/-- The masks of a state are normal, and those of its shared variables are the shared mask. -/
def Proper (s : State) : Prop :=
  ∀ slot ∈ s.slots, slot.Proper

theorem subsumes_self (h : a.Proper) : a.subsumes a = .ok true := by
  rw [subsumes_iff, join_eq_ok_iff]
  refine ⟨rfl, rfl, State.ext rfl ?_⟩
  apply List.ext_getElem?
  intro i
  rw [List.getElem?_zipWith]
  cases hs : a.slots[i]? with
  | none => rfl
  | some s => simp [Slot.join_self (h s (List.mem_of_getElem? hs))]

/-- A variable of a subsuming state is shared or contains the mask of the subsumed one. -/
theorem shared_or_contains_of_subsumes (h : a.subsumes b = .ok true) {v : VarId} {s t : Slot}
    (hs : a.slots[v]? = some s) (ht : b.slots[v]? = some t) :
    s.shared = true ∨ s.mask.contains t.mask = true := by
  have hj := slots_of_join (subsumes_iff.1 h) v
  rw [hs, ht] at hj
  exact Slot.shared_or_contains_of_join_eq (Option.some.inj hj).symm

/-- A variable may hold values of a kind. -/
def Admits (s : State) (v : VarId) (k : Option Nat) : Prop :=
  ∃ slot, s.slots[v]? = some slot ∧ slot.mask.Admits k

/-- A variable is shared. -/
def Shares (s : State) (v : VarId) : Prop :=
  ∃ slot, s.slots[v]? = some slot ∧ slot.shared = true

variable {v : VarId} {k : Option Nat}

theorem admits_iff {s : Slot} (hs : a.slots[v]? = some s) : a.Admits v k ↔ s.mask.Admits k := by
  refine ⟨fun ⟨t, ht, hk⟩ => ?_, fun hk => ⟨s, hs, hk⟩⟩
  cases hs.symm.trans ht
  exact hk

theorem shares_iff {s : Slot} (hs : a.slots[v]? = some s) : a.Shares v ↔ s.shared = true := by
  refine ⟨fun ⟨t, ht, hshared⟩ => ?_, fun hshared => ⟨s, hs, hshared⟩⟩
  cases hs.symm.trans ht
  exact hshared

/-- The slots of a join are the joins of slots. -/
theorem slot_of_join (h : a.join b = .ok j) {s : Slot} (hs : j.slots[v]? = some s) :
    ∃ x y, a.slots[v]? = some x ∧ b.slots[v]? = some y ∧ s = x.join y := by
  rw [slots_of_join h] at hs
  obtain ⟨x, hx, hs⟩ := Option.bind_eq_some_iff.1 hs
  obtain ⟨y, hy, hxy⟩ := Option.map_eq_some_iff.1 hs
  exact ⟨x, y, hx, hy, hxy.symm⟩

/-- A join has the slots of its paths joined, so that it keeps what joins of slots keep. -/
theorem forall_slots_join {P : Slot → Prop} (hP : ∀ x y, P x → P y → P (x.join y))
    (ha : ∀ x ∈ a.slots, P x) (hb : ∀ x ∈ b.slots, P x) (h : a.join b = .ok j) :
    ∀ x ∈ j.slots, P x := by
  intro z hz
  obtain ⟨v, hv⟩ := List.mem_iff_getElem?.1 hz
  obtain ⟨x, y, hx, hy, rfl⟩ := slot_of_join h hv
  exact hP x y (ha x (List.mem_of_getElem? hx)) (hb y (List.mem_of_getElem? hy))

/-- A change to one variable succeeds if there is such a variable, and keeps what it keeps of a
slot. -/
theorem forall_slots_update {P : Slot → Prop} {f : Slot → Slot} (hP : ∀ x, P x → P (f x))
    (ha : ∀ x ∈ a.slots, P x) (hv : v < a.slots.length) :
    ∃ a', a.update v f = .ok a' ∧ a'.context = a.context ∧ a'.slots.length = a.slots.length ∧
      ∀ x ∈ a'.slots, P x := by
  refine ⟨{ a with slots := a.slots.modify v f }, by rw [update, if_pos hv], rfl,
    List.length_modify .., ?_⟩
  intro x hx
  obtain ⟨i, hi⟩ := List.mem_iff_getElem?.1 hx
  rw [List.getElem?_modify] at hi
  obtain ⟨y, hy, rfl⟩ := Option.map_eq_some_iff.1 hi
  have hkept := ha y (List.mem_of_getElem? hy)
  split
  · exact hP y hkept
  · exact hkept

/-- What the paths of a join share, the join shares. -/
theorem shares_of_join (h : a.join b = .ok j) (hs : a.Shares v) : j.Shares v := by
  obtain ⟨slot, hslot, hshared⟩ := hs
  obtain ⟨_, hl, _⟩ := join_eq_ok_iff.1 h
  have hlt : v < b.slots.length := hl ▸ (List.getElem?_eq_some_iff.1 hslot).1
  refine ⟨slot.join b.slots[v], ?_, ?_⟩
  · rw [slots_of_join h, hslot, List.getElem?_eq_getElem hlt]
    rfl
  · simp [Slot.join, hshared]

/-- Unless a variable is shared, a join admits just what one of the paths admits. -/
theorem admits_of_join (h : a.join b = .ok j) (hs : ¬j.Shares v) (hk : j.Admits v k) :
    a.Admits v k ∨ b.Admits v k := by
  obtain ⟨slot, hslot, hk⟩ := hk
  obtain ⟨x, y, hx, hy, rfl⟩ := slot_of_join h hslot
  have hplain : (x.join y).shared = false := Bool.eq_false_iff.2 fun hsh => hs ⟨_, hslot, hsh⟩
  simp only [Slot.join] at hplain hk
  rw [if_neg (Bool.eq_false_iff.1 hplain), Mask.admits_union] at hk
  exact hk.imp (fun h => ⟨x, hx, h⟩) fun h => ⟨y, hy, h⟩

/-- A state that subsumes another one shares at least the same variables. -/
theorem shares_of_subsumes (h : a.subsumes b = .ok true) (hs : b.Shares v) : a.Shares v := by
  obtain ⟨slot, hslot, hshared⟩ := hs
  have hj := subsumes_iff.1 h
  obtain ⟨_, hl, _⟩ := join_eq_ok_iff.1 hj
  have hlt : v < a.slots.length := hl ▸ (List.getElem?_eq_some_iff.1 hslot).1
  obtain ⟨x, y, hx, hy, hxy⟩ := slot_of_join hj (List.getElem?_eq_getElem hlt)
  cases hslot.symm.trans hy
  refine ⟨_, List.getElem?_eq_getElem hlt, ?_⟩
  rw [hxy]
  simp [Slot.join, hshared]

/-- A state that subsumes another one admits for a variable that is not shared all that the other
one admits. -/
theorem admits_of_subsumes (h : a.subsumes b = .ok true) (hs : ¬a.Shares v) (hk : b.Admits v k) :
    a.Admits v k := by
  obtain ⟨slot, hslot, hk⟩ := hk
  obtain ⟨_, hl, _⟩ := join_eq_ok_iff.1 (subsumes_iff.1 h)
  have hlt : v < a.slots.length := hl ▸ (List.getElem?_eq_some_iff.1 hslot).1
  have hown := List.getElem?_eq_getElem hlt
  rcases shared_or_contains_of_subsumes h hown hslot with hshared | hcontains
  · exact absurd ⟨_, hown, hshared⟩ hs
  · exact ⟨_, hown, Mask.contains_iff_admits.1 hcontains k hk⟩

end State

end FlowTyping
