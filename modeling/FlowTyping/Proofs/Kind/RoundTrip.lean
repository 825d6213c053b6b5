import FlowTyping.Proofs.Kind.Session
import Mathlib.Data.List.Forall2

/-!
# Summaries read back

Main statement: `adopt_of_summarize`. Reading the summary of a mask into the table that it was
written from yields the mask and leaves the table alone, also when the table is full. The argument
goes through `KindTable.Describes`: the description of an entry, read back, is the bit of that
entry.
-/

namespace FlowTyping

namespace Mask

variable {m : Mask}

/-- Adding up the kinds of a normal mask gives back the mask without its flags. -/
theorem withBits_members (hm : m.Normal) :
    (KindTable.adoptBase m.any).withBits m.members = m.shape := by
  cases hany : m.any with
  | true =>
      have hkinds := hm hany
      rw [members, hkinds, walk_zero, shape, hkinds, hany]
      rfl
  | false =>
      rw [shape, hany]
      exact empty_withBits_members m

end Mask

namespace KindTable

variable {t t' : KindTable} {m : Mask} {i : Nat} {d : Desc}

/-- Elements of arrays are listed before the array, so what holds of a mask whenever it holds of the
elements of its arrays holds of every mask. -/
theorem WellFormed.mask_induction (ht : t.WellFormed) {P : Mask → Prop}
    (hstep : ∀ m : Mask, m.Fits t.size →
      (∀ (i : Nat) (elem : Mask), m.has i = true → t.kinds[i]? = some (.array elem) → P elem) → P m)
    (hm : m.Fits t.size) : P m := by
  have hbelow (n : Nat) : ∀ m : Mask, m.Fits n → n ≤ t.size → P m := by
    induction n using Nat.strongRecOn with
    | _ n ih =>
        intro m hm hn
        apply hstep m (hm.mono hn)
        intro i elem hi helem
        have hlt := hm.lt i hi
        exact ih i hlt elem (ht.nested helem) (by omega)
  exact hbelow t.size m hm (Nat.le_refl _)

/-! ### Descriptions of entries -/

/-- The description of the entry with a number. -/
def Describes (t : KindTable) (i : Nat) (d : Desc) : Prop :=
  ∃ k, t.kinds[i]? = some k ∧ describeKind t.summarize k = .ok d

/-- An entry has one description. -/
theorem Describes.unique {d' : Desc} (h : t.Describes i d) (h' : t.Describes i d') : d = d' := by
  obtain ⟨k, hk, hd⟩ := h
  obtain ⟨k', hk', hd'⟩ := h'
  cases hk.symm.trans hk'
  exact Except.ok.inj (hd.symm.trans hd')

/-- Entries keep their descriptions. -/
theorem Describes.grow (h : t.Describes i d) (hg : t.Grows t') : t'.Describes i d := by
  obtain ⟨k, hk, hd⟩ := h
  refine ⟨k, hg.kind? hk, describeKind_eq_ok hd ?_⟩
  intro m s hs
  exact summarize_grow hg hs

/-- What reading a list item by item yields. -/
theorem forall₂_of_mapM {ε α β : Type} {f : α → Except ε β} {l : List α} {r : List β}
    (h : l.mapM f = .ok r) : List.Forall₂ (fun a b => f a = .ok b) l r := by
  induction l generalizing r with
  | nil =>
      cases h
      exact .nil
  | cons a l ih =>
      rw [List.mapM_cons] at h
      cases hf : f a with
      | error e => simp [hf, bind, Except.bind] at h
      | ok b =>
          cases hl : l.mapM f with
          | error e => simp [hf, hl, bind, Except.bind] at h
          | ok bs =>
              simp only [hf, hl, bind, Except.bind, pure, Except.pure, Except.ok.injEq] at h
              rw [← h]
              exact .cons hf (ih hl)

/-- The summary of a mask carries its flags and describes its kinds one after the other. -/
theorem summarize_eq (ht : t.WellFormed) (hm : m.Fits t.size) :
    ∃ kinds, t.summarize m = .ok ⟨m.any, m.ref, m.void, m.subclasses, kinds⟩ ∧
      List.Forall₂ t.Describes m.members kinds := by
  obtain ⟨s, hs⟩ := summarize_ok ht hm
  have hread := hs
  rw [summarize, summarizeWithin] at hread
  cases hkinds : (m.members.mapM fun i => do
      describeKind (t.summarizeWithin t.size) (← t.kindAt i) : Except Fault (List Desc)) with
  | error fault =>
      rw [hkinds] at hread
      cases hread
  | ok kinds =>
      rw [hkinds] at hread
      cases hread
      refine ⟨kinds, hs, (forall₂_of_mapM hkinds).imp ?_⟩
      intro i d hd
      cases hkind : t.kindAt i with
      | error fault => simp [hkind, bind, Except.bind] at hd
      | ok k =>
          simp only [hkind, bind, Except.bind] at hd
          refine ⟨k, kindAt_eq_ok.1 hkind, describeKind_eq_ok hd ?_⟩
          intro m s hs
          exact summarizeWithin_grow (.refl t) (Nat.le_succ _) hs

/-! ### Reading descriptions back -/

/-- An array is read by reading its elements and asking for the array. -/
theorem adoptKind_arrayOf (s : Summary) : adoptKind (.arrayOf s) = adopt s >>= arrayOf := by
  rw [Desc.arrayOf, adoptKind, adopt, bind_assoc]
  simp only [pure_bind]

/-- A listed kind is found where it is listed. -/
theorem intern_entry (hw : t.WellFormed) {k : Kind} (hi : t.kinds[i]? = some k) :
    (intern k).run t = .ok (.bit i, t) :=
  intern_listed hw (indexOf?_eq_some_iff.2 ⟨k, hi, BEq.refl k⟩)

/-- The description of an entry, read back, is the bit of the entry, if this is so for the elements
of an array. -/
theorem adoptKind_of_describes (hw : t.WellFormed) (ht : t.Flagless) (hd : t.Describes i d)
    (helem : ∀ elem, t.kinds[i]? = some (.array elem) →
      ∃ s, t.summarize elem = .ok s ∧ (adopt s).run t = .ok (elem, t)) :
    (adoptKind d).run t = .ok (.bit i, t) := by
  obtain ⟨k, hk, hd⟩ := hd
  have hprimitive {j : Nat} (hj : Kind.primitives[j]? = some k) :
      (pure (.bit j) : Typing Mask).run t = .ok (.bit i, t) := by
    rw [index_unique hk (hw.primitive? hj) (BEq.refl k)]
    rfl
  cases k with
  | array elem =>
      obtain ⟨s, hs, hadopt⟩ := helem elem hk
      simp only [describeKind, hs, bind, Except.bind, pure, Except.pure, Except.ok.injEq] at hd
      rw [← hd, adoptKind_arrayOf, StateT.run_bind, hadopt]
      change (intern (.array elem.shape)).run t = _
      rw [ht elem (List.mem_of_getElem? hk)]
      exact intern_entry hw hk
  | object cls =>
      cases hd
      exact intern_entry hw hk
  | null =>
      cases hd
      exact hprimitive (j := 0) rfl
  | bool =>
      cases hd
      exact hprimitive (j := 1) rfl
  | long =>
      cases hd
      exact hprimitive (j := 2) rfl
  | double =>
      cases hd
      exact hprimitive (j := 3) rfl
  | string =>
      cases hd
      exact hprimitive (j := 4) rfl
  | resource =>
      cases hd
      exact hprimitive (j := 5) rfl

/-- Descriptions that are read back as bits add these bits. -/
theorem adoptKinds_of_bits {bits : List Nat} {ds : List Desc}
    (h : List.Forall₂ (fun i d => (adoptKind d).run t = .ok (.bit i, t)) bits ds) (acc : Mask) :
    (adoptKinds acc ds).run t = .ok (acc.withBits bits, t) := by
  induction h generalizing acc with
  | nil => rfl
  | cons hd _ ih =>
      rw [adoptKinds, StateT.run_bind, hd]
      exact ih _

/-- The summary of a mask, read back, is the mask, if this is so for the elements of its arrays. -/
theorem adopt_of_elements (hw : t.WellFormed) (ht : t.Flagless) (hm : m.Fits t.size)
    (helems : ∀ (i : Nat) (elem : Mask), m.has i = true → t.kinds[i]? = some (.array elem) →
      ∃ s, t.summarize elem = .ok s ∧ (adopt s).run t = .ok (elem, t)) :
    ∃ s, t.summarize m = .ok s ∧ (adopt s).run t = .ok (m, t) := by
  obtain ⟨kinds, hs, hkinds⟩ := summarize_eq hw hm
  have hlisted : ∀ i ∈ m.members, m.has i = true := fun i hi => Mask.mem_members.1 hi
  have hbits : List.Forall₂ (fun i d => (adoptKind d).run t = .ok (.bit i, t)) m.members kinds := by
    apply ((List.forall₂_and_left _ _).2 ⟨hlisted, hkinds⟩).imp
    rintro i d ⟨hi, hd⟩
    exact adoptKind_of_describes hw ht hd fun elem helem => helems i elem hi helem
  refine ⟨_, hs, ?_⟩
  rw [adopt, StateT.run_bind, adoptKinds_of_bits hbits, Mask.withBits_members hm.normal]
  rfl

end KindTable

/-- The summary of a mask, read back into the table that it was written from, is the mask with its
flags, and the table stays as it is. -/
theorem adopt_of_summarize {t : KindTable} (ht : t.Reachable) {m : Mask} (hm : m.Fits t.size) :
    ∃ s, t.summarize m = .ok s ∧ (KindTable.adopt s).run t = .ok (m, t) := by
  apply ht.wellFormed.mask_induction _ hm
  intro m hm helems
  exact KindTable.adopt_of_elements ht.wellFormed ht.flagless hm helems

namespace Sample

/-- A full table of eight kinds that has dropped a class; its last entry are arrays of arrays of
numbers. -/
def nestedTable : KindTable :=
  let listed := ((KindTable.new 0 8 none).push (.array .long) rfl).push (.array (.bit 6)) rfl
  { listed with overflowed := true }

/-- The sample table is one that a session leads to. -/
theorem reachable_nestedTable : nestedTable.Reachable :=
  ⟨0, 8, none, [.primitive 2, .arrayOf 0, .arrayOf 1, .instanceOf ⟨"A"⟩ true],
    ⟨nestedTable, [.bit 2, .bit 6, .bit 7, Mask.top.withSubclasses true]⟩, rfl, rfl⟩

/-- Nothing, or a shared array of arrays of numbers. -/
def nestedMask : Mask :=
  (Mask.null ∪ .bit 7).withRef true

end Sample

/-- In a full table that has dropped a kind. -/
theorem adopt_of_summarize_nested :
    Sample.nestedTable.overflowed = true ∧ Sample.nestedTable.cap ≤ Sample.nestedTable.size ∧
      Sample.nestedMask.Fits Sample.nestedTable.size ∧
      ∃ s, Sample.nestedTable.summarize Sample.nestedMask = .ok s ∧
        (KindTable.adopt s).run Sample.nestedTable =
          .ok (Sample.nestedMask, Sample.nestedTable) := by
  have hfits : Sample.nestedMask.Fits Sample.nestedTable.size :=
    ((Mask.Fits.bit (by decide)).union (Mask.Fits.bit (by decide))).withRef true
  exact ⟨rfl, by decide, hfits, adopt_of_summarize Sample.reachable_nestedTable hfits⟩

end FlowTyping
