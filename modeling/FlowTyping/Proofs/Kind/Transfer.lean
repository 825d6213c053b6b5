import FlowTyping.Proofs.Kind.RoundTrip

/-!
# Summaries read into another table

Main statement: `adopt_covers`. A summary that is read into any table and described there again
covers what it was, even if the table fills up on the way; and if the table drops nothing, it says
no more than it did. A kind that does not fit is dropped in favour of any value, in the array or in
the mask that needed it.
-/

namespace FlowTyping

open Typing

/-! ### What covers what -/

mutual

/-- The descriptions name the same primitive kind or the same class, or the elements of the first
array cover those of the second. -/
def Desc.covers : Desc → Desc → Bool
  | .null, .null => true
  | .bool, .bool => true
  | .long, .long => true
  | .double, .double => true
  | .string, .string => true
  | .resource, .resource => true
  | .array any _ _ _ kinds, .array any' _ _ _ kinds' =>
    any || (!any' && Desc.coverAll kinds kinds')
  | .object cls, .object cls' => cls == cls'
  | _, _ => false

/-- Every description of the second list is covered by one of the first. -/
def Desc.coverAll (ds : List Desc) : List Desc → Bool
  | [] => true
  | d :: ds' => ds.any (Desc.covers · d) && Desc.coverAll ds ds'

end

/-- The first summary allows any value, or describes all that the second one describes. The flags do
not count. -/
def Summary.Covers (s s' : Summary) : Prop :=
  s.any = true ∨ s'.any = false ∧ ∀ d' ∈ s'.kinds, ∃ d ∈ s.kinds, d.covers d' = true

/-- Descriptions cover others if each of these has one that covers it. -/
theorem Desc.coverAll_iff {ds ds' : List Desc} :
    Desc.coverAll ds ds' = true ↔ ∀ d' ∈ ds', ∃ d ∈ ds, d.covers d' = true := by
  induction ds' with
  | nil => simp [Desc.coverAll]
  | cons d' ds' ih => simp [Desc.coverAll, ih]

/-- Arrays cover each other as their elements do. -/
theorem Desc.arrayOf_covers_iff {s s' : Summary} :
    (Desc.arrayOf s).covers (.arrayOf s') = true ↔ s.Covers s' := by
  simp [Desc.arrayOf, Desc.covers, Summary.Covers, Desc.coverAll_iff]

namespace KindTable

variable {t t' : KindTable} {m m' : Mask} {s s' : Summary} {d : Desc} {ds : List Desc} {i : Nat}

/-- The mask is any value, or has an entry that covers the description. -/
def Stands (t : KindTable) (m : Mask) (d : Desc) : Prop :=
  m.any = true ∨ ∃ i d', m.has i = true ∧ t.Describes i d' ∧ d'.covers d = true

/-- Every entry of the mask is covered by one of the descriptions. -/
def Within (t : KindTable) (m : Mask) (ds : List Desc) : Prop :=
  ∀ i, m.has i = true → ∃ d', t.Describes i d' ∧ ∃ d ∈ ds, d.covers d' = true

/-- Larger masks over larger tables stand for as much. -/
theorem Stands.mono (h : t.Stands m d) (hg : t.Grows t') (hm : m'.contains m = true) :
    t'.Stands m' d := by
  rcases h with hany | ⟨i, d', hi, hd', hcovers⟩
  · exact Or.inl (Mask.contains_iff_admits.1 hm none hany)
  · rcases Mask.contains_iff_admits.1 hm (some i) (Or.inr hi) with hany | hi'
    · exact Or.inl hany
    · exact Or.inr ⟨i, d', hi', hd'.grow hg, hcovers⟩

/-- What is within some descriptions stays so while the table grows. -/
theorem Within.grow (h : t.Within m ds) (hg : t.Grows t') : t'.Within m ds := by
  intro i hi
  obtain ⟨d', hd', hcovered⟩ := h i hi
  exact ⟨d', hd'.grow hg, hcovered⟩

/-- The descriptions of some entries are those that describe one of them. -/
theorem mem_iff_of_describes {bits : List Nat} (h : List.Forall₂ t.Describes bits ds) :
    d ∈ ds ↔ ∃ i ∈ bits, t.Describes i d := by
  induction h with
  | nil => simp
  | @cons i d' bits ds hd' _ ih =>
      have hfirst : d = d' ↔ t.Describes i d := by
        constructor
        · intro h
          rw [h]
          exact hd'
        · intro h
          exact h.unique hd'
      rw [List.mem_cons, ih, hfirst]
      simp

/-- A summary of the mask describes exactly the entries of the mask. -/
theorem mem_kinds_of_summarize (hw : t.WellFormed) (hm : m.Fits t.size)
    (hs : t.summarize m = .ok s) :
    s.any = m.any ∧ ∀ d, d ∈ s.kinds ↔ ∃ i, m.has i = true ∧ t.Describes i d := by
  obtain ⟨kinds, hkinds, hdescribes⟩ := summarize_eq hw hm
  cases hs.symm.trans hkinds
  refine ⟨rfl, fun d => ?_⟩
  rw [mem_iff_of_describes hdescribes]
  simp only [Mask.mem_members]

/-- What a mask stands for, its summary covers. -/
theorem summary_covers (hw : t.WellFormed) (hm : m.Fits t.size) (hs : t.summarize m = .ok s')
    (hany : s.any = true → m.any = true) (hstands : ∀ d ∈ s.kinds, t.Stands m d) : s'.Covers s := by
  obtain ⟨hany', hkinds⟩ := mem_kinds_of_summarize hw hm hs
  cases hm' : m.any with
  | true =>
      left
      rw [hany', hm']
  | false =>
      right
      constructor
      · apply Bool.eq_false_iff.2
        intro htrue
        rw [hany htrue] at hm'
        cases hm'
      · intro d hd
        rcases hstands d hd with htrue | ⟨i, d', hi, hd', hcovers⟩
        · rw [htrue] at hm'
          cases hm'
        · exact ⟨d', (hkinds d').2 ⟨i, hi, hd'⟩, hcovers⟩

/-- The summary of a mask says no more than descriptions that cover its entries. -/
theorem covered_of_within (hw : t.WellFormed) (hm : m.Fits t.size) (hs : t.summarize m = .ok s')
    (hwithin : t.Within m ds) {d' : Desc} (hd' : d' ∈ s'.kinds) : ∃ d ∈ ds, d.covers d' = true := by
  obtain ⟨i, hi, hdescribes⟩ := ((mem_kinds_of_summarize hw hm hs).2 d').1 hd'
  obtain ⟨d'', hd'', hcovered⟩ := hwithin i hi
  rw [hdescribes.unique hd'']
  exact hcovered

/-! ### What reading a description yields -/

/-- Numbering a kind yields the bit of an entry of this kind, or any value and a note that the kind
was dropped. -/
theorem entry_of_intern {k : Kind} (h : (intern k).run t = .ok (m, t')) :
    (m = .top ∧ t'.overflowed = true) ∨
      ∃ i k', m = .bit i ∧ t'.kinds[i]? = some k' ∧ (k' == k) = true := by
  rcases intern_eq_ok_iff.1 h with ⟨i, hidx, _, hm, rfl⟩ | ⟨_, _, hm, rfl⟩ | ⟨_, _, _, hm, rfl⟩
  · obtain ⟨k', hi, hsame⟩ := indexOf?_eq_some_iff.1 hidx
    exact Or.inr ⟨i, k', hm, hi, hsame⟩
  · exact Or.inl ⟨hm, rfl⟩
  · exact Or.inr ⟨t.size, k, hm, List.getElem?_concat_length, BEq.refl k⟩

theorem Describes.lt (h : t.Describes i d) : i < t.size := by
  obtain ⟨k, hk, -⟩ := h
  exact (List.getElem?_eq_some_iff.1 hk).1

/-- The description of an array entry. -/
theorem describes_array (hw : t.WellFormed) {elem : Mask} (hi : t.kinds[i]? = some (.array elem)) :
    ∃ s, t.summarize elem = .ok s ∧ t.Describes i (.arrayOf s) := by
  obtain ⟨s, hs⟩ := summarize_ok hw (hw.fits_elem hi)
  refine ⟨s, hs, _, hi, ?_⟩
  simp only [describeKind, hs, bind, Except.bind, pure, Except.pure]

/-- The mask adds to `base` what stands for some descriptions, and if the table has dropped nothing,
no more than that. -/
structure Renders (t : KindTable) (base m : Mask) (ds : List Desc) : Prop where
  contains : m.contains base = true
  stands : ∀ d ∈ ds, t.Stands m d
  any_eq : t.overflowed = false → m.any = base.any
  within : t.overflowed = false → ∀ i, m.has i = true → base.has i = true ∨
    ∃ d', t.Describes i d' ∧ ∃ d ∈ ds, d.covers d' = true

namespace Renders

variable {base : Mask}

theorem nil (t : KindTable) (base : Mask) : t.Renders base base [] where
  contains := Mask.contains_refl base
  stands _ hd := nomatch hd
  any_eq _ := rfl
  within _ _ hi := Or.inl hi

/-- A dropped kind counts as any value. -/
theorem top (ht : t.overflowed = true) (ds : List Desc) : t.Renders .empty .top ds where
  contains := rfl
  stands _ _ := Or.inl rfl
  any_eq h := absurd (ht.symm.trans h) (by decide)
  within h := absurd (ht.symm.trans h) (by decide)

/-- An entry stands for a description that it covers. -/
theorem entry (hw : t.WellFormed) {d' : Desc} (hd' : t.Describes i d')
    (hcovers : d'.covers d = true) (hcovered : t.overflowed = false → d.covers d' = true) :
    t.Renders .empty (.bit i) [d] := by
  have hlt : i < kindLimit := Nat.lt_of_lt_of_le hd'.lt hw.size_le
  have hself : (Mask.bit i).has i = true := by
    rw [Mask.has_bit, decide_eq_true hlt, decide_eq_true rfl, Bool.and_self]
  refine ⟨?_, ?_, fun _ => rfl, ?_⟩
  · simp [Mask.contains, Mask.empty]
  · intro d₁ hd₁
    rw [List.mem_singleton.1 hd₁]
    exact Or.inr ⟨i, d', hself, hd', hcovers⟩
  · intro hclear j hj
    rw [Mask.has_bit, Bool.and_eq_true, decide_eq_true_eq, decide_eq_true_eq] at hj
    rw [← hj.2]
    exact Or.inr ⟨d', hd', d, List.mem_singleton_self d, hcovered hclear⟩

/-- One description after the other. -/
theorem cons {t₁ : KindTable} (hd : t₁.Renders .empty m' [d]) (hchanges : t₁.Changes t)
    (hds : t.Renders (base ∪ m') m ds) : t.Renders base m (d :: ds) := by
  have hleft := Mask.contains_trans hds.contains (Mask.contains_union_left base m')
  have hright := Mask.contains_trans hds.contains (Mask.contains_union_right base m')
  refine ⟨hleft, ?_, ?_, ?_⟩
  · intro d₁ hd₁
    rcases List.mem_cons.1 hd₁ with rfl | hmem
    · exact (hd.stands d₁ (List.mem_singleton_self d₁)).mono hchanges.grows hright
    · exact hds.stands d₁ hmem
  · intro hclear
    rw [hds.any_eq hclear, Mask.any_union, hd.any_eq (hchanges.clear hclear)]
    exact Bool.or_false _
  · intro hclear j hj
    rcases hds.within hclear j hj with hunion | ⟨d', hd', d₁, hmem, hcovers⟩
    · rw [Mask.has_union, Bool.and_eq_true, Bool.or_eq_true] at hunion
      rcases hunion.2 with hbase | hadded
      · exact Or.inl hbase
      · rcases hd.within (hchanges.clear hclear) j hadded with hempty | ⟨d', hd', d₁, hmem, hcovers⟩
        · simp [Mask.has, Mask.empty] at hempty
        · rw [List.mem_singleton.1 hmem] at hcovers
          exact Or.inr ⟨d', hd'.grow hchanges.grows, d, List.mem_cons_self .., hcovers⟩
    · exact Or.inr ⟨d', hd', d₁, List.mem_cons_of_mem d hmem, hcovers⟩

/-- What a mask renders it renders in later tables. -/
theorem grow (h : t.Renders base m ds) (hchanges : t.Changes t') : t'.Renders base m ds where
  contains := h.contains
  stands d hd := (h.stands d hd).mono hchanges.grows (Mask.contains_refl m)
  any_eq hclear := h.any_eq (hchanges.clear hclear)
  within hclear i hi := by
    rcases h.within (hchanges.clear hclear) i hi with hbase | ⟨d', hd', hcovered⟩
    · exact Or.inl hbase
    · exact Or.inr ⟨d', hd'.grow hchanges.grows, hcovered⟩

/-- Flags do not matter. -/
theorem of_kinds (h : t.Renders base m ds) (hk : m'.kinds = m.kinds) (ha : m'.any = m.any) :
    t.Renders base m' ds := by
  obtain ⟨kinds, any, _, _, _⟩ := m
  obtain ⟨_, _, _, _, _⟩ := m'
  cases hk
  cases ha
  exact ⟨h.contains, h.stands, h.any_eq, h.within⟩

end Renders

theorem any_adoptBase (any : Bool) : (adoptBase any).any = any := by
  cases any <;> rfl

theorem has_adoptBase (any : Bool) (i : Nat) : (adoptBase any).has i = false := by
  cases any <;> simp [adoptBase, Mask.top, Mask.empty, Mask.has]

namespace Renders

variable (h : t.Renders (adoptBase s.any) m s.kinds)

include h

/-- Any value is read as any value. -/
theorem any_of_any (hany : s.any = true) : m.any = true := by
  apply Mask.contains_iff_admits.1 h.contains none
  rw [Mask.Admits, any_adoptBase, hany]

/-- A table that dropped nothing adds nothing to the summary. -/
theorem within_kinds (hclear : t.overflowed = false) : t.Within m s.kinds := by
  intro i hi
  apply (h.within hclear i hi).resolve_left
  rw [has_adoptBase]
  exact Bool.false_ne_true

/-- A mask that renders a summary is described by a summary that covers it. -/
theorem covers (hw : t.WellFormed) (hm : m.Fits t.size) (hs' : t.summarize m = .ok s') :
    s'.Covers s :=
  summary_covers hw hm hs' h.any_of_any h.stands

/-- If nothing was dropped, the description says no more than the summary, in any larger table. -/
theorem covered (hclear : t.overflowed = false) (hg : t.Grows t') (hw : t'.WellFormed)
    (hm : m.Fits t'.size) (hs' : t'.summarize m = .ok s') :
    s'.any = s.any ∧ ∀ d' ∈ s'.kinds, ∃ d ∈ s.kinds, d.covers d' = true := by
  constructor
  · rw [(mem_kinds_of_summarize hw hm hs').1, h.any_eq hclear, any_adoptBase]
  · intro d' hd'
    exact covered_of_within hw hm hs' ((h.within_kinds hclear).grow hg) hd'

end Renders

/-- Numbering the arrays of a mask that renders a summary renders the arrays of the summary. -/
theorem arrayOf_renders (hw : t.WellFormed) (hm : m.Fits t.size)
    (h : t.Renders (adoptBase s.any) m s.kinds) :
    Runs (arrayOf m) t fun m' t' => t'.Renders .empty m' [.arrayOf s] := by
  refine (arrayOf_runs hw hm).with_run.mono fun m' t' hw' hg ⟨_, hrun⟩ => ?_
  have hchanges := arrayOf_numbers m t m' t' hrun
  rcases entry_of_intern hrun with ⟨rfl, hmark⟩ | ⟨i, k, rfl, hk, hsame⟩
  · exact .top hmark _
  · rw [Kind.eq_array_of_beq hsame] at hk
    obtain ⟨s', hs', hd'⟩ := describes_array hw' hk
    have hshape : t'.Renders (adoptBase s.any) m.shape s.kinds := (h.grow hchanges).of_kinds rfl rfl
    refine .entry hw' hd' (Desc.arrayOf_covers_iff.2 ?_) fun hclear => Desc.arrayOf_covers_iff.2 ?_
    · exact hshape.covers hw' (hw'.fits_elem hk) hs'
    · obtain ⟨hany, hkinds⟩ := hshape.covered hclear (.refl t') hw' (hw'.fits_elem hk) hs'
      cases hs : s.any with
      | true => exact Or.inl hs
      | false => exact Or.inr ⟨hany.trans hs, hkinds⟩

mutual

/-- Reading a description gives a mask that stands for it, or for more if the table is full. -/
theorem adoptKind_renders : (d : Desc) → {t : KindTable} → t.WellFormed →
    Runs (adoptKind d) t fun m t' => t'.Renders .empty m [d]
  | .null, _, hw => Runs.pure hw (.entry hw ⟨.null, hw.primitive? rfl, rfl⟩ rfl fun _ => rfl)
  | .bool, _, hw => Runs.pure hw (.entry hw ⟨.bool, hw.primitive? rfl, rfl⟩ rfl fun _ => rfl)
  | .long, _, hw => Runs.pure hw (.entry hw ⟨.long, hw.primitive? rfl, rfl⟩ rfl fun _ => rfl)
  | .double, _, hw => Runs.pure hw (.entry hw ⟨.double, hw.primitive? rfl, rfl⟩ rfl fun _ => rfl)
  | .string, _, hw => Runs.pure hw (.entry hw ⟨.string, hw.primitive? rfl, rfl⟩ rfl fun _ => rfl)
  | .resource, _, hw =>
      Runs.pure hw (.entry hw ⟨.resource, hw.primitive? rfl, rfl⟩ rfl fun _ => rfl)
  | .array any ref void subclasses kinds, _, hw =>
    Runs.bind (adoptKinds_renders kinds (adoptBase any) hw (fits_adoptBase any)) fun m _ hw' _ hm =>
      arrayOf_renders (s := ⟨any, ref, void, subclasses, kinds⟩) hw'
        (((hm.1.withRef ref).withVoid void).withSubclasses subclasses) (hm.2.of_kinds rfl rfl)
  | .object cls, _, hw => by
    refine (intern_runs hw fun _ h => Kind.noConfusion h).with_run.mono
      fun m t' hw' _ ⟨_, hrun⟩ => ?_
    rcases entry_of_intern hrun with ⟨rfl, hmark⟩ | ⟨i, k, rfl, hk, hsame⟩
    · exact .top hmark _
    · cases k with
      | object c => exact .entry hw' ⟨_, hk, rfl⟩ hsame fun _ => PartialEquivBEq.symm hsame
      | _ => cases hsame

/-- Reading descriptions adds to the mask what stands for them. -/
theorem adoptKinds_renders : (ds : List Desc) → (acc : Mask) → {t : KindTable} → t.WellFormed →
    acc.Fits t.size →
    Runs (adoptKinds acc ds) t fun m t' => m.Fits t'.size ∧ t'.Renders acc m ds
  | [], acc, t, hw, hacc => Runs.pure hw ⟨hacc, .nil t acc⟩
  | d :: ds, acc, t, hw, hacc => by
    refine Runs.bind ((adoptKind_runs d hw).and (adoptKind_renders d hw))
      fun m t₁ hw₁ hg ⟨hfit, hd⟩ => ?_
    refine (adoptKinds_renders ds (acc ∪ m) hw₁ ((hg.fits hacc).union hfit)).with_run.mono
      fun m' t' _ _ ⟨⟨hfit', hds⟩, hrun⟩ => ⟨hfit', ?_⟩
    exact hd.cons (adoptKinds_numbers ds _ t₁ m' t' hrun) hds

end

/-- A summary that is read into a table is rendered there. -/
theorem adopt_renders (hw : t.WellFormed) (s : Summary) :
    Runs (adopt s) t fun m t' => m.Fits t'.size ∧ t'.Renders (adoptBase s.any) m s.kinds ∧
      m.ref = s.ref ∧ m.void = s.void ∧ m.subclasses = s.subclasses := by
  refine Runs.bind (adoptKinds_renders s.kinds _ hw (fits_adoptBase s.any)) fun m t' hw' _ hm => ?_
  refine Runs.pure hw' ⟨?_, hm.2.of_kinds rfl rfl, rfl, rfl, rfl⟩
  exact ((hm.1.withRef s.ref).withVoid s.void).withSubclasses s.subclasses

/-! ### Dropped kinds -/

/-- The table with or without a note of a dropped kind. -/
def marked (t : KindTable) (b : Bool) : KindTable :=
  { t with overflowed := b }

theorem grows_marked (t : KindTable) (b : Bool) : (t.marked b).Grows t :=
  ⟨rfl, rfl, rfl, List.prefix_rfl⟩

theorem WellFormed.marked (hw : t.WellFormed) (b : Bool) : (t.marked b).WellFormed :=
  ⟨hw.cap_le, hw.size_le_cap, hw.primitives, hw.nested⟩

end KindTable

namespace Typing

variable {α β : Type}

/-- The computation drops a kind: on the table without a note of a dropped kind, it leaves one. -/
def Drops (x : Typing α) (t : KindTable) : Prop :=
  ∃ a t', x.run (t.marked false) = .ok (a, t') ∧ t'.overflowed = true

/-- What the computation yields and lists does not depend on whether a kind was dropped before. -/
def IgnoresMark (x : Typing α) : Prop :=
  ∀ t a t', x.run t = .ok (a, t') → ∀ b, ∃ b', x.run (t.marked b) = .ok (a, t'.marked b')

namespace IgnoresMark

variable {x : Typing α} {f : α → Typing β}

theorem pure (a : α) : IgnoresMark (pure a) := by
  intro t a' t' h b
  cases h
  exact ⟨b, rfl⟩

theorem bind (hx : IgnoresMark x) (hf : ∀ a, IgnoresMark (f a)) : IgnoresMark (x >>= f) := by
  intro t c t' h b
  obtain ⟨a, t₁, hfirst, hrest⟩ := exists_of_run_bind h
  obtain ⟨b₁, hfirst'⟩ := hx t a t₁ hfirst b
  obtain ⟨b₂, hrest'⟩ := hf a t₁ c t' hrest b₁
  refine ⟨b₂, ?_⟩
  rw [StateT.run_bind, hfirst']
  exact hrest'

end IgnoresMark

end Typing

namespace KindTable

/-- Whether a kind was dropped before has no bearing on how a kind is numbered. -/
theorem intern_ignoresMark (k : Kind) : IgnoresMark (intern k) := by
  intro t m t' h b
  rcases intern_eq_ok_iff.1 h with ⟨i, hidx, hi, hm, rfl⟩ | ⟨hidx, hfull, hm, rfl⟩ |
    ⟨hidx, hroom, hlimit, hm, rfl⟩
  · exact ⟨b, intern_eq_ok_iff.2 (Or.inl ⟨i, hidx, hi, hm, rfl⟩)⟩
  · exact ⟨true, intern_eq_ok_iff.2 (Or.inr (Or.inl ⟨hidx, hfull, hm, rfl⟩))⟩
  · exact ⟨b, intern_eq_ok_iff.2 (Or.inr (Or.inr ⟨hidx, hroom, hlimit, hm, rfl⟩))⟩

mutual

/-- Nor on how a description is read. -/
theorem adoptKind_ignoresMark : (d : Desc) → IgnoresMark (adoptKind d)
  | .null | .bool | .long | .double | .string | .resource => .pure _
  | .array any _ _ _ kinds =>
    .bind (adoptKinds_ignoresMark kinds (adoptBase any)) fun _ => intern_ignoresMark _
  | .object _ => intern_ignoresMark _

theorem adoptKinds_ignoresMark : (ds : List Desc) → (acc : Mask) → IgnoresMark (adoptKinds acc ds)
  | [], _ => .pure _
  | d :: ds, acc => .bind (adoptKind_ignoresMark d) fun m => adoptKinds_ignoresMark ds (acc ∪ m)

end

theorem adopt_ignoresMark (s : Summary) : IgnoresMark (adopt s) :=
  .bind (adoptKinds_ignoresMark s.kinds _) fun _ => .pure _

end KindTable

/-- Whatever the table, a summary that is read into it and described again covers what it was and
has the same flags; and if the table dropped no kind for it, it covers no more. -/
theorem adopt_covers {t : KindTable} (ht : t.Reachable) (s : Summary) :
    ∃ m t' s', (KindTable.adopt s).run t = .ok (m, t') ∧ t'.summarize m = .ok s' ∧ s'.Covers s ∧
      s'.ref = s.ref ∧ s'.void = s.void ∧ s'.subclasses = s.subclasses ∧
      (¬Drops (KindTable.adopt s) t →
        s'.any = s.any ∧ ∀ d' ∈ s'.kinds, ∃ d ∈ s.kinds, d.covers d' = true) := by
  have hw := ht.wellFormed
  obtain ⟨m, t', hrun, hw', -, hm, hrenders, href, hvoid, hsub⟩ := KindTable.adopt_renders hw s
  obtain ⟨kinds, hs', -⟩ := KindTable.summarize_eq hw' hm
  refine ⟨m, t', _, hrun, hs', hrenders.covers hw' hm hs', href, hvoid, hsub, fun hkeeps => ?_⟩
  -- Without the note of earlier drops, the table ends with the same entries.
  obtain ⟨b, hrun'⟩ := KindTable.adopt_ignoresMark s t m t' hrun false
  have hclear : b = false := by
    apply Bool.eq_false_iff.2
    intro hb
    exact hkeeps ⟨m, _, hrun', hb⟩
  obtain ⟨m₁, t₁, hrun₁, -, -, -, hrenders₁, -⟩ := KindTable.adopt_renders (hw.marked false) s
  cases hrun'.symm.trans hrun₁
  exact hrenders₁.covered hclear (t'.grows_marked b) hw' hm hs'

namespace Sample

/-- An array of arrays of numbers, by reference, as another table may describe it. -/
def nestedSummary : Summary where
  any := false
  ref := true
  void := false
  subclasses := false
  kinds := [.array false false false true [.array false true false false [.long]]]

/-- The table has dropped a kind before, but it lists these arrays. -/
theorem not_drops_nestedSummary : ¬Drops (KindTable.adopt nestedSummary) nestedTable := by
  have hrun : (KindTable.adopt nestedSummary).run (nestedTable.marked false) =
      .ok ((Mask.bit 7).withRef true, nestedTable.marked false) := rfl
  rintro ⟨m, t', hrun', hmark⟩
  cases hrun.symm.trans hrun'
  cases hmark

end Sample

/-- In a full table that has dropped a kind. -/
theorem adopt_covers_nested :
    Sample.nestedTable.Reachable ∧
      ¬Drops (KindTable.adopt Sample.nestedSummary) Sample.nestedTable ∧
      ∃ m t' s', (KindTable.adopt Sample.nestedSummary).run Sample.nestedTable = .ok (m, t') ∧
        t'.summarize m = .ok s' ∧ s'.Covers Sample.nestedSummary ∧ s'.ref = true ∧ s'.any = false ∧
        ∀ d' ∈ s'.kinds, ∃ d ∈ Sample.nestedSummary.kinds, d.covers d' = true := by
  refine ⟨Sample.reachable_nestedTable, Sample.not_drops_nestedSummary, ?_⟩
  obtain ⟨m, t', s', hrun, hs', hcovers, href, -, -, hcovered⟩ :=
    adopt_covers Sample.reachable_nestedTable Sample.nestedSummary
  exact ⟨m, t', s', hrun, hs', hcovers, href, hcovered Sample.not_drops_nestedSummary⟩

end FlowTyping
