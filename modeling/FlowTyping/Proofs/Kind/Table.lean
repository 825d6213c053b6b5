import FlowTyping.Kind.Summary
import FlowTyping.Proofs.Mask.Walk

/-!
# Well-formed kind tables

A mask fits a table when it lists only kinds that the table has. In a well-formed table the
primitive kinds come first, the elements of an array kind are described by earlier kinds, and the
table never outgrows what a mask can list. Reading a mask that fits a well-formed table never fails.
-/

namespace FlowTyping

namespace Mask

/-- The mask is normal and lists only kinds below a number. -/
structure Fits (m : Mask) (n : Nat) : Prop where
  normal : m.Normal
  lt : ∀ i, m.has i = true → i < n

namespace Fits

variable {m m' : Mask} {n n' : Nat}

theorem mono (h : m.Fits n) (hn : n ≤ n') : m.Fits n' :=
  ⟨h.normal, fun i hi => Nat.lt_of_lt_of_le (h.lt i hi) hn⟩

/-- A union lists the kinds of its parts. -/
theorem union (h : m.Fits n) (h' : m'.Fits n) : (m ∪ m').Fits n := by
  refine ⟨normal_union, fun i hi => ?_⟩
  rw [has_union, Bool.and_eq_true, Bool.or_eq_true] at hi
  rcases hi.2 with hm | hm
  · exact h.lt i hm
  · exact h'.lt i hm

/-- Flags do not matter. -/
theorem of_kinds (h : m.Fits n) (hk : m'.kinds = m.kinds) (ha : m'.any = m.any) : m'.Fits n := by
  refine ⟨fun h' => ?_, fun i hi => h.lt i ?_⟩
  · rw [hk]
    exact h.normal (ha ▸ h')
  · rwa [has, hk] at hi

theorem withRef (h : m.Fits n) (b : Bool) : (m.withRef b).Fits n :=
  h.of_kinds rfl rfl

theorem withVoid (h : m.Fits n) (b : Bool) : (m.withVoid b).Fits n :=
  h.of_kinds rfl rfl

theorem withSubclasses (h : m.Fits n) (b : Bool) : (m.withSubclasses b).Fits n :=
  h.of_kinds rfl rfl

theorem shape (h : m.Fits n) : m.shape.Fits n :=
  h.of_kinds rfl rfl

theorem empty : Mask.empty.Fits n := by
  refine ⟨fun h => ?_, fun i hi => ?_⟩
  · cases h
  · simp [has, Mask.empty] at hi

theorem top : Mask.top.Fits n := by
  refine ⟨fun _ => rfl, fun i hi => ?_⟩
  simp [has, Mask.top] at hi

theorem flags : m.flags.Fits n :=
  Fits.empty.of_kinds rfl rfl

/-- The mask of a listed kind fits. -/
theorem bit {i : Nat} (hi : i < n) : (Mask.bit i).Fits n := by
  refine ⟨fun h => ?_, fun j hj => ?_⟩
  · cases h
  · rw [has_bit, Bool.and_eq_true, decide_eq_true_eq, decide_eq_true_eq] at hj
    exact hj.2 ▸ hi

/-- Less than a mask fits where the mask fits. -/
theorem without (h : m.Fits n) : (m.without m').Fits n := by
  rw [Mask.without]
  split
  · exact h
  · rename_i ha
    refine ⟨fun h' => absurd h' ha, fun i hi => h.lt i ?_⟩
    simp only [has, BitVec.getLsbD_and, Bool.and_eq_true] at hi
    exact hi.1

theorem withoutNull (h : m.Fits n) : m.withoutNull.Fits n :=
  h.without

end Fits

/-- The masks of primitive kinds fit every table with the primitive kinds. -/
theorem fits_number {n : Nat} (hn : 6 ≤ n) : number.Fits n :=
  (Fits.bit (by omega)).union (Fits.bit (by omega))

/-- Any value fits every table. -/
theorem fits_sharedMask {n : Nat} : Slot.sharedMask.Fits n :=
  Fits.top.withRef true

end Mask

namespace KindTable

/-- The table lists the primitive kinds first and the kinds of array elements before the array, and
is small enough for masks. -/
structure WellFormed (t : KindTable) : Prop where
  cap_le : t.cap ≤ kindLimit
  size_le_cap : t.size ≤ t.cap
  primitives : Kind.primitives <+: t.kinds
  nested : ∀ {i : Nat} {elem : Mask}, t.kinds[i]? = some (.array elem) → elem.Fits i

/-- A later version of a table: further kinds may have been listed. -/
structure Grows (t t' : KindTable) : Prop where
  id : t'.id = t.id
  cap : t'.cap = t.cap
  self : t'.self? = t.self?
  kinds : t.kinds <+: t'.kinds

variable {t t' t'' : KindTable} {m : Mask}

namespace Grows

theorem refl (t : KindTable) : t.Grows t :=
  ⟨rfl, rfl, rfl, List.prefix_rfl⟩

theorem trans (h : t.Grows t') (h' : t'.Grows t'') : t.Grows t'' :=
  ⟨h'.id.trans h.id, h'.cap.trans h.cap, h'.self.trans h.self, h.kinds.trans h'.kinds⟩

theorem push {k : Kind} (hnew : t.indexOf? k = none) : t.Grows (t.push k hnew) :=
  ⟨rfl, rfl, rfl, List.prefix_append _ _⟩

/-- A table that grows has no fewer kinds. -/
theorem size_le (h : t.Grows t') : t.size ≤ t'.size :=
  h.kinds.length_le

/-- Kinds keep their numbers. -/
theorem kind? (h : t.Grows t') {i : Nat} {k : Kind} (hi : t.kinds[i]? = some k) :
    t'.kinds[i]? = some k := by
  obtain ⟨more, hm⟩ := h.kinds
  rw [← hm, List.getElem?_append_left (List.getElem?_eq_some_iff.1 hi).1, hi]

/-- A mask that fits a table fits all later ones. -/
theorem fits (h : t.Grows t') (hm : m.Fits t.size) : m.Fits t'.size :=
  hm.mono h.size_le

end Grows

namespace WellFormed

theorem six_le_size (h : t.WellFormed) : 6 ≤ t.size :=
  h.primitives.length_le

theorem size_le (h : t.WellFormed) : t.size ≤ kindLimit :=
  Nat.le_trans h.size_le_cap h.cap_le

/-- Primitive kinds have the same number in every table. -/
theorem primitive? (h : t.WellFormed) {i : Nat} {k : Kind}
    (hi : Kind.primitives[i]? = some k) : t.kinds[i]? = some k := by
  obtain ⟨more, hmore⟩ := h.primitives
  rw [← hmore, List.getElem?_append_left (List.getElem?_eq_some_iff.1 hi).1, hi]

/-- A new table is well formed, whatever its capacity. -/
theorem new (id : ContextId) (cap : Nat) (self? : Option Name) :
    (KindTable.new id cap self?).WellFormed := by
  refine ⟨?_, ?_, List.prefix_rfl, fun {i elem} h => ?_⟩
  · simp only [KindTable.new, kindLimit]
    omega
  · simp only [KindTable.new, KindTable.size, Kind.primitives, List.length_cons, List.length_nil]
    omega
  · have hmem := List.mem_of_getElem? h
    simp [KindTable.new, Kind.primitives] at hmem

/-- Listing a kind keeps a table well formed, as long as there is room and the elements of an array
are known. -/
theorem push (h : t.WellFormed) {k : Kind} (hnew : t.indexOf? k = none) (hroom : t.size < t.cap)
    (hk : ∀ elem, k = .array elem → elem.Fits t.size) : (t.push k hnew).WellFormed := by
  refine ⟨h.cap_le, ?_, h.primitives.trans (List.prefix_append _ _), fun {i elem} hi => ?_⟩
  · simp only [KindTable.size, KindTable.push, List.length_append, List.length_singleton] at hroom ⊢
    omega
  · rcases getElem?_concat_eq_some.1 hi with hold | ⟨rfl, rfl⟩
    · exact h.nested hold
    · exact hk elem rfl

/-- The elements of a listed array kind fit the table. -/
theorem fits_elem (h : t.WellFormed) {i : Nat} {elem : Mask}
    (hi : t.kinds[i]? = some (.array elem)) : elem.Fits t.size :=
  (h.nested hi).mono (Nat.le_of_lt (List.getElem?_eq_some_iff.1 hi).1)

end WellFormed

/-! ### Reading a mask that fits -/

/-- Every number that is listed means a kind. -/
theorem kindAt_ok {i : Nat} (hi : i < t.size) :
    ∃ k, t.kinds[i]? = some k ∧ t.kindAt i = .ok k := by
  refine ⟨t.kinds[i], List.getElem?_eq_getElem hi, ?_⟩
  simp only [kindAt, List.getElem?_eq_getElem hi]

theorem kindAt_eq_ok {i : Nat} {k : Kind} : t.kindAt i = .ok k ↔ t.kinds[i]? = some k := by
  rw [kindAt]
  cases t.kinds[i]? <;> simp

theorem lt_of_mem_members {n i : Nat} (hm : m.Fits n) (hi : i ∈ m.members) : i < n :=
  hm.lt i (Mask.mem_members.1 hi)

/-- The classes that a mask lists can be read off. -/
theorem classes_ok (hm : m.Fits t.size) : ∃ cs, t.classes m = .ok cs := by
  obtain ⟨ks, hks⟩ := mapM_ok (f := t.kindAt) (l := m.members) fun i hi =>
    let ⟨k, _, hk⟩ := kindAt_ok (lt_of_mem_members hm hi)
    ⟨k, hk⟩
  refine ⟨ks.filterMap Kind.class?, ?_⟩
  simp only [classes, hks, bind, Except.bind, pure, Except.pure]

/-- The elements of a listed array fit the table. -/
theorem fits_elementOfKind (ht : t.WellFormed) {i : Nat} {k : Kind} (hk : t.kinds[i]? = some k) :
    (elementOfKind k).Fits t.size := by
  have hsix := ht.six_le_size
  cases k with
  | array elem => exact ht.fits_elem hk
  | string => exact Mask.Fits.bit (by omega)
  | object _ => exact Mask.Fits.top
  | null | bool | long | double | resource => exact Mask.Fits.bit (by omega)

/-- What is found in a container fits the table. -/
theorem elementMask_ok (ht : t.WellFormed) (hm : m.Fits t.size) :
    ∃ e, t.elementMask m = .ok e ∧ e.Fits t.size := by
  rw [elementMask]
  split
  · exact ⟨_, rfl, Mask.Fits.top⟩
  · refine foldlM_ok (fun i hi acc hacc => ?_) Mask.Fits.empty
    obtain ⟨k, hk, hkind⟩ := kindAt_ok (lt_of_mem_members hm hi)
    refine ⟨acc ∪ elementOfKind k, ?_, hacc.union (fits_elementOfKind ht hk)⟩
    simp only [hkind, bind, Except.bind, pure, Except.pure]

/-- A loop that unites masks admits what one of them admits. -/
theorem admits_foldlM {α : Type} {g : Mask → α → Except Fault Mask} {f : α → Except Fault Mask}
    (hg : ∀ acc a, g acc a = (f a).map (acc ∪ ·)) {l : List α} {acc r : Mask}
    (h : l.foldlM g acc = .ok r) {k : Option Nat} :
    r.Admits k ↔ acc.Admits k ∨ ∃ a m, a ∈ l ∧ f a = .ok m ∧ m.Admits k := by
  induction l generalizing acc with
  | nil =>
      cases h
      simp
  | cons a l ih =>
      rw [List.foldlM_cons, hg] at h
      cases hf : f a with
      | error fault => simp [hf, Except.map, bind, Except.bind] at h
      | ok m =>
          simp only [hf, Except.map, bind, Except.bind] at h
          rw [ih h, Mask.admits_union, or_assoc]
          refine or_congr Iff.rfl ?_
          simp [List.mem_cons, or_and_right, exists_or, hf]

/-- The elements of a mask are those of its kinds. -/
theorem admits_elementMask {e : Mask} (h : t.elementMask m = .ok e) {k : Option Nat} :
    e.Admits k ↔ m.any = true ∨ ∃ i kind, m.has i = true ∧ t.kinds[i]? = some kind ∧
      (elementOfKind kind).Admits k := by
  rw [elementMask] at h
  split at h
  · rename_i hany
    cases h
    refine iff_of_true ?_ (Or.inl hany)
    cases k with
    | none => rfl
    | some i => exact Or.inl rfl
  · rename_i hany
    have hstep : ∀ acc i, (do return acc ∪ elementOfKind (← t.kindAt i)) =
        ((t.kindAt i).map elementOfKind).map (acc ∪ ·) := by
      intro acc i
      cases t.kindAt i <;> rfl
    have hempty : ¬Mask.empty.Admits k := by cases k <;> simp [Mask.Admits, Mask.empty, Mask.has]
    rw [admits_foldlM hstep h]
    simp only [hempty, hany, false_or, Bool.false_eq_true, Mask.mem_members]
    constructor
    · rintro ⟨i, _, hi, hkind, hk⟩
      cases hat : t.kindAt i with
      | error fault => simp [hat, Except.map] at hkind
      | ok kind =>
          simp only [hat, Except.map, Except.ok.injEq] at hkind
          subst hkind
          exact ⟨i, kind, hi, kindAt_eq_ok.1 hat, hk⟩
    · rintro ⟨i, kind, hi, hkind, hk⟩
      exact ⟨i, _, hi, by rw [kindAt_eq_ok.2 hkind]; rfl, hk⟩

/-- Larger masks over larger tables have more elements. -/
theorem elementMask_contains {t' : KindTable} {m' e e' : Mask} (hg : t.Grows t')
    (hm : m'.contains m = true) (he : t.elementMask m = .ok e) (he' : t'.elementMask m' = .ok e') :
    e'.contains e = true := by
  rw [Mask.contains_iff_admits] at hm ⊢
  intro k hk
  rw [admits_elementMask he']
  rcases (admits_elementMask he).1 hk with hany | ⟨i, kind, hi, hkind, hk⟩
  · exact Or.inl (hm none hany)
  · rcases hm (some i) (Or.inr hi) with hany | hi
    · exact Or.inl hany
    · exact Or.inr ⟨i, kind, hi, hg.kind? hkind, hk⟩

theorem ofIndex_ok (ht : t.WellFormed) {i : Nat} (hi : i < t.size) :
    Mask.ofIndex i = .ok (.bit i) := by
  have := ht.size_le
  rw [Mask.ofIndex, if_pos (by omega)]

/-- What passes a test on kinds fits the table. -/
theorem filter_ok (ht : t.WellFormed) (hm : m.Fits t.size) (keep : Kind → Bool) :
    ∃ r, t.filter m keep = .ok r ∧ r.Fits t.size := by
  rw [filter]
  split
  · exact ⟨m, rfl, hm⟩
  · refine foldlM_ok (fun i hi acc hacc => ?_) Mask.Fits.flags
    have hlt := lt_of_mem_members hm hi
    obtain ⟨k, _, hkind⟩ := kindAt_ok hlt
    by_cases hkeep : keep k = true
    · refine ⟨acc ∪ .bit i, ?_, hacc.union (Mask.Fits.bit hlt)⟩
      simp only [hkind, hkeep, ofIndex_ok ht hlt, bind, Except.bind, pure, Except.pure, if_true]
    · refine ⟨acc, ?_, hacc⟩
      simp only [hkind, hkeep, bind, Except.bind, pure, Except.pure, Bool.false_eq_true, if_false]

/-- Whether all kinds pass a test can be told for a mask that fits. -/
theorem allKinds_ok (hm : m.Fits t.size) (test : Kind → Bool) :
    ∃ b, t.allKinds m test = .ok b := by
  rw [allKinds]
  split
  · exact ⟨false, rfl⟩
  · refine allM_ok fun i hi => ?_
    obtain ⟨k, _, hkind⟩ := kindAt_ok (lt_of_mem_members hm hi)
    exact ⟨test k, by simp only [hkind, bind, Except.bind, pure, Except.pure]⟩

theorem anyKind_ok (hm : m.Fits t.size) (test : Kind → Bool) :
    ∃ b, t.anyKind m test = .ok b := by
  rw [anyKind]
  split
  · exact ⟨true, rfl⟩
  · refine anyM_ok fun i hi => ?_
    obtain ⟨k, _, hkind⟩ := kindAt_ok (lt_of_mem_members hm hi)
    exact ⟨test k, by simp only [hkind, bind, Except.bind, pure, Except.pure]⟩

/-- All kinds of the mask have passed the test, and it does not allow any value. -/
theorem of_allKinds {test : Kind → Bool} (h : t.allKinds m test = .ok true) :
    m.any = false ∧ ∀ i k, m.has i = true → t.kinds[i]? = some k → test k = true := by
  rw [allKinds] at h
  split at h
  · cases h
  · rename_i hm
    refine ⟨(Bool.or_eq_false_iff.1 (Bool.not_eq_true _ ▸ hm)).1, fun i k hi hk => ?_⟩
    have htest := of_allM h i (Mask.mem_members.2 hi)
    simpa [kindAt_eq_ok.2 hk, bind, Except.bind, pure, Except.pure] using htest

/-- No kind of the mask has passed the test, and it does not allow any value. -/
theorem of_anyKind {test : Kind → Bool} (h : t.anyKind m test = .ok false) :
    m.any = false ∧ ∀ i k, m.has i = true → t.kinds[i]? = some k → test k = false := by
  rw [anyKind] at h
  split at h
  · cases h
  · rename_i hm
    refine ⟨Bool.not_eq_true _ ▸ hm, fun i k hi hk => ?_⟩
    have htest := of_anyM h i (Mask.mem_members.2 hi)
    simpa [kindAt_eq_ok.2 hk, bind, Except.bind, pure, Except.pure] using htest

/-- Elements of arrays are listed before the array, so a description ends within as many levels as
there are kinds. -/
theorem summarizeWithin_ok (ht : t.WellFormed) {depth n : Nat} (hm : m.Fits n) (hn : n ≤ t.size)
    (hd : n < depth) : ∃ s, t.summarizeWithin depth m = .ok s := by
  induction depth generalizing m n with
  | zero => omega
  | succ depth ih =>
      have hread : ∀ i ∈ m.members,
          ∃ d, (do describeKind (t.summarizeWithin depth) (← t.kindAt i)) = .ok d := by
        intro i hi
        have hlt := lt_of_mem_members hm hi
        obtain ⟨k, hk, hkind⟩ := kindAt_ok (t := t) (i := i) (by omega)
        simp only [hkind, bind, Except.bind]
        cases k with
        | array elem =>
            obtain ⟨s, hs⟩ := ih (ht.nested hk) (by omega) (by omega)
            exact ⟨.arrayOf s, by simp only [describeKind, hs, bind, Except.bind, pure,
              Except.pure]⟩
        | null | bool | long | double | string | resource | object _ => exact ⟨_, rfl⟩
      obtain ⟨ks, hks⟩ := mapM_ok hread
      refine ⟨⟨m.any, m.ref, m.void, m.subclasses, ks⟩, ?_⟩
      rw [summarizeWithin, hks]
      rfl

/-- A mask that fits can be described. -/
theorem summarize_ok (ht : t.WellFormed) (hm : m.Fits t.size) : ∃ s, t.summarize m = .ok s :=
  summarizeWithin_ok ht hm (Nat.le_refl _) (Nat.lt_succ_self _)

end KindTable

end FlowTyping
