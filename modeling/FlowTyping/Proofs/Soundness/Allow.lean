import FlowTyping.Proofs.Declaration.Hierarchy
import FlowTyping.Proofs.Kind.RoundTrip
import FlowTyping.Proofs.Soundness.Operator

/-!
# Objects of a class and of its subclasses

A class kind stands for the objects of its class; in a mask that includes subclasses it also stands
for those of the declared subclasses. `Mask.Allows` says in this sense that a mask describes a
value. Unions and filters are seen through the kinds that a mask lists: what they allow depends on
the kinds that the value is of and on the flag.
-/

namespace FlowTyping

namespace Value

/-- The items of an array; other values have none. -/
def items : Value → List (Key × Value)
  | .array items => items
  | _ => []

/-- The value is of a kind, whatever the elements of arrays are. With `subclasses`, a class kind
stands for the declared subclasses too. -/
def IsOf (d : Declarations) (subclasses : Bool) : Value → Kind → Prop
  | .object cls _, .object c => (cls == c) = true ∨ subclasses = true ∧ d.Extends cls c
  | v, k => v.isLike k = true

variable {d : Declarations} {v : Value} {k : Kind}

/-- A value of a kind is like the kind. -/
theorem IsOf.isLike {b : Bool} (h : v.IsOf d b k) : v.isLike k = true := by
  cases v with
  | object =>
      cases k with
      | object => rfl
      | _ => exact h
  | _ => exact h

theorem IsOf.widen {b b' : Bool} (hb : b = true → b' = true) (h : v.IsOf d b k) :
    v.IsOf d b' k := by
  cases v with
  | object cls id =>
      cases k with
      | object c => exact h.imp_right fun hsub => ⟨hb hsub.1, hsub.2⟩
      | _ => exact h
  | _ => exact h

/-- Only between objects and classes is there more to say than the sort. -/
theorem isOf_of_isLike {b : Bool} (hk : k.isObject = false) (h : v.isLike k = true) :
    v.IsOf d b k := by
  cases v with
  | object =>
      cases k with
      | object => cases hk
      | _ => exact h
  | _ => exact h

theorem exists_array_of_mem_items {item : Key × Value} (h : item ∈ v.items) :
    ∃ items, v = .array items := by
  cases v with
  | array items => exact ⟨items, rfl⟩
  | _ => cases h

end Value

/-- The mask describes the value. The elements of an array are described by the array kinds of the
mask, each by one of them. -/
inductive Mask.Allows (d : Declarations) (t : KindTable) : Mask → Value → Prop
  | any {m v} (h : m.any = true) : Allows d t m v
  | kind {m v k} {elemOf : Key × Value → Mask} (hk : t.Offers m k) (hv : v.IsOf d m.subclasses k)
      (hoffers : ∀ item ∈ v.items, t.Offers m (.array (elemOf item)))
      (hitems : ∀ item ∈ v.items, Allows d t (elemOf item) item.2) : Allows d t m v

/-- A runtime with the declared classes. -/
def Declarations.runtime (d : Declarations) : Runtime :=
  ⟨fun _ => none, fun _ text => .inl text, fun _ _ => false, d.Extends⟩

variable {d : Declarations} {t t' : KindTable} {m m' r : Mask} {v : Value} {k : Kind}

namespace Mask.Allows

/-- Without "any value", a value is of a listed kind, and its elements are described by listed array
kinds. -/
theorem iff_of_not_any (hany : m.any = false) :
    m.Allows d t v ↔ (∃ k, t.Offers m k ∧ v.IsOf d m.subclasses k) ∧
      ∀ item ∈ v.items, ∃ elem, t.Offers m (.array elem) ∧ elem.Allows d t item.2 := by
  constructor
  · intro h
    cases h with
    | any h => exact absurd (hany.symm.trans h) (by decide)
    | kind hk hv hoffers hitems =>
        exact ⟨⟨_, hk, hv⟩, fun item hitem => ⟨_, hoffers item hitem, hitems item hitem⟩⟩
  · rintro ⟨⟨k, hk, hv⟩, hitems⟩
    obtain ⟨elemOf, hspec⟩ : ∃ elemOf : Key × Value → Mask, ∀ item ∈ v.items,
        t.Offers m (.array (elemOf item)) ∧ (elemOf item).Allows d t item.2 :=
      ⟨fun _ => Classical.epsilon _, fun item hitem => Classical.epsilon_spec (hitems item hitem)⟩
    exact .kind hk hv (fun item hitem => (hspec item hitem).1) fun item hitem =>
      (hspec item hitem).2

theorem exists_kind (hany : m.any = false) (h : m.Allows d t v) :
    ∃ k, t.Offers m k ∧ v.IsOf d m.subclasses k :=
  ((iff_of_not_any hany).1 h).1

theorem plain (hk : t.Offers m k) (hv : v.IsOf d m.subclasses k) (hitems : v.items = []) :
    m.Allows d t v := by
  cases hany : m.any with
  | true => exact .any hany
  | false =>
      rw [iff_of_not_any hany, hitems]
      exact ⟨⟨k, hk, hv⟩, List.forall_mem_nil _⟩

/-- Which subclasses are meant makes no difference to the sort of a value. -/
theorem describes (h : m.Allows d t v) : m.Describes d.runtime t v := by
  induction h with
  | any h => exact .any h
  | @kind m v k elemOf hk hv hoffers _ ih =>
      cases v with
      | array items =>
          cases k with
          | array elem => exact .array hk hoffers ih
          | _ => cases hv
      | object cls id =>
          cases k with
          | object c =>
              have hextends : d.Extends cls c := by
                rcases hv with hsame | ⟨-, hextends⟩
                · exact .of_beq hsame
                · exact hextends
              exact .plain hk hextends
          | _ => cases hv
      | _ => exact .plain hk hv

/-- What a mask allows it still allows after the table has grown. -/
theorem grow (hg : t.Grows t') (h : m.Allows d t v) : m.Allows d t' v := by
  induction h with
  | any h => exact .any h
  | kind hk hv hoffers _ ih =>
      exact .kind (hg.offers hk) hv (fun item hitem => hg.offers (hoffers item hitem)) ih

/-- Only the kinds that the value is of matter. -/
theorem of_offers (h : m.Allows d t v) (hany : m.any = true → m'.any = true)
    (hk : m'.any = false → ∀ k, v.IsOf d m.subclasses k → t.Offers m k →
      t.Offers m' k ∧ v.IsOf d m'.subclasses k) : m'.Allows d t v := by
  cases hm' : m'.any with
  | true => exact .any hm'
  | false =>
      have hm : m.any = false := by
        cases hm : m.any with
        | true => exact absurd (hm'.symm.trans (hany hm)) (by decide)
        | false => rfl
      rw [iff_of_not_any hm] at h
      rw [iff_of_not_any hm']
      obtain ⟨⟨k, hoffers, hv⟩, hitems⟩ := h
      constructor
      · exact ⟨k, hk hm' k hv hoffers⟩
      · intro item hitem
        obtain ⟨elem, helem, hallows⟩ := hitems item hitem
        obtain ⟨items, rfl⟩ := Value.exists_array_of_mem_items hitem
        exact ⟨elem, (hk hm' _ (Value.isOf_of_isLike rfl rfl) helem).1, hallows⟩

/-- A larger mask whose flag is not less describes no less. -/
theorem of_contains (hc : m'.contains m = true) (hsub : m.subclasses = true → m'.subclasses = true)
    (h : m.Allows d t v) : m'.Allows d t v := by
  rcases Mask.contains_iff.1 hc with hany | ⟨hnot, hkinds⟩
  · exact .any hany
  · apply h.of_offers
    · intro hany
      exact absurd (hnot.symm.trans hany) (by decide)
    · rintro - k hv ⟨i, hi, hk⟩
      exact ⟨⟨i, hkinds i hi, hk⟩, hv.widen hsub⟩

/-- A union allows what its parts allow. -/
theorem union_left (h : m.Allows d t v) : (m ∪ m').Allows d t v := by
  apply h.of_contains (Mask.contains_union_left m m')
  intro hsub
  rw [Mask.subclasses_union, hsub, Bool.true_or]

theorem union_right (h : m'.Allows d t v) : (m ∪ m').Allows d t v := by
  rw [Mask.union_comm]
  exact h.union_left

theorem withRef (h : m.Allows d t v) (b : Bool) : (m.withRef b).Allows d t v :=
  h.of_contains (Mask.contains_refl m) id

/-- An array does not depend on the flag. -/
theorem shape {items : List (Key × Value)} (h : m.Allows d t (.array items)) :
    m.shape.Allows d t (.array items) := by
  apply h.of_offers
  · exact id
  · intro _ k hv hk
    exact ⟨hk, hv⟩

/-- The mask of a primitive kind describes the values of that sort. -/
theorem bit (ht : t.WellFormed) {i : Nat} (hi : Kind.primitives[i]? = some k)
    (hv : v.isLike k = true) : (Mask.bit i).Allows d t v := by
  have hlt : i < 6 := (List.getElem?_eq_some_iff.1 hi).1
  have hmem := List.mem_of_getElem? hi
  have hobject : k.isObject = false := by
    cases k <;> simp [Kind.primitives, Kind.isObject] at hmem ⊢
  apply plain (KindTable.offers_bit (Nat.lt_of_lt_of_le hlt (by decide)) (ht.primitive? hi))
  · exact Value.isOf_of_isLike hobject hv
  · cases v with
    | array => cases k <;> simp [Value.isLike, Kind.primitives] at hv hmem
    | _ => rfl

/-- The mask of numbers allows every number. -/
theorem number (ht : t.WellFormed) (n : Number) : Mask.number.Allows d t (.ofNumber n) := by
  cases n with
  | long n => exact (bit ht (i := 2) (k := .long) rfl rfl).union_left
  | double x => exact (bit ht (i := 3) (k := .double) rfl rfl).union_right

/-- Arrays of anything describe every array. -/
theorem of_lists_array (h : t.Lists m (.array .top)) (items : List (Key × Value)) :
    m.Allows d t (.array items) := by
  rcases h with hany | ⟨i, k, hi, hk, hsame⟩
  · exact .any hany
  · cases k with
    | array elem =>
        have helem : elem = .top := beq_iff_eq.1 (show (elem == Mask.top) = true from hsame)
        subst helem
        exact .kind ⟨i, hi, hk⟩ rfl (fun _ _ => ⟨i, hi, hk⟩) fun _ _ => .any rfl
    | _ => cases hsame

/-- The mask of a class describes its objects, and those of subclasses if the flag says so. -/
theorem of_lists_object {c cls : Name} (h : t.Lists m (.object c))
    (hcls : (cls == c) = true ∨ m.subclasses = true ∧ d.Extends cls c) (id : Nat) :
    m.Allows d t (.object cls id) := by
  rcases h with hany | ⟨i, k, hi, hk, hsame⟩
  · exact .any hany
  · cases k with
    | object c' =>
        have hc : (c == c') = true := BEq.symm (show (c' == c) = true from hsame)
        apply plain ⟨i, hi, hk⟩ _ rfl
        rcases hcls with hcls | ⟨hsub, hextends⟩
        · exact Or.inl (BEq.trans hcls hc)
        · exact Or.inr ⟨hsub, hextends.trans (.of_beq hc)⟩
    | _ => cases hsame

end Mask.Allows

/-! ### Filters -/

namespace Mask

/-- A mask is empty just if it offers no kind, and not any either. -/
theorem isEmpty_iff_offers (hm : m.Fits t.size) :
    m.isEmpty = true ↔ m.any = false ∧ ∀ k, ¬t.Offers m k := by
  rw [isEmpty, Bool.and_eq_true, beq_iff_eq, Bool.not_eq_true', and_comm]
  apply and_congr_right
  intro _
  constructor
  · rintro hkinds k ⟨i, hi, -⟩
    simp [has, hkinds] at hi
  · intro hnone
    apply BitVec.eq_of_getLsbD_eq
    intro i _
    cases hi : m.kinds.getLsbD i with
    | false => simp
    | true =>
        obtain ⟨k, hk, -⟩ := KindTable.kindAt_ok (hm.lt i hi)
        exact absurd ⟨i, hi, hk⟩ (hnone k)

end Mask

namespace KindTable

variable {keep : Kind → Bool}

/-- The listed kind with a number passes a test. -/
def passes (t : KindTable) (keep : Kind → Bool) (i : Nat) : Bool :=
  (t.kind? i).any keep

theorem passes_eq {i : Nat} (hk : t.kinds[i]? = some k) : t.passes keep i = keep k := by
  rw [passes, kind?, hk, Option.any_some]

/-- The loop over the kinds of a mask collects those that pass. -/
theorem foldlM_filter (ht : t.WellFormed) {l : List Nat} (hl : ∀ i ∈ l, i < t.size) (acc : Mask) :
    l.foldlM (fun acc i => do
      if keep (← t.kindAt i) then return acc ∪ (← Mask.ofIndex i) else return acc) acc =
      .ok (acc.withBits (l.filter (t.passes keep))) := by
  induction l generalizing acc with
  | nil => rfl
  | cons i rest ih =>
      obtain ⟨hi, hrest⟩ := List.forall_mem_cons.1 hl
      obtain ⟨k, hk, hkind⟩ := kindAt_ok hi
      rw [List.foldlM_cons, hkind, ofIndex_ok ht hi, List.filter_cons, passes_eq hk]
      cases hkeep : keep k with
      | true =>
          simp only [bind, Except.bind, pure, Except.pure, hkeep, if_true, Mask.withBits_cons]
          exact ih hrest _
      | false =>
          simp only [bind, Except.bind, pure, Except.pure, hkeep, Bool.false_eq_true, if_false]
          exact ih hrest _

/-- A filter keeps the flags and the kinds that pass. -/
theorem filter_eq (ht : t.WellFormed) (hm : m.Fits t.size) (hany : m.any = false)
    (keep : Kind → Bool) :
    t.filter m keep = .ok (m.flags.withBits (m.members.filter (t.passes keep))) := by
  rw [filter, if_neg (by simp [hany])]
  exact foldlM_filter ht (fun i hi => lt_of_mem_members hm hi) m.flags

theorem length_filterMap_class? {numbers : List Nat} {kinds : List Kind}
    (h : List.Forall₂ (fun i k => t.kindAt i = .ok k) numbers kinds) :
    (kinds.filterMap Kind.class?).length = (numbers.filter (t.passes Kind.isObject)).length := by
  induction h with
  | nil => rfl
  | @cons i k _ _ hi _ ih =>
      rw [List.filter_cons, List.filterMap_cons, passes_eq (kindAt_eq_ok.1 hi)]
      cases k <;> simp [Kind.class?, Kind.isObject, ih]

/-- The classes of a mask are as many as its class kinds. -/
theorem length_classes {classes : List Name} (h : t.classes m = .ok classes) :
    classes.length = (m.members.filter (t.passes Kind.isObject)).length := by
  rw [KindTable.classes] at h
  cases hkinds : m.members.mapM t.kindAt with
  | error fault => simp [hkinds, bind, Except.bind] at h
  | ok kinds =>
      simp only [hkinds, bind, Except.bind, pure, Except.pure, Except.ok.injEq] at h
      rw [← h]
      exact length_filterMap_class? (forall₂_of_mapM hkinds)

section Listed

variable (ht : t.WellFormed) (hm : m.Fits t.size) (hany : m.any = false)
  (h : t.filter m keep = .ok r)

include ht hm hany h

theorem any_filter : r.any = false := by
  cases (filter_eq ht hm hany keep).symm.trans h
  exact Mask.any_withBits

theorem subclasses_filter : r.subclasses = m.subclasses := by
  cases (filter_eq ht hm hany keep).symm.trans h
  have hflags : (m.flags.withBits (m.members.filter (t.passes keep))).flags = m.flags.flags :=
    Mask.flags_withBits
  exact (congrArg Mask.subclasses hflags :)

theorem has_filter {i : Nat} : r.has i = true ↔ m.has i = true ∧ t.passes keep i = true := by
  cases (filter_eq ht hm hany keep).symm.trans h
  rw [Mask.has_withBits rfl, List.mem_filter, Mask.mem_members]
  constructor
  · rintro (hnone | ⟨-, hi⟩)
    · simp [Mask.has, Mask.flags] at hnone
    · exact hi
  · intro hi
    exact Or.inr ⟨Mask.lt_of_has hi.1, hi⟩

/-- The filtered mask offers the kinds that pass. -/
theorem offers_filter : t.Offers r k ↔ t.Offers m k ∧ keep k = true := by
  constructor
  · rintro ⟨i, hi, hk⟩
    obtain ⟨hi, hpasses⟩ := (has_filter ht hm hany h).1 hi
    rw [passes_eq hk] at hpasses
    exact ⟨⟨i, hi, hk⟩, hpasses⟩
  · rintro ⟨⟨i, hi, hk⟩, hkeep⟩
    exact ⟨i, (has_filter ht hm hany h).2 ⟨hi, (passes_eq hk).trans hkeep⟩, hk⟩

/-- A filter that treats all arrays alike keeps a value if it keeps one of its kinds. -/
theorem allows_filter_iff (harray : ∀ a b, keep (.array a) = keep (.array b))
    (hv : m.Allows d t v) :
    r.Allows d t v ↔ ∃ k, t.Offers m k ∧ v.IsOf d m.subclasses k ∧ keep k = true := by
  have hr := any_filter ht hm hany h
  have hsub := subclasses_filter ht hm hany h
  rw [Mask.Allows.iff_of_not_any hr, hsub]
  simp only [offers_filter ht hm hany h]
  constructor
  · rintro ⟨⟨k, ⟨hk, hkeep⟩, hof⟩, -⟩
    exact ⟨k, hk, hof, hkeep⟩
  · rintro ⟨k, hk, hof, hkeep⟩
    refine ⟨⟨k, ⟨hk, hkeep⟩, hof⟩, fun item hitem => ?_⟩
    obtain ⟨elem, helem, hallows⟩ := ((Mask.Allows.iff_of_not_any hany).1 hv).2 item hitem
    obtain ⟨items, rfl⟩ := Value.exists_array_of_mem_items hitem
    refine ⟨elem, ⟨helem, ?_⟩, hallows⟩
    cases k with
    | array elem' => rw [harray elem elem', hkeep]
    | _ => cases hof

/-- A filter leaves nothing exactly if no kind passes. -/
theorem isEmpty_filter_iff : r.isEmpty = true ↔ ∀ k, t.Offers m k → keep k = false := by
  have hfit : r.Fits t.size := by
    obtain ⟨r', hr', hfit⟩ := filter_ok ht hm keep
    cases h.symm.trans hr'
    exact hfit
  rw [Mask.isEmpty_iff_offers hfit]
  simp only [any_filter ht hm hany h, offers_filter ht hm hany h, true_and, not_and,
    Bool.not_eq_true]

/-- Its numbers are those that pass, in the same order. -/
theorem members_filter : r.members = m.members.filter (t.passes keep) := by
  rw [Mask.members_eq_filter, Mask.members_eq_filter, List.filter_filter]
  apply List.filter_congr
  intro i _
  rw [Bool.eq_iff_iff, has_filter ht hm hany h, Bool.and_eq_true, and_comm]

/-- If a filter that keeps objects only keeps as many kinds as there are classes, it keeps every
class. -/
theorem keep_of_count {classes : List Name} (hclasses : t.classes m = .ok classes)
    (hkeep : ∀ k, keep k = true → k.isObject = true) (hcount : classes.length = r.count)
    (hk : t.Offers m k) (hobject : k.isObject = true) : keep k = true := by
  have hsame : (m.members.filter (t.passes Kind.isObject)).filter (t.passes keep) =
      m.members.filter (t.passes keep) := by
    rw [List.filter_filter]
    apply List.filter_congr
    intro i _
    cases hi : t.kind? i with
    | none => simp [passes, hi]
    | some k =>
        cases hpass : keep k with
        | true => simp [passes, hi, hpass, hkeep k hpass]
        | false => simp [passes, hi, hpass]
  have hlength : ((m.members.filter (t.passes Kind.isObject)).filter (t.passes keep)).length =
      (m.members.filter (t.passes Kind.isObject)).length := by
    rw [hsame, ← members_filter ht hm hany h, ← Mask.count_eq, ← hcount, length_classes hclasses]
  obtain ⟨i, hi, hk⟩ := hk
  have hpass := List.length_filter_eq_length_iff.1 hlength i
    (List.mem_filter.2 ⟨Mask.mem_members.2 hi, (passes_eq hk).trans hobject⟩)
  rwa [passes_eq hk] at hpass

end Listed

/-- A filter that the kinds of a value pass keeps the value. -/
theorem filter_allows (keep : Kind → Bool) (ht : t.WellFormed) (hm : m.Fits t.size)
    (hv : m.Allows d t v) (harray : ∀ a b, keep (.array a) = keep (.array b))
    (hkeep : m.any = false → ∀ k, v.IsOf d m.subclasses k → keep k = true) :
    ∃ r, t.filter m keep = .ok r ∧ r.Allows d t v := by
  obtain ⟨r, hr, -⟩ := filter_ok ht hm keep
  refine ⟨r, hr, ?_⟩
  cases hany : m.any with
  | true =>
      rw [filter, if_pos hany] at hr
      cases hr
      exact hv
  | false =>
      obtain ⟨k, hk, hof⟩ := hv.exists_kind hany
      exact (allows_filter_iff ht hm hany hr harray hv).2 ⟨k, hk, hof, hkeep hany k hof⟩

end KindTable

/-! ### A class and its subclass -/

namespace Inherited

/-- `A` and its subclass `B`. -/
def decls : Declarations :=
  ⟨#[], .empty,
    .ofList [("a", .new ⟨"A"⟩), ("b", { ClassDecl.new ⟨"B"⟩ with base? := some ⟨"A"⟩ })]⟩

theorem extends_base : decls.Extends ⟨"B"⟩ ⟨"A"⟩ :=
  Declarations.isSubclass_iff.1 (by decide +kernel)

/-- Objects of `A` and of its subclasses, in a table that lists `A` first of all classes. -/
def objects : Mask :=
  (Mask.bit 6).withSubclasses true

theorem fits {n : Nat} (hn : 6 < n) : objects.Fits n :=
  (Mask.Fits.bit hn).withSubclasses true

theorem allows {t : KindTable} (ht : t.kinds[6]? = some (.object ⟨"A"⟩)) {cls : Name}
    (hcls : decls.Extends cls ⟨"A"⟩) : objects.Allows decls t (.object cls 1) := by
  have hlists : t.Lists objects (.object ⟨"A"⟩) :=
    KindTable.Lists.of_bit ht (by decide) (BEq.refl _)
  exact .of_lists_object hlists (Or.inr ⟨rfl, hcls⟩) 1

end Inherited

end FlowTyping
