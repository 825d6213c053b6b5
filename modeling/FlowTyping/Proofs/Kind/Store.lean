import FlowTyping.Proofs.Kind.Change
import Mathlib.Data.List.Nodup

/-!
# Storing elements in containers

What is found in a container once an element was stored in it, at any depth. A container that holds
arrays, `null` or booleans takes the element, and so does one that holds nothing; in an object
anything may be found. Strings, numbers and resources stay as they are, and what was to be stored in
them is lost.

Main statement: `storeWithin_stored`.
-/

namespace FlowTyping

open Typing

variable {t t' : KindTable} {m elem container value : Mask}

/-! ### Taking out what was put in -/

theorem Mask.members_bit {i : Nat} (hi : i < kindLimit) : (Mask.bit i).members = [i] := by
  have hhas : (Mask.bit i).has = fun j => decide (j = i) := by
    funext j
    rw [has_bit, decide_eq_true hi, Bool.true_and]
    exact decide_eq_decide.2 eq_comm
  have hcount : (List.range kindLimit).count i = 1 :=
    List.count_eq_one_of_mem List.nodup_range (List.mem_range.2 hi)
  rw [members_eq_filter, hhas, List.filter_eq, hcount, List.replicate_one]

/-- A mask of one array kind has the elements that the kind lists. -/
theorem KindTable.elementMask_bit {i : Nat} (hi : i < kindLimit) (helem : elem.Normal)
    (hk : t.kinds[i]? = some (.array elem)) : t.elementMask (.bit i) = .ok elem := by
  have hempty : Mask.empty ∪ elem = elem := by
    apply Mask.ext
    · rw [Mask.kinds_union]
      cases hany : elem.any with
      | true => exact (helem hany).symm
      | false => exact BitVec.zero_or
    · rw [Mask.any_union]
      rfl
    · rw [Mask.subclasses_union]
      rfl
    · rw [Mask.void_union]
      rfl
    · rw [Mask.ref_union]
      rfl
  have hany : ¬(Mask.bit i).any = true := Bool.false_ne_true
  rw [elementMask, if_neg hany, Mask.members_bit hi, List.foldlM_cons, kindAt_eq_ok.2 hk]
  exact congrArg Except.ok hempty

/-- What is found in a new array is what was put in, without the flags; it is anything if the array
is of a kind that a full table does not list. -/
theorem KindTable.elementMask_arrayOf (ht : t.WellFormed) (hm : m.Fits t.size) :
    Runs (arrayOf m) t fun r t' =>
      t'.elementMask r =
        .ok (if t.size < t.cap ∨ (t.indexOf? (.array m.shape)).isSome = true
          then m.shape else .top) := by
  refine (intern_runs ht fun _ h => Kind.array.inj h ▸ hm.shape).with_run.mono fun r t' _ _ hr => ?_
  have hnormal : m.shape.Normal := hm.shape.normal
  rcases intern_eq_ok_iff.1 hr.2 with ⟨i, hidx, hlt, rfl, rfl⟩ | ⟨hidx, hfull, rfl, -⟩ |
    ⟨-, hroom, hlt, rfl, rfl⟩
  · obtain ⟨k, hk, hsame⟩ := indexOf?_eq_some_iff.1 hidx
    rw [Kind.eq_array_of_beq hsame] at hk
    rw [elementMask_bit hlt hnormal hk, hidx, if_pos (Or.inr Option.isSome_some)]
  · rw [hidx, if_neg (by simpa using hfull)]
    rfl
  · rw [elementMask_bit hlt hnormal List.getElem?_concat_length, if_pos (Or.inl hroom)]

/-! ### Finding a kind -/

namespace KindTable

/-- Indexing a value of the mask may give a value of a kind, or one of which no kind is known. -/
def Finds (t : KindTable) (m : Mask) (k : Option Nat) : Prop :=
  m.any = true ∨ ∃ i kind, m.has i = true ∧ t.kinds[i]? = some kind ∧ (elementOfKind kind).Admits k

/-- What is found in a union is found in one of its parts. -/
theorem finds_union {m' : Mask} {k : Option Nat} :
    t.Finds (m ∪ m') k ↔ t.Finds m k ∨ t.Finds m' k := by
  cases hany : m.any || m'.any with
  | true =>
      refine iff_of_true (Or.inl ((Mask.any_union m m').trans hany)) ?_
      exact (Bool.or_eq_true_iff.1 hany).imp Or.inl Or.inl
  | false =>
      obtain ⟨hm, hm'⟩ := Bool.or_eq_false_iff.1 hany
      simp [Finds, Mask.any_union, Mask.has_union, hm, hm', or_and_right, exists_or]

theorem not_finds_empty {k : Option Nat} : ¬t.Finds .empty k := by
  simp [Finds, Mask.empty, Mask.has]

/-- A mask that contains another one leads to all that the other one leads to. -/
theorem Finds.mono {m' : Mask} {k : Option Nat} (hm : m'.contains m = true) (h : t.Finds m k) :
    t.Finds m' k := by
  rw [Mask.contains_iff_admits] at hm
  rcases h with hany | ⟨i, kind, hi, hkind, hk⟩
  · exact .inl (hm none hany)
  · exact (hm (some i) (.inr hi)).imp_right fun hi => ⟨i, kind, hi, hkind, hk⟩

theorem finds_bit {i : Nat} {kind : Kind} (hi : i < kindLimit) (hk : t.kinds[i]? = some kind)
    {k : Option Nat} : t.Finds (.bit i) k ↔ (elementOfKind kind).Admits k := by
  have hany : (Mask.bit i).any = false := rfl
  simp [Finds, hany, Mask.has_bit, hi, hk]

theorem Grows.kind?_iff (hg : t.Grows t') {i : Nat} {k : Kind} (hi : i < t.size) :
    t'.kinds[i]? = some k ↔ t.kinds[i]? = some k := by
  obtain ⟨k', hk', -⟩ := kindAt_ok hi
  rw [hk', hg.kind? hk']

/-- What is found in a mask of a table does not change while the table grows. -/
theorem Grows.finds_iff (hg : t.Grows t') (hm : m.Fits t.size) {k : Option Nat} :
    t'.Finds m k ↔ t.Finds m k := by
  refine or_congr Iff.rfl (exists_congr fun i => exists_congr fun kind => ?_)
  exact and_congr_right fun hi => and_congr_left fun _ => hg.kind?_iff (hm.lt i hi)

end KindTable

/-! ### One container -/

namespace Kind

/-- What is found in what a value of some kind becomes when an element is stored in it. -/
def stored (value : Mask) : Kind → Mask
  | .array elem => elem ∪ value
  | .null => value
  | .bool => value
  | k => KindTable.elementOfKind k

/-- A value of the kind takes an element, or anything may be found in it. -/
def takes : Kind → Bool
  | .array _ => true
  | .null => true
  | .bool => true
  | .object _ => true
  | _ => false

variable {k : Kind}

/-- A kind that takes elements holds what was stored in it. -/
theorem contains_stored (h : k.takes = true) (value : Mask) :
    (k.stored value).contains value = true := by
  cases k with
  | array elem => exact Mask.contains_union_right elem value
  | null | bool => exact Mask.contains_refl value
  | object => rfl
  | long | double | string | resource => cases h

/-- A kind that takes no elements stays as it is. -/
theorem stored_of_not_takes (h : k.takes = false) (value : Mask) :
    k.stored value = KindTable.elementOfKind k := by
  cases k with
  | array | null | bool | object => cases h
  | long | double | string | resource => rfl

/-- Nothing is found that was not there and was not stored. -/
theorem stored_within (k : Kind) (value : Mask) :
    (KindTable.elementOfKind k ∪ value).contains (k.stored value) = true := by
  cases k with
  | array elem => exact Mask.contains_refl _
  | null | bool => exact Mask.contains_union_right _ value
  | object | long | double | string | resource => exact Mask.contains_union_left _ value

end Kind

/-- In a new array its elements are found, or anything if the array was dropped. -/
theorem arrayOf_finds (ht : t.WellFormed) (hm : m.Fits t.size) :
    Runs (KindTable.arrayOf m) t fun r t' =>
      t'.Finds r none ∨ ∀ j, t'.Finds r j ↔ m.Admits j := by
  refine (KindTable.elementMask_arrayOf ht hm).mono fun r t' _ _ hr => ?_
  have hshape (j : Option Nat) : m.shape.Admits j ↔ m.Admits j := by
    cases j <;> exact Iff.rfl
  split at hr
  · exact .inr fun j => (KindTable.admits_elementMask hr).symm.trans (hshape j)
  · exact .inl ((KindTable.admits_elementMask hr).1 rfl)

/-- In a rebuilt container its new elements are found, or anything if it was dropped. -/
theorem storeInKind_finds {i : Nat} {k : Kind} (ht : t.WellFormed) (hv : value.Fits t.size)
    (hk : t.kinds[i]? = some k) :
    Runs (storeInKind value i k) t fun r t' =>
      t'.Finds r none ∨ ∀ j, t'.Finds r j ↔ (k.stored value).Admits j := by
  cases k with
  | array elem => exact arrayOf_finds ht ((ht.fits_elem hk).union hv)
  | null | bool => exact arrayOf_finds ht hv
  | long | double | string | resource | object =>
      have hi : i < t.size := (List.getElem?_eq_some_iff.1 hk).1
      have hlimit : i < kindLimit := Nat.lt_of_lt_of_le hi ht.size_le
      exact Runs.lift (KindTable.ofIndex_ok ht hi) ht (.inr fun j => KindTable.finds_bit hlimit hk)

/-- The kinds of a container are treated in turn, while the table grows. -/
theorem storeInKinds_finds {l : List (Nat × Kind)} (hl : ∀ e ∈ l, t.kinds[e.1]? = some e.2)
    (ht : t.WellFormed) (hv : value.Fits t.size) (hm : m.Fits t.size) :
    Runs (l.foldlM (fun acc e => do return acc ∪ (← storeInKind value e.1 e.2)) m) t fun r t' =>
      t'.Finds r none ∨
        ∀ j, t'.Finds r j ↔ t.Finds m j ∨ ∃ e ∈ l, (e.2.stored value).Admits j := by
  induction l generalizing m t with
  | nil => exact Runs.pure ht (.inr fun j => by simp)
  | cons e rest ih =>
      obtain ⟨hhead, hrest⟩ := List.forall_mem_cons.1 hl
      rw [List.foldlM_cons, bind_assoc]
      have hstore := (storeInKind_runs ht hv hhead).and (storeInKind_finds ht hv hhead)
      refine Runs.bind hstore fun r t₁ hw hg hr => ?_
      rw [pure_bind]
      refine (ih (fun e he => hg.kind? (hrest e he)) hw (hg.fits hv) ((hg.fits hm).union hr.1)).mono
        fun r' t₂ _ _ hr' => ?_
      simp only [KindTable.finds_union, hg.finds_iff hm] at hr'
      rcases hr' with hnone | hr'
      · exact .inl hnone
      rcases hr.2 with hnone | hr
      · exact .inl ((hr' none).2 (.inl (.inr hnone)))
      · refine .inr fun j => ?_
        rw [hr' j, hr j, or_assoc, List.exists_mem_cons_iff]

/-- What was put in is there, and nothing else but what was there before, unless it is any value. -/
structure Mask.Stored (old new m : Mask) : Prop where
  contains : m.contains new = true
  within : m.any = true ∨ (old ∪ new).contains m = true

namespace Mask.Stored

variable {old new m' : Mask}

theorem of_any (h : m.any = true) : Stored old new m :=
  ⟨contains_iff.2 (.inl h), .inl h⟩

theorem of_admits (hnew : ∀ k, new.Admits k → m.Admits k)
    (hm : ∀ k, m.Admits k → old.Admits k ∨ new.Admits k) : Stored old new m :=
  ⟨contains_iff_admits.2 hnew, .inr (contains_iff_admits.2 fun k hk => admits_union.2 (hm k hk))⟩

theorem refl (old m : Mask) : Stored old m m :=
  of_admits (fun _ hk => hk) fun _ hk => .inr hk

/-- What is rebuilt from a rebuilt container still holds the element. -/
theorem trans (h : Stored old new m) (h' : Stored old m m') : Stored old new m' := by
  refine ⟨contains_trans h'.contains h.contains, ?_⟩
  rcases h'.within with hany | hwithin'
  · exact .inl hany
  rcases h.within with hany | hwithin
  · exact .inl (contains_iff_admits.1 h'.contains none hany)
  refine .inr (contains_trans ?_ hwithin')
  rw [contains_iff_admits] at hwithin ⊢
  intro k hk
  rcases admits_union.1 hk with hold | hm
  · exact admits_union.2 (.inl hold)
  · exact hwithin k hm

/-- The same holds of what is found in the masks. -/
theorem element {old' new' e : Mask} (h : Stored old new m) (hold : t.elementMask old = .ok old')
    (hnew : t.elementMask new = .ok new') (hm : t.elementMask m = .ok e) : Stored old' new' e := by
  refine ⟨KindTable.elementMask_contains (.refl t) h.contains hnew hm, ?_⟩
  rcases h.within with hany | hwithin
  · exact .inl ((KindTable.admits_elementMask (k := none) hm).2 (.inl hany))
  refine .inr (contains_iff_admits.2 fun k hk => ?_)
  have hfinds : t.Finds (old ∪ new) k := .mono hwithin ((KindTable.admits_elementMask hm).1 hk)
  rw [admits_union, KindTable.admits_elementMask hold, KindTable.admits_elementMask hnew]
  exact KindTable.finds_union.1 hfinds

/-- What was put in is there, if it was really put in. -/
theorem contains_iff_of_imp {stores : Prop} (h : stores → Stored old new m)
    (h' : ¬stores → Stored old old m) :
    m.contains new = true ↔ stores ∨ m.any = true ∨ old.contains new = true := by
  by_cases hstores : stores
  · exact iff_of_true (h hstores).contains (.inl hstores)
  rw [or_iff_right hstores]
  constructor
  · intro hnew
    rcases (h' hstores).within with hany | hwithin
    · exact .inl hany
    · rw [contains_iff_admits] at hwithin hnew ⊢
      exact .inr fun k hk => or_self_iff.1 (admits_union.1 (hwithin k (hnew k hk)))
  · rintro (hany | hold)
    · exact contains_iff.2 (.inl hany)
    · exact contains_trans (h' hstores).contains hold

end Mask.Stored

namespace KindTable

/-- The container takes an element, or anything may be found in it. -/
def takes (t : KindTable) (m : Mask) : Bool :=
  m.any || m.isEmpty || m.members.any fun i => (t.kind? i).any Kind.takes

/-- A mask takes elements if one of its kinds does. -/
theorem takes_iff (hany : m.any = false) (hempty : m.isEmpty = false) :
    t.takes m = true ↔ ∃ i k, m.has i = true ∧ t.kinds[i]? = some k ∧ k.takes = true := by
  simp [takes, hany, hempty, Mask.mem_members, kind?, Option.any_eq_true]

end KindTable

/-- The kinds of a mask, with their numbers. -/
theorem mem_kinds {i : Nat} {k : Kind} :
    (i, k) ∈ (container.members.filterMap fun i => (t.kind? i).map fun k => (i, k)) ↔
      container.has i = true ∧ t.kinds[i]? = some k := by
  simp [List.mem_filterMap, Mask.mem_members, KindTable.kind?]

/-- If no kind of a container takes the element, then what is found in it has not changed. -/
theorem Mask.stored_of_kinds {c e : Mask} (hany : container.any = false)
    (hempty : container.isEmpty = false)
    (hc : ∀ j, c.Admits j ↔ ∃ i k, container.has i = true ∧ t.kinds[i]? = some k ∧
      (KindTable.elementOfKind k).Admits j)
    (he : ∀ j, e.Admits j ↔ ∃ i k, container.has i = true ∧ t.kinds[i]? = some k ∧
      (k.stored value).Admits j) : Stored c (if t.takes container then value else c) e := by
  split
  · rename_i htakes
    obtain ⟨i, k, hi, hk, htake⟩ := (KindTable.takes_iff hany hempty).1 htakes
    refine .of_admits (fun j hj => ?_) fun j hj => ?_
    · exact (he j).2 ⟨i, k, hi, hk, contains_iff_admits.1 (Kind.contains_stored htake value) j hj⟩
    · obtain ⟨i, k, hi, hk, hj⟩ := (he j).1 hj
      have hwithin := contains_iff_admits.1 (k.stored_within value) j hj
      exact (admits_union.1 hwithin).imp_left fun hj => (hc j).2 ⟨i, k, hi, hk, hj⟩
  · rename_i htakes
    have hsame : ∀ j, e.Admits j ↔ c.Admits j := by
      intro j
      rw [he, hc]
      refine exists_congr fun i => exists_congr fun k => and_congr_right fun hi =>
        and_congr_right fun hk => ?_
      have htake : k.takes = false := Bool.eq_false_iff.2 fun htake =>
        htakes ((KindTable.takes_iff hany hempty).2 ⟨i, k, hi, hk, htake⟩)
      rw [Kind.stored_of_not_takes htake]
    exact .of_admits (fun j => (hsame j).2) fun j hj => .inl ((hsame j).1 hj)

/-- What is found in a container that takes an element is what was there and the element. A
container that takes none stays as it is. -/
theorem storeInMask_stored (ht : t.WellFormed) (hv : value.Fits t.size) :
    Runs (storeInMask container value) t fun r t' =>
      ∀ c e, t.elementMask container = .ok c → t'.elementMask r = .ok e →
        Mask.Stored c (if t.takes container then value else c) e := by
  refine Runs.ite (fun _ => Runs.pure ht fun c e _ he => ?_) fun hany => Runs.ite (fun hempty => ?_)
    fun hempty => Runs.get_bind ?_
  · exact .of_any ((KindTable.admits_elementMask (k := none) he).2 (.inl rfl))
  · refine (arrayOf_finds ht hv).mono fun r t' _ _ hr c e _ he => ?_
    have hadmits (k : Option Nat) : e.Admits k ↔ t'.Finds r k := KindTable.admits_elementMask he
    have htakes : t.takes container = true := by simp [KindTable.takes, hempty]
    rw [if_pos htakes]
    rcases hr with hnone | hr
    · exact .of_any ((hadmits none).2 hnone)
    · exact .of_admits (fun k hk => (hadmits k).2 ((hr k).2 hk))
        fun k hk => .inr ((hr k).1 ((hadmits k).1 hk))
  · refine (storeInKinds_finds (fun e he => (mem_kinds.1 he).2) ht hv .empty).mono
      fun r t' _ _ hr c e hc he => ?_
    have hadmits (k : Option Nat) : e.Admits k ↔ t'.Finds r k := KindTable.admits_elementMask he
    rcases hr with hnone | hr
    · exact .of_any ((hadmits none).2 hnone)
    refine Mask.stored_of_kinds (Bool.eq_false_iff.2 hany) (Bool.eq_false_iff.2 hempty)
      (fun j => ?_)
      fun j => ?_
    · rw [KindTable.admits_elementMask hc]
      exact or_iff_right hany
    · rw [hadmits, hr, or_iff_right KindTable.not_finds_empty, Prod.exists]
      simp only [mem_kinds, and_assoc]

/-! ### Any depth -/

namespace KindTable

variable {depth : Nat}

/-- What is found in a value of the mask some levels down. -/
def nested (t : KindTable) : (depth : Nat) → Mask → Except Fault Mask
  | 0, m => .ok m
  | depth + 1, m => t.nested depth m >>= t.elementMask

theorem nested_succ (h : t.nested depth m = .ok container) :
    t.nested (depth + 1) m = t.elementMask container := by
  rw [nested, h]
  rfl

/-- What is found some levels down fits the table. -/
theorem nested_ok (ht : t.WellFormed) (hm : m.Fits t.size) (depth : Nat) :
    ∃ e, t.nested depth m = .ok e ∧ e.Fits t.size := by
  induction depth with
  | zero => exact ⟨m, rfl, hm⟩
  | succ depth ih =>
      obtain ⟨c, hc, hfit⟩ := ih
      rw [nested_succ hc]
      exact elementMask_ok ht hfit

/-- Where anything may be found, anything may be found further down. -/
theorem any_of_nested {e : Mask} (hany : m.any = true) (h : t.nested depth m = .ok e) :
    e.any = true := by
  induction depth generalizing e with
  | zero =>
      cases h
      exact hany
  | succ depth ih =>
      cases hc : t.nested depth m with
      | error fault =>
          rw [nested, hc] at h
          cases h
      | ok c =>
          rw [nested_succ hc] at h
          exact (admits_elementMask (k := none) h).2 (.inl (ih hc))

/-- Flags do not matter for what is found inside. -/
theorem nested_withRef (b : Bool) :
    t.nested (depth + 1) (m.withRef b) = t.nested (depth + 1) m := by
  induction depth with
  | zero => rfl
  | succ depth ih => rw [nested, ih, ← nested]

/-- The container takes an element at each of the first levels. -/
def Takes (t : KindTable) (depth : Nat) (m : Mask) : Prop :=
  ∀ k < depth, ∀ c, t.nested k m = .ok c → t.takes c = true

/-- A deeper store goes through if those above it do and the last container takes elements. -/
theorem takes_succ_iff (h : t.nested depth m = .ok container) :
    t.Takes (depth + 1) m ↔ t.Takes depth m ∧ t.takes container = true := by
  constructor
  · intro htakes
    exact ⟨fun k hk => htakes k (Nat.lt_succ_of_lt hk),
      htakes depth (Nat.lt_succ_self _) container h⟩
  · rintro ⟨htakes, hlast⟩ k hk c hc
    rcases Nat.lt_succ_iff_lt_or_eq.1 hk with hk | rfl
    · exact htakes k hk c hc
    · cases h.symm.trans hc
      exact hlast

namespace Grows

variable (hg : t.Grows t') (hm : m.Fits t.size)

include hg hm

theorem elementMask_eq : t'.elementMask m = t.elementMask m := by
  have hkind : ∀ i ∈ m.members, t'.kindAt i = t.kindAt i := by
    intro i hi
    obtain ⟨k, hk, hat⟩ := kindAt_ok (lt_of_mem_members hm hi)
    rw [hat, kindAt_eq_ok.2 (hg.kind? hk)]
  rw [elementMask, elementMask]
  congr 1
  apply foldlM_congr
  intro i hi acc
  rw [hkind i hi]

theorem takes_eq : t'.takes m = t.takes m := by
  have hkinds : (m.members.any fun i => (t'.kind? i).any Kind.takes) =
      m.members.any fun i => (t.kind? i).any Kind.takes := by
    rw [Bool.eq_iff_iff, List.any_eq_true, List.any_eq_true]
    refine exists_congr fun i => and_congr_right fun hi => ?_
    obtain ⟨k, hk, -⟩ := kindAt_ok (lt_of_mem_members hm hi)
    rw [KindTable.kind?, KindTable.kind?, hk, hg.kind? hk]
  rw [takes, takes, hkinds]

/-- What is found some levels down does not change while the table grows. -/
theorem nested_eq (ht : t.WellFormed) (depth : Nat) : t'.nested depth m = t.nested depth m := by
  induction depth with
  | zero => rfl
  | succ depth ih =>
      obtain ⟨c, hc, hfit⟩ := nested_ok ht hm depth
      rw [nested_succ hc, nested_succ (ih.trans hc), hg.elementMask_eq hfit]

theorem takes_iff (ht : t.WellFormed) (depth : Nat) : t'.Takes depth m ↔ t.Takes depth m := by
  refine forall₂_congr fun k _ => forall_congr' fun c => ?_
  rw [hg.nested_eq hm ht]
  refine forall_congr' fun hc => ?_
  obtain ⟨c', hc', hfit⟩ := nested_ok ht hm k
  cases hc.symm.trans hc'
  rw [hg.takes_eq hfit]

end Grows

end KindTable

/-- Stores an element some levels down in a container, and each rebuilt container in the next one
up. -/
def storeWithin (container : Mask) : (depth : Nat) → (value : Mask) → Typing Mask
  | 0, value => pure value
  | depth + 1, value => do
    let place ← (← get).nested depth container
    storeWithin container depth (← storeInMask place value)

/-- What is found where an element was stored is what was there and the element, if the container
takes an element at each level above. Otherwise nothing changes there. -/
theorem storeWithin_stored (ht : t.WellFormed) (hc : container.Fits t.size) (hv : value.Fits t.size)
    (depth : Nat) :
    Runs (storeWithin container depth value) t fun r t' => r.Fits t'.size ∧
      ∀ c e, t.nested depth container = .ok c → t'.nested depth r = .ok e →
        (t.Takes depth container → Mask.Stored c value e) ∧
          (¬t.Takes depth container → Mask.Stored c c e) := by
  induction depth generalizing t value with
  | zero =>
      refine Runs.pure ht ⟨hv, fun c e _ he => ?_⟩
      cases he
      exact ⟨fun _ => .refl c value, fun h => absurd (fun k hk => absurd hk (Nat.not_lt_zero k)) h⟩
  | succ depth ih =>
      obtain ⟨place, hplace, hfit⟩ := KindTable.nested_ok ht hc depth
      refine Runs.get_bind (Runs.lift_bind hplace ?_)
      refine Runs.bind ((storeInMask_runs place ht hv).and (storeInMask_stored ht hv))
        fun rebuilt t₁ hw hg hrebuilt => ?_
      refine (ih hw (hg.fits hc) hrebuilt.1).mono fun r t₂ hw₂ hg₂ hr =>
        ⟨hr.1, fun c e hold he => ?_⟩
      rw [KindTable.nested_succ hplace] at hold
      have hc₂ : t₂.elementMask place = .ok c :=
        ((hg.trans hg₂).elementMask_eq hfit).trans hold
      obtain ⟨inner, hinner, -⟩ := KindTable.nested_ok hw₂ hr.1 depth
      rw [KindTable.nested_succ hinner] at he
      -- What is found in the rebuilt container stays the same while the containers around it are
      -- rebuilt.
      obtain ⟨y, hy, -⟩ := KindTable.elementMask_ok hw hrebuilt.1
      have hy₂ : t₂.elementMask rebuilt = .ok y := (hg₂.elementMask_eq hrebuilt.1).trans hy
      have hstored := hrebuilt.2 c y hold hy
      have hup := hr.2 place inner ((hg.nested_eq hc ht depth).trans hplace) hinner
      rw [hg.takes_iff hc ht] at hup
      rw [KindTable.takes_succ_iff hplace]
      by_cases habove : t.Takes depth container
      · have helement : Mask.Stored c y e := (hup.1 habove).element hc₂ hy₂ he
        constructor
        · rintro ⟨-, htakes⟩
          rw [if_pos htakes] at hstored
          exact hstored.trans helement
        · intro htakes
          rw [if_neg fun h => htakes ⟨habove, h⟩] at hstored
          exact hstored.trans helement
      · exact ⟨fun htakes => absurd htakes.1 habove, fun _ => (hup.2 habove).element hc₂ hc₂ he⟩

end FlowTyping
