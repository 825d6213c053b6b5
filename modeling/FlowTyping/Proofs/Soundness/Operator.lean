import FlowTyping.Proofs.Soundness.Describe

/-!
# Operators on described values

If masks describe the operands, the mask that an operator yields describes its result. A counter
that is known to be below the largest `long` can be counted up without becoming a `double`.
-/

namespace FlowTyping

variable {rt : Runtime} {t : KindTable} {m left right : Mask} {u v w : Value}

/-! ### Values -/

namespace Number

/-- Counting up from below the largest `long` gives a `long`. -/
theorem exists_long_succ {n : Int64} (h : n < Int64.maxValue) :
    ∃ k, ofInt (n.toInt + 1) = .long k := by
  have hlt := Int64.lt_iff_toInt_lt.1 h
  have hge := Int64.le_toInt n
  refine ⟨.ofInt (n.toInt + 1), if_pos ⟨?_, ?_⟩⟩
  · rw [Int64.toInt_minValue]
    omega
  · omega

/-- Arithmetic with a `double` gives a `double`. -/
theorem combine_double {f : Int → Int → Int} {g : Float → Float → Float} {a b : Number} {x : Float}
    (h : a = .double x ∨ b = .double x) : ∃ y, combine f g a b = .double y := by
  rcases h with rfl | rfl
  · exact ⟨_, rfl⟩
  · cases a <;> exact ⟨_, rfl⟩

end Number

namespace Value

/-- Counting up from the value stays within `long`. -/
def IsBounded : Value → Prop
  | .null => True
  | .long n => n < Int64.maxValue
  | _ => False

/-- A bounded value counts as a `long` below the greatest one. -/
theorem IsBounded.exists_number (rt : Runtime) (h : v.IsBounded) :
    ∃ n, v.number? rt = some (.long n) ∧ n < Int64.maxValue := by
  cases v with
  | null => exact ⟨0, rfl, by decide⟩
  | long n => exact ⟨n, rfl, h⟩
  | _ => cases h

/-- Arithmetic gives a value just if both operands are numbers. -/
theorem arithmetic_eq_some {f : Number → Number → Number} :
    u.arithmetic rt f w = some v ↔
      ∃ a b, u.number? rt = some a ∧ w.number? rt = some b ∧ v = ofNumber (f a b) := by
  simp only [arithmetic]
  cases u.number? rt <;> cases w.number? rt <;> simp [eq_comm]

/-- `+` unites two arrays or adds two numbers. -/
theorem add_cases (h : u.add rt w = some v) :
    (∃ a b, u = .array a ∧ w = .array b ∧ v = .array (unite a b)) ∨
      u.arithmetic rt .add w = some v := by
  rw [add.eq_def] at h
  split at h
  · exact Or.inl ⟨_, _, rfl, rfl, (Option.some.inj h).symm⟩
  · exact Or.inr h

/-- A bounded counter and `1` have a `long` as their sum. -/
theorem exists_long_of_bounded
    (hone : u.IsBounded ∧ w = .long 1 ∨ u = .long 1 ∧ w.IsBounded) (h : u.add rt w = some v) :
    ∃ n, v = .long n := by
  have hnumber : ∃ n, n < Int64.maxValue ∧ v = ofNumber (.ofInt (n.toInt + 1)) := by
    rcases add_cases h with ⟨a, b, rfl, rfl, rfl⟩ | h
    · rcases hone with ⟨hu, -⟩ | ⟨hu, -⟩ <;> cases hu
    · obtain ⟨a, b, ha, hb, rfl⟩ := arithmetic_eq_some.1 h
      rcases hone with ⟨hu, rfl⟩ | ⟨rfl, hw⟩
      · obtain ⟨n, hn, hlt⟩ := hu.exists_number rt
        cases ha.symm.trans hn
        cases hb
        exact ⟨n, hlt, rfl⟩
      · obtain ⟨n, hn, hlt⟩ := hw.exists_number rt
        cases hb.symm.trans hn
        cases ha
        refine ⟨n, hlt, congrArg (fun z => ofNumber (.ofInt z)) (Int.add_comm _ _)⟩
  obtain ⟨n, hlt, rfl⟩ := hnumber
  obtain ⟨k, hk⟩ := Number.exists_long_succ hlt
  exact ⟨k, by rw [hk]; rfl⟩

end Value

/-! ### Masks -/

namespace Mask.Describes

/-- The mask of numbers describes every number. -/
theorem number (ht : t.WellFormed) (n : Number) : Mask.number.Describes rt t (.ofNumber n) := by
  cases n with
  | long n => exact (bit ht (i := 2) (k := .long) rfl rfl).union_left
  | double x => exact (bit ht (i := 3) (k := .double) rfl rfl).union_right

/-- The elements of an array are described one by one. -/
theorem array_iff (hany : m.any = false) {items : List (Key × Value)} :
    m.Describes rt t (.array items) ↔ (∃ elem, t.Offers m (.array elem)) ∧
      ∀ item ∈ items, ∃ elem, t.Offers m (.array elem) ∧ elem.Describes rt t item.2 := by
  constructor
  · intro h
    cases h with
    | any h => exact absurd (hany.symm.trans h) (by decide)
    | plain _ hv => cases hv
    | array hk hoffers hitems =>
        exact ⟨⟨_, hk⟩, fun item hitem => ⟨_, hoffers item hitem, hitems item hitem⟩⟩
  · rintro ⟨⟨elem, hk⟩, hitems⟩
    obtain ⟨elemOf, hspec⟩ : ∃ elemOf : Key × Value → Mask, ∀ item ∈ items,
        t.Offers m (.array (elemOf item)) ∧ (elemOf item).Describes rt t item.2 :=
      ⟨fun _ => Classical.epsilon _, fun item hitem => Classical.epsilon_spec (hitems item hitem)⟩
    exact .array hk (fun item hitem => (hspec item hitem).1) fun item hitem => (hspec item hitem).2

/-- A union of arrays is described by the kinds of both. -/
theorem unite {a b : List (Key × Value)} (ha : left.Describes rt t (.array a))
    (hb : right.Describes rt t (.array b)) :
    (left ∪ right).Describes rt t (.array (Value.unite a b)) := by
  have hleft : (left ∪ right).Describes rt t (.array a) := ha.union_left
  have hright : (left ∪ right).Describes rt t (.array b) := hb.union_right
  cases hany : (left ∪ right).any with
  | true => exact .any hany
  | false =>
      rw [array_iff hany] at hleft hright ⊢
      refine ⟨hleft.1, fun item hitem => ?_⟩
      rcases List.mem_append.1 hitem with hitem | hitem
      · exact hleft.2 item hitem
      · exact hright.2 item (List.mem_filter.1 hitem).1

/-- Arrays of anything describe every array. -/
theorem of_lists (h : t.Lists m (.array .top)) (items : List (Key × Value)) :
    m.Describes rt t (.array items) := by
  rcases h with hany | ⟨i, k, hi, hk, hsame⟩
  · exact .any hany
  · cases k with
    | array elem =>
        have helem : elem = .top := beq_iff_eq.1 (show (elem == Mask.top) = true from hsame)
        subst helem
        exact .array ⟨i, hi, hk⟩ (fun _ _ => ⟨i, hi, hk⟩) fun _ _ => .any rfl
    | _ => cases hsame

theorem of_allKinds {test : Kind → Bool} (h : m.Describes rt t v)
    (htest : t.allKinds m test = .ok true) : ∃ k, v.isLike k = true ∧ test k = true := by
  obtain ⟨hany, hall⟩ := KindTable.of_allKinds htest
  rcases h.exists_isLike with h | ⟨k, ⟨i, hi, hk⟩, hlike⟩
  · exact absurd (hany.symm.trans h) (by decide)
  · exact ⟨k, hlike, hall i k hi hk⟩

theorem of_anyKind {test : Kind → Bool} (h : m.Describes rt t v)
    (htest : t.anyKind m test = .ok false) : ∃ k, v.isLike k = true ∧ test k = false := by
  obtain ⟨hany, hall⟩ := KindTable.of_anyKind htest
  rcases h.exists_isLike with h | ⟨k, ⟨i, hi, hk⟩, hlike⟩
  · exact absurd (hany.symm.trans h) (by decide)
  · exact ⟨k, hlike, hall i k hi hk⟩

variable {items : List (Key × Value)}

/-- A mask of numbers describes no array. -/
theorem not_isNumberOnly (h : m.Describes rt t (.array items)) :
    t.isNumberOnly m ≠ .ok true := by
  intro htest
  obtain ⟨k, hlike, hk⟩ := h.of_allKinds htest
  cases k with
  | array => cases hk
  | _ => cases hlike

/-- A mask that describes an array may be an array. -/
theorem mayBeArray (h : m.Describes rt t (.array items)) : t.mayBeArray m ≠ .ok false := by
  intro htest
  obtain ⟨k, hlike, hk⟩ := h.of_anyKind htest
  cases k with
  | array => cases hk
  | _ => cases hlike

end Mask.Describes

theorem Value.exists_array {k : Kind} (h : v.isLike k = true) (hk : k.isArray = true) :
    ∃ items, v = .array items := by
  cases k with
  | array elem =>
      cases v with
      | array items => exact ⟨items, rfl⟩
      | _ => cases h
  | _ => cases hk

theorem Mask.Describes.exists_array_of_only (h : m.Describes rt t v)
    (htest : t.isArrayOnly m = .ok true) : ∃ items, v = .array items := by
  obtain ⟨k, hlike, hk⟩ := h.of_allKinds htest
  exact Value.exists_array hlike hk

namespace Value

theorem exists_double_of_arithmetic {f : Int → Int → Int} {g : Float → Float → Float}
    (hdouble : (∃ x, u = .double x) ∨ ∃ x, w = .double x)
    (h : u.arithmetic rt (.combine f g) w = some v) : ∃ y, v = .double y := by
  obtain ⟨a, b, ha, hb, rfl⟩ := arithmetic_eq_some.1 h
  have hoperand : ∃ x, a = .double x ∨ b = .double x := by
    rcases hdouble with ⟨x, rfl⟩ | ⟨x, rfl⟩
    · exact ⟨x, Or.inl (Option.some.inj ha).symm⟩
    · exact ⟨x, Or.inr (Option.some.inj hb).symm⟩
  obtain ⟨x, hx⟩ := hoperand
  obtain ⟨y, hy⟩ := Number.combine_double (f := f) (g := g) hx
  exact ⟨y, by rw [hy]; rfl⟩

theorem exists_double_of_add (hdouble : (∃ x, u = .double x) ∨ ∃ x, w = .double x)
    (h : u.add rt w = some v) : ∃ y, v = .double y := by
  rcases add_cases h with ⟨a, b, rfl, rfl, -⟩ | h
  · rcases hdouble with ⟨x, hx⟩ | ⟨x, hx⟩ <;> cases hx
  · exact exists_double_of_arithmetic hdouble h

/-- Unless both operands are arrays, a sum is a number. -/
theorem exists_number_of_add (hnot : ∀ a b, u = .array a → w ≠ .array b)
    (h : u.add rt w = some v) : ∃ n, v = .ofNumber n := by
  rcases add_cases h with ⟨a, b, hu, hw, -⟩ | h
  · exact absurd hw (hnot a b hu)
  · obtain ⟨a, b, -, -, rfl⟩ := arithmetic_eq_some.1 h
    exact ⟨_, rfl⟩

end Value

namespace Operator

open Typing

/-- What `+` yields, and what is known about the operands then. -/
theorem addResult_cases {bounded : Bool} (ht : t.WellFormed) (hl : left.Fits t.size)
    (hr : right.Fits t.size) :
    Runs (addResult left right bounded) t fun m t' =>
      (m = (left ∪ right).shape ∧ t.isArrayOnly left = .ok true ∧ t.isArrayOnly right = .ok true) ∨
      (m = .double ∧ (left.isDoubleOnly = true ∨ right.isDoubleOnly = true)) ∨
      (m = .long ∧ bounded = true) ∨
      (m = .number ∧ (t.isNumberOnly left = .ok true ∨ t.isNumberOnly right = .ok true ∨
        t.mayBeArray left = .ok false ∨ t.mayBeArray right = .ok false)) ∨
      ∃ arrays, m = .number ∪ arrays ∧ t'.Lists arrays (.array .top) := by
  obtain ⟨la, hla⟩ := KindTable.allKinds_ok hl Kind.isArray
  obtain ⟨ra, hra⟩ := KindTable.allKinds_ok hr Kind.isArray
  obtain ⟨ln, hln⟩ := KindTable.allKinds_ok hl Kind.isNumber
  obtain ⟨rn, hrn⟩ := KindTable.allKinds_ok hr Kind.isNumber
  obtain ⟨lm, hlm⟩ := KindTable.anyKind_ok hl Kind.isArray
  obtain ⟨rm, hrm⟩ := KindTable.anyKind_ok hr Kind.isArray
  refine Runs.get_bind (Runs.lift_bind hla (Runs.lift_bind hra ?_))
  refine Runs.ite (fun harrays => Runs.pure ht (Or.inl ⟨rfl, ?_⟩)) fun _ => ?_
  · obtain ⟨rfl, rfl⟩ := Bool.and_eq_true_iff.1 harrays
    exact ⟨hla, hra⟩
  refine Runs.ite (fun hdouble => Runs.pure ht (Or.inr (Or.inl ⟨rfl, ?_⟩))) fun _ => ?_
  · exact Bool.or_eq_true_iff.1 hdouble
  refine Runs.ite (fun hb => Runs.pure ht (Or.inr (Or.inr (Or.inl ⟨rfl, hb⟩)))) fun _ => ?_
  refine Runs.lift_bind hln (Runs.lift_bind hrn ?_)
  refine Runs.ite (fun hnumbers => Runs.pure ht (Or.inr (Or.inr (Or.inr (Or.inl ⟨rfl, ?_⟩)))))
    fun _ => ?_
  · rcases Bool.or_eq_true_iff.1 hnumbers with rfl | rfl
    · exact Or.inl hln
    · exact Or.inr (Or.inl hrn)
  refine Runs.lift_bind hlm (Runs.lift_bind hrm ?_)
  refine Runs.ite (fun _ => ?_) fun hnone =>
    Runs.pure ht (Or.inr (Or.inr (Or.inr (Or.inl ⟨rfl, Or.inr (Or.inr ?_)⟩))))
  · exact Runs.bind (KindTable.anyArray_runs ht) fun arrays t' hw _ harrays =>
      Runs.pure hw (Or.inr (Or.inr (Or.inr (Or.inr ⟨arrays, rfl, harrays.2⟩))))
  · rcases Bool.and_eq_false_iff.1 (Bool.not_eq_true _ ▸ hnone) with rfl | rfl
    · exact Or.inl hlm
    · exact Or.inr hrm

/-- Where `+` yields numbers alone, no two arrays can meet. -/
theorem not_arrays_of_numbers {a b : List (Key × Value)} (hu : left.Describes rt t (.array a))
    (hw : right.Describes rt t (.array b))
    (h : t.isNumberOnly left = .ok true ∨ t.isNumberOnly right = .ok true ∨
      t.mayBeArray left = .ok false ∨ t.mayBeArray right = .ok false) : False := by
  rcases h with h | h | h | h
  · exact hu.not_isNumberOnly h
  · exact hw.not_isNumberOnly h
  · exact hu.mayBeArray h
  · exact hw.mayBeArray h

/-- The result of `+` is described, given that a bounded sum is a `long`. -/
theorem addResult_describes {bounded : Bool} (ht : t.WellFormed) (hl : left.Fits t.size)
    (hr : right.Fits t.size) (hu : left.Describes rt t u) (hw : right.Describes rt t w)
    (hv : u.add rt w = some v) (hbounded : bounded = true → ∃ n, v = .long n) :
    Runs (addResult left right bounded) t fun m t' => m.Describes rt t' v := by
  refine (addResult_cases ht hl hr).mono fun m t' ht' hg hm => ?_
  rcases hm with ⟨rfl, hla, hra⟩ | ⟨rfl, hdouble⟩ | ⟨rfl, hb⟩ | ⟨rfl, hnumbers⟩
    | ⟨arrays, rfl, harrays⟩
  · obtain ⟨a, rfl⟩ := hu.exists_array_of_only hla
    obtain ⟨b, rfl⟩ := hw.exists_array_of_only hra
    cases hv
    exact (hu.unite hw).shape.grow hg
  · have hoperand := hdouble.imp (hu.exists_double ht) (hw.exists_double ht)
    obtain ⟨y, rfl⟩ := Value.exists_double_of_add hoperand hv
    exact .bit ht' (k := .double) rfl rfl
  · obtain ⟨n, rfl⟩ := hbounded hb
    exact .bit ht' (k := .long) rfl rfl
  · have hnot (a b : List (Key × Value)) (ha : u = .array a) : w ≠ .array b := by
      rintro rfl
      rw [ha] at hu
      exact not_arrays_of_numbers hu hw hnumbers
    obtain ⟨n, rfl⟩ := Value.exists_number_of_add hnot hv
    exact .number ht' n
  · rcases Value.add_cases hv with ⟨a, b, -, -, rfl⟩ | hv
    · exact (Mask.Describes.of_lists harrays _).union_right
    · obtain ⟨a, b, -, -, rfl⟩ := Value.arithmetic_eq_some.1 hv
      exact (Mask.Describes.number ht' _).union_left

/-- The result of a binary operator is described, given that a bounded sum is a `long`. -/
theorem binaryResult_describes (op : BinaryOp) {bounded : Bool} (ht : t.WellFormed)
    (hl : left.Fits t.size) (hr : right.Fits t.size) (hu : left.Describes rt t u)
    (hw : right.Describes rt t w) (hv : op.value? rt u w = some v)
    (hbounded : bounded = true → ∃ n, v = .long n) :
    Runs (binaryResult op left right bounded) t fun m t' => m.Describes rt t' v := by
  cases op with
  | add => exact addResult_describes ht hl hr hu hw hv hbounded
  | sub =>
      refine Runs.pure ht ?_
      rw [arithmeticResult]
      split
      · rename_i hdouble
        have hoperand := (Bool.or_eq_true_iff.1 hdouble).imp (hu.exists_double ht)
          (hw.exists_double ht)
        obtain ⟨y, rfl⟩ := Value.exists_double_of_arithmetic hoperand hv
        exact .bit ht (k := .double) rfl rfl
      · obtain ⟨a, b, -, -, rfl⟩ := Value.arithmetic_eq_some.1 hv
        exact .number ht _
  | less | greater | identical | notIdentical | equal | notEqual =>
      cases hv
      exact Runs.pure ht (.bit ht (k := .bool) rfl rfl)
  | _ => cases hv

section Step

variable {increment bounded : Bool} {r : Mask}
  (hr : stepResult t m increment bounded = .ok r)

include hr

/-- Each listed kind has its part in the result of counting. -/
theorem stepResult_contains (hany : m.any = false) {i : Nat} {k : Kind} (hi : m.has i = true)
    (hk : t.kinds[i]? = some k) {part : Mask}
    (hpart : stepOfKind increment bounded i (some k) = .ok part) : r.contains part = true := by
  have hsome : m.isEmpty = false := by
    cases hm : m.isEmpty with
    | false => rfl
    | true => simp_all [Mask.isEmpty, Mask.has]
  rw [stepResult, if_neg (by simp [hany]), if_neg (by simp [hsome])] at hr
  have hstep : ∀ acc j, (do return acc ∪ (← stepOfKind increment bounded j (t.kind? j))) =
      (stepOfKind increment bounded j (t.kind? j)).map (acc ∪ ·) := by
    intro acc j
    cases stepOfKind increment bounded j (t.kind? j) <;> rfl
  rw [Mask.contains_iff_admits]
  intro kind hkind
  rw [KindTable.admits_foldlM hstep hr]
  refine Or.inr ⟨i, part, Mask.mem_members.2 hi, ?_, hkind⟩
  rw [KindTable.kind?, hk, hpart]

/-- Values of the other kinds are described after counting if they were before. -/
theorem stepResult_keeps (hany : m.any = false) (hv : m.Describes rt t v)
    (hlong : v.isLike .long = false) (hnull : v.isLike .null = false)
    (hstring : v.isLike .string = false) : r.Describes rt t v := by
  refine hv.of_offers (fun h => absurd (hany.symm.trans h) (by decide)) ?_
  rintro hnot k hlike ⟨i, hi, hk⟩
  have hlt := Mask.lt_of_has hi
  have hpart : stepOfKind increment bounded i (some k) = .ok (.bit i) := by
    cases k with
    | long => exact absurd (hlong.symm.trans hlike) (by decide)
    | null => exact absurd (hnull.symm.trans hlike) (by decide)
    | string => exact absurd (hstring.symm.trans hlike) (by decide)
    | _ => exact if_pos hlt
  rcases Mask.contains_iff.1 (stepResult_contains hr hany hi hk hpart) with h | ⟨-, hsub⟩
  · exact absurd (hnot.symm.trans h) (by decide)
  · obtain ⟨j, hj, hk'⟩ := KindTable.offers_bit hlt hk
    exact ⟨j, hsub j hj, hk'⟩

/-- The result of counting is described, given that a bounded `long` is below the largest one. -/
theorem stepResult_describes (ht : t.WellFormed) (hv : m.Describes rt t v)
    (hbounded : bounded = true → increment = true ∧ ∀ n, v = .long n → n < Int64.maxValue) :
    r.Describes rt t (v.step rt increment) := by
  cases hany : m.any with
  | true =>
      rw [stepResult, if_pos hany] at hr
      cases hr
      exact .any rfl
  | false =>
      obtain ⟨k, ⟨i, hi, hk⟩, hlike⟩ :=
        hv.exists_isLike.resolve_left fun h => absurd (hany.symm.trans h) (by decide)
      cases v with
      | null =>
          cases k with
          | null =>
              apply Mask.Describes.of_contains (stepResult_contains hr hany hi hk rfl)
              cases increment with
              | true => exact .bit ht (k := .long) rfl rfl
              | false => exact .bit ht (k := .null) rfl rfl
          | _ => cases hlike
      | long n =>
          cases k with
          | long =>
              apply Mask.Describes.of_contains (stepResult_contains hr hany hi hk rfl)
              cases bounded with
              | false => exact .number ht _
              | true =>
                  obtain ⟨rfl, hlt⟩ := hbounded rfl
                  obtain ⟨next, hnext⟩ := Number.exists_long_succ (hlt n rfl)
                  have hstep : (Value.long n).step rt true = .long next :=
                    congrArg Value.ofNumber hnext
                  rw [hstep]
                  exact .bit ht (k := .long) rfl rfl
          | _ => cases hlike
      | string s =>
          cases k with
          | string =>
              apply Mask.Describes.of_contains (stepResult_contains hr hany hi hk rfl)
              rw [Value.step]
              cases rt.stepText increment s with
              | inl text => exact (Mask.Describes.bit ht (k := .string) rfl rfl).union_left
              | inr n => exact (Mask.Describes.number ht n).union_right
          | _ => cases hlike
      | double x =>
          cases k with
          | double =>
              have hlt := Mask.lt_of_has hi
              apply Mask.Describes.of_contains (stepResult_contains hr hany hi hk (if_pos hlt))
              exact .plain (KindTable.offers_bit hlt hk) rfl
          | _ => cases hlike
      | bool | array | object | resource => exact stepResult_keeps hr hany hv rfl rfl rfl

end Step

end Operator

end FlowTyping
