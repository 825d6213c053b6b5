import FlowTyping.Proofs.Soundness.Allow

/-!
# Results of operators

Main statements: `binaryResult_allows_iff` and `unaryResult_allows_iff`. If masks describe the
operands, the mask that an operator yields describes its result, with two exceptions. Bitwise
operators count on numbers unless their operands can only be texts, and the conversion to an object
counts on a new one unless its operand can only be an object.
-/

namespace FlowTyping

variable {d : Declarations} {t : KindTable} {m left right : Mask} {u v w : Value}

/-! ### What operators give -/

/-- The value is a number, and a `double` if an operand was one. -/
def Value.IsNumber (double : Bool) (v : Value) : Prop :=
  (∃ n, v = .ofNumber n) ∧ (double = true → v.isLike .double = true)

/-- The operator works on the bits of numbers, or on the characters of texts. -/
def BinaryOp.isBitwise : BinaryOp → Bool
  | .bitAnd => true
  | .bitOr => true
  | .bitXor => true
  | _ => false

/-- The results that an operator may have for two values. -/
def BinaryOp.Gives (op : BinaryOp) (u w v : Value) : Prop :=
  match op with
  | .add =>
    (∃ a b, u = .array a ∧ w = .array b ∧ v = .array (Value.unite a b)) ∨
      (∀ a b, u = .array a → w ≠ .array b) ∧ v.IsNumber (u.isLike .double || w.isLike .double)
  | .sub | .mul | .pow | .div => v.IsNumber (u.isLike .double || w.isLike .double)
  | .mod | .shiftLeft | .shiftRight | .spaceship => v.isLike .long = true
  | .bitAnd | .bitOr | .bitXor =>
    v.isLike (if u.isLike .string && w.isLike .string then .string else .long) = true
  | .concat => v.isLike .string = true
  | .equal | .notEqual | .identical | .notIdentical | .less | .lessEqual | .greater
  | .greaterEqual | .logicalXor => v.isLike .bool = true

/-- The results that a conversion may have for a value. -/
def Cast.Gives (conversion : Cast) (u v : Value) : Prop :=
  match conversion with
  | .bool => v.isLike .bool = true
  | .long => v.isLike .long = true
  | .double => v.isLike .double = true
  | .string => v.isLike .string = true
  | .array => (∃ items, v = .array items) ∧ ∀ items, u = .array items → v = u
  | .object =>
    (∃ cls id, u = .object cls id ∧ v = u) ∨
      (∀ cls id, u ≠ .object cls id) ∧ ∃ id, v = .object ⟨"stdClass"⟩ id
  | .unset => v = .null

/-- The results that an operator may have for a value. -/
def UnaryOp.Gives (op : UnaryOp) (u v : Value) : Prop :=
  match op with
  | .not => v.isLike .bool = true
  | .minus => v.IsNumber (u.isLike .double)
  | .plus => v.IsNumber (u.isLike .double) ∧ (u.isLike .long = true → v.isLike .long = true)
  | .bitNot => v.isLike (if u.isLike .string then .string else .long) = true
  | .silence => v = u
  | .cast conversion => conversion.Gives u v

theorem Value.exists_double (h : v.isLike .double = true) : ∃ x, v = .double x := by
  cases v with
  | double x => exact ⟨x, rfl⟩
  | _ => cases h

theorem Value.exists_object {k : Kind} (h : v.isLike k = true) (hk : k.isObject = true) :
    ∃ cls id, v = .object cls id := by
  cases k with
  | object c =>
      cases v with
      | object cls id => exact ⟨cls, id, rfl⟩
      | _ => cases h
  | _ => cases hk

theorem Value.isNumber_of_arithmetic {rt : Runtime} {f : Int → Int → Int}
    {g : Float → Float → Float} (h : u.arithmetic rt (.combine f g) w = some v) :
    v.IsNumber (u.isLike .double || w.isLike .double) := by
  constructor
  · obtain ⟨a, b, -, -, hv⟩ := arithmetic_eq_some.1 h
    exact ⟨_, hv⟩
  · intro hdouble
    obtain ⟨y, rfl⟩ := exists_double_of_arithmetic
      ((Bool.or_eq_true_iff.1 hdouble).imp exists_double exists_double) h
    rfl

/-- The results that expressions run with are among them. -/
theorem BinaryOp.gives_of_run {rt : Runtime} {op : BinaryOp} (h : op.value? rt u w = some v) :
    op.Gives u w v := by
  cases op with
  | add =>
      rw [BinaryOp.value?, Value.add.eq_def] at h
      split at h
      · exact Or.inl ⟨_, _, rfl, rfl, (Option.some.inj h).symm⟩
      · rename_i hnot
        exact Or.inr ⟨hnot, Value.isNumber_of_arithmetic h⟩
  | sub => exact Value.isNumber_of_arithmetic h
  | less | greater | identical | notIdentical | equal | notEqual =>
      cases h
      rfl
  | _ => cases h

/-! ### Masks of one kind -/

namespace Mask.Allows

/-- The mask of a primitive kind describes the values of that sort only. -/
theorem bit_iff (ht : t.WellFormed) {i : Nat} {k : Kind} (hi : Kind.primitives[i]? = some k) :
    (Mask.bit i).Allows d t v ↔ v.isLike k = true :=
  ⟨fun h => h.describes.isLike_of_only ht hi rfl, bit ht hi⟩

/-- Without subclasses, the mask of a class describes the objects of that class only. -/
theorem bit_object_iff {i : Nat} {c cls : Name} (hi : i < kindLimit)
    (hk : t.kinds[i]? = some (.object c)) (id : Nat) :
    ((Mask.bit i).withSubclasses false).Allows d t (.object cls id) ↔ (cls == c) = true := by
  constructor
  · intro h
    obtain ⟨k, ⟨j, hj, hk'⟩, hof⟩ := h.exists_kind rfl
    have hij : i = j := by
      have hbit : (Mask.bit i).has j = true := hj
      rw [Mask.has_bit, Bool.and_eq_true, decide_eq_true_eq, decide_eq_true_eq] at hbit
      exact hbit.2
    rw [← hij, hk] at hk'
    cases hk'
    rcases hof with hsame | ⟨hsub, -⟩
    · exact hsame
    · cases hsub
  · intro hsame
    have hoffers : t.Offers (.bit i) (.object c) := KindTable.offers_bit hi hk
    exact .plain hoffers (Or.inl hsame) rfl

/-- A union of arrays is described by the kinds of both. -/
theorem unite {a b : List (Key × Value)} (ha : left.Allows d t (.array a))
    (hb : right.Allows d t (.array b)) : (left ∪ right).Allows d t (.array (Value.unite a b)) := by
  have hleft : (left ∪ right).Allows d t (.array a) := ha.union_left
  have hright : (left ∪ right).Allows d t (.array b) := hb.union_right
  cases hany : (left ∪ right).any with
  | true => exact .any hany
  | false =>
      rw [iff_of_not_any hany] at hleft hright ⊢
      obtain ⟨⟨k, hk, hof⟩, hitems⟩ := hleft
      have hof' : (Value.array (Value.unite a b)).IsOf d (left ∪ right).subclasses k := by
        cases k with
        | array => rfl
        | _ => cases hof
      refine ⟨⟨k, hk, hof'⟩, fun item hitem => ?_⟩
      rcases List.mem_append.1 hitem with hitem | hitem
      · exact hitems item hitem
      · exact hright.2 item (List.mem_filter.1 hitem).1

theorem of_isNumber (ht : t.WellFormed) {double : Bool} (hv : v.IsNumber double) :
    Mask.number.Allows d t v := by
  obtain ⟨⟨n, rfl⟩, -⟩ := hv
  exact number ht n

end Mask.Allows

namespace Operator

open Typing

/-! ### Binary operators -/

theorem isLike_double_of_only (ht : t.WellFormed) (hu : left.Allows d t u) (hw : right.Allows d t w)
    (h : left.isDoubleOnly = true ∨ right.isDoubleOnly = true) :
    (u.isLike .double || w.isLike .double) = true := by
  rw [Bool.or_eq_true]
  apply h.imp
  · exact fun h => hu.describes.isLike_of_only ht rfl (beq_iff_eq.1 h)
  · exact fun h => hw.describes.isLike_of_only ht rfl (beq_iff_eq.1 h)

/-- Arithmetic gives a number, and a `double` if an operand is one. -/
theorem arithmeticResult_allows (ht : t.WellFormed) (hu : left.Allows d t u)
    (hw : right.Allows d t w) (hv : v.IsNumber (u.isLike .double || w.isLike .double)) :
    (arithmeticResult left right).Allows d t v := by
  rw [arithmeticResult]
  split
  · rename_i hdouble
    exact .bit ht rfl (hv.2 (isLike_double_of_only ht hu hw (Bool.or_eq_true_iff.1 hdouble)))
  · exact .of_isNumber ht hv

/-- A sum is what its mask allows: an array, or a number. -/
theorem addResult_allows (ht : t.WellFormed) (hl : left.Fits t.size) (hr : right.Fits t.size)
    (hu : left.Allows d t u) (hw : right.Allows d t w) (hv : BinaryOp.add.Gives u w v) :
    Runs (addResult left right false) t fun m t' => m.Allows d t' v := by
  refine (addResult_cases ht hl hr).mono fun m t' ht' hg hm => ?_
  rcases hv with ⟨a, b, rfl, rfl, rfl⟩ | ⟨hnot, hv⟩
  · rcases hm with ⟨rfl, -⟩ | ⟨-, hdouble⟩ | ⟨-, hb⟩ | ⟨-, hnumbers⟩ | ⟨arrays, rfl, harrays⟩
    · exact (hu.unite hw).shape.grow hg
    · cases isLike_double_of_only ht hu hw hdouble
    · cases hb
    · exact (not_arrays_of_numbers hu.describes hw.describes hnumbers).elim
    · exact (Mask.Allows.of_lists_array harrays _).union_right
  · rcases hm with ⟨-, hla, hra⟩ | ⟨rfl, hdouble⟩ | ⟨-, hb⟩ | ⟨rfl, -⟩ | ⟨arrays, rfl, -⟩
    · obtain ⟨a, ha⟩ := hu.describes.exists_array_of_only hla
      obtain ⟨b, hb⟩ := hw.describes.exists_array_of_only hra
      exact absurd hb (hnot a b ha)
    · exact .bit ht' rfl (hv.2 (isLike_double_of_only ht hu hw hdouble))
    · cases hb
    · exact .of_isNumber ht' hv
    · exact (Mask.Allows.of_isNumber ht' hv).union_left

/-- The text that a bitwise operator makes of two texts is described only where both operands can be
nothing but texts. -/
theorem bitwiseResult_allows_iff (ht : t.WellFormed) (hu : left.Allows d t u)
    (hw : right.Allows d t w)
    (hv : v.isLike (if u.isLike .string && w.isLike .string then .string else .long) = true) :
    (bitwiseResult left right).Allows d t v ↔
      ¬(u.isLike .string = true ∧ w.isLike .string = true ∧
        ¬(left.isStringOnly = true ∧ right.isStringOnly = true)) := by
  rw [bitwiseResult, ← Bool.and_eq_true]
  cases honly : left.isStringOnly && right.isStringOnly with
  | true =>
      obtain ⟨hleft, hright⟩ := Bool.and_eq_true_iff.1 honly
      have hu' : u.isLike .string = true := hu.describes.isLike_of_only ht rfl (beq_iff_eq.1 hleft)
      have hw' : w.isLike .string = true := hw.describes.isLike_of_only ht rfl (beq_iff_eq.1 hright)
      rw [hu', hw'] at hv
      exact iff_of_true (.bit ht rfl hv) fun hnot => hnot.2.2 rfl
  | false =>
      rw [if_neg Bool.false_ne_true, Mask.long, Mask.Allows.bit_iff ht (k := .long) rfl]
      cases htexts : u.isLike .string && w.isLike .string with
      | true =>
          rw [htexts] at hv
          obtain ⟨hu', hw'⟩ := Bool.and_eq_true_iff.1 htexts
          refine iff_of_false ?_ fun hnot => hnot ⟨hu', hw', Bool.false_ne_true⟩
          cases v with
          | string => exact Bool.false_ne_true
          | _ => cases hv
      | false =>
          rw [htexts] at hv
          refine iff_of_true hv fun hnot => ?_
          rw [hnot.1, hnot.2.1] at htexts
          cases htexts

/-- The mask of an operation that is not bitwise allows what the operation gives. -/
theorem binaryResult_allows (op : BinaryOp) (hop : op.isBitwise = false) (ht : t.WellFormed)
    (hl : left.Fits t.size) (hr : right.Fits t.size) (hu : left.Allows d t u)
    (hw : right.Allows d t w) (hv : op.Gives u w v) :
    Runs (binaryResult op left right false) t fun m t' => m.Allows d t' v := by
  cases op with
  | add => exact addResult_allows ht hl hr hu hw hv
  | sub | mul | pow | div => exact .pure ht (arithmeticResult_allows ht hu hw hv)
  | mod | shiftLeft | shiftRight | spaceship => exact .pure ht (.bit ht (k := .long) rfl hv)
  | concat => exact .pure ht (.bit ht (k := .string) rfl hv)
  | bitAnd | bitOr | bitXor => cases hop
  | _ => exact .pure ht (.bit ht (k := .bool) rfl hv)

/-- The mask that a binary operator yields describes its result, with one exception: if a bitwise
operator meets two texts and an operand may be something else, the text that it gives is left
out. -/
theorem binaryResult_allows_iff (op : BinaryOp) (ht : t.WellFormed) (hl : left.Fits t.size)
    (hr : right.Fits t.size) (hu : left.Allows d t u) (hw : right.Allows d t w)
    (hv : op.Gives u w v) :
    Runs (binaryResult op left right false) t fun m t' =>
      m.Allows d t' v ↔
        ¬(op.isBitwise = true ∧ u.isLike .string = true ∧ w.isLike .string = true ∧
          ¬(left.isStringOnly = true ∧ right.isStringOnly = true)) := by
  cases hop : op.isBitwise with
  | false =>
      refine (binaryResult_allows op hop ht hl hr hu hw hv).mono fun _ _ _ _ h => ?_
      exact iff_of_true h fun hnot => Bool.false_ne_true hnot.1
  | true =>
      simp only [true_and]
      cases op with
      | bitAnd | bitOr | bitXor => exact .pure ht (bitwiseResult_allows_iff ht hu hw hv)
      | _ => cases hop

/-- The union of two arrays that might be `null`, in a full table that does not list arrays of
anything. -/
theorem binaryResult_allows_iff_nullable :
    Sample.nestedTable.WellFormed ∧ Sample.nestedMask.Fits Sample.nestedTable.size ∧
      Sample.nestedMask.Allows default Sample.nestedTable (.array []) ∧
      BinaryOp.add.Gives (.array []) (.array []) (.array []) ∧
      Runs (binaryResult .add Sample.nestedMask Sample.nestedMask false) Sample.nestedTable
        fun m t' => m.Allows default t' (.array []) := by
  have ht : Sample.nestedTable.WellFormed := Sample.reachable_nestedTable.wellFormed
  have hfits : Sample.nestedMask.Fits Sample.nestedTable.size :=
    ((Mask.Fits.bit (by decide)).union (Mask.Fits.bit (by decide))).withRef true
  have harray : Sample.nestedMask.Allows default Sample.nestedTable (.array []) :=
    .plain (k := .array (.bit 6)) ⟨7, by decide, rfl⟩ rfl rfl
  have hgives : BinaryOp.add.Gives (.array []) (.array []) (.array []) :=
    Or.inl ⟨[], [], rfl, rfl, rfl⟩
  have hruns := binaryResult_allows_iff .add ht hfits hfits harray harray hgives
  refine ⟨ht, hfits, harray, hgives, hruns.mono fun m t' _ _ h => h.2 ?_⟩
  rintro ⟨hbitwise, -⟩
  cases hbitwise

/-- If both operands of `&` may be anything, the result counts as a `long`, although two texts give
a text. -/
theorem not_allows_bitAnd_of_texts :
    Mask.top.Allows default (.new 0 60 none) (.string "a") ∧
      Mask.top.Allows default (.new 0 60 none) (.string "c") ∧
      BinaryOp.bitAnd.Gives (.string "a") (.string "c") (.string "a") ∧
      Runs (binaryResult .bitAnd .top .top false) (.new 0 60 none) fun m t' =>
        ¬m.Allows default t' (.string "a") := by
  have ht : (KindTable.new 0 60 none).WellFormed := .new 0 60 none
  refine ⟨.any rfl, .any rfl, rfl, Runs.pure ht fun h => ?_⟩
  exact Bool.false_ne_true ((Mask.Allows.bit_iff ht (k := .long) rfl).1 h)

/-! ### Conversions and other unary operators -/

/-- A class without its subclasses is looked up or listed, unless a full table drops it. -/
theorem instanceOf_allows_iff (ht : t.WellFormed) (c cls : Name) (id : Nat) :
    Runs (KindTable.instanceOf c false) t fun m t' =>
      m.Allows d t' (.object cls id) ↔
        (cls == c) = true ∨ ¬(t.size < t.cap ∨ (t.indexOf? (.object c)).isSome = true) := by
  refine Runs.bind (KindTable.intern_runs ht fun _ h => Kind.noConfusion h).with_run
    fun m t' hw _ hm => Runs.pure hw ?_
  rcases KindTable.intern_eq_ok_iff.1 hm.2 with ⟨i, hidx, hlt, rfl, rfl⟩ | ⟨hidx, hfull, rfl, -⟩ |
    ⟨-, hroom, hlt, rfl, rfl⟩
  · -- The entry may spell the class in another way.
    obtain ⟨k, hk, hsame⟩ := KindTable.indexOf?_eq_some_iff.1 hidx
    cases k with
    | object c' =>
        have hc : (c' == c) = true := hsame
        rw [Mask.Allows.bit_object_iff hlt hk, hidx]
        simp only [Option.isSome_some, or_true, not_true, or_false]
        exact ⟨fun h => BEq.trans h hc, fun h => BEq.trans h (BEq.symm hc)⟩
    | _ => cases hsame
  · refine iff_of_true (.any rfl) (Or.inr ?_)
    rw [hidx]
    simpa using hfull
  · rw [Mask.Allows.bit_object_iff hlt List.getElem?_concat_length]
    simp [hroom]

/-- Converting to an object keeps objects and makes objects of `stdClass` of all else. -/
theorem objectCast_allows_iff (ht : t.WellFormed) (hm : m.Fits t.size) (hu : m.Allows d t u)
    (hv : Cast.object.Gives u v) :
    Runs (castResult .object m) t fun r t' =>
      r.Allows d t' v ↔
        ¬(t.isObjectOnly m = .ok false ∧
          (t.size < t.cap ∨ (t.indexOf? (.object ⟨"stdClass"⟩)).isSome = true) ∧
          ∃ cls id, u = .object cls id ∧ (cls == ⟨"stdClass"⟩) = false) := by
  obtain ⟨b, hb⟩ := KindTable.allKinds_ok hm Kind.isObject
  have hb' : t.isObjectOnly m = .ok b := hb
  refine Runs.get_bind (Runs.lift_bind hb' ?_)
  rw [hb']
  cases b with
  | true =>
      refine Runs.pure ht (iff_of_true ?_ fun hnot => Bool.noConfusion (Except.ok.inj hnot.1))
      rcases hv with ⟨cls, id, -, rfl⟩ | ⟨hnot, -⟩
      · exact hu.withRef false
      · obtain ⟨k, hlike, hk⟩ := hu.describes.of_allKinds hb
        obtain ⟨cls, id, hcls⟩ := Value.exists_object hlike hk
        exact absurd hcls (hnot cls id)
  | false =>
      rcases hv with ⟨cls, id, rfl, rfl⟩ | ⟨hnot, id, rfl⟩
      · refine (instanceOf_allows_iff ht _ cls id).mono fun _ _ _ _ h => h.trans ?_
        cases hsame : cls == (⟨"stdClass"⟩ : Name) with
        | true =>
            refine iff_of_true (Or.inl rfl) ?_
            rintro ⟨-, -, cls', id', hcls, hother⟩
            cases hcls
            exact Bool.noConfusion (hsame.symm.trans hother)
        | false =>
            rw [or_iff_right Bool.false_ne_true]
            exact not_congr ⟨fun hroom => ⟨rfl, hroom, cls, id, rfl, hsame⟩, fun hnot => hnot.2.1⟩
      · refine (instanceOf_allows_iff ht _ _ id).mono fun _ _ _ _ h => h.trans ?_
        refine iff_of_true (Or.inl (BEq.refl _)) ?_
        rintro ⟨-, -, cls, id, hcls, -⟩
        exact hnot cls id hcls

/-- The mask of a cast to an array allows what the cast gives. -/
theorem arrayCast_allows (ht : t.WellFormed) (hm : m.Fits t.size) (hu : m.Allows d t u)
    (hv : Cast.array.Gives u v) : Runs (castResult .array m) t fun r t' => r.Allows d t' v := by
  obtain ⟨b, hb⟩ := KindTable.allKinds_ok hm Kind.isArray
  refine Runs.get_bind (Runs.lift_bind hb (Runs.ite (fun honly => Runs.pure ht ?_) fun _ => ?_))
  · rw [honly] at hb
    obtain ⟨items, rfl⟩ := hu.describes.exists_array_of_only hb
    rw [hv.2 items rfl]
    exact hu.shape
  · obtain ⟨items, rfl⟩ := hv.1
    exact (KindTable.anyArray_runs ht).mono fun _ _ _ _ h => .of_lists_array h.2 items

/-- What unary operators other than `~` and the conversion to an object yield describes their
results. -/
theorem unaryResult_allows (op : UnaryOp) (hnot : op ≠ .bitNot) (hobject : op ≠ .cast .object)
    (ht : t.WellFormed) (hm : m.Fits t.size) (hu : m.Allows d t u) (hv : op.Gives u v) :
    Runs (unaryResult op m) t fun r t' => r.Allows d t' v := by
  cases op with
  | not => exact .pure ht (.bit ht (k := .bool) rfl hv)
  | minus =>
      refine Runs.pure ht ?_
      split
      · rename_i hdouble
        exact .bit ht rfl (hv.2 (hu.describes.isLike_of_only ht rfl (beq_iff_eq.1 hdouble)))
      · exact .of_isNumber ht hv
  | plus =>
      refine Runs.pure ht ?_
      split
      · rename_i hlong
        exact .bit ht rfl (hv.2 (hu.describes.isLike_of_only ht rfl (beq_iff_eq.1 hlong)))
      split
      · rename_i hdouble
        exact .bit ht rfl (hv.1.2 (hu.describes.isLike_of_only ht rfl (beq_iff_eq.1 hdouble)))
      · exact .of_isNumber ht hv.1
  | bitNot => exact absurd rfl hnot
  | silence =>
      cases hv
      exact .pure ht hu
  | cast conversion =>
      cases conversion with
      | bool => exact .pure ht (.bit ht (k := .bool) rfl hv)
      | long => exact .pure ht (.bit ht (k := .long) rfl hv)
      | double => exact .pure ht (.bit ht (k := .double) rfl hv)
      | string => exact .pure ht (.bit ht (k := .string) rfl hv)
      | array => exact arrayCast_allows ht hm hu hv
      | object => exact absurd rfl hobject
      | unset =>
          cases hv
          exact .pure ht (.bit ht (k := .null) rfl rfl)

/-- The mask that a unary operator yields describes its result, with two exceptions: the text that
`~` makes of a text is left out if the operand may be something else, and so is an object that is
converted to an object if the operand may be something else and the object is not one of `stdClass`.
A full table that does not list `stdClass` leaves out nothing. -/
theorem unaryResult_allows_iff (op : UnaryOp) (ht : t.WellFormed) (hm : m.Fits t.size)
    (hu : m.Allows d t u) (hv : op.Gives u v) :
    Runs (unaryResult op m) t fun r t' =>
      r.Allows d t' v ↔
        ¬((op = .bitNot ∧ u.isLike .string = true ∧ m.isStringOnly = false) ∨
          (op = .cast .object ∧ t.isObjectOnly m = .ok false ∧
            (t.size < t.cap ∨ (t.indexOf? (.object ⟨"stdClass"⟩)).isSome = true) ∧
            ∃ cls id, u = .object cls id ∧ (cls == ⟨"stdClass"⟩) = false)) := by
  by_cases hnot : op = .bitNot
  · -- It is a bitwise operator with the operand on both sides.
    subst hnot
    have hboth := bitwiseResult_allows_iff ht hu hu (by rwa [Bool.and_self])
    rw [bitwiseResult, Bool.and_self] at hboth
    refine Runs.pure ht (hboth.trans (not_congr ?_))
    simp
  by_cases hobject : op = .cast .object
  · subst hobject
    refine (objectCast_allows_iff ht hm hu hv).mono fun _ _ _ _ h => h.trans (not_congr ?_)
    simp only [reduceCtorEq, false_and, false_or, true_and]
  · refine (unaryResult_allows op hnot hobject ht hm hu hv).mono fun _ _ _ _ h => iff_of_true h ?_
    rintro (h | h)
    · exact hnot h.1
    · exact hobject h.1

/-- Making an object of what may be anything. -/
theorem unaryResult_allows_iff_of_null :
    (KindTable.new 0 60 none).WellFormed ∧ Mask.top.Allows default (.new 0 60 none) .null ∧
      (UnaryOp.cast .object).Gives .null (.object ⟨"stdClass"⟩ 1) ∧
      Runs (unaryResult (.cast .object) .top) (.new 0 60 none) fun r t' =>
        r.Allows default t' (.object ⟨"stdClass"⟩ 1) := by
  have hgives : (UnaryOp.cast .object).Gives .null (.object ⟨"stdClass"⟩ 1) :=
    Or.inr ⟨fun _ _ h => Value.noConfusion h, 1, rfl⟩
  have hallows : Mask.top.Allows default (.new 0 60 none) .null := .any rfl
  have hruns := unaryResult_allows_iff (.cast .object) (.new 0 60 none) Mask.Fits.top hallows hgives
  refine ⟨.new 0 60 none, hallows, hgives, hruns.mono fun r t' _ _ h => h.2 ?_⟩
  rintro (⟨hnot, -⟩ | ⟨-, -, -, _, _, hobject, -⟩)
  · cases hnot
  · cases hobject

/-- If its operand may be anything, `~` counts as a `long`, although it makes a text of a text; and
a conversion to an object counts as an object of `stdClass`, although it keeps an object of another
class. -/
theorem not_allows_bitNot_of_text_nor_cast_of_object :
    (Mask.top.Allows default (.new 0 60 none) (.string "") ∧
      UnaryOp.bitNot.Gives (.string "") (.string "") ∧
      Runs (unaryResult .bitNot .top) (.new 0 60 none) fun r t' =>
        ¬r.Allows default t' (.string "")) ∧
    Mask.top.Allows default (.new 0 60 none) (.object ⟨"A"⟩ 1) ∧
      (UnaryOp.cast .object).Gives (.object ⟨"A"⟩ 1) (.object ⟨"A"⟩ 1) ∧
      Runs (unaryResult (.cast .object) .top) (.new 0 60 none) fun r t' =>
        ¬r.Allows default t' (.object ⟨"A"⟩ 1) := by
  have ht : (KindTable.new 0 60 none).WellFormed := .new 0 60 none
  have hgives : (UnaryOp.cast .object).Gives (.object ⟨"A"⟩ 1) (.object ⟨"A"⟩ 1) :=
    Or.inl ⟨_, _, rfl, rfl⟩
  refine ⟨⟨.any rfl, rfl, Runs.pure ht fun h => ?_⟩, .any rfl, hgives, ?_⟩
  · exact Bool.false_ne_true ((Mask.Allows.bit_iff ht (k := .long) rfl).1 h)
  · refine (objectCast_allows_iff (d := default) ht Mask.Fits.top (.any rfl) hgives).mono
      fun _ _ _ _ h => ?_
    rw [h, not_not]
    exact ⟨rfl, Or.inl (by decide), _, _, rfl, by decide⟩

end Operator

end FlowTyping
