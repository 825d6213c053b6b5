import FlowTyping.Overload
import FlowTyping.Proofs.Kind.Table
import FlowTyping.Visit.Block

/-!
# Computations on kind tables

`Typing.Runs` says that a computation on a well-formed table succeeds, that the table after it is a
well-formed later version, and what else holds of result and table. Every computation that a visit
makes on the table of its routine is of this kind, and every mask it yields fits the table.
-/

namespace FlowTyping

namespace Typing

variable {α β : Type} {t : KindTable}

/-- From table `t` the computation succeeds, and only lists further kinds. -/
def Runs (x : Typing α) (t : KindTable) (Q : α → KindTable → Prop) : Prop :=
  ∃ a t', x.run t = .ok (a, t') ∧ t'.WellFormed ∧ t.Grows t' ∧ Q a t'

/-- The computation yields a mask that fits the table after it. -/
abbrev YieldsMask (x : Typing Mask) : Prop :=
  ∀ {t : KindTable}, t.WellFormed → Runs x t fun m t' => m.Fits t'.size

namespace Runs

variable {P Q : α → KindTable → Prop} {R : β → KindTable → Prop} {x : Typing α} {f : α → Typing β}

theorem mono (h : Runs x t P) (hpq : ∀ a t', t'.WellFormed → t.Grows t' → P a t' → Q a t') :
    Runs x t Q := by
  obtain ⟨a, t', hx, hw, hg, hp⟩ := h
  exact ⟨a, t', hx, hw, hg, hpq a t' hw hg hp⟩

/-- Two things that hold of every run hold together. -/
theorem and (h : Runs x t P) (h' : Runs x t Q) : Runs x t fun a t' => P a t' ∧ Q a t' := by
  obtain ⟨a, t', hx, hw, hg, hp⟩ := h
  obtain ⟨a', t'', hx', -, -, hq⟩ := h'
  cases hx.symm.trans hx'
  exact ⟨a, t', hx, hw, hg, hp, hq⟩

/-- The run itself may be used. -/
theorem with_run (h : Runs x t P) : Runs x t fun a t' => P a t' ∧ x.run t = .ok (a, t') := by
  obtain ⟨a, t', hx, hw, hg, hp⟩ := h
  exact ⟨a, t', hx, hw, hg, hp, hx⟩

theorem pure {a : α} (ht : t.WellFormed) (hq : Q a t) : Runs (pure a) t Q :=
  ⟨a, t, rfl, ht, .refl t, hq⟩

/-- A sequence runs if the second part runs wherever the first part leads. -/
theorem bind (hx : Runs x t P)
    (hf : ∀ a t', t'.WellFormed → t.Grows t' → P a t' → Runs (f a) t' R) : Runs (x >>= f) t R := by
  obtain ⟨a, t', hrun, hw, hg, hp⟩ := hx
  obtain ⟨b, t'', hrun', hw', hg', hr⟩ := hf a t' hw hg hp
  refine ⟨b, t'', ?_, hw', hg.trans hg', hr⟩
  rw [StateT.run_bind, hrun]
  exact hrun'

/-- Reading the table. -/
theorem get_bind {f : KindTable → Typing β} (h : Runs (f t) t R) : Runs (get >>= f) t R := by
  obtain ⟨b, t', hrun, h'⟩ := h
  exact ⟨b, t', hrun, h'⟩

/-- A computation that does not change the table. -/
theorem lift_bind {y : Except Fault α} {a : α} (hy : y = .ok a) (h : Runs (f a) t R) :
    Runs (liftM y >>= f) t R := by
  obtain ⟨b, t', hrun, h'⟩ := h
  refine ⟨b, t', ?_, h'⟩
  subst hy
  exact hrun

/-- A look at the table that ends a computation. -/
theorem lift {y : Except Fault α} {a : α} (hy : y = .ok a) (ht : t.WellFormed) (hq : Q a t) :
    Runs (liftM y) t Q := by
  subst hy
  exact pure ht hq

theorem ite {c : Prop} [Decidable c] {y : Typing α} (hx : c → Runs x t Q) (hy : ¬c → Runs y t Q) :
    Runs (if c then x else y) t Q := by
  by_cases h : c
  · rw [if_pos h]
    exact hx h
  · rw [if_neg h]
    exact hy h

/-- A loop keeps what each of its turns keeps. -/
theorem foldlM {γ : Type} {I : β → KindTable → Prop} {g : β → γ → Typing β} {l : List γ}
    (hstep : ∀ c ∈ l, ∀ b t, t.WellFormed → I b t → Runs (g b c) t I) {b : β}
    (ht : t.WellFormed) (hb : I b t) : Runs (l.foldlM g b) t I := by
  induction l generalizing b t with
  | nil => exact pure ht hb
  | cons c rest ih =>
      rw [List.foldlM_cons]
      refine bind (hstep c (List.mem_cons_self ..) b t ht hb) fun b' t' hw _ hb' => ?_
      exact ih (fun x hx => hstep x (List.mem_cons_of_mem c hx)) hw hb'

/-- A loop over a list yields one result for each item. -/
theorem mapM {γ : Type} {P : β → KindTable → Prop} {g : γ → Typing β} {l : List γ}
    (hgrow : ∀ b t t', t.Grows t' → P b t → P b t')
    (hstep : ∀ c ∈ l, ∀ t : KindTable, t.WellFormed → Runs (g c) t P) (ht : t.WellFormed) :
    Runs (l.mapM g) t fun bs t' => bs.length = l.length ∧ ∀ b ∈ bs, P b t' := by
  induction l generalizing t with
  | nil => exact pure ht ⟨rfl, fun b hb => nomatch hb⟩
  | cons c rest ih =>
      rw [List.mapM_cons]
      refine bind (hstep c (List.mem_cons_self ..) t ht) fun b t' hw _ hb => ?_
      refine bind (ih (fun x hx => hstep x (List.mem_cons_of_mem c hx)) hw)
        fun bs t'' hw' hg hbs => ?_
      refine pure hw' ⟨by simp [hbs.1], List.forall_mem_cons.2 ⟨hgrow b t' t'' hg hb, hbs.2⟩⟩

end Runs

end Typing

open Typing

namespace KindTable

variable {t : KindTable} {m : Mask}

/-- The mask is any value, or lists a kind that is the same as a given one. -/
def Lists (t : KindTable) (m : Mask) (k : Kind) : Prop :=
  m.any = true ∨ ∃ i k', m.has i = true ∧ t.kinds[i]? = some k' ∧ (k' == k) = true

/-- The bit of a listed kind lists the kind, in every spelling. -/
theorem Lists.of_bit {i : Nat} {k k' : Kind} (hi : t.kinds[i]? = some k')
    (hlt : i < kindLimit) (hk : (k' == k) = true) : t.Lists (.bit i) k := by
  refine Or.inr ⟨i, k', ?_, hi, hk⟩
  rw [Mask.has_bit, decide_eq_true hlt, decide_eq_true rfl]
  rfl

/-- A listed kind is looked up. -/
theorem run_intern_of_some {k : Kind} {i : Nat} (hidx : t.indexOf? k = some i) :
    (intern k).run t = (liftM (Mask.ofIndex i) : Typing Mask).run t := by
  rw [intern, StateT.run_bind, StateT.run_get, pure_bind]
  split
  · rename_i j hj
    cases hidx.symm.trans hj
    rfl
  · rename_i hnew
    cases hidx.symm.trans hnew

/-- A kind that is not listed is dropped or listed last. -/
theorem run_intern_of_none {k : Kind} (hnew : t.indexOf? k = none) :
    (intern k).run t =
      if t.cap ≤ t.size then .ok (.top, { t with overflowed := true })
      else (liftM (Mask.ofIndex t.size) : Typing Mask).run (t.push k hnew) := by
  rw [intern, StateT.run_bind, StateT.run_get, pure_bind]
  split
  · rename_i j hj
    cases hnew.symm.trans hj
  · split <;> rfl

/-- A listed kind is found under its number. -/
theorem intern_listed {k : Kind} {i : Nat} (ht : t.WellFormed) (hidx : t.indexOf? k = some i) :
    (intern k).run t = .ok (.bit i, t) := by
  obtain ⟨_, hi, -⟩ := indexOf?_eq_some_iff.1 hidx
  rw [run_intern_of_some hidx, ofIndex_ok ht (List.getElem?_eq_some_iff.1 hi).1]
  rfl

/-- A full table lists no further kind. -/
theorem intern_full {k : Kind} (hidx : t.indexOf? k = none) (hfull : t.cap ≤ t.size) :
    (intern k).run t = .ok (.top, { t with overflowed := true }) := by
  rw [run_intern_of_none hidx, if_pos hfull]

/-- A new kind is listed last. -/
theorem intern_new {k : Kind} (hidx : t.indexOf? k = none) (hroom : ¬t.cap ≤ t.size)
    (hlimit : t.size < kindLimit) : (intern k).run t = .ok (.bit t.size, t.push k hidx) := by
  have hbit : Mask.ofIndex t.size = .ok (.bit t.size) := if_pos hlimit
  rw [run_intern_of_none hidx, if_neg hroom, hbit]
  rfl

/-- Numbering a kind yields its bit, or any value if the table is full; doing it again changes
nothing. -/
theorem intern_runs {k : Kind} (ht : t.WellFormed)
    (hk : ∀ elem, k = .array elem → elem.Fits t.size) :
    Runs (intern k) t fun m t' =>
      m.Fits t'.size ∧ t'.Lists m k ∧ (intern k).run t' = .ok (m, t') := by
  have hlimit := ht.size_le
  have hcap := ht.cap_le
  cases hidx : t.indexOf? k with
  | some i =>
      obtain ⟨k', hi, hsame⟩ := indexOf?_eq_some_iff.1 hidx
      have hlt : i < t.size := (List.getElem?_eq_some_iff.1 hi).1
      have hrun := intern_listed ht hidx
      refine ⟨.bit i, t, hrun, ht, .refl t, Mask.Fits.bit hlt, ?_, hrun⟩
      exact Lists.of_bit hi (Nat.lt_of_lt_of_le hlt hlimit) hsame
  | none =>
      by_cases hfull : t.cap ≤ t.size
      · refine ⟨.top, { t with overflowed := true }, intern_full hidx hfull, ?_, ?_, Mask.Fits.top,
          Or.inl rfl, intern_full hidx hfull⟩
        · exact ⟨ht.cap_le, ht.size_le_cap, ht.primitives, ht.nested⟩
        · exact ⟨rfl, rfl, rfl, List.prefix_rfl⟩
      · have hpush := ht.push hidx (Nat.lt_of_not_le hfull) hk
        have hlast : t.size < (t.push k hidx).size := by simp [size, push]
        refine ⟨.bit t.size, t.push k hidx, intern_new hidx hfull (by omega), hpush,
          .push hidx, Mask.Fits.bit hlast, ?_, intern_listed hpush (indexOf?_push hidx)⟩
        exact Lists.of_bit List.getElem?_concat_length (by omega) (BEq.refl k)

/-- Asking for arrays yields a mask that lists them, or any value. -/
theorem arrayOf_runs (ht : t.WellFormed) (hm : m.Fits t.size) :
    Runs (arrayOf m) t fun r t' => r.Fits t'.size ∧ t'.Lists r (.array m.shape) :=
  (intern_runs ht fun _ h => Kind.array.inj h ▸ hm.shape).mono fun _ _ _ _ h => ⟨h.1, h.2.1⟩

theorem anyArray_runs (ht : t.WellFormed) :
    Runs anyArray t fun r t' => r.Fits t'.size ∧ t'.Lists r (.array .top) :=
  arrayOf_runs ht Mask.Fits.top

/-- Numbering a class again changes nothing. -/
theorem instanceOf_settles (ht : t.WellFormed) (cls : Name) (b : Bool) :
    Runs (instanceOf cls b) t fun m t' =>
      m.Fits t'.size ∧ (instanceOf cls b).run t' = .ok (m, t') := by
  refine Runs.bind (intern_runs ht fun _ h => Kind.noConfusion h) fun m t' hw _ hm =>
    Runs.pure hw ⟨hm.1.withSubclasses b, ?_⟩
  rw [instanceOf, StateT.run_bind, hm.2.2]
  rfl

theorem instanceOf_runs (ht : t.WellFormed) (cls : Name) (b : Bool) :
    Runs (instanceOf cls b) t fun m t' => m.Fits t'.size :=
  (instanceOf_settles ht cls b).mono fun _ _ _ _ h => h.1

/-! ### Declared types -/

mutual

/-- Every declared type can be read. -/
theorem hintMask_runs : (h : Hint) → YieldsMask (hintMask h)
  | .bool, _, ht | .long, _, ht | .double, _, ht | .string, _, ht | .null, _, ht | .void, _, ht =>
    Runs.pure ht (Mask.Fits.bit (by have := ht.six_le_size; omega))
  | .array, _, ht => (anyArray_runs ht).mono fun _ _ _ _ hm => hm.1
  | .iterable, _, ht =>
    Runs.bind (anyArray_runs ht) fun _ _ hw _ hm =>
      Runs.bind (instanceOf_runs hw _ true) fun _ _ hw' hg hm' =>
        Runs.pure hw' ((hg.fits hm.1).union hm')
  | .selfClass, t, ht => by
    refine Runs.get_bind ?_
    cases t.self? with
    | some cls => exact instanceOf_runs ht cls true
    | none => exact Runs.pure ht Mask.Fits.top
  | .ofClass cls, _, ht => instanceOf_runs ht cls true
  | .nullable hint, _, ht =>
    Runs.bind (hintMask_runs hint ht) fun _ _ hw _ hm =>
      Runs.pure hw (hm.union (Mask.Fits.bit (by have := hw.six_le_size; omega)))
  | .union hints, _, ht => hintsMask_runs hints Mask.empty ht Mask.Fits.empty
  | .callable, _, ht | .object, _, ht | .mixed, _, ht => Runs.pure ht Mask.Fits.top

/-- Declared types are added up from left to right. -/
theorem hintsMask_runs : (hs : List Hint) → (acc : Mask) → {t : KindTable} → t.WellFormed →
    acc.Fits t.size → Runs (hintsMask acc hs) t fun m t' => m.Fits t'.size
  | [], _, _, ht, hacc => Runs.pure ht hacc
  | hint :: hints, acc, _, ht, hacc =>
    Runs.bind (hintMask_runs hint ht) fun m _ hw hg hm =>
      hintsMask_runs hints (acc ∪ m) hw ((hg.fits hacc).union hm)

end

theorem hintMask?_runs (h : Option Hint) : YieldsMask (hintMask? h) := by
  intro t ht
  cases h with
  | some hint => exact hintMask_runs hint ht
  | none => exact Runs.pure ht Mask.Fits.top

/-! ### Summaries -/

theorem fits_adoptBase {n : Nat} (any : Bool) : (adoptBase any).Fits n := by
  cases any with
  | true => exact Mask.Fits.top
  | false => exact Mask.Fits.empty

mutual

/-- Every description can be read. -/
theorem adoptKind_runs : (d : Desc) → YieldsMask (adoptKind d)
  | .null, _, ht | .bool, _, ht | .long, _, ht | .double, _, ht | .string, _, ht
  | .resource, _, ht => Runs.pure ht (Mask.Fits.bit (by have := ht.six_le_size; omega))
  | .array any ref void subclasses kinds, _, ht =>
    Runs.bind (adoptKinds_runs kinds (adoptBase any) ht (fits_adoptBase any)) fun _ _ hw _ hm =>
      (arrayOf_runs hw (((hm.withRef ref).withVoid void).withSubclasses subclasses)).mono
        fun _ _ _ _ h => h.1
  | .object _, _, ht => (intern_runs ht fun _ h => Kind.noConfusion h).mono fun _ _ _ _ h => h.1

theorem adoptKinds_runs : (ds : List Desc) → (acc : Mask) → {t : KindTable} → t.WellFormed →
    acc.Fits t.size → Runs (adoptKinds acc ds) t fun m t' => m.Fits t'.size
  | [], _, _, ht, hacc => Runs.pure ht hacc
  | d :: ds, acc, _, ht, hacc =>
    Runs.bind (adoptKind_runs d ht) fun m _ hw hg hm =>
      adoptKinds_runs ds (acc ∪ m) hw ((hg.fits hacc).union hm)

end

/-- Every summary can be read into every table. -/
theorem adopt_runs (s : Summary) : YieldsMask (adopt s) := by
  intro t ht
  refine Runs.bind (adoptKinds_runs s.kinds _ ht (fits_adoptBase s.any)) fun m t' hw _ hm => ?_
  exact Runs.pure hw (((hm.withRef s.ref).withVoid s.void).withSubclasses s.subclasses)

end KindTable

variable {t : KindTable} {m : Mask}

/-! ### Overload resolution -/

namespace Overload

variable (d : Declarations)

theorem acceptedMask?_runs (p : ParamDecl) (ht : t.WellFormed) :
    Runs (acceptedMask? p) t fun _ _ => True := by
  rw [acceptedMask?]
  cases p.hint? with
  | none => exact Runs.pure ht trivial
  | some hint =>
      exact Runs.bind (KindTable.hintMask_runs hint ht) fun _ _ hw _ _ => Runs.pure hw trivial

/-- What an argument costs can always be told. -/
theorem argumentCost_runs (r : RoutineDecl) (position : Nat) (arg : ArgumentType)
    (ht : t.WellFormed) : Runs (argumentCost d r position arg) t fun _ _ => True := by
  rw [argumentCost]
  cases r.paramAt? position with
  | none => exact Runs.pure ht trivial
  | some p =>
      refine Runs.bind (acceptedMask?_runs p ht) fun _ _ hw _ _ => ?_
      exact Runs.get_bind (Runs.pure hw trivial)

theorem scoreFrom_runs (r : RoutineDecl) (args : List ArgumentType) (position : Nat) (s : Score)
    (ht : t.WellFormed) : Runs (scoreFrom d r position s args) t fun _ _ => True := by
  induction args generalizing position s t with
  | nil => exact Runs.pure ht trivial
  | cons arg args ih =>
      rw [scoreFrom]
      exact Runs.bind (argumentCost_runs d r position arg ht) fun _ _ hw _ _ => ih _ _ hw

/-- Resolution always comes to an answer. -/
theorem resolve_runs (candidates : List RoutineDecl) (args : List ArgumentType)
    (scope? : Option Name) (ht : t.WellFormed) :
    Runs (resolve d candidates args scope?) t fun _ _ => True := by
  refine Runs.ite (fun _ => Runs.pure ht trivial) fun _ => ?_
  refine Runs.bind (Runs.mapM (P := fun _ _ => True) (fun _ _ _ _ h => h) (fun r _ t ht => ?_) ht)
    fun _ _ hw _ _ => Runs.pure hw trivial
  exact Runs.bind (scoreFrom_runs d r args 0 _ ht) fun _ _ hw _ _ => Runs.pure hw trivial

end Overload

/-! ### Results of operators -/

namespace Operator

theorem fits_arithmeticResult {left right : Mask} {n : Nat} (hn : 6 ≤ n) :
    (arithmeticResult left right).Fits n := by
  rw [arithmeticResult]
  split
  · exact Mask.Fits.bit (by omega)
  · exact Mask.fits_number hn

/-- A sum succeeds whatever the operands, and what it yields fits. -/
theorem addResult_runs {left right : Mask} (bounded : Bool) (ht : t.WellFormed)
    (hl : left.Fits t.size) (hr : right.Fits t.size) :
    Runs (addResult left right bounded) t fun m t' => m.Fits t'.size := by
  have hsix := ht.six_le_size
  obtain ⟨la, hla⟩ := KindTable.allKinds_ok hl Kind.isArray
  obtain ⟨ra, hra⟩ := KindTable.allKinds_ok hr Kind.isArray
  obtain ⟨ln, hln⟩ := KindTable.allKinds_ok hl Kind.isNumber
  obtain ⟨rn, hrn⟩ := KindTable.allKinds_ok hr Kind.isNumber
  obtain ⟨lm, hlm⟩ := KindTable.anyKind_ok hl Kind.isArray
  obtain ⟨rm, hrm⟩ := KindTable.anyKind_ok hr Kind.isArray
  refine Runs.get_bind (Runs.lift_bind hla (Runs.lift_bind hra ?_))
  refine Runs.ite (fun _ => Runs.pure ht (hl.union hr).shape) fun _ => ?_
  refine Runs.ite (fun _ => Runs.pure ht (Mask.Fits.bit (by omega))) fun _ => ?_
  refine Runs.ite (fun _ => Runs.pure ht (Mask.Fits.bit (by omega))) fun _ => ?_
  refine Runs.lift_bind hln (Runs.lift_bind hrn ?_)
  refine Runs.ite (fun _ => Runs.pure ht (Mask.fits_number hsix)) fun _ => ?_
  refine Runs.lift_bind hlm (Runs.lift_bind hrm ?_)
  refine Runs.ite (fun _ => ?_) fun _ => Runs.pure ht (Mask.fits_number hsix)
  refine Runs.bind (KindTable.anyArray_runs ht) fun _ _ hw _ hm => ?_
  exact Runs.pure hw ((Mask.fits_number hw.six_le_size).union hm.1)

/-- Every binary operator succeeds, and what it yields fits. -/
theorem binaryResult_runs (op : BinaryOp) {left right : Mask} (bounded : Bool) (ht : t.WellFormed)
    (hl : left.Fits t.size) (hr : right.Fits t.size) :
    Runs (binaryResult op left right bounded) t fun m t' => m.Fits t'.size := by
  have hsix := ht.six_le_size
  cases op with
  | add => exact addResult_runs bounded ht hl hr
  | sub | mul | pow | div => exact Runs.pure ht (fits_arithmeticResult hsix)
  | bitAnd | bitOr | bitXor =>
      refine Runs.pure ht ?_
      rw [bitwiseResult]
      split <;> exact Mask.Fits.bit (by omega)
  | mod | shiftLeft | shiftRight | spaceship | concat | equal | notEqual | identical | notIdentical
  | less | lessEqual | greater | greaterEqual | logicalXor =>
      exact Runs.pure ht (Mask.Fits.bit (by omega))

/-- Every conversion succeeds, and what it yields fits. -/
theorem castResult_runs (conversion : Cast) (ht : t.WellFormed) (hm : m.Fits t.size) :
    Runs (castResult conversion m) t fun m t' => m.Fits t'.size := by
  have hsix := ht.six_le_size
  cases conversion with
  | array =>
      obtain ⟨b, hb⟩ := KindTable.allKinds_ok hm Kind.isArray
      refine Runs.get_bind (Runs.lift_bind hb
        (Runs.ite (fun _ => Runs.pure ht hm.shape) fun _ => ?_))
      exact (KindTable.anyArray_runs ht).mono fun _ _ _ _ h => h.1
  | object =>
      obtain ⟨b, hb⟩ := KindTable.allKinds_ok hm Kind.isObject
      refine Runs.get_bind (Runs.lift_bind hb (Runs.ite (fun _ => ?_) fun _ => ?_))
      · exact Runs.pure ht (hm.withRef false)
      · exact KindTable.instanceOf_runs ht _ false
  | bool | long | double | string | unset => exact Runs.pure ht (Mask.Fits.bit (by omega))

theorem unaryResult_runs (op : UnaryOp) (ht : t.WellFormed) (hm : m.Fits t.size) :
    Runs (unaryResult op m) t fun m t' => m.Fits t'.size := by
  have hsix := ht.six_le_size
  cases op with
  | not => exact Runs.pure ht (Mask.Fits.bit (by omega))
  | minus =>
      refine Runs.pure ht ?_
      split
      · exact Mask.Fits.bit (by omega)
      · exact Mask.fits_number hsix
  | plus =>
      refine Runs.pure ht ?_
      split
      · exact Mask.Fits.bit (by omega)
      · split
        · exact Mask.Fits.bit (by omega)
        · exact Mask.fits_number hsix
  | bitNot =>
      refine Runs.pure ht ?_
      split <;> exact Mask.Fits.bit (by omega)
  | silence => exact Runs.pure ht hm
  | cast conversion => exact castResult_runs conversion ht hm

/-- Every kind can be counted up and down. -/
theorem stepOfKind_ok (ht : t.WellFormed) (increment bounded : Bool) {i : Nat} (hi : i < t.size) :
    ∃ r, stepOfKind increment bounded i (t.kind? i) = .ok r ∧ r.Fits t.size := by
  have hsix := ht.six_le_size
  rw [stepOfKind.eq_def]
  split
  · refine ⟨_, rfl, ?_⟩
    split
    · exact Mask.Fits.bit (by omega)
    · exact Mask.fits_number hsix
  · refine ⟨_, rfl, ?_⟩
    rw [stepOfNull]
    split <;> exact Mask.Fits.bit (by omega)
  · exact ⟨_, rfl, (Mask.Fits.bit (by omega)).union (Mask.fits_number hsix)⟩
  · exact ⟨_, KindTable.ofIndex_ok ht hi, Mask.Fits.bit hi⟩

/-- Every mask can be counted up and down. -/
theorem stepResult_ok (ht : t.WellFormed) (hm : m.Fits t.size) (increment bounded : Bool) :
    ∃ r, stepResult t m increment bounded = .ok r ∧ r.Fits t.size := by
  have hsix := ht.six_le_size
  rw [stepResult]
  split
  · exact ⟨_, rfl, Mask.Fits.top⟩
  · split
    · refine ⟨_, rfl, ?_⟩
      rw [stepOfNull]
      split <;> exact Mask.Fits.bit (by omega)
    · refine foldlM_ok (fun i hi acc hacc => ?_) Mask.Fits.empty
      obtain ⟨r, hr, hfit⟩ := stepOfKind_ok ht increment bounded (KindTable.lt_of_mem_members hm hi)
      refine ⟨acc ∪ r, ?_, hacc.union hfit⟩
      rw [hr]
      rfl

end Operator

/-! ### Containers and tests -/

/-- Storing in one kind of container succeeds, and what it yields fits. -/
theorem storeInKind_runs {value : Mask} {i : Nat} {k : Kind} (ht : t.WellFormed)
    (hv : value.Fits t.size) (hk : t.kinds[i]? = some k) :
    Runs (storeInKind value i k) t fun m t' => m.Fits t'.size := by
  have hi : i < t.size := (List.getElem?_eq_some_iff.1 hk).1
  cases k with
  | array elem =>
      exact (KindTable.arrayOf_runs ht ((ht.fits_elem hk).union hv)).mono fun _ _ _ _ h => h.1
  | null | bool => exact (KindTable.arrayOf_runs ht hv).mono fun _ _ _ _ h => h.1
  | long | double | string | resource | object _ =>
      refine ⟨_, t, ?_, ht, .refl t, Mask.Fits.bit hi⟩
      simp only [storeInKind, KindTable.ofIndex_ok ht hi]
      rfl

/-- Storing in a container succeeds, and what it yields fits. -/
theorem storeInMask_runs (container : Mask) {value : Mask} (ht : t.WellFormed)
    (hv : value.Fits t.size) : Runs (storeInMask container value) t fun m t' => m.Fits t'.size := by
  refine Runs.ite (fun _ => Runs.pure ht Mask.Fits.top) fun _ => ?_
  refine Runs.ite (fun _ => ?_) fun _ => ?_
  · exact (KindTable.arrayOf_runs ht hv).mono fun _ _ _ _ h => h.1
  refine Runs.get_bind ?_
  -- The kinds were read from the table at the start, and keep their numbers while it grows.
  refine (Runs.foldlM (I := fun acc t' => acc.Fits t'.size ∧ t.Grows t')
    (fun e he acc t' hw hI => ?_) ht ⟨Mask.Fits.empty, .refl t⟩).mono fun _ _ _ _ h => h.1
  obtain ⟨i, _, hi⟩ := List.mem_filterMap.1 he
  obtain ⟨k, hk, rfl⟩ := Option.map_eq_some_iff.1 hi
  refine Runs.bind (storeInKind_runs hw (hI.2.fits hv) (hI.2.kind? hk)) fun r t'' hw' hg hr => ?_
  exact Runs.pure hw' ⟨(hg.fits hI.1).union hr, hI.2.trans hg⟩

theorem KindTest.mask_runs (test : KindTest) : YieldsMask test.mask := by
  intro t ht
  have hsix := ht.six_le_size
  cases test with
  | array => exact (KindTable.anyArray_runs ht).mono fun _ _ _ _ h => h.1
  | object => exact Runs.pure ht Mask.Fits.top
  | numeric => exact Runs.pure ht ((Mask.fits_number hsix).union (Mask.Fits.bit (by omega)))
  | null | long | double | string | bool => exact Runs.pure ht (Mask.Fits.bit (by omega))

/-- Narrowing by a class succeeds, and what is left fits. -/
theorem instanceMask_runs (d : Declarations) (cls : Name) {current : Mask} (holds : Bool)
    (ht : t.WellFormed) (hc : current.Fits t.size) :
    Runs (instanceMask d cls current holds) t fun m t' => m.Fits t'.size := by
  refine Runs.ite (fun _ => ?_) fun _ => Runs.ite (fun _ => ?_) fun _ => ?_
  · obtain ⟨r, hr, hfit⟩ := KindTable.filter_ok ht hc fun k => !d.isInstance cls k
    exact Runs.get_bind (Runs.lift hr ht hfit)
  · exact KindTable.instanceOf_runs ht cls true
  · obtain ⟨kept, hkept, hfit⟩ := KindTable.filter_ok ht hc (d.isInstance cls)
    obtain ⟨classes, hclasses⟩ := KindTable.classes_ok hc
    obtain ⟨b, hb⟩ := KindTable.allKinds_ok hfit Kind.isObject
    refine Runs.get_bind (Runs.lift_bind hkept (Runs.lift_bind hclasses (Runs.lift_bind hb ?_)))
    refine Runs.ite (fun _ => Runs.pure ht hfit) fun _ => ?_
    exact Runs.bind (KindTable.instanceOf_runs ht cls true) fun _ _ hw hg hm =>
      Runs.pure hw ((hg.fits hfit).union hm)

/-- Narrowing by a test succeeds, and what is left fits. -/
theorem testedMask_runs (test : KindTest) {current : Mask} (holds : Bool) (ht : t.WellFormed)
    (hc : current.Fits t.size) :
    Runs (testedMask test current holds) t fun m t' => m.Fits t'.size := by
  refine Runs.ite (fun _ => ?_) fun _ => ?_
  · obtain ⟨r, hr, hfit⟩ := KindTable.filter_ok ht hc fun k => !test.accepts k
    exact Runs.get_bind (Runs.lift hr ht hfit)
  · obtain ⟨kept, hkept, hfit⟩ := KindTable.filter_ok ht hc test.accepts
    refine Runs.get_bind (Runs.lift_bind hkept (Runs.ite (fun _ => test.mask_runs ht) fun _ => ?_))
    exact Runs.ite (fun _ => Runs.pure ht hc) fun _ => Runs.pure ht hfit

theorem exceptionMask_runs (classes : List Name) : YieldsMask (exceptionMask classes) := by
  intro t ht
  have hloop := Runs.foldlM (I := fun acc t' => acc.Fits t'.size) (l := classes)
    (g := fun acc cls => do return acc ∪ (← KindTable.instanceOf cls true))
    (fun cls _ acc t hw hacc => Runs.bind (KindTable.instanceOf_runs hw cls true)
      fun _ _ hw' hg hm => Runs.pure hw' ((hg.fits hacc).union hm)) ht Mask.Fits.empty
  refine Runs.bind hloop fun m t' hw _ hm => ?_
  exact Runs.ite (fun _ => KindTable.instanceOf_runs hw _ true) fun _ => Runs.pure hw hm

/-- A well-known function returns a mask that fits. -/
theorem builtinResult?_runs (name : Name) (ht : t.WellFormed) :
    Runs (builtinResult? name) t fun m? t' => ∀ m, m? = some m → m.Fits t'.size := by
  have hsix := ht.six_le_size
  refine Runs.ite (fun _ => Runs.pure ht fun m hm => ?_) fun _ => ?_
  · cases hm
    exact Mask.Fits.bit (by omega)
  split
  · refine Runs.pure ht fun m hm => ?_
    cases hm
    exact Mask.Fits.bit (by omega)
  · refine Runs.pure ht fun m hm => ?_
    cases hm
    exact Mask.Fits.bit (by omega)
  · refine Runs.bind (KindTable.anyArray_runs ht) fun r _ hw _ hr => Runs.pure hw fun m hm => ?_
    cases hm
    exact hr.1
  · refine Runs.bind (KindTable.anyArray_runs ht) fun r _ hw _ hr => Runs.pure hw fun m hm => ?_
    cases hm
    exact hr.1
  · exact Runs.pure ht fun m hm => nomatch hm

end FlowTyping
