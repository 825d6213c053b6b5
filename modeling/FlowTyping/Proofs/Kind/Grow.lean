import FlowTyping.Proofs.Kind.Typing

/-!
# Tables only grow

`Typing.Adds` says of every run of a computation, from whatever table, that it only lists further
kinds. It holds of every computation that a visit makes on the table of its routine; nothing is
asked of the table or of the masks that go in.
-/

namespace FlowTyping

open KindTable

namespace Typing

variable {α β γ : Type}

/-- A sequence that succeeds does so step by step. -/
theorem exists_of_run_bind {x : Typing α} {f : α → Typing β} {t : KindTable} {r : β × KindTable}
    (h : (x >>= f).run t = .ok r) : ∃ a t', x.run t = .ok (a, t') ∧ (f a).run t' = .ok r := by
  rw [StateT.run_bind] at h
  cases hx : x.run t with
  | error fault =>
      rw [hx] at h
      cases h
  | ok p =>
      rw [hx] at h
      exact ⟨p.1, p.2, rfl, h⟩

/-- Every run of the computation only adds kinds to the table. -/
def Adds (x : Typing α) : Prop :=
  ∀ t a t', x.run t = .ok (a, t') → t.Grows t'

namespace Adds

variable {x y : Typing α} {f : α → Typing β}

theorem pure (a : α) : Adds (pure a) := by
  intro t b t' h
  cases h
  exact .refl t

theorem get : Adds (get : Typing KindTable) := by
  intro t a t' h
  cases h
  exact .refl t

theorem lift (y : Except Fault α) : Adds (liftM y) := by
  intro t a t' h
  cases y with
  | error fault => cases h
  | ok b =>
      cases h
      exact .refl t

/-- A sequence adds what its parts add. -/
theorem bind (hx : Adds x) (hf : ∀ a, Adds (f a)) : Adds (x >>= f) := by
  intro t b t' h
  obtain ⟨a, t₁, hrun, hrest⟩ := exists_of_run_bind h
  exact (hx t a t₁ hrun).trans (hf a t₁ b t' hrest)

theorem ite {c : Prop} [Decidable c] (hx : Adds x) (hy : Adds y) :
    Adds (if c then x else y) := by
  split
  · exact hx
  · exact hy

/-- A loop only adds if each turn only adds. -/
theorem foldlM {g : β → γ → Typing β} (hg : ∀ b c, Adds (g b c)) (l : List γ) (b : β) :
    Adds (l.foldlM g b) := by
  induction l generalizing b with
  | nil => exact pure b
  | cons c rest ih =>
      rw [List.foldlM_cons]
      exact bind (hg b c) ih

theorem mapM {g : γ → Typing β} (hg : ∀ c, Adds (g c)) (l : List γ) : Adds (l.mapM g) := by
  induction l with
  | nil => exact pure []
  | cons c rest ih =>
      rw [List.mapM_cons]
      exact bind (hg c) fun b => bind ih fun bs => pure (b :: bs)

end Adds

end Typing

open Typing

namespace KindTable

/-- A number is made a mask if there is a bit for it, and the table is left alone. -/
theorem run_ofIndex_iff {i : Nat} {t t' : KindTable} {m : Mask} :
    (liftM (Mask.ofIndex i) : Typing Mask).run t = .ok (m, t') ↔
      i < kindLimit ∧ m = .bit i ∧ t' = t := by
  by_cases hi : i < kindLimit
  · rw [show Mask.ofIndex i = .ok (.bit i) from if_pos hi]
    constructor
    · intro h
      cases h
      exact ⟨hi, rfl, rfl⟩
    · rintro ⟨-, rfl, rfl⟩
      rfl
  · rw [show Mask.ofIndex i = .error _ from if_neg hi]
    constructor
    · intro h
      cases h
    · rintro ⟨hi', -, -⟩
      exact absurd hi' hi

/-- What numbering a kind can do: the kind is listed already, the table is full, or the kind goes to
the end of the list. -/
theorem intern_eq_ok_iff {k : Kind} {t t' : KindTable} {m : Mask} :
    (intern k).run t = .ok (m, t') ↔
      (∃ i, t.indexOf? k = some i ∧ i < kindLimit ∧ m = .bit i ∧ t' = t) ∨
      (t.indexOf? k = none ∧ t.cap ≤ t.size ∧ m = .top ∧ t' = { t with overflowed := true }) ∨
      (∃ hnew : t.indexOf? k = none, t.size < t.cap ∧ t.size < kindLimit ∧ m = .bit t.size ∧
        t' = t.push k hnew) := by
  rcases Option.eq_none_or_eq_some (t.indexOf? k) with hnew | ⟨i, hidx⟩
  · rw [run_intern_of_none hnew]
    by_cases hfull : t.cap ≤ t.size
    · rw [if_pos hfull, Except.ok.injEq, Prod.mk.injEq, eq_comm, eq_comm (b := t')]
      simp [hnew, hfull, Nat.not_lt.2 hfull]
    · rw [if_neg hfull, run_ofIndex_iff]
      simp [hnew, hfull, Nat.not_le.1 hfull]
  · rw [run_intern_of_some hidx, run_ofIndex_iff]
    simp [hidx]

/-- Asking for a kind lists it at the end, if at all. -/
theorem intern_adds (k : Kind) : Adds (intern k) := by
  intro t m t' h
  rcases intern_eq_ok_iff.1 h with ⟨_, _, _, _, rfl⟩ | ⟨_, _, _, rfl⟩ | ⟨_, _, _, _, rfl⟩
  · exact .refl _
  · exact ⟨rfl, rfl, rfl, List.prefix_rfl⟩
  · exact .push _

theorem arrayOf_adds (m : Mask) : Adds (arrayOf m) :=
  intern_adds _

theorem anyArray_adds : Adds anyArray :=
  arrayOf_adds .top

theorem instanceOf_adds (cls : Name) (b : Bool) : Adds (instanceOf cls b) :=
  .bind (intern_adds _) fun _ => .pure _

mutual

/-- Reading a declared type only adds kinds. -/
theorem hintMask_adds : (h : Hint) → Adds (hintMask h)
  | .bool | .long | .double | .string | .null | .void | .callable | .object | .mixed => .pure _
  | .array => anyArray_adds
  | .iterable => .bind anyArray_adds fun _ => .bind (instanceOf_adds _ true) fun _ => .pure _
  | .selfClass => by
    apply Adds.bind .get
    intro t
    cases t.self? with
    | some cls => exact instanceOf_adds cls true
    | none => exact .pure _
  | .ofClass cls => instanceOf_adds cls true
  | .nullable hint => .bind (hintMask_adds hint) fun _ => .pure _
  | .union hints => hintsMask_adds hints .empty

theorem hintsMask_adds : (hs : List Hint) → (acc : Mask) → Adds (hintsMask acc hs)
  | [], _ => .pure _
  | hint :: hints, acc => .bind (hintMask_adds hint) fun m => hintsMask_adds hints (acc ∪ m)

end

theorem hintMask?_adds (h : Option Hint) : Adds (hintMask? h) := by
  cases h with
  | some hint => exact hintMask_adds hint
  | none => exact .pure _

mutual

/-- Reading a description only adds kinds. -/
theorem adoptKind_adds : (d : Desc) → Adds (adoptKind d)
  | .null | .bool | .long | .double | .string | .resource => .pure _
  | .array any _ _ _ kinds => .bind (adoptKinds_adds kinds (adoptBase any)) fun _ => arrayOf_adds _
  | .object _ => intern_adds _

theorem adoptKinds_adds : (ds : List Desc) → (acc : Mask) → Adds (adoptKinds acc ds)
  | [], _ => .pure _
  | d :: ds, acc => .bind (adoptKind_adds d) fun m => adoptKinds_adds ds (acc ∪ m)

end

theorem adopt_adds (s : Summary) : Adds (adopt s) :=
  .bind (adoptKinds_adds s.kinds _) fun _ => .pure _

end KindTable

namespace Overload

variable (d : Declarations)

theorem argumentCost_adds (r : RoutineDecl) (position : Nat) (arg : ArgumentType) :
    Adds (argumentCost d r position arg) := by
  rw [argumentCost]
  cases r.paramAt? position with
  | none => exact .pure _
  | some p =>
      have haccepted : Adds (acceptedMask? p) := by
        rw [acceptedMask?]
        cases p.hint? with
        | none => exact .pure _
        | some hint => exact .bind (hintMask_adds hint) fun _ => .pure _
      exact .bind haccepted fun _ => .bind .get fun _ => .pure _

theorem scoreFrom_adds (r : RoutineDecl) (args : List ArgumentType) (position : Nat) (s : Score) :
    Adds (scoreFrom d r position s args) := by
  induction args generalizing position s with
  | nil => exact .pure _
  | cons arg args ih =>
      rw [scoreFrom]
      exact .bind (argumentCost_adds d r position arg) fun _ => ih _ _

/-- Resolving a call reads declared types into the table, and removes nothing. -/
theorem resolve_adds (candidates : List RoutineDecl) (args : List ArgumentType)
    (scope? : Option Name) : Adds (resolve d candidates args scope?) := by
  apply Adds.ite (.pure _)
  apply Adds.bind _ fun _ => .pure _
  apply Adds.mapM
  intro r
  exact .bind (scoreFrom_adds d r args 0 _) fun _ => .pure _

end Overload

namespace Operator

/-- A sum asks for arrays of any elements at most. -/
theorem addResult_adds (left right : Mask) (bounded : Bool) :
    Adds (addResult left right bounded) := by
  apply Adds.bind .get
  intro t
  apply Adds.bind (.lift _)
  intro _
  apply Adds.bind (.lift _)
  intro _
  apply Adds.ite (.pure _)
  apply Adds.ite (.pure _)
  apply Adds.ite (.pure _)
  apply Adds.bind (.lift _)
  intro _
  apply Adds.bind (.lift _)
  intro _
  apply Adds.ite (.pure _)
  apply Adds.bind (.lift _)
  intro _
  apply Adds.bind (.lift _)
  intro _
  exact .ite (.bind anyArray_adds fun _ => .pure _) (.pure _)

theorem binaryResult_adds (op : BinaryOp) (left right : Mask) (bounded : Bool) :
    Adds (binaryResult op left right bounded) := by
  cases op with
  | add => exact addResult_adds left right bounded
  | _ => exact .pure _

theorem castResult_adds (conversion : Cast) (operand : Mask) :
    Adds (castResult conversion operand) := by
  cases conversion with
  | array => exact .bind .get fun _ => .bind (.lift _) fun _ => .ite (.pure _) anyArray_adds
  | object =>
      exact .bind .get fun _ => .bind (.lift _) fun _ => .ite (.pure _) (instanceOf_adds _ _)
  | bool | long | double | string | unset => exact .pure _

theorem unaryResult_adds (op : UnaryOp) (operand : Mask) : Adds (unaryResult op operand) := by
  cases op with
  | cast conversion => exact castResult_adds conversion operand
  | not | minus | plus | bitNot | silence => exact .pure _

end Operator

/-- Storing an element lists new kinds of arrays, and keeps the old ones. -/
theorem storeInMask_adds (container value : Mask) : Adds (storeInMask container value) := by
  apply Adds.ite (.pure _)
  apply Adds.ite (arrayOf_adds _)
  apply Adds.bind .get
  intro t
  apply Adds.foldlM
  intro acc e
  apply Adds.bind _ fun _ => .pure _
  cases e.2 with
  | array _ | null | bool => exact arrayOf_adds _
  | long | double | string | resource | object _ => exact .lift _

/-- Narrowing by a class asks for that class at most. -/
theorem instanceMask_adds (d : Declarations) (cls : Name) (current : Mask) (holds : Bool) :
    Adds (instanceMask d cls current holds) := by
  apply Adds.ite (.bind .get fun _ => .lift _)
  apply Adds.ite (instanceOf_adds cls true)
  apply Adds.bind .get
  intro t
  apply Adds.bind (.lift _)
  intro kept
  apply Adds.bind (.lift _)
  intro classes
  apply Adds.bind (.lift _)
  intro _
  exact .ite (.pure _) (.bind (instanceOf_adds cls true) fun _ => .pure _)

theorem testedMask_adds (test : KindTest) (current : Mask) (holds : Bool) :
    Adds (testedMask test current holds) := by
  have hmask : Adds test.mask := by
    cases test with
    | array => exact anyArray_adds
    | _ => exact .pure _
  apply Adds.ite (.bind .get fun _ => .lift _)
  apply Adds.bind .get
  intro t
  apply Adds.bind (.lift _)
  intro kept
  exact .ite hmask (.ite (.pure _) (.pure _))

theorem exceptionMask_adds (classes : List Name) : Adds (exceptionMask classes) := by
  apply Adds.bind
  · apply Adds.foldlM
    intro acc cls
    exact .bind (instanceOf_adds cls true) fun _ => .pure _
  · intro m
    exact .ite (instanceOf_adds _ true) (.pure _)

theorem builtinResult?_adds (name : Name) : Adds (builtinResult? name) := by
  apply Adds.ite (.pure _)
  split
  · exact .pure _
  · exact .pure _
  · exact .bind anyArray_adds fun _ => .pure _
  · exact .bind anyArray_adds fun _ => .pure _
  · exact .pure _

end FlowTyping
