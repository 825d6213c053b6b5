import FlowTyping.Proofs.Kind.Grow

/-!
# The number of a table

Nothing that is computed on a kind table depends on the number that the table goes by.
`Typing.Relabels` says so of a pair of computations; where the first one succeeds on a table, the
second one does the same on the table with another number. It holds of every computation that a
visit makes on the table of its routine, paired with itself.
-/

namespace FlowTyping

/-- The same table under another number. -/
def KindTable.inContext (t : KindTable) (c : ContextId) : KindTable :=
  { t with id := c }

namespace Typing

variable {α α' β β' γ : Type} {c : ContextId}

/-- What one computation does to a table, the other does to the table with number `c`, and it yields
what `f` makes of the value. -/
def Relabels (c : ContextId) (f : α → α') (x : Typing α) (y : Typing α') : Prop :=
  ∀ t a t', x.run t = .ok (a, t') → y.run (t.inContext c) = .ok (f a, t'.inContext c)

/-- The computation does the same under every number. -/
abbrev IsBlind (x : Typing α) : Prop :=
  ∀ c, Relabels c id x x

namespace Relabels

variable {f : α → α'} {g : β → β'} {x x₂ : Typing α} {y y₂ : Typing α'} {k : α → Typing β}
  {k' : α' → Typing β'}

theorem pure {a : α} {a' : α'} (h : a' = f a) : Relabels c f (pure a) (pure a') := by
  intro t b t' hrun
  cases hrun
  rw [h]
  rfl

theorem get : Relabels c (·.inContext c) (get : Typing KindTable) get := by
  intro t a t' hrun
  cases hrun
  rfl

theorem lift (y : Except Fault α) : Relabels c id (liftM y : Typing α) (liftM y) := by
  intro t a t' hrun
  cases y with
  | error fault => cases hrun
  | ok b =>
      cases hrun
      rfl

/-- What the first part yields on both sides is handed to the second part on both sides. -/
theorem bind (hx : Relabels c f x y) (hk : ∀ a, Relabels c g (k a) (k' (f a))) :
    Relabels c g (x >>= k) (y >>= k') := by
  intro t b t' hrun
  obtain ⟨a, t₁, hfirst, hrest⟩ := exists_of_run_bind hrun
  rw [StateT.run_bind, hx t a t₁ hfirst]
  exact hk a t₁ b t' hrest

theorem ite {p : Prop} [Decidable p] (hx : Relabels c f x y) (hy : Relabels c f x₂ y₂) :
    Relabels c f (if p then x else x₂) (if p then y else y₂) := by
  split
  · exact hx
  · exact hy

/-- A loop is blind to the number of the table if each turn is. -/
theorem foldlM {g : β → γ → Typing β} (hg : ∀ b a, Relabels c id (g b a) (g b a)) (l : List γ)
    (b : β) : Relabels c id (l.foldlM g b) (l.foldlM g b) := by
  induction l generalizing b with
  | nil => exact pure rfl
  | cons a rest ih =>
      rw [List.foldlM_cons]
      exact bind (hg b a) ih

theorem mapM {g : γ → Typing β} (hg : ∀ a, Relabels c id (g a) (g a)) (l : List γ) :
    Relabels c id (l.mapM g) (l.mapM g) := by
  induction l with
  | nil => exact pure rfl
  | cons a rest ih =>
      rw [List.mapM_cons]
      exact bind (hg a) fun b => bind ih fun bs => pure rfl

end Relabels

end Typing

open Typing

namespace KindTable

/-- The number of a kind does not depend on the number of the table. -/
theorem intern_blind (k : Kind) : IsBlind (intern k) := by
  intro c t m t' h
  rcases intern_eq_ok_iff.1 h with ⟨i, hidx, hi, hm, rfl⟩ | ⟨hidx, hfull, hm, rfl⟩ |
    ⟨hidx, hroom, hlimit, hm, rfl⟩
  · exact intern_eq_ok_iff.2 (Or.inl ⟨i, hidx, hi, hm, rfl⟩)
  · exact intern_eq_ok_iff.2 (Or.inr (Or.inl ⟨hidx, hfull, hm, rfl⟩))
  · exact intern_eq_ok_iff.2 (Or.inr (Or.inr ⟨hidx, hroom, hlimit, hm, rfl⟩))

theorem arrayOf_blind (m : Mask) : IsBlind (arrayOf m) :=
  intern_blind _

theorem anyArray_blind : IsBlind anyArray :=
  arrayOf_blind .top

theorem instanceOf_blind (cls : Name) (b : Bool) : IsBlind (instanceOf cls b) :=
  fun c => .bind (intern_blind _ c) fun _ => .pure rfl

mutual

/-- A declared type means the same whatever the number of the table. -/
theorem hintMask_blind : (h : Hint) → IsBlind (hintMask h)
  | .bool | .long | .double | .string | .null | .void | .callable | .object | .mixed =>
    fun _ => .pure rfl
  | .array => anyArray_blind
  | .iterable => fun c =>
    .bind (anyArray_blind c) fun _ => .bind (instanceOf_blind _ true c) fun _ => .pure rfl
  | .selfClass => by
    intro c
    apply Relabels.bind .get
    intro t
    have hself : (t.inContext c).self? = t.self? := rfl
    rw [hself]
    cases t.self? with
    | some cls => exact instanceOf_blind cls true c
    | none => exact .pure rfl
  | .ofClass cls => instanceOf_blind cls true
  | .nullable hint => fun c => .bind (hintMask_blind hint c) fun _ => .pure rfl
  | .union hints => hintsMask_blind hints .empty

theorem hintsMask_blind : (hs : List Hint) → (acc : Mask) → IsBlind (hintsMask acc hs)
  | [], _ => fun _ => .pure rfl
  | hint :: hints, acc => fun c =>
    .bind (hintMask_blind hint c) fun m => hintsMask_blind hints (acc ∪ m) c

end

theorem hintMask?_blind (h : Option Hint) : IsBlind (hintMask? h) := by
  cases h with
  | some hint => exact hintMask_blind hint
  | none => exact fun _ => .pure rfl

mutual

/-- A description is read alike whatever the number of the table. -/
theorem adoptKind_blind : (d : Desc) → IsBlind (adoptKind d)
  | .null | .bool | .long | .double | .string | .resource => fun _ => .pure rfl
  | .array any _ _ _ kinds => fun c =>
    .bind (adoptKinds_blind kinds (adoptBase any) c) fun _ => arrayOf_blind _ c
  | .object _ => intern_blind _

theorem adoptKinds_blind : (ds : List Desc) → (acc : Mask) → IsBlind (adoptKinds acc ds)
  | [], _ => fun _ => .pure rfl
  | d :: ds, acc => fun c => .bind (adoptKind_blind d c) fun m => adoptKinds_blind ds (acc ∪ m) c

end

theorem adopt_blind (s : Summary) : IsBlind (adopt s) :=
  fun c => .bind (adoptKinds_blind s.kinds _ c) fun _ => .pure rfl

end KindTable

open KindTable (anyArray_blind arrayOf_blind instanceOf_blind hintMask_blind)

namespace Overload

variable (d : Declarations)

theorem acceptedMask?_blind (p : ParamDecl) : IsBlind (acceptedMask? p) := by
  rw [acceptedMask?]
  cases p.hint? with
  | none => exact fun _ => .pure rfl
  | some hint => exact fun c => .bind (hintMask_blind hint c) fun _ => .pure rfl

/-- The cost of an argument does not depend on the number of the table. -/
theorem argumentCost_blind (r : RoutineDecl) (position : Nat) (arg : ArgumentType) :
    IsBlind (argumentCost d r position arg) := by
  rw [argumentCost]
  cases r.paramAt? position with
  | none => exact fun _ => .pure rfl
  | some p => exact fun c => .bind (acceptedMask?_blind p c) fun _ => .bind .get fun _ => .pure rfl

theorem scoreFrom_blind (r : RoutineDecl) (args : List ArgumentType) (position : Nat) (s : Score) :
    IsBlind (scoreFrom d r position s args) := by
  intro c
  induction args generalizing position s with
  | nil => exact .pure rfl
  | cons arg args ih =>
      rw [scoreFrom]
      exact .bind (argumentCost_blind d r position arg c) fun _ => ih _ _

/-- A call is bound alike whatever the number of the table. -/
theorem resolve_blind (candidates : List RoutineDecl) (args : List ArgumentType)
    (scope? : Option Name) : IsBlind (resolve d candidates args scope?) := by
  intro c
  apply Relabels.ite (.pure rfl)
  refine Relabels.bind (f := id) ?_ fun _ => .pure rfl
  apply Relabels.mapM
  intro r
  exact .bind (scoreFrom_blind d r args 0 _ c) fun _ => .pure rfl

end Overload

namespace Operator

theorem addResult_blind (left right : Mask) (bounded : Bool) :
    IsBlind (addResult left right bounded) := by
  intro c
  apply Relabels.bind .get
  intro t
  apply Relabels.bind (.lift _)
  intro _
  apply Relabels.bind (.lift _)
  intro _
  apply Relabels.ite (.pure rfl)
  apply Relabels.ite (.pure rfl)
  apply Relabels.ite (.pure rfl)
  apply Relabels.bind (.lift _)
  intro _
  apply Relabels.bind (.lift _)
  intro _
  apply Relabels.ite (.pure rfl)
  apply Relabels.bind (.lift _)
  intro _
  apply Relabels.bind (.lift _)
  intro _
  exact .ite (.bind (anyArray_blind c) fun _ => .pure rfl) (.pure rfl)

/-- What an operator yields does not depend on the number of the table. -/
theorem binaryResult_blind (op : BinaryOp) (left right : Mask) (bounded : Bool) :
    IsBlind (binaryResult op left right bounded) := by
  cases op with
  | add => exact addResult_blind left right bounded
  | _ => exact fun _ => .pure rfl

theorem castResult_blind (conversion : Cast) (operand : Mask) :
    IsBlind (castResult conversion operand) := by
  intro c
  cases conversion with
  | array =>
      exact .bind .get fun _ => .bind (.lift _) fun _ => .ite (.pure rfl) (anyArray_blind c)
  | object =>
      exact .bind .get fun _ => .bind (.lift _) fun _ => .ite (.pure rfl) (instanceOf_blind _ _ c)
  | bool | long | double | string | unset => exact .pure rfl

theorem unaryResult_blind (op : UnaryOp) (operand : Mask) : IsBlind (unaryResult op operand) := by
  cases op with
  | cast conversion => exact castResult_blind conversion operand
  | not | minus | plus | bitNot | silence => exact fun _ => .pure rfl

end Operator

/-- An element is stored alike whatever the number of the table. -/
theorem storeInMask_blind (container value : Mask) : IsBlind (storeInMask container value) := by
  intro c
  apply Relabels.ite (.pure rfl)
  apply Relabels.ite (arrayOf_blind _ c)
  apply Relabels.bind .get
  intro t
  apply Relabels.foldlM
  intro acc e
  refine Relabels.bind (f := id) ?_ fun _ => .pure rfl
  cases e.2 with
  | array _ | null | bool => exact arrayOf_blind _ c
  | long | double | string | resource | object _ => exact .lift _

/-- Narrowing by a class does not depend on the number of the table. -/
theorem instanceMask_blind (d : Declarations) (cls : Name) (current : Mask) (holds : Bool) :
    IsBlind (instanceMask d cls current holds) := by
  intro c
  apply Relabels.ite (.bind .get fun _ => .lift _)
  apply Relabels.ite (instanceOf_blind cls true c)
  apply Relabels.bind .get
  intro t
  apply Relabels.bind (.lift _)
  intro kept
  apply Relabels.bind (.lift _)
  intro classes
  apply Relabels.bind (.lift _)
  intro _
  exact .ite (.pure rfl) (.bind (instanceOf_blind cls true c) fun _ => .pure rfl)

theorem testedMask_blind (test : KindTest) (current : Mask) (holds : Bool) :
    IsBlind (testedMask test current holds) := by
  intro c
  have hmask : IsBlind test.mask := by
    cases test with
    | array => exact anyArray_blind
    | _ => exact fun _ => .pure rfl
  apply Relabels.ite (.bind .get fun _ => .lift _)
  apply Relabels.bind .get
  intro t
  apply Relabels.bind (.lift _)
  intro kept
  exact .ite (hmask c) (.ite (.pure rfl) (.pure rfl))

theorem exceptionMask_blind (classes : List Name) : IsBlind (exceptionMask classes) := by
  intro c
  refine Relabels.bind (f := id) ?_ ?_
  · apply Relabels.foldlM
    intro acc cls
    exact .bind (instanceOf_blind cls true c) fun _ => .pure rfl
  · intro m
    exact .ite (instanceOf_blind _ true c) (.pure rfl)

theorem builtinResult?_blind (name : Name) : IsBlind (builtinResult? name) := by
  intro c
  apply Relabels.ite (.pure rfl)
  split
  · exact .pure rfl
  · exact .pure rfl
  · exact .bind (anyArray_blind c) fun _ => .pure rfl
  · exact .bind (anyArray_blind c) fun _ => .pure rfl
  · exact .pure rfl

namespace Facts

/-- A parameter starts alike whatever the number of the table. -/
theorem paramSlot_blind (p : ParamDecl) : IsBlind (paramSlot p) := by
  intro c
  apply Relabels.ite (.pure rfl)
  apply Relabels.bind (KindTable.hintMask?_blind p.hint? c)
  intro m
  apply Relabels.ite
  · exact .bind (arrayOf_blind _ c) fun _ => .pure rfl
  · exact .bind (Relabels.pure (f := id) rfl) fun _ => .pure rfl

theorem thisSlot_blind : IsBlind thisSlot := by
  intro c
  apply Relabels.bind .get
  intro t
  have hself : (t.inContext c).self? = t.self? := rfl
  rw [hself]
  cases t.self? with
  | some cls => exact .bind (instanceOf_blind cls true c) fun _ => .pure rfl
  | none => exact .pure rfl

/-- What a variable holds on entry does not depend on the number of the table. -/
theorem entrySlot_blind (r : RoutineDecl) (v : Variable) : IsBlind (entrySlot r v) := by
  intro c
  rw [entrySlot]
  cases v.kind with
  | localVar => exact .pure rfl
  | parameter =>
      dsimp only
      cases r.params.find? fun p => p.name == v.name with
      | some p => exact paramSlot_blind p c
      | none => exact .pure rfl
  | thisObject => exact thisSlot_blind c
  | captured byRef => cases byRef <;> exact .pure rfl

end Facts

namespace KindTable

/-- A mask is described alike whatever the number of the table. -/
theorem summarizeWithin_inContext (t : KindTable) (c : ContextId) (depth : Nat) (m : Mask) :
    (t.inContext c).summarizeWithin depth m = t.summarizeWithin depth m := by
  induction depth generalizing m with
  | zero => rfl
  | succ depth ih =>
      have hdescribe : (t.inContext c).summarizeWithin depth = t.summarizeWithin depth := funext ih
      rw [summarizeWithin, summarizeWithin, hdescribe]
      rfl

/-- Descriptions do not depend on the number of the table. -/
theorem summarize_inContext (t : KindTable) (c : ContextId) (m : Mask) :
    (t.inContext c).summarize m = t.summarize m :=
  summarizeWithin_inContext t c _ m

end KindTable

end FlowTyping
