import FlowTyping.Proofs.Kind.Settled
import Mathlib.Logic.Relation

/-!
# How tables change

A table changes in two ways only: it lists a kind that it does not have yet, or it is full and notes
that a kind was dropped. `Typing.Numbers` says that every run of a computation is a sequence of such
changes, so that what one change keeps, every run keeps. One such property is `KindTable.Flagless`:
the elements of arrays carry no flags.
-/

namespace FlowTyping

open Typing

namespace KindTable

variable {t t' : KindTable} {k : Kind} {m : Mask}

/-- One change of a table. The elements of an array that it lists carry no flags. -/
inductive Change (t : KindTable) : KindTable → Prop
  | list {k : Kind} (hnew : t.indexOf? k = none) (hroom : t.size < t.cap)
      (hshape : ∀ elem, k = .array elem → elem.shape = elem) :
      Change t (t.push k hnew)
  | drop (hfull : t.cap ≤ t.size) : Change t { t with overflowed := true }

/-- Any number of changes, one after the other. -/
abbrev Changes : KindTable → KindTable → Prop :=
  Relation.ReflTransGen Change

/-- The elements of arrays carry no flags. -/
def Flagless (t : KindTable) : Prop :=
  ∀ elem, .array elem ∈ t.kinds → elem.shape = elem

theorem Flagless.new (id : ContextId) (cap : Nat) (self? : Option Name) :
    (KindTable.new id cap self?).Flagless := by
  intro elem helem
  simp [KindTable.new, Kind.primitives] at helem

/-- A new entry has no flags in its elements, whichever change lists it. -/
theorem Change.flagless (h : t.Change t') (ht : t.Flagless) : t'.Flagless := by
  cases h with
  | @list k _ _ hshape =>
      intro elem helem
      rcases List.mem_append.1 helem with hold | hlast
      · exact ht elem hold
      · exact hshape elem (List.mem_singleton.1 hlast).symm
  | drop => exact ht

theorem Changes.flagless (h : t.Changes t') (ht : t.Flagless) : t'.Flagless := by
  induction h with
  | refl => exact ht
  | tail _ hlast ih => exact hlast.flagless ih

/-- Changes keep the entries that are there. -/
theorem Changes.grows (h : t.Changes t') : t.Grows t' := by
  induction h with
  | refl => exact .refl t
  | tail _ hlast ih =>
      apply ih.trans
      cases hlast with
      | list hnew => exact .push hnew
      | drop => exact ⟨rfl, rfl, rfl, List.prefix_rfl⟩

/-- A table that has dropped nothing had dropped nothing before. -/
theorem Changes.clear (h : t.Changes t') (hclear : t'.overflowed = false) :
    t.overflowed = false := by
  induction h with
  | refl => exact hclear
  | tail _ hlast ih =>
      cases hlast with
      | list => exact ih hclear
      | drop => cases hclear

end KindTable

/-! ### Computations that number kinds -/

namespace Typing

variable {α β : Type}

/-- Every run of the computation is a sequence of changes. -/
def Numbers (x : Typing α) : Prop :=
  ∀ t a t', x.run t = .ok (a, t') → t.Changes t'

namespace Numbers

variable {x : Typing α} {f : α → Typing β}

theorem pure (a : α) : Numbers (pure a) := by
  intro t b t' h
  cases h
  exact .refl

theorem get_bind {f : KindTable → Typing β} (hf : ∀ t, Numbers (f t)) : Numbers (get >>= f) := by
  intro t b t' h
  exact hf t t b t' h

theorem lift (y : Except Fault α) : Numbers (liftM y) := by
  intro t a t' h
  cases y with
  | error fault => cases h
  | ok b =>
      cases h
      exact .refl

/-- The changes of a sequence are those of its parts, one after the other. -/
theorem bind (hx : Numbers x) (hf : ∀ a, Numbers (f a)) : Numbers (x >>= f) := by
  intro t b t' h
  obtain ⟨a, t₁, hrun, hrest⟩ := exists_of_run_bind h
  exact (hx t a t₁ hrun).trans (hf a t₁ b t' hrest)

end Numbers

end Typing

namespace KindTable

/-- Asking for a kind makes one change at most. -/
theorem intern_numbers {k : Kind} (hk : ∀ elem, k = .array elem → elem.shape = elem) :
    Numbers (intern k) := by
  intro t m t' h
  rcases intern_eq_ok_iff.1 h with ⟨_, _, _, _, rfl⟩ | ⟨_, hfull, _, rfl⟩ | ⟨hnew, hroom, _, _, rfl⟩
  · exact .refl
  · exact .single (.drop hfull)
  · exact .single (.list hnew hroom hk)

theorem arrayOf_numbers (m : Mask) : Numbers (arrayOf m) := by
  apply intern_numbers
  intro elem helem
  cases helem
  rfl

theorem anyArray_numbers : Numbers anyArray :=
  arrayOf_numbers .top

theorem instanceOf_numbers (cls : Name) (b : Bool) : Numbers (instanceOf cls b) :=
  .bind (intern_numbers fun _ h => Kind.noConfusion h) fun _ => .pure _

mutual

/-- Reading a declared type asks for one kind after the other. -/
theorem hintMask_numbers : (h : Hint) → Numbers (hintMask h)
  | .bool | .long | .double | .string | .null | .void | .callable | .object | .mixed => .pure _
  | .array => anyArray_numbers
  | .iterable =>
    .bind anyArray_numbers fun _ => .bind (instanceOf_numbers _ true) fun _ => .pure _
  | .selfClass => by
    apply Numbers.get_bind
    intro t
    cases t.self? with
    | some cls => exact instanceOf_numbers cls true
    | none => exact .pure _
  | .ofClass cls => instanceOf_numbers cls true
  | .nullable hint => .bind (hintMask_numbers hint) fun _ => .pure _
  | .union hints => hintsMask_numbers hints .empty

theorem hintsMask_numbers : (hs : List Hint) → (acc : Mask) → Numbers (hintsMask acc hs)
  | [], _ => .pure _
  | hint :: hints, acc => .bind (hintMask_numbers hint) fun m => hintsMask_numbers hints (acc ∪ m)

end

mutual

/-- Reading a description asks for the kinds of the elements before that of the array. -/
theorem adoptKind_numbers : (d : Desc) → Numbers (adoptKind d)
  | .null | .bool | .long | .double | .string | .resource => .pure _
  | .array any _ _ _ kinds =>
    .bind (adoptKinds_numbers kinds (adoptBase any)) fun _ => arrayOf_numbers _
  | .object _ => intern_numbers fun _ h => Kind.noConfusion h

theorem adoptKinds_numbers : (ds : List Desc) → (acc : Mask) → Numbers (adoptKinds acc ds)
  | [], _ => .pure _
  | d :: ds, acc => .bind (adoptKind_numbers d) fun m => adoptKinds_numbers ds (acc ∪ m)

end

theorem adopt_numbers (s : Summary) : Numbers (adopt s) :=
  .bind (adoptKinds_numbers s.kinds _) fun _ => .pure _

end KindTable

end FlowTyping
