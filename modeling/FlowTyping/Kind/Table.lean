import FlowTyping.Kind.Basic
import FlowTyping.Traversal

/-!
# Kind tables

Each routine numbers the kinds it meets in a table of its own. The primitive kinds come first;
arrays and classes get the next free number when they are first used. A table has a capacity: once
it is full, a further kind counts as any value and the table is marked as overflowed.
-/

namespace FlowTyping

/-- The index is the inverse of a list of kinds: it has a number for a kind just if a kind that is
the same is listed there. -/
def Indexes (index : List (Kind × Nat)) (kinds : List Kind) : Prop :=
  ∀ (k : Kind) (i : Nat), index.lookup k = some i ↔ ∃ k', kinds[i]? = some k' ∧ (k' == k) = true

namespace Indexes

variable {index : List (Kind × Nat)} {kinds : List Kind} {k : Kind}

theorem nil : Indexes [] [] := by
  intro k i
  simp

/-- A kind that the index does not have is listed last. -/
theorem push (h : Indexes index kinds) (hnew : index.lookup k = none) :
    Indexes ((k, kinds.length) :: index) (kinds ++ [k]) := by
  intro x i
  simp only [List.lookup_cons, getElem?_concat_eq_some, or_and_right, exists_or]
  cases hx : x == k with
  | true =>
      -- No other entry is the same as `k`, so none is the same as `x`.
      have hother : ¬∃ y, kinds[i]? = some y ∧ (y == x) = true := by
        rintro ⟨y, hy, hsame⟩
        cases hnew.symm.trans ((h k i).2 ⟨y, hy, BEq.trans hsame hx⟩)
      rw [or_iff_right hother]
      constructor
      · rintro ⟨⟩
        exact ⟨k, ⟨rfl, rfl⟩, BEq.symm hx⟩
      · rintro ⟨_, ⟨rfl, rfl⟩, -⟩
        rfl
  | false =>
      have hlast : ¬∃ y, (i = kinds.length ∧ k = y) ∧ (y == x) = true := by
        rintro ⟨_, ⟨-, rfl⟩, hsame⟩
        cases hx.symm.trans (BEq.symm hsame)
      rw [or_iff_left hlast]
      exact h x i

/-- The primitive kinds, listed one after the other. -/
theorem primitives : Indexes Kind.primitives.zipIdx.reverse Kind.primitives :=
  (((((nil.push rfl).push rfl).push rfl).push rfl).push rfl).push rfl

end Indexes

/-- The kinds that a routine has met, each at the position that is its number. -/
structure KindTable where
  id : ContextId
  /-- Number of kinds the table takes, between 7 and 60. -/
  cap : Nat
  /-- The class that the routine belongs to. -/
  self? : Option Name
  kinds : List Kind
  /-- The numbers of the kinds, by kind. -/
  index : List (Kind × Nat)
  /-- Some kind was dropped because the table was full. -/
  overflowed : Bool
  indexes : Indexes index kinds
  deriving Repr

/-- A computation that may add kinds to a table. -/
abbrev Typing := StateT KindTable (Except Fault)

namespace KindTable

/-- A table with the primitive kinds and room for at least one more. -/
def new (id : ContextId) (cap : Nat) (self? : Option Name) : KindTable :=
  ⟨id, max 7 (min cap kindLimit), self?, Kind.primitives, Kind.primitives.zipIdx.reverse, false,
    .primitives⟩

instance : Inhabited KindTable :=
  ⟨new default kindLimit none⟩

/-- How many kinds are listed. -/
def size (t : KindTable) : Nat :=
  t.kinds.length

/-- The kind with a number. -/
def kind? (t : KindTable) (i : Nat) : Option Kind :=
  t.kinds[i]?

/-- The kind with a number that a mask of this table lists. -/
def kindAt (t : KindTable) (i : Nat) : Except Fault Kind :=
  match t.kinds[i]? with
  | some k => .ok k
  | none => .error (.missingKind i)

/-- The number of a kind in the table. -/
def indexOf? (t : KindTable) (k : Kind) : Option Nat :=
  t.index.lookup k

/-! ### Adding kinds -/

/-- Lists a further kind and notes its number. -/
def push (t : KindTable) (k : Kind) (hnew : t.indexOf? k = none) : KindTable :=
  { t with
    kinds := t.kinds ++ [k]
    index := (k, t.size) :: t.index
    indexes := t.indexes.push hnew }

section

variable {t t' : KindTable} {k k' : Kind} {i j : Nat}

/-- The number of a kind is the place where the kind is listed. -/
theorem indexOf?_eq_some_iff :
    t.indexOf? k = some i ↔ ∃ k', t.kinds[i]? = some k' ∧ (k' == k) = true :=
  t.indexes k i

/-- Every kind is listed once. -/
theorem index_unique (hi : t.kinds[i]? = some k) (hj : t.kinds[j]? = some k')
    (hsame : (k == k') = true) : i = j := by
  have hfirst := indexOf?_eq_some_iff.2 ⟨k, hi, hsame⟩
  have hsecond := indexOf?_eq_some_iff.2 ⟨k', hj, BEq.refl k'⟩
  exact Option.some.inj (hfirst.symm.trans hsecond)

/-- No two places of a table list the same kind. -/
theorem pairwise_kinds (t : KindTable) : t.kinds.Pairwise fun k k' => (k == k') = false := by
  rw [List.pairwise_iff_getElem]
  intro i j hi hj hlt
  apply Bool.eq_false_iff.2
  intro hsame
  have heq := index_unique (List.getElem?_eq_getElem hi) (List.getElem?_eq_getElem hj) hsame
  exact Nat.ne_of_lt hlt heq

/-- Kinds that are the same have the same number, in tables that list the same kinds. -/
theorem indexOf?_congr (hkinds : t'.kinds = t.kinds) (hsame : ∀ x : Kind, (x == k') = (x == k)) :
    t'.indexOf? k' = t.indexOf? k := by
  apply Option.ext
  intro i
  rw [indexOf?_eq_some_iff, indexOf?_eq_some_iff, hkinds]
  simp only [hsame]

/-- A listed kind is found where it was listed. -/
theorem indexOf?_push (hnew : t.indexOf? k = none) : (t.push k hnew).indexOf? k = some t.size :=
  indexOf?_eq_some_iff.2 ⟨k, List.getElem?_concat_length, BEq.refl k⟩

end

/-- The mask of one kind, numbered on first use. -/
def intern (k : Kind) : Typing Mask := do
  let t ← get
  match hnew : t.indexOf? k with
  | some i => Mask.ofIndex i
  | none =>
    if t.cap ≤ t.size then
      set { t with overflowed := true }
      return Mask.top
    else
      set (t.push k hnew)
      Mask.ofIndex t.size

/-- Arrays whose elements are described by a mask. -/
def arrayOf (elem : Mask) : Typing Mask :=
  intern (.array elem.shape)

/-- Arrays of anything. -/
def anyArray : Typing Mask :=
  arrayOf .top

/-- Objects of a class, and of its subclasses if `subclasses` is set. -/
def instanceOf (cls : Name) (subclasses : Bool) : Typing Mask := do
  let m ← intern (.object cls)
  return m.withSubclasses subclasses

/-! ### Reading masks of the table -/

/-- The classes of the objects in a mask. -/
def classes (t : KindTable) (m : Mask) : Except Fault (List Name) := do
  let kinds ← m.members.mapM t.kindAt
  return kinds.filterMap Kind.class?

/-- What one finds by indexing a value of some kind: the elements of an array, the characters of a
string, anything in an object, and nothing in the rest. -/
def elementOfKind : Kind → Mask
  | .array elem => elem
  | .string => .string
  | .object _ => .top
  | _ => .null

/-- What one finds by indexing or walking a value of the mask. -/
def elementMask (t : KindTable) (m : Mask) : Except Fault Mask :=
  if m.any then .ok .top
  else m.members.foldlM (fun acc i => do return acc ∪ elementOfKind (← t.kindAt i)) .empty

/-- Keeps the kinds that pass a test; any value stays any value. -/
def filter (t : KindTable) (m : Mask) (keep : Kind → Bool) : Except Fault Mask :=
  if m.any then .ok m
  else m.members.foldlM
    (fun acc i => do
      if keep (← t.kindAt i) then return acc ∪ (← Mask.ofIndex i) else return acc)
    m.flags

/-- The mask has some kind and each passes the test. -/
def allKinds (t : KindTable) (m : Mask) (test : Kind → Bool) : Except Fault Bool :=
  if m.any || m.isEmpty then .ok false
  else m.members.allM fun i => do return test (← t.kindAt i)

/-- The mask is any value or has a kind that passes the test. -/
def anyKind (t : KindTable) (m : Mask) (test : Kind → Bool) : Except Fault Bool :=
  if m.any then .ok true
  else m.members.anyM fun i => do return test (← t.kindAt i)

/-- The mask lists numbers and nothing else. -/
def isNumberOnly (t : KindTable) (m : Mask) : Except Fault Bool :=
  t.allKinds m Kind.isNumber

/-- The mask lists arrays and nothing else. -/
def isArrayOnly (t : KindTable) (m : Mask) : Except Fault Bool :=
  t.allKinds m Kind.isArray

/-- The mask lists objects and nothing else. -/
def isObjectOnly (t : KindTable) (m : Mask) : Except Fault Bool :=
  t.allKinds m Kind.isObject

/-- The mask lists an array, or allows any value. -/
def mayBeArray (t : KindTable) (m : Mask) : Except Fault Bool :=
  t.anyKind m Kind.isArray

/-! ### Showing masks -/

/-- The text of a kind, given how the elements of arrays are shown. -/
def showKind (showMask : Mask → Except Fault String) : Kind → Except Fault String
  | .null => .ok "null"
  | .bool => .ok "bool"
  | .long => .ok "long"
  | .double => .ok "double"
  | .string => .ok "string"
  | .resource => .ok "resource"
  | .array elem =>
    if elem.any then .ok "array"
    else if elem.isEmpty then .ok "[]"
    else do
      let text ← showMask elem
      if 1 < elem.count then return "(" ++ text ++ ")[]" else return text ++ "[]"
  | .object cls => .ok cls.text

/-- Shows a mask with arrays nested at most `depth` deep. -/
def showWithin (t : KindTable) : (depth : Nat) → Mask → Except Fault String
  | 0, _ => .error .endlessKind
  | depth + 1, m => do
    let kinds ← m.members.mapM fun i => do showKind (t.showWithin depth) (← t.kindAt i)
    let parts := (if m.any then ["mixed"] else []) ++ kinds ++ (if m.void then ["void"] else [])
    let text := if parts.isEmpty then "none" else String.intercalate "|" parts
    return if m.ref then "&" ++ text else text

/-- A mask as a reader sees it, such as `long|string`. -/
def display (t : KindTable) (m : Mask) : Except Fault String :=
  t.showWithin (t.size + 1) m

end KindTable

end FlowTyping
