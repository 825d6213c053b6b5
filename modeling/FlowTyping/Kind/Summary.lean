import FlowTyping.Kind.Table

/-!
# Summaries

A summary describes a mask without a table, so that one routine can tell another what it returns.
`KindTable.summarize` writes one and `KindTable.adopt` reads it into a table.
-/

namespace FlowTyping

/-- One kind of a summary. An array lists the summary of its elements. -/
inductive Desc where
  | null
  | bool
  | long
  | double
  | string
  | resource
  | array (any ref void subclasses : Bool) (kinds : List Desc)
  | object (cls : Name)
  deriving Repr, Inhabited

/-- What a mask says, without reference to a kind table. -/
structure Summary where
  any : Bool
  ref : Bool
  void : Bool
  subclasses : Bool
  kinds : List Desc
  deriving Repr, Inhabited

/-- An array with elements of a summary. -/
def Desc.arrayOf (s : Summary) : Desc :=
  .array s.any s.ref s.void s.subclasses s.kinds

mutual

/-- Descriptions agree when they list the same kinds in the same order; the case of class names does
not matter. -/
def Desc.same : Desc → Desc → Bool
  | .null, .null => true
  | .bool, .bool => true
  | .long, .long => true
  | .double, .double => true
  | .string, .string => true
  | .resource, .resource => true
  | .array a r v s ks, .array a' r' v' s' ks' =>
    a == a' && r == r' && v == v' && s == s' && Desc.sameAll ks ks'
  | .object c, .object c' => c == c'
  | _, _ => false

/-- Descriptions that agree one by one. -/
def Desc.sameAll : List Desc → List Desc → Bool
  | [], [] => true
  | d :: ds, d' :: ds' => Desc.same d d' && Desc.sameAll ds ds'
  | _, _ => false

end

namespace Summary

/-- Nothing is known yet. -/
def nothing : Summary :=
  ⟨false, false, false, false, []⟩

/-- Any value. -/
def anything : Summary :=
  ⟨true, false, false, false, []⟩

/-- No value is listed; the flags do not count. -/
def isEmpty (s : Summary) : Bool :=
  !s.any && s.kinds.isEmpty

instance : BEq Summary :=
  ⟨fun s s' => s.any == s'.any && s.ref == s'.ref && s.void == s'.void &&
    s.subclasses == s'.subclasses && Desc.sameAll s.kinds s'.kinds⟩

end Summary

namespace KindTable

/-- Describes a kind, given how the elements of arrays are described. -/
def describeKind (describe : Mask → Except Fault Summary) : Kind → Except Fault Desc
  | .null => .ok .null
  | .bool => .ok .bool
  | .long => .ok .long
  | .double => .ok .double
  | .string => .ok .string
  | .resource => .ok .resource
  | .array elem => do return .arrayOf (← describe elem)
  | .object cls => .ok (.object cls)

/-- Describes a mask with arrays nested at most `depth` deep. -/
def summarizeWithin (t : KindTable) : (depth : Nat) → Mask → Except Fault Summary
  | 0, _ => .error .endlessKind
  | depth + 1, m => do
    let kinds ← m.members.mapM fun i => do describeKind (t.summarizeWithin depth) (← t.kindAt i)
    return ⟨m.any, m.ref, m.void, m.subclasses, kinds⟩

/-- Describes a mask of this table. -/
def summarize (t : KindTable) (m : Mask) : Except Fault Summary :=
  t.summarizeWithin (t.size + 1) m

/-- The mask that the kinds of a summary are added to. -/
def adoptBase (any : Bool) : Mask :=
  if any then .top else .empty

mutual

/-- The mask of a described kind; array kinds of the elements are numbered first. -/
def adoptKind : Desc → Typing Mask
  | .null => return .null
  | .bool => return .bool
  | .long => return .long
  | .double => return .double
  | .string => return .string
  | .resource => return .resource
  | .array any ref void subclasses kinds => do
    let elem ← adoptKinds (adoptBase any) kinds
    arrayOf (((elem.withRef ref).withVoid void).withSubclasses subclasses)
  | .object cls => intern (.object cls)

/-- Adds described kinds to a mask, one after the other. -/
def adoptKinds (acc : Mask) : List Desc → Typing Mask
  | [] => return acc
  | d :: ds => do
    let m ← adoptKind d
    adoptKinds (acc ∪ m) ds

end

/-- The mask that a summary describes, in this table. -/
def adopt (s : Summary) : Typing Mask := do
  let m ← adoptKinds (adoptBase s.any) s.kinds
  return ((m.withRef s.ref).withVoid s.void).withSubclasses s.subclasses

end KindTable

end FlowTyping
