import FlowTyping.Mask.Basic
import FlowTyping.Name

/-!
# Kinds of values

The kinds that a mask can list: six primitive ones, arrays told apart by what their elements are,
and objects told apart by their class.
-/

namespace FlowTyping

/-- A kind of value that a mask can list. -/
inductive Kind where
  | null
  | bool
  | long
  | double
  | string
  | resource
  | array (elem : Mask)
  | object (cls : Name)
  deriving Repr, Inhabited

namespace Kind

/-- Two kinds are the same when they list the same elements, or name the same class. -/
def same : Kind → Kind → Bool
  | .null, .null => true
  | .bool, .bool => true
  | .long, .long => true
  | .double, .double => true
  | .string, .string => true
  | .resource, .resource => true
  | .array a, .array b => a == b
  | .object a, .object b => a == b
  | _, _ => false

instance : BEq Kind :=
  ⟨same⟩

instance : ReflBEq Kind where
  rfl {k} := by
    cases k with
    | array elem => exact beq_self_eq_true elem
    | object cls => exact beq_self_eq_true cls
    | null | bool | long | double | string | resource => rfl

/-- Objects are compared by the keys of their classes, so a class stands for all its spellings. -/
theorem beq_object_congr {c c' : Name} (h : (c == c') = true) (k : Kind) :
    (k == .object c') = (k == .object c) := by
  cases k with
  | object a =>
      change (a.key == c'.key) = (a.key == c.key)
      rw [Name.beq_iff.1 h]
  | null | bool | long | double | string | resource | array => rfl

/-- Kinds that are the same as each other are the same as the same kinds. -/
theorem beq_congr {k k' : Kind} (h : (k == k') = true) (x : Kind) : (x == k') = (x == k) := by
  cases k with
  | object c =>
      cases k' with
      | object c' => exact beq_object_congr h x
      | _ => cases h
  | array elem =>
      cases k' with
      | array elem' =>
          have helem : elem = elem' := eq_of_beq h
          rw [helem]
      | _ => cases h
  | null | bool | long | double | string | resource =>
      cases k' with
      | null | bool | long | double | string | resource => cases h <;> rfl
      | array _ | object _ => cases h

instance : PartialEquivBEq Kind where
  symm {_ k'} h := (beq_congr h k').symm.trans (beq_self_eq_true k')
  trans {k _ _} h h' := (beq_congr h' k).trans h

/-- Only the spelling of a class is disregarded, so arrays that are the same are equal. -/
theorem eq_array_of_beq {k : Kind} {elem : Mask} (h : (k == .array elem) = true) :
    k = .array elem := by
  cases k with
  | array elem' =>
      have helem : elem' = elem := eq_of_beq h
      rw [helem]
  | _ => cases h

/-- An array, whatever its elements are. -/
def isArray : Kind → Bool
  | .array _ => true
  | _ => false

/-- An object of any class. -/
def isObject : Kind → Bool
  | .object _ => true
  | _ => false

/-- A kind that arithmetic works on as it is. -/
def isNumber : Kind → Bool
  | .long => true
  | .double => true
  | _ => false

/-- A value that the language converts between freely. -/
def isScalar : Kind → Bool
  | .bool => true
  | .long => true
  | .double => true
  | .string => true
  | _ => false

/-- The class of an object. -/
def class? : Kind → Option Name
  | .object cls => some cls
  | _ => none

/-- The primitive kinds, in the order in which every table starts. -/
def primitives : List Kind :=
  [.null, .bool, .long, .double, .string, .resource]

end Kind

namespace Mask

/-- Just `null`. The primitive kinds have the same numbers in every table. -/
def null : Mask := bit 0

/-- Just truth values. -/
def bool : Mask := bit 1

/-- Just `long`s. -/
def long : Mask := bit 2

/-- Just `double`s. -/
def double : Mask := bit 3

/-- Just texts. -/
def string : Mask := bit 4

/-- Just resources. -/
def resource : Mask := bit 5

/-- `long` or `double`. -/
def number : Mask := long ∪ double

/-- What is left of a mask if the value is not `null`. -/
def withoutNull (m : Mask) : Mask :=
  m.without null

/-- The mask lists `long` and nothing else; flags do not count. -/
def isLongOnly (m : Mask) : Bool :=
  m.shape == long

/-- The mask lists `double` and nothing else; flags do not count. -/
def isDoubleOnly (m : Mask) : Bool :=
  m.shape == double

/-- The mask lists `string` and nothing else; flags do not count. -/
def isStringOnly (m : Mask) : Bool :=
  m.shape == string

/-- The mask lists `null`, or allows any value. -/
def mayBeNull (m : Mask) : Bool :=
  m.any || m.has 0

end Mask

end FlowTyping
