import FlowTyping.Kind.Table

/-!
# Declared types

A parameter, a property or a result may carry a declared type. `KindTable.hintMask` is the mask of
the values it accepts.
-/

namespace FlowTyping

/-- A type as it is declared for a parameter, a field or a result. -/
inductive Hint where
  | bool
  | long
  | double
  | string
  | array
  /-- Arrays and `Traversable` objects. -/
  | iterable
  | callable
  | object
  | mixed
  | void
  | null
  /-- The class that the routine belongs to. -/
  | selfClass
  | ofClass (cls : Name)
  | nullable (hint : Hint)
  | union (hints : List Hint)
  deriving Repr, Inhabited

namespace KindTable

mutual

/-- The values that a declared type accepts. -/
def hintMask : Hint → Typing Mask
  | .bool => return .bool
  | .long => return .long
  | .double => return .double
  | .string => return .string
  | .array => anyArray
  | .null | .void => return .null
  | .iterable => do
    let arrays ← anyArray
    let objects ← instanceOf ⟨"Traversable"⟩ true
    return arrays ∪ objects
  | .selfClass => do
    match (← get).self? with
    | some cls => instanceOf cls true
    | none => return .top
  | .ofClass cls => instanceOf cls true
  | .nullable hint => do
    let m ← hintMask hint
    return m ∪ .null
  | .union hints => hintsMask .empty hints
  | .callable | .object | .mixed => return .top

/-- Adds the values of further declared types to a mask. -/
def hintsMask (acc : Mask) : List Hint → Typing Mask
  | [] => return acc
  | hint :: hints => do
    let m ← hintMask hint
    hintsMask (acc ∪ m) hints

end

/-- The values of an optional declared type; without one, any value. -/
def hintMask? : Option Hint → Typing Mask
  | some hint => hintMask hint
  | none => return .top

end KindTable

end FlowTyping
