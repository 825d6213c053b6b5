import FlowTyping.Body.Expr
import FlowTyping.Kind.Table

/-!
# Results of operators

What an operator yields, given what its operands may be.
-/

namespace FlowTyping.Operator

open KindTable

/-- Arithmetic other than `+`: a `double` operand makes the result one. -/
def arithmeticResult (left right : Mask) : Mask :=
  if left.isDoubleOnly || right.isDoubleOnly then .double else .number

/-- Bitwise operators work on two texts character by character, and on numbers otherwise. -/
def bitwiseResult (left right : Mask) : Mask :=
  if left.isStringOnly && right.isStringOnly then .string else .long

/-- `+` joins two arrays and adds numbers. With `bounded`, one operand is a `long` below the largest
one and the other is `1`, so that the sum is a `long`. -/
def addResult (left right : Mask) (bounded : Bool) : Typing Mask := do
  let t ← get
  if (← t.isArrayOnly left) && (← t.isArrayOnly right) then return (left ∪ right).shape
  if left.isDoubleOnly || right.isDoubleOnly then return .double
  if bounded then return .long
  if (← t.isNumberOnly left) || (← t.isNumberOnly right) then return .number
  if (← t.mayBeArray left) && (← t.mayBeArray right) then return .number ∪ (← anyArray)
  return .number

/-- The result of a binary operator. -/
def binaryResult (op : BinaryOp) (left right : Mask) (bounded : Bool) : Typing Mask :=
  match op with
  | .add => addResult left right bounded
  | .sub | .mul | .pow | .div => return arithmeticResult left right
  | .mod | .shiftLeft | .shiftRight | .spaceship => return .long
  | .bitAnd | .bitOr | .bitXor => return bitwiseResult left right
  | .concat => return .string
  | .equal | .notEqual | .identical | .notIdentical | .less | .lessEqual | .greater
  | .greaterEqual | .logicalXor => return .bool

/-- The result of a conversion. -/
def castResult (conversion : Cast) (operand : Mask) : Typing Mask := do
  match conversion with
  | .bool => return .bool
  | .long => return .long
  | .double => return .double
  | .string => return .string
  | .array => if ← (← get).isArrayOnly operand then return operand.shape else anyArray
  | .object =>
    if ← (← get).isObjectOnly operand then return operand.withRef false
    else instanceOf ⟨"stdClass"⟩ false
  | .unset => return .null

/-- The result of a unary operator. -/
def unaryResult (op : UnaryOp) (operand : Mask) : Typing Mask :=
  match op with
  | .not => return .bool
  | .minus => return if operand.isDoubleOnly then .double else .number
  | .plus =>
    return if operand.isLongOnly then .long else if operand.isDoubleOnly then .double else .number
  | .bitNot => return if operand.isStringOnly then .string else .long
  | .silence => return operand
  | .cast conversion => castResult conversion operand

/-- What counting up from `null` gives; counting down leaves it. -/
def stepOfNull (increment : Bool) : Mask :=
  if increment then .long else .null

/-- What one kind of value becomes by counting. With `bounded`, a `long` does not overflow. -/
def stepOfKind (increment bounded : Bool) (index : Nat) : Option Kind → Except Fault Mask
  | some .long => .ok (if bounded then .long else .number)
  | some .null => .ok (stepOfNull increment)
  | some .string => .ok (.string ∪ .number)
  | _ => Mask.ofIndex index

/-- What a value becomes by `++` or `--`. -/
def stepResult (t : KindTable) (current : Mask) (increment bounded : Bool) : Except Fault Mask :=
  if current.any then .ok .top
  else if current.isEmpty then .ok (stepOfNull increment)
  else
    current.members.foldlM
      (fun acc i => do return acc ∪ (← stepOfKind increment bounded i (t.kind? i)))
      .empty

end FlowTyping.Operator
