import FlowTyping.Visit.ClassName

/-!
# Narrowing

Once a condition is known to hold or to fail, the variables it tests hold fewer values. A narrowing
that would leave no value at all is not made.
-/

namespace FlowTyping

open Visit

/-- A function that tests the kind of its argument. -/
inductive KindTest where
  | null
  | long
  | double
  | string
  | bool
  | array
  | object
  /-- Numbers, and texts that may read as numbers. -/
  | numeric
  deriving DecidableEq, Repr, Inhabited

namespace KindTest

/-- The test that a function of the library makes. -/
def ofFunction? (name : Name) : Option KindTest :=
  match name.key with
  | "is_null" => some .null
  | "is_int" | "is_integer" | "is_long" => some .long
  | "is_float" | "is_double" => some .double
  | "is_string" => some .string
  | "is_bool" => some .bool
  | "is_array" => some .array
  | "is_object" => some .object
  | "is_numeric" => some .numeric
  | _ => none

/-- Values of the kind may pass the test. -/
def accepts : KindTest → Kind → Bool
  | .null, .null => true
  | .long, .long => true
  | .double, .double => true
  | .string, .string => true
  | .bool, .bool => true
  | .array, .array _ => true
  | .object, .object _ => true
  | .numeric, .long => true
  | .numeric, .double => true
  | .numeric, .string => true
  | _, _ => false

/-- Every value that passes the test. -/
def mask : KindTest → Typing Mask
  | .null => return .null
  | .long => return .long
  | .double => return .double
  | .string => return .string
  | .bool => return .bool
  | .array => KindTable.anyArray
  | .object => return .top
  | .numeric => return .number ∪ .string

end KindTest

/-- Narrows a variable unless that would leave nothing. -/
def narrowTo (v : VarId) (m : Mask) : Visit Unit :=
  if m.isEmpty then return () else updateState (·.narrow v m)

/-- The variable is assigned and not `null`. -/
def assumeNotNull (v : VarId) : Visit Unit := do
  narrowTo v (← varMask v).withoutNull
  updateState (·.markAssigned v)

/-- What a value may be once it is known whether it is an instance of a class. -/
def instanceMask (d : Declarations) (cls : Name) (current : Mask) (holds : Bool) : Typing Mask := do
  if !holds then (← get).filter current fun k => !d.isInstance cls k
  else if current.any || current.isEmpty then KindTable.instanceOf cls true
  else
    let t ← get
    let kept ← t.filter current (d.isInstance cls)
    let classes ← t.classes current
    if (← t.isObjectOnly kept) && classes.length == kept.count then return kept
    else return kept ∪ (← KindTable.instanceOf cls true)

/-- What a value may be once the outcome of a test of its kind is known. -/
def testedMask (test : KindTest) (current : Mask) (holds : Bool) : Typing Mask := do
  if !holds then (← get).filter current fun k => !test.accepts k
  else
    let kept ← (← get).filter current test.accepts
    if current.any || current.isEmpty then test.mask
    else if kept.isEmpty then return current
    else return kept

/-- Narrows the variable that a test of kinds is applied to. -/
def narrowTested (env : Setting) (test : KindTest) (arg : Argument) (holds : Bool) :
    Visit Unit := do
  if arg.unpack then return ()
  match ← env.varOf? arg.value with
  | none => return ()
  | some v =>
    let m ← onTable (testedMask test (← varMask v) holds)
    if holds && test != .null then updateState (·.markAssigned v)
    narrowTo v m

/-- Whether an expression is the literal `null`. -/
def isNullLiteral (env : Setting) (e : ExprId) : Visit Bool := do
  match ← env.expr e with
  | .literal .null => return true
  | .constant name => return name.isSpelled "null"
  | _ => return false

/-- The variable that a comparison compares with `null`. -/
def comparedWithNull? (env : Setting) (left right : ExprId) : Visit (Option VarId) := do
  if ← isNullLiteral env right then env.varOf? left
  else if ← isNullLiteral env left then env.varOf? right
  else return none

/-- What follows from the outcome of a comparison with `null`: the operand is `null`, or it is not.
Loose equality also holds for other values. -/
def impliesNull? (op : BinaryOp) (holds : Bool) : Option Bool :=
  match op, holds with
  | .identical, holds => some holds
  | .notIdentical, holds => some !holds
  | .equal, false => some false
  | .notEqual, true => some false
  | _, _ => none

/-- A `long` that is less than some `long` is not the largest one. -/
def noteUpperBound (env : Setting) (counter bound : ExprId) : Visit Unit := do
  match ← env.varOf? counter with
  | none => return ()
  | some v =>
    if (← varMask v).isLongOnly && ((← getFacts).exprMask bound).isLongOnly then
      updateState (·.setBelowMax v true)

/-- Narrows by the outcome of a comparison. -/
def narrowCompared (env : Setting) (op : BinaryOp) (left right : ExprId) (holds : Bool) :
    Visit Unit := do
  match op with
  | .identical | .notIdentical | .equal | .notEqual =>
    match ← comparedWithNull? env left right with
    | none => return ()
    | some v =>
      match impliesNull? op holds with
      | some true => narrowTo v .null
      | some false => assumeNotNull v
      | none => return ()
  | .less => if holds then noteUpperBound env left right
  | .greater => if holds then noteUpperBound env right left
  | _ => return ()

/-- Narrows by the outcome of `isset`. That it failed says something about a single variable
only. -/
def narrowIsset (env : Setting) (operands : List ExprId) (holds : Bool) : Visit Unit := do
  if holds then
    operands.forM fun e => do
      match ← env.varOf? e with
      | some v => assumeNotNull v
      | none => return ()
  else
    match operands with
    | [e] =>
      match ← env.varOf? e with
      | some v => if (← varMask v).mayBeNull then narrowTo v .null
      | none => return ()
    | _ => return ()

/-- Narrows by the outcome of a condition that has just been visited. -/
def narrow (env : Setting) (e : ExprId) (holds : Bool) : Visit Unit := do
  match ← env.expr e with
  | .var v => if holds then assumeNotNull v
  | .assign target _ =>
    if holds then
      match ← env.varOf? target with
      | some v => narrowTo v (← varMask v).withoutNull
      | none => return ()
  | .isInstance operand cls =>
    match ← env.varOf? operand with
    | none => return ()
    | some v =>
      match ← staticClass? env cls with
      | none => return ()
      | some cls => narrowTo v (← onTable (instanceMask env.decls cls (← varMask v) holds))
  | .isset operands => narrowIsset env operands holds
  | .isBlank operand =>
    if !holds then
      match ← env.varOf? operand with
      | some v => assumeNotNull v
      | none => return ()
  | .binary op left right => narrowCompared env op left right holds
  | .call name args =>
    match KindTest.ofFunction? name, args with
    | some test, [arg] => narrowTested env test arg holds
    | _, _ => return ()
  | _ => return ()

end FlowTyping
