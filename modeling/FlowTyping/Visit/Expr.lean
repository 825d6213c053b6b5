import FlowTyping.Visit.Call
import FlowTyping.Visit.Operator

/-!
# Visiting expressions

`visitValue` and `visitCondition` treat one expression, given how its sub-expressions are visited;
`visitor` ties the knot. Every visit adds the mask it finds to what is recorded for the expression,
so that repeated visits widen it.
-/

namespace FlowTyping

open Visit

/-- What a literal yields. -/
def Literal.mask : Literal → Mask
  | .null => .null
  | .bool _ => .bool
  | .long _ => .long
  | .double _ => .double
  | .string _ => .string

/-- What a constant holds. -/
def constantMask (name : Name) : Mask :=
  match name.key with
  | "true" | "false" => .bool
  | "null" => .null
  | "php_int_max" | "php_int_min" | "php_int_size" => .long
  | "php_eol" | "php_version" | "directory_separator" | "php_os" => .string
  | "m_pi" | "m_e" | "php_float_epsilon" | "php_float_max" | "nan" | "inf" => .double
  | _ => .top

variable (env : Setting) (v : Visitor)

/-- An expression names a variable that holds a `long` below the largest one. -/
def isBoundedCounter (counter : ExprId) : Visit Bool := do
  match ← env.varOf? counter with
  | none => return false
  | some x =>
    let s ← slot x
    return s.belowMax && s.mask.isLongOnly

/-- Adding `step` to `counter` does not overflow. -/
def isBoundedStep (counter step : ExprId) : Visit Bool := do
  match ← env.expr step with
  | .literal (.long 1) => isBoundedCounter env counter
  | _ => return false

/-- `left && right` or `left || right`, under an assumed outcome. The right operand is visited only
on the paths on which it runs. -/
def visitLogical (op : LogicalOp) (left right : ExprId) (branch : Branch) : Visit Mask := do
  let runsRight : Branch := if op = .and then .holds else .fails
  if branch = runsRight then
    let _ ← v.condition left runsRight
    let _ ← v.condition right branch
    return .bool
  else
    let before ← getState
    let _ ← v.condition left runsRight
    let _ ← v.condition right branch
    let evaluated ← swapState before
    let _ ← v.condition left runsRight.flip
    joinState evaluated
    return .bool

/-- Visits each branch under the outcome that leads to it. Without a branch for success, the
condition itself is the value, and it is not `null` then. -/
def visitTernary (cond : ExprId) (ifTrue? : Option ExprId) (ifFalse : ExprId) : Visit Mask := do
  let before ← getState
  let condMask ← v.condition cond .holds
  let trueMask ←
    match ifTrue? with
    | some e => v.value e .read
    | none => pure condMask.withoutNull
  let trueState ← swapState before
  let _ ← v.condition cond .fails
  let falseMask ← v.value ifFalse .read
  joinState trueState
  return trueMask ∪ falseMask

/-- Adds the value of one array item to the element mask. -/
def visitArrayItem (elem : Mask) (item : ArrayItem) : Visit Mask := do
  item.key?.forM v.read
  let m ← v.value item.value (if item.byRef then .share else .read)
  if item.unpack then return elem ∪ (← (← getTable).elementMask m) else return elem ∪ m

/-- An array of all that its items may be. -/
def visitArray (items : List ArrayItem) : Visit Mask := do
  let elem ← items.foldlM (visitArrayItem v) .empty
  onTable (KindTable.arrayOf elem)

/-- A list pattern takes a value apart; anywhere else it is just an array. -/
def visitList (items : List (Option ExprId)) : Access → Visit Mask
  | .write m => do
    let elem ← (← getTable).elementMask m
    (items.filterMap id).forM fun e => do
      let _ ← v.value e (.write elem)
    return m
  | _ => do
    v.readAll (items.filterMap id)
    onTable KindTable.anyArray

/-- An assignment. A literal below the largest `long` bounds the variable. -/
def visitAssign (target value : ExprId) : Visit Mask := do
  let m := (← v.value value .read).withRef false
  let _ ← v.value target (.write m)
  match ← env.expr target, ← env.expr value with
  | .var x, .literal (.long n) =>
    updateState (·.setBelowMax x (decide (n < Int64.maxValue)))
    return m
  | _, _ => return m

/-- Reads the target, then the operand, and writes the result back to the target. -/
def visitCompound (op : BinaryOp) (target value : ExprId) : Visit Mask := do
  let current ← v.value target .read
  let operand ← v.value value .read
  let bounded ← if op = .add then isBoundedStep env target value else pure false
  let result ← onTable (Operator.binaryResult op current operand bounded)
  let _ ← v.value target (.write result)
  return result

/-- Counts the target up or down, and yields the value before or after that. -/
def visitIncDec (target : ExprId) (increment yieldsNew : Bool) : Visit Mask := do
  let current ← v.value target .read
  let bounded ← if increment then isBoundedCounter env target else pure false
  let updated ← Operator.stepResult (← getTable) current increment bounded
  let _ ← v.value target (.write updated)
  return if yieldsNew then updated else current

/-- Reads both operands. A sum may be known not to overflow by either of them. -/
def visitBinary (op : BinaryOp) (left right : ExprId) : Visit Mask := do
  let leftMask ← v.value left .read
  let rightMask ← v.value right .read
  let bounded ←
    if op = .add then
      if ← isBoundedStep env left right then pure true else isBoundedStep env right left
    else pure false
  onTable (Operator.binaryResult op leftMask rightMask bounded)

/-- The left operand unless it is `null`, else the right one, which may not be evaluated. -/
def visitCoalesce (left right : ExprId) : Visit Mask := do
  let leftMask ← v.value left .peek
  let skipped ← getState
  let rightMask ← v.value right .read
  joinState skipped
  return leftMask.withoutNull ∪ rightMask

/-- A property: what it holds is known only from its declaration. -/
def visitField (object : ExprId) (field : String) (access : Access) : Visit Mask := do
  let receiver ← v.value object .read
  match access with
  | .write m => return m
  | .share => return sharedMask
  | _ => objectFieldMask env receiver field

/-- A static field of a class. It is shared by all that use the class, so writes teach nothing. -/
def visitStaticField (cls : ClassRef) (field : String) (access : Access) : Visit Mask := do
  let resolved ← resolveClass env v cls
  match access with
  | .write m => return m
  | .share => return sharedMask
  | _ =>
    match resolved with
    | some (cls, _) => fieldMask env cls field
    | none => return .top

/-- A closure shares the variables that it takes by reference. -/
def visitClosure (captures : List Capture) : Visit Mask := do
  captures.forM fun c => if c.byRef then share c.var else return ()
  onTable (KindTable.instanceOf ⟨"Closure"⟩ false)

/-- Code that may do anything to the variables. -/
def visitForeignCode (operand : ExprId) : Visit Mask := do
  v.read operand
  forgetAll true
  updateFacts (·.markDynamicLocals)
  return .top

/-- A variable whose name is known at run time only. A write may go to every variable. -/
def visitVarVar (name : ExprId) (access : Access) : Visit Mask := do
  v.read name
  if !access.isRead then forgetAll true
  updateFacts (·.markDynamicLocals)
  return .top

/-- Hands a value out and takes one in, which may be anything. -/
def visitYield (operands : List ExprId) : Visit Mask := do
  v.readAll operands
  updateFacts (·.markGenerator)
  return .top

/-- The mask of one expression. -/
def visitForm (id : ExprId) (access : Access) : Expr → Visit Mask
  | .literal l => return l.mask
  | .var x => visitVar id x access
  | .varVar name => visitVarVar v name access
  | .assign target value => visitAssign env v target value
  | .assignRef target value => do
    let _ ← v.value value .share
    let _ ← v.value target .share
    return sharedMask
  | .compound op target value => visitCompound env v op target value
  | .incDec target increment yieldsNew => visitIncDec env v target increment yieldsNew
  | .binary op left right => visitBinary env v op left right
  | .logical op left right => visitLogical v op left right .either
  | .unary op operand => do
    let m ← v.value operand .read
    onTable (Operator.unaryResult op m)
  | .ternary cond ifTrue? ifFalse => visitTernary v cond ifTrue? ifFalse
  | .coalesce left right => visitCoalesce v left right
  | .array items => visitArray v items
  | .list items => visitList v items access
  | .item array index? => visitItem env v array index? access
  | .field object field => visitField env v object field access
  | .staticField cls field => visitStaticField env v cls field access
  | .isInstance operand cls => do
    v.read operand
    let _ ← resolveClass env v cls
    return .bool
  | .isset operands => do
    operands.forM fun e => do
      let _ ← v.value e .peek
    return .bool
  | .isBlank operand => do
    let _ ← v.value operand .peek
    return .bool
  | .call name args => visitCall env v id name args
  | .dynamicCall callee args => do
    v.read callee
    visitUnknownCall env v id args
  | .methodCall receiver name args => visitMethodCall env v id receiver name args
  | .staticCall cls name args => visitStaticCall env v id cls name args
  | .new cls args => visitNew env v id cls args
  | .closure _ captures => visitClosure captures
  | .eval code => visitForeignCode v code
  | .load path => visitForeignCode v path
  | .yield key? value? => visitYield v (key?.toList ++ value?.toList)
  | .yieldFrom source => visitYield v [source]
  | .constant name => return constantMask name

/-- Visits an expression as a value and records its mask. -/
def visitValue (id : ExprId) (access : Access) : Visit Mask := do
  let m ← visitForm env v id access (← env.expr id)
  record id m
  return m

/-- Visits an expression as a condition under an assumed outcome; the state afterwards is that of
the paths with this outcome. -/
def visitCondition (id : ExprId) (branch : Branch) : Visit Mask := do
  if branch = .either then visitValue env v id .read
  else
    match ← env.expr id with
    | .logical op left right =>
      let m ← visitLogical v op left right branch
      record id m
      return m
    | .unary .not operand =>
      let _ ← v.condition operand branch.flip
      record id .bool
      return .bool
    | _ =>
      let m ← visitValue env v id .read
      narrow env id (branch == .holds)
      return m

/-- Visits expressions before position `limit`. Each expression hands its sub-expressions to a
visitor that accepts earlier positions only. -/
def visitorBelow : (limit : Nat) → Visitor
  | 0 => ⟨fun e _ => throw (.missingExpr e), fun e _ => throw (.missingExpr e)⟩
  | limit + 1 =>
    let inner := visitorBelow limit
    ⟨fun e access => visitValue env (inner.below e) e access,
      fun e branch => visitCondition env (inner.below e) e branch⟩

/-- Visits the expressions of a body. -/
def visitor : Visitor :=
  visitorBelow env env.body.exprs.size

end FlowTyping
