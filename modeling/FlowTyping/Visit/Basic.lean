import FlowTyping.Agenda
import FlowTyping.Facts

/-!
# Visiting a block

A visit walks the actions and the edge of one block. It reads a `Setting` and changes a `Scene`: the
state of the variables, the facts about the routine, and the agenda.
-/

namespace FlowTyping

/-- What a visit reads. -/
structure Setting where
  body : Body
  decls : Declarations
  /-- What the routines of the unit returned in earlier rounds. -/
  published : OrderedMap RoutineId Summary
  /-- The block under visit. -/
  block : BlockId
  deriving Inhabited

/-- What a visit changes. -/
structure Scene where
  state : State
  facts : Facts
  agenda : Agenda
  /-- The first routine called here whose result may still change in this round. -/
  pending? : Option RoutineId
  deriving Inhabited

/-- A part of a visit. -/
abbrev Visit := StateT Scene (Except Fault)

/-- How an expression is used. -/
inductive Access where
  | read
  /-- Reads a variable that need not be assigned. -/
  | peek
  /-- Stores a value of the mask. -/
  | write (mask : Mask)
  /-- Takes a reference. -/
  | share
  deriving DecidableEq, Repr, Inhabited

namespace Access

/-- The value is used; the place stays as it is. -/
def isRead : Access → Bool
  | .read => true
  | .peek => true
  | _ => false

end Access

/-- Which outcome of a condition is assumed. -/
inductive Branch where
  /-- None: the condition is an ordinary value. -/
  | either
  | holds
  | fails
  deriving DecidableEq, Repr, Inhabited

namespace Branch

/-- What a negation makes of an assumed outcome. -/
def flip : Branch → Branch
  | .either => .either
  | .holds => .fails
  | .fails => .holds

end Branch

/-- How to visit sub-expressions: as a value, and as a condition. -/
structure Visitor where
  value : ExprId → Access → Visit Mask
  condition : ExprId → Branch → Visit Mask

namespace Visitor

/-- A visitor that refuses expressions from a position on. -/
def below (v : Visitor) (parent : ExprId) : Visitor where
  value child access :=
    if child < parent then v.value child access else throw (.unorderedExpr parent child)
  condition child branch :=
    if child < parent then v.condition child branch else throw (.unorderedExpr parent child)

/-- Reads an expression and forgets its mask. -/
def read (v : Visitor) (e : ExprId) : Visit Unit := do
  let _ ← v.value e .read

/-- Reads some expressions in turn. -/
def readAll (v : Visitor) (es : List ExprId) : Visit Unit :=
  es.forM v.read

end Visitor

namespace Visit

/-! ### State of the variables -/

/-- What is known about the variables now. -/
def getState : Visit State := do
  return (← get).state

/-- Goes on from another state. -/
def setState (s : State) : Visit Unit :=
  modify fun scene => { scene with state := s }

/-- Changes what is known about the variables. -/
def updateState (f : State → Except Fault State) : Visit Unit := do
  setState (← f (← getState))

/-- Puts a state in place and hands out the one that was there. -/
def swapState (s : State) : Visit State := do
  let old ← getState
  setState s
  return old

/-- The path of another state joins in. -/
def joinState (other : State) : Visit Unit :=
  updateState (·.join other)

/-- What is known about a variable now. -/
def slot (v : VarId) : Visit Slot := do
  (← getState).slot v

/-- What a variable may hold now. -/
def varMask (v : VarId) : Visit Mask := do
  return (← slot v).mask

/-- Assigns a value of a mask to a variable. -/
def assign (v : VarId) (m : Mask) : Visit Unit :=
  updateState (·.assign v m)

/-- Marks a variable as shared. -/
def share (v : VarId) : Visit Unit :=
  updateState (·.share v)

/-- Any code may have run. -/
def forgetAll (share : Bool) : Visit Unit :=
  modify fun scene => { scene with state := scene.state.forgetAll share }

/-! ### Facts about the routine -/

/-- What has been found out about the routine so far. -/
def getFacts : Visit Facts := do
  return (← get).facts

/-- Adds to what has been found out about the routine. -/
def updateFacts (f : Facts → Facts) : Visit Unit :=
  modify fun scene => { scene with facts := f scene.facts }

/-- Adds a mask to what an expression may yield. -/
def record (e : ExprId) (m : Mask) : Visit Unit :=
  updateFacts (·.record e m)

/-- The kind table of the routine. -/
def getTable : Visit KindTable := do
  return (← get).facts.table

/-- Runs a computation on the routine's kind table. -/
def onTable {α : Type} (x : Typing α) : Visit α := do
  let scene ← get
  let (a, facts) ← scene.facts.onTable x
  set { scene with facts := facts }
  return a

/-- The class that the routine belongs to. -/
def selfClass? : Visit (Option Name) := do
  return (← getTable).self?

end Visit

namespace Setting

/-- The expression at a position. -/
def expr (env : Setting) (e : ExprId) : Visit Expr :=
  match env.body.exprs[e]? with
  | some x => pure x
  | none => throw (.missingExpr e)

/-- The variable that an expression just names. -/
def varOf? (env : Setting) (e : ExprId) : Visit (Option VarId) := do
  match ← env.expr e with
  | .var v => return some v
  | _ => return none

end Setting

end FlowTyping
