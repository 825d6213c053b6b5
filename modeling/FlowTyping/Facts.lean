import FlowTyping.Body.Basic
import FlowTyping.Declaration.Hierarchy
import FlowTyping.Kind.Summary
import FlowTyping.State

/-!
# Facts about a routine

What the visits to the blocks of one routine have found out so far. Facts are only ever added.
-/

namespace FlowTyping

/-- What the code of a routine may do besides computing values. -/
structure Effects where
  /-- Variables may be read or written by name at run time. -/
  dynamicLocals : Bool
  /-- The class of the object at run time matters. -/
  lateStaticBinding : Bool
  generator : Bool
  deriving DecidableEq, Repr, Inhabited

namespace Effects

/-- The routine has shown no effect so far. -/
def none : Effects :=
  ⟨false, false, false⟩

end Effects

/-- Where a call goes. -/
inductive CallTarget where
  | resolved (routine : RoutineId)
  | ambiguous (routines : List RoutineId)
  /-- Known only at run time. -/
  | dynamic
  deriving DecidableEq, Repr, Inhabited

/-- A value without a place was passed to a by-reference parameter. -/
structure Diagnostic where
  expr : ExprId
  callee : RoutineId
  parameter : String
  deriving DecidableEq, Repr, Inhabited

/-- All that has been found out about a routine, apart from the states on entry to its blocks. -/
structure Facts where
  routine : RoutineId
  kind : RoutineKind
  table : KindTable
  /-- What the routine returns. -/
  returned : Mask
  effects : Effects
  /-- What each expression may yield. -/
  exprMasks : Array Mask
  /-- Reads of variables that may not be assigned. -/
  unassignedReads : List ExprId
  /-- Call targets, in the order in which the calls were first bound. -/
  callTargets : OrderedMap ExprId CallTarget
  /-- Diagnostics in the order of their first report. -/
  diagnostics : List Diagnostic
  deriving Repr, Inhabited

namespace Facts

/-- Nothing is known about a body. -/
def new (b : Body) (table : KindTable) : Facts :=
  ⟨b.routine, b.kind, table, .empty, .none, Array.replicate b.exprs.size .empty, [], .empty, []⟩

/-- An expression may also yield a value of the mask. -/
def record (f : Facts) (e : ExprId) (m : Mask) : Facts :=
  { f with exprMasks := f.exprMasks.modify e (· ∪ m) }

/-- What an expression may yield; nothing before it was visited. -/
def exprMask (f : Facts) (e : ExprId) : Mask :=
  f.exprMasks.getD e .empty

/-- Notes that a read variable may not be assigned, once for each read. -/
def markUnassignedRead (f : Facts) (e : ExprId) : Facts :=
  { f with unassignedReads := if e ∈ f.unassignedReads then f.unassignedReads
                              else f.unassignedReads ++ [e] }

/-- Whether a read was noted as one of a variable that may not be assigned. -/
def isUnassignedRead (f : Facts) (e : ExprId) : Bool :=
  decide (e ∈ f.unassignedReads)

/-- The routine may also return a value of the mask. -/
def addReturn (f : Facts) (m : Mask) : Facts :=
  { f with returned := f.returned ∪ m.withRef false }

/-- Notes that variables are used under names known at run time only. -/
def markDynamicLocals (f : Facts) : Facts :=
  { f with effects := { f.effects with dynamicLocals := true } }

/-- Notes that the class a method was called on matters. -/
def markLateStaticBinding (f : Facts) : Facts :=
  { f with effects := { f.effects with lateStaticBinding := true } }

/-- Notes that the routine yields values one by one. -/
def markGenerator (f : Facts) : Facts :=
  { f with effects := { f.effects with generator := true } }

/-- Binds a call to a target, in place of what it was bound to before. -/
def setCallTarget (f : Facts) (e : ExprId) (target : CallTarget) : Facts :=
  { f with callTargets := f.callTargets.insert e target }

/-- Reports a diagnostic once. -/
def report (f : Facts) (d : Diagnostic) : Facts :=
  { f with diagnostics := if d ∈ f.diagnostics then f.diagnostics else f.diagnostics ++ [d] }

/-- Runs a computation on the routine's kind table. -/
def onTable {α : Type} (f : Facts) (x : Typing α) : Except Fault (α × Facts) := do
  let (a, table) ← x.run f.table
  return (a, { f with table := table })

/-- What callers see: a generator object, or what the routine returns. -/
def result (f : Facts) : Except Fault (Mask × Facts) :=
  if f.effects.generator then f.onTable (KindTable.instanceOf ⟨"Generator"⟩ false)
  else .ok (f.returned, f)

/-! ### The state on entry -/

/-- What a parameter holds on entry. -/
def paramSlot (p : ParamDecl) : Typing Slot := do
  if p.byRef then return Slot.unset.share
  let m ← KindTable.hintMask? p.hint?
  let m := if p.nullDefault then m ∪ .null else m
  let m ← if p.variadic then KindTable.arrayOf m else pure m
  return Slot.unset.assign m

/-- What the object of a method call is. -/
def thisSlot : Typing Slot := do
  match (← get).self? with
  | some cls => return Slot.unset.assign (← KindTable.instanceOf cls true)
  | none => return Slot.unset.assign .top

/-- What a variable holds on entry to a routine. -/
def entrySlot (r : RoutineDecl) (v : Variable) : Typing Slot := do
  match v.kind with
  | .localVar => return .unset
  | .parameter =>
    match r.params.find? fun p => p.name == v.name with
    | some p => paramSlot p
    | none => return Slot.unset.assign .top
  | .thisObject => thisSlot
  | .captured true => return Slot.unset.share
  | .captured false => return Slot.unset.assign .top

/-- The state on entry to a routine. -/
def entryState (f : Facts) (b : Body) (r : RoutineDecl) : Except Fault (State × Facts) := do
  let (slots, f) ← f.onTable (b.vars.mapM (entrySlot r))
  return (⟨f.table.id, slots⟩, f)

end Facts

end FlowTyping
