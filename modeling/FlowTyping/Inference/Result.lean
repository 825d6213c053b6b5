import FlowTyping.Inference.Error
import FlowTyping.Inference.Solver

/-!
# Inference

`infer` checks a unit of bodies against the declarations, solves it and hands out what was found.
-/

namespace FlowTyping

/-- Everything inferred about one routine. -/
structure RoutineResult where
  routine : RoutineId
  table : KindTable
  result : Mask
  effects : Effects
  exprMasks : Array Mask
  unassignedReads : List ExprId
  callTargets : OrderedMap ExprId CallTarget
  entries : Array (Option State)
  visits : Array Nat
  diagnostics : List Diagnostic
  deriving Inhabited

namespace RoutineResult

/-- The result of a routine at the end of its run. -/
def ofRun (run : RoutineRun) : Except Fault RoutineResult := do
  let (m, facts) ← run.facts.result
  return {
    routine := run.body.routine
    table := facts.table
    result := m
    effects := facts.effects
    exprMasks := facts.exprMasks
    unassignedReads := facts.unassignedReads
    callTargets := facts.callTargets
    entries := run.entries
    visits := run.visits
    diagnostics := facts.diagnostics }

/-- A mask of the routine as it is shown to the user. -/
def display (r : RoutineResult) (m : Mask) : Except Fault String :=
  r.table.display m

/-- The result without reference to the kind table. -/
def summary (r : RoutineResult) : Except Fault Summary :=
  r.table.summarize r.result

/-- What an expression may yield; nothing if it was never visited. -/
def exprMask (r : RoutineResult) (e : ExprId) : Mask :=
  r.exprMasks.getD e .empty

/-- The variable read at an expression may not be assigned. -/
def isUnassignedRead (r : RoutineResult) (e : ExprId) : Bool :=
  decide (e ∈ r.unassignedReads)

/-- The unassigned reads in the order of the expressions. -/
def unassignedReadsInOrder (r : RoutineResult) : List ExprId :=
  (List.range r.exprMasks.size).filter r.isUnassignedRead

/-- What a call is bound to, if it was visited. -/
def callTarget? (r : RoutineResult) (e : ExprId) : Option CallTarget :=
  r.callTargets.find? e

/-- The state on entry to a block that was reached. -/
def entry? (r : RoutineResult) (b : BlockId) : Option State :=
  (r.entries[b]?).join

/-- What a variable may hold on entry to a block that was reached. -/
def varMask? (r : RoutineResult) (b : BlockId) (v : VarId) : Option Mask :=
  (r.entry? b).bind fun s => (s.slots[v]?).map Slot.mask

/-- How often a block was visited. -/
def visitCount (r : RoutineResult) (b : BlockId) : Nat :=
  r.visits.getD b 0

end RoutineResult

/-- The outcome of a run. -/
structure InferResult where
  routines : OrderedMap RoutineId RoutineResult
  iterations : Nat
  rounds : Nat
  /-- False when the limit on visits stopped the run. -/
  converged : Bool
  deriving Inhabited

namespace InferResult

/-- What was inferred about a routine of the unit. -/
def routine? (r : InferResult) (id : RoutineId) : Option RoutineResult :=
  r.routines.find? id

/-- The state on entry to a block of the unit. -/
def entryState (r : InferResult) (id : RoutineId) (b : BlockId) :
    Except InferError (Option State) :=
  match r.routine? id with
  | none => .error (.unknownRoutine id)
  | some routine =>
    if routine.entries.size ≤ b then .error (.unknownBlock id b) else .ok (routine.entry? b)

end InferResult

/-- Checks the bodies of a unit in order and finds the declaration of each. -/
def checkUnit (d : Declarations) :
    (seen : List RoutineId) → List Body → Except InferError (List (Body × RoutineDecl))
  | _, [] => .ok []
  | seen, b :: rest =>
    if b.routine ∈ seen then .error (.duplicateRoutine b.routine)
    else
      match d.routine? b.routine with
      | none => .error (.unknownRoutine b.routine)
      | some r =>
        match b.malformed? with
        | some cause => .error (.malformedBody b.routine cause)
        | none => do return (b, r) :: (← checkUnit d (b.routine :: seen) rest)

/-- Solves a unit that has been checked. -/
def solve (d : Declarations) (o : Options) (unit : List (Body × RoutineDecl)) :
    Except Fault InferResult := do
  let (converged, s) ← (← Solver.start o.kindCap unit).run d o o.maxIterations
  let routines ← s.runs.entries.mapM fun e => do return (e.1, ← RoutineResult.ofRun e.2)
  return ⟨⟨routines⟩, s.iterations, s.rounds, converged⟩

/-- Infers the types of every body of a unit. A run that is called off beforehand ends after no
round. -/
def infer (d : Declarations) (o : Options) (bodies : List Body) (cancelled : Bool) :
    Except InferError InferResult := do
  let unit ← checkUnit d [] bodies
  if cancelled then throw (.cancelled 0)
  (solve d o unit).mapError .fault

/-- Infers the types of one body on its own. -/
def inferRoutine (d : Declarations) (o : Options) (body : Body) (cancelled : Bool) :
    Except InferError RoutineResult := do
  let result ← infer d o [body] cancelled
  match result.routine? body.routine with
  | some r => return r
  | none => throw (.unknownRoutine body.routine)

end FlowTyping
