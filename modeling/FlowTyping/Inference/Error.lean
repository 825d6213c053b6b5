import FlowTyping.Body.Malformed
import FlowTyping.Fault

/-!
# Errors of a run

A unit that does not fit its declarations is refused, and a run can be called off. Whatever the
analysis itself cannot decide shows in its results instead.
-/

namespace FlowTyping

/-- Why a unit has no result. -/
inductive InferError where
  | unknownRoutine (routine : RoutineId)
  | duplicateRoutine (routine : RoutineId)
  | malformedBody (routine : RoutineId) (cause : Malformed)
  | unknownBlock (routine : RoutineId) (block : BlockId)
  | cancelled (rounds : Nat)
  | fault (cause : Fault)
  deriving DecidableEq, Repr

namespace InferError

/-- The number of a routine, as messages write it. -/
def showRoutine (r : RoutineId) : String :=
  "RoutineId(" ++ toString r ++ ")"

/-- The text that tells the user why there is no result. -/
def message : InferError → String
  | .unknownRoutine r => "routine " ++ showRoutine r ++ " is not declared in the symbol oracle"
  | .duplicateRoutine r => "routine " ++ showRoutine r ++ " has more than one body in the unit"
  | .malformedBody r cause => "malformed body: routine " ++ showRoutine r ++ ": " ++ cause.message
  | .unknownBlock r b =>
    "block " ++ Malformed.showBlock b ++ " of routine " ++ showRoutine r ++ " is out of range"
  | .cancelled rounds => "analysis cancelled after " ++ toString rounds ++ " rounds"
  | .fault cause => cause.message?.getD ""

end InferError

end FlowTyping
