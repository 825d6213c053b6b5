import FlowTyping.Id

/-!
# Faults

A fault is a broken promise between parts of the analysis: a position that does not exist, or two
states that do not belong together. Operations on well-formed data have none.
-/

namespace FlowTyping

/-- Why a computation cannot go on. None of this happens for a unit that passed the check. -/
inductive Fault where
  /-- A mask has no bit with this number. -/
  | kindIndex (index : Nat)
  /-- The kind table has no entry with this number. -/
  | missingKind (index : Nat)
  /-- An array kind contains itself. -/
  | endlessKind
  | missingVariable (var : VarId)
  | missingExpr (expr : ExprId)
  /-- A sub-expression does not come before its parent. -/
  | unorderedExpr (parent child : ExprId)
  | missingBlock (block : BlockId)
  /-- Two states of different tables, or with different variables, were to be joined. -/
  | foreignState (left right : ContextId)
  /-- A queued block belongs to no routine of the unit. -/
  | strayBlock (block : BlockRef)
  /-- A queued block has no state on entry. -/
  | unreachedBlock (block : BlockRef)
  deriving DecidableEq, Repr

namespace Fault

/-- The text of a fault, where it has one. -/
def message? : Fault → Option String
  | .foreignState left right =>
    some ("cannot merge flow states of different routines (ContextId(" ++ toString left ++
      ") vs ContextId(" ++ toString right ++ "))")
  | _ => none

end Fault

end FlowTyping
