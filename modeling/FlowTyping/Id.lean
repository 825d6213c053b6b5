/-!
# Identifiers

Routines, expressions, blocks, variables and kind tables are named by their position: a routine in
the declarations, an expression and a block in their body, a variable in its body's variable list.
-/

namespace FlowTyping

/-- The position of a routine among the declarations. -/
abbrev RoutineId := Nat

/-- The position of an expression in its body. -/
abbrev ExprId := Nat

/-- The position of a block in its body. -/
abbrev BlockId := Nat

/-- The position of a variable among those of its routine. -/
abbrev VarId := Nat

/-- The number of a kind table within a unit. -/
abbrev ContextId := Nat

/-- A block of some routine of the unit. -/
abbrev BlockRef := RoutineId × BlockId

end FlowTyping
