import FlowTyping.Body.Block

/-!
# Bodies

The code of one routine: its variables, its expressions and its blocks.
-/

namespace FlowTyping

/-- What a body is the code of. -/
inductive RoutineKind where
  /-- Top-level code, where a variable that nobody assigned may come from outside. -/
  | globalCode
  | function
  | method (isStatic : Bool)
  | closure
  deriving DecidableEq, Repr, Inhabited

namespace RoutineKind

/-- A kind of routine as it is shown to the user. -/
def display : RoutineKind → String
  | .globalCode => "GlobalCode"
  | .function => "Function"
  | .method isStatic =>
    "Method \x7b is_static: " ++ (if isStatic then "true" else "false") ++ " \x7d"
  | .closure => "Closure"

end RoutineKind

/-- Where a variable has its value from when the routine starts. -/
inductive VarKind where
  | localVar
  | parameter
  | thisObject
  /-- Taken over by a closure. -/
  | captured (byRef : Bool)
  deriving DecidableEq, Repr, Inhabited

/-- A variable of a routine. Its position among the variables is its number. -/
structure Variable where
  name : String
  kind : VarKind
  deriving DecidableEq, Repr, Inhabited

namespace Variable

/-- The position of the variable with a name. -/
def lookup? (vars : List Variable) (name : String) : Option VarId :=
  vars.findIdx? fun v => v.name == name

/-- Adds a variable unless its name is taken. -/
def declare (vars : List Variable) (v : Variable) : List Variable :=
  if vars.any fun w => w.name == v.name then vars else vars ++ [v]

/-- The variables of a routine in the order in which they are declared, each name once. -/
def declareAll (vars : List Variable) : List Variable :=
  vars.foldl declare []

end Variable

/-- The code of a routine: its variables, and expressions and blocks at the positions that are their
numbers. -/
structure Body where
  routine : RoutineId
  kind : RoutineKind
  vars : List Variable
  exprs : Array Expr
  blocks : Array Block
  entry : BlockId
  deriving Repr, Inhabited

end FlowTyping
