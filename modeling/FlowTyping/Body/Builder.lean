import FlowTyping.Body.Lowering

/-!
# Building bodies

A body starts from its variables. Expressions are added one after the other, and each is known by
its position from then on. A list of statements over them completes the body.
-/

namespace FlowTyping

/-- A body that has no blocks yet. -/
structure Builder where
  routine : RoutineId
  kind : RoutineKind
  vars : List Variable
  exprs : Array Expr

namespace Builder

/-- A body with its variables, to which no expression has been added. -/
def new (routine : RoutineId) (kind : RoutineKind) (vars : List Variable) : Builder :=
  ⟨routine, kind, Variable.declareAll vars, #[]⟩

/-- Adds an expression and yields its position. -/
def alloc (b : Builder) (x : Expr) : ExprId × Builder :=
  (b.exprs.size, { b with exprs := b.exprs.push x })

/-- The body that runs some statements. -/
def build (b : Builder) (stmts : List Stmt) : Body :=
  ⟨b.routine, b.kind, b.vars, b.exprs, Stmt.blocks stmts, 0⟩

end Builder

end FlowTyping
