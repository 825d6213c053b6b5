import FlowTyping.Name
import FlowTyping.Id

/-!
# Expressions

The expressions of a body stand in one list and refer to each other by position.
-/

namespace FlowTyping

/-- A value that is written out in the code. -/
inductive Literal where
  | null
  | bool (value : Bool)
  | long (value : Int64)
  | double (value : Float)
  | string (value : String)
  deriving Repr, Inhabited

/-- Operators that evaluate both operands. -/
inductive BinaryOp where
  | add
  | sub
  | mul
  | div
  | mod
  | pow
  | shiftLeft
  | shiftRight
  | bitAnd
  | bitOr
  | bitXor
  | concat
  | equal
  | notEqual
  | identical
  | notIdentical
  | less
  | lessEqual
  | greater
  | greaterEqual
  | spaceship
  | logicalXor
  deriving DecidableEq, Repr, Inhabited

/-- Operators that evaluate the right operand only if the left one leaves the outcome open. -/
inductive LogicalOp where
  | and
  | or
  deriving DecidableEq, Repr, Inhabited

/-- What a value is converted to. -/
inductive Cast where
  | bool
  | long
  | double
  | string
  | array
  | object
  | unset
  deriving DecidableEq, Repr, Inhabited

/-- Operators with one operand. -/
inductive UnaryOp where
  | not
  | minus
  | plus
  | bitNot
  /-- Evaluates the operand without warnings. -/
  | silence
  | cast (conversion : Cast)
  deriving DecidableEq, Repr, Inhabited

/-- How an expression names a class. -/
inductive ClassRef where
  | named (cls : Name)
  | selfClass
  | parent
  /-- The class of the object at run time. -/
  | lateStatic
  | dynamic (expr : ExprId)
  deriving Repr, Inhabited

/-- An argument of a call. -/
structure Argument where
  value : ExprId
  /-- Spreads the elements of its value over further arguments. -/
  unpack : Bool
  deriving DecidableEq, Repr, Inhabited

/-- An item of an array that is written out. -/
structure ArrayItem where
  key? : Option ExprId
  value : ExprId
  byRef : Bool
  unpack : Bool
  deriving DecidableEq, Repr, Inhabited

/-- A variable that a closure takes from its surroundings. -/
structure Capture where
  var : VarId
  byRef : Bool
  deriving DecidableEq, Repr, Inhabited

/-- An expression. Its operands are given by their numbers, and come before it in the body. -/
inductive Expr where
  | literal (value : Literal)
  | var (var : VarId)
  /-- The variable that is named by the value of an expression. -/
  | varVar (name : ExprId)
  | assign (target value : ExprId)
  | assignRef (target value : ExprId)
  | compound (op : BinaryOp) (target value : ExprId)
  | incDec (target : ExprId) (increment yieldsNew : Bool)
  | binary (op : BinaryOp) (left right : ExprId)
  | logical (op : LogicalOp) (left right : ExprId)
  | unary (op : UnaryOp) (operand : ExprId)
  /-- Without a middle part, the condition's own value stands for it. -/
  | ternary (cond : ExprId) (ifTrue? : Option ExprId) (ifFalse : ExprId)
  | coalesce (left right : ExprId)
  | array (items : List ArrayItem)
  /-- A list pattern, with gaps. -/
  | list (items : List (Option ExprId))
  /-- An element; without an index, a new one at the end. -/
  | item (array : ExprId) (index? : Option ExprId)
  | field (object : ExprId) (field : String)
  | staticField (cls : ClassRef) (field : String)
  | isInstance (operand : ExprId) (cls : ClassRef)
  | isset (operands : List ExprId)
  | isBlank (operand : ExprId)
  | call (name : Name) (args : List Argument)
  | dynamicCall (callee : ExprId) (args : List Argument)
  | methodCall (receiver : ExprId) (name : String) (args : List Argument)
  | staticCall (cls : ClassRef) (name : String) (args : List Argument)
  | new (cls : ClassRef) (args : List Argument)
  | closure (routine : RoutineId) (captures : List Capture)
  | eval (code : ExprId)
  | load (path : ExprId)
  | yield (key? value? : Option ExprId)
  | yieldFrom (source : ExprId)
  | constant (name : Name)
  deriving Repr, Inhabited

namespace ClassRef

/-- The expression that computes the class. -/
def expr? : ClassRef → Option ExprId
  | .dynamic expr => some expr
  | _ => none

end ClassRef

namespace Expr

/-- Whether the expression names a place that can be written to. -/
def isPlace : Expr → Bool
  | .var _ => true
  | .varVar _ => true
  | .item _ _ => true
  | .field _ _ => true
  | .staticField _ _ => true
  | _ => false

/-- The direct sub-expressions: in the order of evaluation, but a computed class comes last. -/
def children : Expr → List ExprId
  | .literal _ => []
  | .var _ => []
  | .varVar name => [name]
  | .assign target value => [value, target]
  | .assignRef target value => [value, target]
  | .compound _ target value => [value, target]
  | .incDec target _ _ => [target]
  | .binary _ left right => [left, right]
  | .logical _ left right => [left, right]
  | .unary _ operand => [operand]
  | .ternary cond ifTrue? ifFalse => cond :: ifTrue?.toList ++ [ifFalse]
  | .coalesce left right => [left, right]
  | .array items => items.flatMap fun item => item.key?.toList ++ [item.value]
  | .list items => items.filterMap id
  | .item base index? => base :: index?.toList
  | .field object _ => [object]
  | .staticField cls _ => cls.expr?.toList
  | .isInstance operand cls => operand :: cls.expr?.toList
  | .isset operands => operands
  | .isBlank operand => [operand]
  | .call _ args => args.map Argument.value
  | .dynamicCall callee args => callee :: args.map Argument.value
  | .methodCall receiver _ args => receiver :: args.map Argument.value
  | .staticCall cls _ args => args.map Argument.value ++ cls.expr?.toList
  | .new cls args => args.map Argument.value ++ cls.expr?.toList
  | .closure _ _ => []
  | .eval code => [code]
  | .load path => [path]
  | .yield key? value? => key?.toList ++ value?.toList
  | .yieldFrom source => [source]
  | .constant _ => []

/-- The variables that the expression itself names. -/
def vars : Expr → List VarId
  | .var x => [x]
  | .closure _ captures => captures.map Capture.var
  | _ => []

end Expr

end FlowTyping
