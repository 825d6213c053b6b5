import FlowTyping.Body.Expr

/-!
# Blocks

A block runs its actions one after the other and ends in an edge, which says where control goes
next.
-/

namespace FlowTyping

/-- A variable that keeps its value between calls. -/
structure StaticVar where
  var : VarId
  init? : Option ExprId
  deriving DecidableEq, Repr, Inhabited

/-- What a block does, one step at a time. -/
inductive Action where
  | eval (expr : ExprId)
  | echo (exprs : List ExprId)
  | unset (exprs : List ExprId)
  | bindGlobals (vars : List VarId)
  | bindStatics (vars : List StaticVar)
  /-- Takes the exception that led here. -/
  | bindException (var? : Option VarId) (classes : List Name)
  deriving Repr, Inhabited

namespace Action

/-- The expressions that an action evaluates itself, first to last. -/
def exprs : Action → List ExprId
  | .eval expr => [expr]
  | .echo exprs => exprs
  | .unset exprs => exprs
  | .bindGlobals _ => []
  | .bindStatics vars => vars.filterMap StaticVar.init?
  | .bindException _ _ => []

/-- The variables that an action binds or shares by their number. -/
def vars : Action → List VarId
  | .bindGlobals vars => vars
  | .bindStatics vars => vars.map StaticVar.var
  | .bindException var? _ => var?.toList
  | _ => []

end Action

/-- One way out of a `switch`; without a label, the default. -/
structure Arm where
  label? : Option ExprId
  body : BlockId
  deriving DecidableEq, Repr, Inhabited

/-- How a block ends. -/
inductive Edge where
  | goto (target : BlockId)
  /-- Leaves a loop or a `switch`, or starts its next round. -/
  | leave (target : BlockId)
  | branch (cond : ExprId) (ifTrue ifFalse : BlockId)
  | switch (value : ExprId) (arms : List Arm) (stop : BlockId)
  /-- Enters a region whose blocks list the catch and finally blocks as handlers. -/
  | protect (body : BlockId) (catches : List BlockId) (finally? : Option BlockId) (stop : BlockId)
  | iterate (collection : ExprId) (byRef : Bool) (advance : BlockId)
  | advance (collection : ExprId) (key? : Option ExprId) (value : ExprId) (byRef : Bool)
      (body stop : BlockId)
  | ret (value? : Option ExprId)
  | raise (value : ExprId)
  | exit (value? : Option ExprId)
  deriving DecidableEq, Repr, Inhabited

namespace Edge

/-- A `switch` has a default arm. -/
def hasDefault (arms : List Arm) : Bool :=
  arms.any fun arm => arm.label?.isNone

/-- Where control goes when nothing is thrown. -/
def successors : Edge → List BlockId
  | .goto target => [target]
  | .leave target => [target]
  | .branch _ ifTrue ifFalse => [ifTrue, ifFalse]
  | .switch _ arms stop => arms.map Arm.body ++ if hasDefault arms then [] else [stop]
  | .protect body _ _ _ => [body]
  | .iterate _ _ target => [target]
  | .advance _ _ _ _ body stop => [body, stop]
  | .ret _ => []
  | .raise _ => []
  | .exit _ => []

/-- The expressions that the edge evaluates. -/
def exprs : Edge → List ExprId
  | .goto _ => []
  | .leave _ => []
  | .branch cond _ _ => [cond]
  | .switch value arms _ => value :: arms.filterMap Arm.label?
  | .protect _ _ _ _ => []
  | .iterate collection _ _ => [collection]
  | .advance collection key? value _ _ _ => collection :: value :: key?.toList
  | .ret value? => value?.toList
  | .raise value => [value]
  | .exit value? => value?.toList

/-- Every block that the edge mentions. -/
def mentions (edge : Edge) : List BlockId :=
  edge.successors ++
    match edge with
    | .switch _ _ stop => [stop]
    | .protect _ catches finally? stop => catches ++ finally?.toList ++ [stop]
    | _ => []

end Edge

/-- A piece of code without branches: actions, and the edge that ends it. -/
structure Block where
  id : BlockId
  actions : List Action
  edge : Edge
  /-- Where control may go when something throws. -/
  handlers : List BlockId
  deriving Repr, Inhabited

end FlowTyping
