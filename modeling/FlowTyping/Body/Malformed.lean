import FlowTyping.Body.Basic

/-!
# Malformed bodies

A body is fit for analysis when it has an entry block, every position it mentions exists, blocks
carry their own position as label, and sub-expressions come before their parents.
`Body.malformed?` is the first violation.
-/

namespace FlowTyping

/-- What is wrong with a body, with the place where it was found. -/
inductive Malformed where
  | noEntry
  | exprOfExpr (parent child : ExprId)
  | laterExpr (parent child : ExprId)
  | varOfExpr (parent : ExprId) (var : VarId)
  | label (position : Nat) (label : BlockId)
  | target (block target : BlockId)
  | exprOfBlock (block : BlockId) (expr : ExprId)
  | varOfBlock (block : BlockId) (var : VarId)
  deriving DecidableEq, Repr, Inhabited

namespace Malformed

/-- The number of an expression, as messages write it. -/
def showExpr (e : ExprId) : String :=
  "ExprId(" ++ toString e ++ ")"

/-- The number of a block, as messages write it. -/
def showBlock (b : BlockId) : String :=
  "BlockId(" ++ toString b ++ ")"

/-- The number of a variable, as messages write it. -/
def showVar (v : VarId) : String :=
  "VariableHandle(" ++ toString v ++ ")"

/-- The text that tells the user what is wrong. -/
def message : Malformed → String
  | .noEntry => "missing entry block"
  | .exprOfExpr parent child =>
    "expression " ++ showExpr parent ++ " refers to missing " ++ showExpr child
  | .laterExpr parent child =>
    "expression " ++ showExpr parent ++ " refers to " ++ showExpr child ++
      ", which is not allocated before it"
  | .varOfExpr parent var =>
    "expression " ++ showExpr parent ++ " refers to missing " ++ showVar var
  | .label position found =>
    "block at position " ++ toString position ++ " is labelled " ++ showBlock found
  | .target block missing => showBlock block ++ " jumps to missing " ++ showBlock missing
  | .exprOfBlock block expr => showBlock block ++ " refers to missing " ++ showExpr expr
  | .varOfBlock block var => showBlock block ++ " refers to missing " ++ showVar var

end Malformed

namespace Body

/-- The first position in a list that is not below a bound. -/
def beyond? (bound : Nat) (positions : List Nat) : Option Nat :=
  positions.find? fun p => decide (bound ≤ p)

/-- What is wrong with the expression at a position. -/
def exprMalformed? (b : Body) (id : ExprId) (e : Expr) : Option Malformed :=
  ((beyond? b.exprs.size e.children).map (.exprOfExpr id ·)).or
    (((beyond? id e.children).map (.laterExpr id ·)).or
      ((beyond? b.vars.length e.vars).map (.varOfExpr id ·)))

/-- What is wrong with the block at a position. -/
def blockMalformed? (b : Body) (position : Nat) (block : Block) : Option Malformed :=
  if block.id ≠ position then some (.label position block.id)
  else
    ((beyond? b.blocks.size (block.edge.mentions ++ block.handlers)).map (.target block.id ·)).or
      (((beyond? b.exprs.size (block.actions.flatMap Action.exprs ++ block.edge.exprs)).map
          (.exprOfBlock block.id ·)).or
        ((beyond? b.vars.length (block.actions.flatMap Action.vars)).map (.varOfBlock block.id ·)))

/-- The first thing that is wrong with a body: its entry, then its expressions, then its blocks. -/
def malformed? (b : Body) : Option Malformed :=
  if b.blocks.size ≤ b.entry then some .noEntry
  else
    (b.exprs.toList.zipIdx.findSome? fun e => b.exprMalformed? e.2 e.1).or
      (b.blocks.toList.zipIdx.findSome? fun k => b.blockMalformed? k.2 k.1)

end Body

end FlowTyping
