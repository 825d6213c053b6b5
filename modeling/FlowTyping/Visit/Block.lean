import FlowTyping.Visit.Expr

/-!
# Visiting a whole block

A visit yields a state for every successor of the block. If the block has handlers, it also yields
the join of all states in between, since any action may throw.
-/

namespace FlowTyping

open Visit

/-- What a visit to a block yields. -/
structure Outcome where
  /-- The state on the way to each successor. -/
  exits : List (BlockId × State)
  /-- The join of the states in which something may throw. -/
  thrown? : Option State
  deriving Inhabited

/-- Something may throw in the current state. -/
def noteThrow (watched : Bool) (thrown? : Option State) : Visit (Option State) := do
  if !watched then return thrown?
  let now ← getState
  match thrown? with
  | some thrown => return some (← thrown.join now)
  | none => return some now

variable (env : Setting)

/-- Forgets a variable, or what is found in one. -/
def visitUnset (e : ExprId) : Visit Unit := do
  match ← env.expr e with
  | .var x =>
    updateState (·.unset x)
    record e .null
  | .item array index? =>
    index?.forM (visitor env).read
    let _ ← (visitor env).value array .peek
  | _ =>
    let _ ← (visitor env).value e .peek

/-- What a caught exception may be. -/
def exceptionMask (classes : List Name) : Typing Mask := do
  let m ← classes.foldlM (fun acc cls => do return acc ∪ (← KindTable.instanceOf cls true)) .empty
  if m.isEmpty then KindTable.instanceOf ⟨"Throwable"⟩ true else return m

/-- A static variable is initialised once, and keeps its value between calls, so that it is
shared. -/
def visitStatic (s : StaticVar) : Visit Unit := do
  s.init?.forM (visitor env).read
  share s.var

/-- One action of a block. A caught exception may be of a subclass of each class in the list. -/
def visitAction : Action → Visit Unit
  | .eval e => (visitor env).read e
  | .echo es => (visitor env).readAll es
  | .unset es => es.forM (visitUnset env)
  | .bindGlobals vars => vars.forM share
  | .bindStatics vars => vars.forM (visitStatic env)
  | .bindException none _ => return ()
  | .bindException (some x) classes => do
    assign x (← onTable (exceptionMask classes))

/-- Visits actions one after the other and notes the states between them. -/
def visitActions (watched : Bool) : Option State → List Action → Visit (Option State)
  | thrown?, [] => return thrown?
  | thrown?, a :: rest => do
    visitAction env a
    let thrown? ← noteThrow watched thrown?
    visitActions watched thrown? rest

/-- Ends in the current state at each of some blocks. -/
def exitTo (targets : List BlockId) : Visit (List (BlockId × State)) := do
  let s ← getState
  return targets.map (·, s)

/-- The condition is visited once for each outcome. -/
def visitBranchEdge (watched : Bool) (thrown? : Option State) (cond : ExprId)
    (ifTrue ifFalse : BlockId) : Visit Outcome := do
  let before ← getState
  let _ ← (visitor env).condition cond .holds
  let trueState ← swapState before
  let thrown? ← noteThrow watched thrown?
  let _ ← (visitor env).condition cond .fails
  let falseState ← getState
  let thrown? ← noteThrow watched thrown?
  return ⟨[(ifTrue, trueState), (ifFalse, falseState)], thrown?⟩

/-- The next element of a collection goes to the value and key places. -/
def visitAdvance (collection : ExprId) (key? : Option ExprId) (value : ExprId) (byRef : Bool)
    (body stop : BlockId) : Visit (List (BlockId × State)) := do
  let done ← exitTo [stop]
  let elem ← (← getTable).elementMask ((← getFacts).exprMask collection)
  key?.forM fun key => do
    let _ ← (visitor env).value key (.write (.long ∪ .string))
  let _ ← (visitor env).value value (if byRef then .share else .write elem)
  return done ++ (← exitTo [body])

/-- What a routine returns here. -/
def returnMask (value? : Option ExprId) : Visit Mask :=
  match value? with
  | some e => (visitor env).value e .read
  | none => return Mask.null.withVoid true

/-- Takes some exits; after them something may throw once more. -/
def settle (watched : Bool) (thrown? : Option State) (exits : Visit (List (BlockId × State))) :
    Visit Outcome := do
  let exits ← exits
  return ⟨exits, ← noteThrow watched thrown?⟩

/-- Visits the edge of a block. The exits are in the order in which they are taken. -/
def visitEdge (watched : Bool) (thrown? : Option State) : Edge → Visit Outcome
  | .goto target => settle watched thrown? (exitTo [target])
  | .leave target => settle watched thrown? (exitTo [target])
  | .branch cond ifTrue ifFalse => visitBranchEdge env watched thrown? cond ifTrue ifFalse
  | .switch value arms stop => settle watched thrown? do
    (visitor env).read value
    (visitor env).readAll (arms.filterMap Arm.label?)
    exitTo (arms.map Arm.body ++ if arms.any fun arm => arm.label?.isNone then [] else [stop])
  | .protect body _ _ _ => settle watched thrown? (exitTo [body])
  | .iterate collection byRef advance => settle watched thrown? do
    let place := (← env.expr collection).isPlace
    let _ ← (visitor env).value collection (if byRef && place then .share else .read)
    exitTo [advance]
  | .advance collection key? value byRef body stop =>
    settle watched thrown? (visitAdvance env collection key? value byRef body stop)
  | .ret value? => settle watched thrown? do
    let m ← returnMask env value?
    updateFacts (·.addReturn m)
    return []
  | .raise value => settle watched thrown? do
    (visitor env).read value
    return []
  | .exit value? => settle watched thrown? do
    value?.forM (visitor env).read
    return []

/-- Visits a block from its state on entry. -/
def visitBlock (block : Block) : Visit Outcome := do
  let watched := !block.handlers.isEmpty
  let thrown? ← noteThrow watched none
  let thrown? ← visitActions env watched thrown? block.actions
  visitEdge env watched thrown? block.edge

end FlowTyping
