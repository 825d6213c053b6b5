import FlowTyping.Body.Basic

/-!
# Structured statements

Statements nest: branches, loops, `switch` and protected regions hold further statements. Lowering
turns a list of them into blocks. Blocks are numbered in the order in which they are opened, the
first one being the entry.
-/

namespace FlowTyping

/-- One case of a `switch`; without a label, the default. -/
structure Case (σ : Type) where
  label? : Option ExprId
  body : List σ
  deriving Repr

/-- One `catch` of a protected region, for some classes of exceptions. -/
structure Catch (σ : Type) where
  classes : List Name
  var? : Option VarId
  body : List σ
  deriving Repr

/-- A statement, as the code of a routine is written before it is cut into blocks. -/
inductive Stmt where
  | act (action : Action)
  | ifElse (cond : ExprId) (thenBody elseBody : List Stmt)
  | whileLoop (cond : ExprId) (body : List Stmt)
  | doLoop (body : List Stmt) (cond : ExprId)
  | forLoop (init : List ExprId) (cond? : Option ExprId) (step : List ExprId) (body : List Stmt)
  | foreach (collection : ExprId) (key? : Option ExprId) (value : ExprId) (byRef : Bool)
      (body : List Stmt)
  | switch (value : ExprId) (cases : List (Case Stmt))
  | protect (body : List Stmt) (catches : List (Catch Stmt)) (finally? : Option (List Stmt))
  | ret (value? : Option ExprId)
  | raise (value : ExprId)
  | exit (value? : Option ExprId)
  | brk
  | cont
  deriving Repr

/-- A block that is still being written. -/
structure Draft where
  actions : List Action
  edge? : Option Edge
  handlers : List BlockId
  deriving Repr, Inhabited

/-- The blocks opened so far and the one that the next statement goes to. -/
structure Lowering where
  drafts : Array Draft
  current : BlockId
  deriving Repr, Inhabited

/-- Where `break` and `continue` go. -/
structure Jumps where
  onBreak : BlockId
  onContinue : BlockId
  deriving DecidableEq, Repr, Inhabited

/-- What surrounds a statement: the innermost loop or `switch`, and the handlers of the region. -/
structure Scope where
  jumps? : Option Jumps
  handlers : List BlockId
  deriving DecidableEq, Repr, Inhabited

/-- A computation that opens, fills and ends blocks. -/
abbrev Lower := StateM Lowering

namespace Lower

/-- Opens a block in a region with some handlers. -/
def openBlock (handlers : List BlockId) : Lower BlockId := do
  let s ← get
  set { s with drafts := s.drafts.push ⟨[], none, handlers⟩ }
  return s.drafts.size

/-- Opens one block for each entry of a list. -/
def openBlocks {α : Type} (handlers : List BlockId) : List α → Lower (List BlockId)
  | [] => return []
  | _ :: rest => do
    let b ← openBlock handlers
    let bs ← openBlocks handlers rest
    return b :: bs

/-- Goes on writing in a block. -/
def enter (b : BlockId) : Lower Unit :=
  modify fun s => { s with current := b }

/-- Changes the draft of a block. -/
def edit (b : BlockId) (f : Draft → Draft) : Lower Unit :=
  modify fun s => { s with drafts := s.drafts.modify b f }

/-- Adds an action to the current block. -/
def emit (a : Action) : Lower Unit := do
  let s ← get
  edit s.current fun d => { d with actions := d.actions ++ [a] }

/-- Appends the evaluation of some expressions to the current block. -/
def emitAll (exprs : List ExprId) : Lower Unit :=
  exprs.forM fun e => emit (.eval e)

/-- Ends a block, unless it has ended before. -/
def close (b : BlockId) (edge : Edge) : Lower Unit :=
  edit b fun d => { d with edge? := d.edge?.or (some edge) }

/-- Ends the current block, unless it has ended before. -/
def finish (edge : Edge) : Lower Unit := do
  close (← get).current edge

/-- Ends the current block and goes on in a new one that nothing leads to. -/
def terminate (scope : Scope) (edge : Edge) : Lower Unit := do
  finish edge
  enter (← openBlock scope.handlers)

/-- Leaves for a loop's block, or just stops where no loop is around. -/
def jump (scope : Scope) (target? : Option BlockId) : Lower Unit := do
  match target? with
  | some target => finish (.leave target)
  | none => pure ()
  enter (← openBlock scope.handlers)

end Lower

open Lower

namespace Scope

/-- The inside of a loop. -/
def inLoop (scope : Scope) (onBreak onContinue : BlockId) : Scope :=
  { scope with jumps? := some ⟨onBreak, onContinue⟩ }

/-- The inside of a protected region. -/
def inRegion (scope : Scope) (catches : List BlockId) (finally? : Option BlockId) : Scope :=
  { scope with handlers := catches ++ finally?.toList }

/-- The inside of a catch block: what escapes it still runs the finally block. -/
def inCatch (scope : Scope) (finally? : Option BlockId) : Scope :=
  { scope with handlers := scope.handlers ++ finally?.toList }

end Scope

mutual

/-- Lowers a statement: the code goes on in the block that is current afterwards. -/
def lower (scope : Scope) : Stmt → Lower Unit
  | .act action => emit action
  | .ifElse cond thenBody elseBody => do
    let thenBlock ← openBlock scope.handlers
    let elseBlock ← openBlock scope.handlers
    let mergeBlock ← openBlock scope.handlers
    finish (.branch cond thenBlock elseBlock)
    enter thenBlock
    lowerAll scope thenBody
    finish (.goto mergeBlock)
    enter elseBlock
    lowerAll scope elseBody
    finish (.goto mergeBlock)
    enter mergeBlock
  | .whileLoop cond body => do
    let header ← openBlock scope.handlers
    let bodyBlock ← openBlock scope.handlers
    let stop ← openBlock scope.handlers
    finish (.goto header)
    close header (.branch cond bodyBlock stop)
    enter bodyBlock
    lowerAll (scope.inLoop stop header) body
    finish (.goto header)
    enter stop
  | .doLoop body cond => do
    let bodyBlock ← openBlock scope.handlers
    let condBlock ← openBlock scope.handlers
    let stop ← openBlock scope.handlers
    finish (.goto bodyBlock)
    enter bodyBlock
    lowerAll (scope.inLoop stop condBlock) body
    finish (.goto condBlock)
    close condBlock (.branch cond bodyBlock stop)
    enter stop
  | .forLoop init cond? step body => do
    emitAll init
    let header ← openBlock scope.handlers
    let bodyBlock ← openBlock scope.handlers
    let stepBlock ← openBlock scope.handlers
    let stop ← openBlock scope.handlers
    finish (.goto header)
    close header
      (match cond? with
      | some cond => .branch cond bodyBlock stop
      | none => .goto bodyBlock)
    enter bodyBlock
    lowerAll (scope.inLoop stop stepBlock) body
    finish (.goto stepBlock)
    enter stepBlock
    emitAll step
    finish (.goto header)
    enter stop
  | .foreach collection key? value byRef body => do
    let advance ← openBlock scope.handlers
    let bodyBlock ← openBlock scope.handlers
    let stop ← openBlock scope.handlers
    finish (.iterate collection byRef advance)
    close advance (.advance collection key? value byRef bodyBlock stop)
    enter bodyBlock
    lowerAll (scope.inLoop stop advance) body
    finish (.goto advance)
    enter stop
  | .switch value cases => do
    let bodies ← openBlocks scope.handlers cases
    let stop ← openBlock scope.handlers
    finish (.switch value (cases.zipWith (fun c b => ⟨c.label?, b⟩) bodies) stop)
    lowerCases (scope.inLoop stop stop) stop cases bodies
    enter stop
  | .protect body catches finally? => do
    let catchBlocks ← openBlocks scope.handlers catches
    let finallyBlock? ←
      match finally? with
      | some _ => some <$> openBlock scope.handlers
      | none => pure none
    let stop ← openBlock scope.handlers
    let after := finallyBlock?.getD stop
    let inner := scope.inRegion catchBlocks finallyBlock?
    let bodyBlock ← openBlock inner.handlers
    finish (.protect bodyBlock catchBlocks finallyBlock? stop)
    enter bodyBlock
    lowerAll inner body
    finish (.goto after)
    lowerCatches (scope.inCatch finallyBlock?) after catches catchBlocks
    match finally?, finallyBlock? with
    | some stmts, some block =>
      enter block
      lowerAll scope stmts
      finish (.goto stop)
    | _, _ => pure ()
    enter stop
  | .ret value? => terminate scope (.ret value?)
  | .raise value => terminate scope (.raise value)
  | .exit value? => terminate scope (.exit value?)
  | .brk => jump scope (scope.jumps?.map Jumps.onBreak)
  | .cont => jump scope (scope.jumps?.map Jumps.onContinue)

/-- Lowers statements one after the other. -/
def lowerAll (scope : Scope) : List Stmt → Lower Unit
  | [] => return ()
  | s :: rest => do
    lower scope s
    lowerAll scope rest

/-- Each case runs on into the next, and the last one into `stop`. -/
def lowerCases (scope : Scope) (stop : BlockId) : List (Case Stmt) → List BlockId → Lower Unit
  | ⟨_, body⟩ :: cases, block :: blocks => do
    enter block
    lowerAll scope body
    finish (.goto (blocks.headD stop))
    lowerCases scope stop cases blocks
  | _, _ => return ()

/-- Each catch block takes its exception, runs its body and goes on to `after`. -/
def lowerCatches (scope : Scope) (after : BlockId) : List (Catch Stmt) → List BlockId → Lower Unit
  | ⟨classes, var?, body⟩ :: catches, block :: blocks => do
    edit block fun d => { d with handlers := scope.handlers }
    enter block
    emit (.bindException var? classes)
    lowerAll scope body
    finish (.goto after)
    lowerCatches scope after catches blocks
  | _, _ => return ()

end

namespace Lowering

/-- One open block, outside any loop or region. -/
def start : Lowering :=
  ⟨#[⟨[], none, []⟩], 0⟩

/-- The finished blocks; a block that nothing ended returns without a value. -/
def blocks (s : Lowering) : Array Block :=
  s.drafts.mapIdx fun i d => ⟨i, d.actions, d.edge?.getD (.ret none), d.handlers⟩

end Lowering

/-- The blocks of a list of statements. -/
def Stmt.blocks (stmts : List Stmt) : Array Block :=
  ((lowerAll ⟨none, []⟩ stmts).run Lowering.start).2.blocks

end FlowTyping
