import FlowTyping.Visit.Basic

/-!
# Places

Reading and writing variables, array elements and properties.
-/

namespace FlowTyping

open Visit

/-- The mask of a place that is shared. -/
def sharedMask : Mask :=
  Slot.sharedMask

/-- Visits a variable. Top-level code finds variables that nobody assigned outside; elsewhere they
read as `null`. -/
def visitVar (id : ExprId) (v : VarId) : Access → Visit Mask
  | .write m => do
    assign v m
    varMask v
  | .share => do
    share v
    varMask v
  | access => do
    let s ← slot v
    if s.assigned then return s.mask
    if (← getFacts).kind = .globalCode then
      assign v .top
      return .top
    if access = .read then updateFacts (·.markUnassignedRead id)
    return s.mask ∪ .null

/-- What a place holds, without visiting it. Only elements nested at most `depth` deep are seen
through. -/
def peekWithin (env : Setting) : (depth : Nat) → ExprId → Visit Mask
  | 0, e => throw (.missingExpr e)
  | depth + 1, e => do
    match ← env.expr e with
    | .var v => varMask v
    | .item array _ =>
      if array < e then
        let container ← peekWithin env depth array
        (← getTable).elementMask container
      else throw (.unorderedExpr e array)
    | _ => return .top

/-- What a place holds, without visiting it. -/
def peek (env : Setting) (e : ExprId) : Visit Mask :=
  peekWithin env env.body.exprs.size e

/-- What a value of some kind becomes when an element is stored in it. -/
def storeInKind (value : Mask) (index : Nat) : Kind → Typing Mask
  | .array elem => KindTable.arrayOf (elem ∪ value)
  | .null => KindTable.arrayOf value
  | .bool => KindTable.arrayOf value
  | _ => Mask.ofIndex index

/-- What a container becomes when an element is stored in it. A place that holds nothing becomes an
array. -/
def storeInMask (container value : Mask) : Typing Mask := do
  if container.any then return .top
  if container.isEmpty then KindTable.arrayOf value
  else
    let t ← get
    let kinds := container.members.filterMap fun i => (t.kind? i).map fun k => (i, k)
    kinds.foldlM (fun acc e => do return acc ∪ (← storeInKind value e.1 e.2)) .empty

variable (env : Setting) (v : Visitor)

/-- Stores an element and writes the container back to where it came from. -/
def writeItem (array : ExprId) (value : Mask) : Visit Unit := do
  let container ← peek env array
  let rebuilt ← onTable (storeInMask container value)
  let _ ← v.value array (.write rebuilt)

/-- Visits an array element. -/
def visitItem (array : ExprId) (index? : Option ExprId) (access : Access) : Visit Mask := do
  index?.forM v.read
  match access with
  | .write m =>
    writeItem env v array m
    return m
  | .share =>
    writeItem env v array sharedMask
    return sharedMask
  | access =>
    let container ← v.value array access
    let elem ← (← getTable).elementMask container
    return elem ∪ .null

/-- What a class declares a property to hold. -/
def fieldMask (cls : Name) (field : String) : Visit Mask :=
  match (env.decls.field? cls field).bind FieldDecl.hint? with
  | some hint => onTable (KindTable.hintMask hint)
  | none => return .top

/-- What the property of an object may hold. -/
def objectFieldMask (object : Mask) (field : String) : Visit Mask := do
  if object.any then return .top
  let classes ← (← getTable).classes object
  if classes.isEmpty then return .top
  classes.foldlM (fun acc cls => do return acc ∪ (← fieldMask env cls field)) .empty

end FlowTyping
