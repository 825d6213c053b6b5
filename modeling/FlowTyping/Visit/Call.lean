import FlowTyping.Overload
import FlowTyping.Visit.Narrow
import FlowTyping.Visit.Place

/-!
# Calls

The declarations give the candidates of a call and overload resolution picks among them. The choice
decides how the arguments are used: a by-reference parameter writes its declared type back, and an
unknown callee may keep a reference to every place it is given. What a routine of the unit returns
is read from the results published so far, and the calling block is noted as waiting for it.
-/

namespace FlowTyping

open Visit

/-- What a function may do to the variables of its caller. -/
inductive LocalsUse where
  | writes
  | reads
  deriving DecidableEq, Repr, Inhabited

namespace LocalsUse

/-- How a function of the library uses the variables of its caller by their names. -/
def ofFunction? (name : Name) : Option LocalsUse :=
  match name.key with
  | "extract" | "parse_str" => some .writes
  | "compact" | "get_defined_vars" => some .reads
  | _ => none

end LocalsUse

/-- What a well-known function that nobody declared returns. -/
def builtinResult? (name : Name) : Typing (Option Mask) := do
  if (KindTest.ofFunction? name).isSome then return some .bool
  match name.key with
  | "extract" => return some .long
  | "parse_str" => return some .null
  | "compact" | "get_defined_vars" => return some (← KindTable.anyArray)
  | _ => return none

/-- Adds a routine to a list unless it is there. -/
def addRoutine (routines : List RoutineId) (r : RoutineId) : List RoutineId :=
  if r ∈ routines then routines else routines ++ [r]

/-- The routines that some bindings may reach, unless one of the bindings is missing. -/
def reachable? : List RoutineId → List Binding → Option (List RoutineId)
  | acc, [] => some acc
  | _, .missing :: _ => none
  | acc, .resolved r :: rest => reachable? (addRoutine acc r) rest
  | acc, .ambiguous rs :: rest => reachable? (rs.foldl addRoutine acc) rest

/-- One binding for a call on several classes of objects. -/
def combine (bindings : List Binding) : Binding :=
  match reachable? [] bindings with
  | none => .missing
  | some [] => .missing
  | some [r] => .resolved r
  | some rs => .ambiguous rs

variable (env : Setting) (v : Visitor)

/-- A place is visited only once the parameter it goes to is known. -/
def isDeferred (arg : Argument) : Visit Bool := do
  if arg.unpack then return false else return (← env.expr arg.value).isPlace

/-- What an argument may be. -/
def argumentType (arg : Argument) : Visit ArgumentType := do
  let m ← if ← isDeferred env arg then peek env arg.value else v.value arg.value .read
  return ⟨m, arg.unpack⟩

/-- What the arguments of a call may be, first to last. -/
def argumentTypes (args : List Argument) : Visit (List ArgumentType) :=
  args.mapM (argumentType env v)

/-- Resolves a call among candidates. -/
def bindCall (candidates : List RoutineId) (types : List ArgumentType) : Visit Binding := do
  let scope? ← selfClass?
  onTable (Overload.resolve env.decls (candidates.filterMap env.decls.routine?) types scope?)

/-- What calling a routine yields: its declared type, or what it is known to return. -/
def routineResult (r : RoutineDecl) : Visit Mask := do
  match r.returns? with
  | some hint => onTable (KindTable.hintMask hint)
  | none =>
    match env.published.find? r.id with
    | none => return .top
    | some summary =>
      let scene ← get
      let own := scene.facts.routine
      let (unstable, agenda) := scene.agenda.await r.id (own, env.block)
      let pending? :=
        if unstable && r.id != own && scene.pending?.isNone then some r.id else scene.pending?
      set { scene with agenda := agenda, pending? := pending? }
      onTable (KindTable.adopt summary)

/-- An argument without a place goes to a by-reference parameter. -/
def reportNoPlace (arg : Argument) (callee : RoutineId) (p : ParamDecl) : Visit Unit :=
  updateFacts (·.report ⟨arg.value, callee, p.name⟩)

/-- Passes one argument to a known routine. -/
def passArgument (r : RoutineDecl) (position : Nat) (arg : Argument) : Visit Unit := do
  let deferred ← isDeferred env arg
  match (r.paramAt? position).filter ParamDecl.byRef with
  | some p =>
    if deferred then
      let m ← onTable (KindTable.hintMask? p.hint?)
      let _ ← v.value arg.value (.write m)
    else reportNoPlace arg r.id p
  | none => if deferred then v.read arg.value

/-- Passes one argument to one of several routines. -/
def passToAny (rs : List RoutineDecl) (position : Nat) (arg : Argument) : Visit Unit := do
  let byRef := rs.filterMap fun r =>
    ((r.paramAt? position).filter ParamDecl.byRef).map fun p => (r.id, p)
  if ← isDeferred env arg then
    if byRef.isEmpty then v.read arg.value
    else
      let m ← byRef.foldlM
        (fun acc p => do return acc ∪ (← onTable (KindTable.hintMask? p.2.hint?))) .empty
      let _ ← v.value arg.value (.write m)
  else if arg.unpack then return ()
  else byRef.forM fun p => reportNoPlace arg p.1 p.2

/-- Passes one argument to an unknown routine. -/
def passToUnknown (arg : Argument) : Visit Unit := do
  if ← isDeferred env arg then
    let _ ← v.value arg.value .share

/-- Passes the arguments of a call whose callee is unknown. -/
def passAllToUnknown (id : ExprId) (args : List Argument) : Visit Binding := do
  args.forM (passToUnknown env v)
  updateFacts (·.setCallTarget id .dynamic)
  return .missing

/-- Passes the arguments of a call and notes its target. The binding that comes back is the one that
was used. -/
def passArguments (id : ExprId) (binding : Binding) (args : List Argument) : Visit Binding := do
  match binding with
  | .resolved callee =>
    match env.decls.routine? callee with
    | none => passAllToUnknown env v id args
    | some r =>
      args.zipIdx.forM fun arg => passArgument env v r arg.2 arg.1
      updateFacts (·.setCallTarget id (.resolved callee))
      return .resolved callee
  | .ambiguous callees =>
    let rs := callees.filterMap env.decls.routine?
    args.zipIdx.forM fun arg => passToAny env v rs arg.2 arg.1
    updateFacts (·.setCallTarget id (.ambiguous callees))
    return .ambiguous callees
  | .missing => passAllToUnknown env v id args

/-- What a call yields. -/
def bindingResult : Binding → Visit Mask
  | .resolved callee =>
    match env.decls.routine? callee with
    | some r => routineResult env r
    | none => return .top
  | .ambiguous callees =>
    (callees.filterMap env.decls.routine?).foldlM
      (fun acc r => do return acc ∪ (← routineResult env r)) .empty
  | .missing => return .top

/-- Makes a call under a binding. -/
def applyBinding (id : ExprId) (binding : Binding) (args : List Argument) : Visit Mask := do
  bindingResult env (← passArguments env v id binding args)

/-- A call whose callee is known only at run time. -/
def visitUnknownCall (id : ExprId) (args : List Argument) : Visit Mask := do
  let _ ← argumentTypes env v args
  applyBinding env v id .missing args

/-- A call to one of some candidates. -/
def visitKnownCall (id : ExprId) (candidates : List RoutineId) (args : List Argument) :
    Visit Mask := do
  let types ← argumentTypes env v args
  let binding ← bindCall env candidates types
  applyBinding env v id binding args

/-- A call to a function that nobody declared. -/
def visitUndeclaredCall (id : ExprId) (name : Name) (args : List Argument) : Visit Mask := do
  match ← onTable (builtinResult? name) with
  | some m =>
    v.readAll (args.map Argument.value)
    updateFacts (·.setCallTarget id .dynamic)
    return m
  | none => visitUnknownCall env v id args

/-- The variables that a function reads or writes by name are no longer known. -/
def useLocals (name : Name) : Visit Unit := do
  match LocalsUse.ofFunction? name with
  | some use =>
    forgetAll (use == .writes)
    updateFacts (·.markDynamicLocals)
  | none => return ()

/-- A call to a function by name. -/
def visitCall (id : ExprId) (name : Name) (args : List Argument) : Visit Mask := do
  let candidates := env.decls.functionsNamed name
  let m ←
    if candidates.isEmpty then visitUndeclaredCall env v id name args
    else visitKnownCall env v id candidates args
  useLocals name
  return m

/-- A call to a method of an object. -/
def visitMethodCall (id receiver : ExprId) (method : String) (args : List Argument) :
    Visit Mask := do
  let object ← v.value receiver .read
  let classes ← if object.any then pure [] else (← getTable).classes object
  let methods := classes.map fun cls => env.decls.method? cls method
  if methods.isEmpty || methods.any Option.isNone then visitUnknownCall env v id args
  else
    let types ← argumentTypes env v args
    let bindings ← methods.mapM fun m => bindCall env m.toList types
    applyBinding env v id (combine bindings) args

/-- A call to a method of a class. -/
def visitStaticCall (id : ExprId) (cls : ClassRef) (method : String) (args : List Argument) :
    Visit Mask := do
  match (← resolveClass env v cls).bind fun c => env.decls.method? c.1 method with
  | none => visitUnknownCall env v id args
  | some r => visitKnownCall env v id [r] args

/-- The arguments of a constructor. -/
def visitConstructor (id : ExprId) (cls : Name) (args : List Argument) : Visit Unit := do
  match env.decls.method? cls "__construct" with
  | none => v.readAll (args.map Argument.value)
  | some r =>
    let types ← argumentTypes env v args
    let binding ← bindCall env [r] types
    let _ ← passArguments env v id binding args

/-- A new object. -/
def visitNew (id : ExprId) (cls : ClassRef) (args : List Argument) : Visit Mask := do
  match ← resolveClass env v cls with
  | none =>
    let _ ← visitUnknownCall env v id args
    return .top
  | some (cls, late) =>
    visitConstructor env v id cls args
    onTable (KindTable.instanceOf cls late)

end FlowTyping
