import FlowTyping.Declaration.Hint
import FlowTyping.OrderedMap

/-!
# Declarations

What a unit may call and instantiate: routines with their parameters, and classes with their bases,
interfaces, properties and methods.
-/

namespace FlowTyping

/-- From where a member of a class may be used. -/
inductive Visibility where
  | isPublic
  | isProtected
  | isPrivate
  deriving DecidableEq, Repr, Inhabited

/-- A declared parameter. -/
structure ParamDecl where
  name : String
  hint? : Option Hint
  byRef : Bool
  /-- Takes every argument from its position on. -/
  variadic : Bool
  optional : Bool
  /-- The default value is `null`. -/
  nullDefault : Bool
  deriving Repr, Inhabited

namespace ParamDecl

/-- A parameter of any type that is passed by value and has no default. -/
def new (name : String) : ParamDecl :=
  ⟨name, none, false, false, false, false⟩

/-- The parameter with a declared type. -/
def typed (p : ParamDecl) (hint : Hint) : ParamDecl :=
  { p with hint? := some hint }

/-- The parameter when it is passed by reference. -/
def asByRef (p : ParamDecl) : ParamDecl :=
  { p with byRef := true }

/-- The parameter when it takes all further arguments, of which there may be none. -/
def asVariadic (p : ParamDecl) : ParamDecl :=
  { p with variadic := true, optional := true }

/-- The parameter when it has a default. -/
def asOptional (p : ParamDecl) : ParamDecl :=
  { p with optional := true }

/-- The parameter when its default is `null`. -/
def asNullDefault (p : ParamDecl) : ParamDecl :=
  { p with optional := true, nullDefault := true }

end ParamDecl

/-- A function or a method. -/
structure RoutineDecl where
  id : RoutineId
  name : Name
  /-- The declaring class of a method. -/
  cls? : Option Name
  params : List ParamDecl
  returns? : Option Hint
  visibility : Visibility
  isStatic : Bool
  deriving Repr, Inhabited

namespace RoutineDecl

/-- Whether the last parameter takes all further arguments. -/
def isVariadic (r : RoutineDecl) : Bool :=
  match r.params.getLast? with
  | some p => p.variadic
  | none => false

/-- How many arguments a call has to give. -/
def mandatoryCount (r : RoutineDecl) : Nat :=
  (r.params.takeWhile fun p => !p.optional && !p.variadic).length

/-- How many parameters take one argument each. -/
def fixedCount (r : RoutineDecl) : Nat :=
  r.params.countP fun p => !p.variadic

/-- The parameter that takes the argument at a position. -/
def paramAt? (r : RoutineDecl) (position : Nat) : Option ParamDecl :=
  match r.params[position]? with
  | some p => some p
  | none => r.params.getLast?.filter fun p => p.variadic

/-- The name of a routine as it is shown to the user, after that of its class. -/
def display (r : RoutineDecl) : String :=
  match r.cls? with
  | some cls => cls.text ++ "::" ++ r.name.text
  | none => r.name.text

end RoutineDecl

/-- A declared field of a class. -/
structure FieldDecl where
  hint? : Option Hint
  isStatic : Bool
  visibility : Visibility
  deriving Repr, Inhabited

/-- A declared class or interface. -/
structure ClassDecl where
  name : Name
  base? : Option Name
  interfaces : List Name
  fields : OrderedMap String FieldDecl
  /-- Methods by lower-case name. -/
  methods : OrderedMap String RoutineId
  deriving Repr, Inhabited

namespace ClassDecl

/-- A class that extends nothing and has no members. -/
def new (name : Name) : ClassDecl :=
  ⟨name, none, [], .empty, .empty⟩

/-- The base class and the interfaces. -/
def parents (c : ClassDecl) : List Name :=
  c.base?.toList ++ c.interfaces

/-- Adds methods that the class does not have yet. -/
def inheritMethods (c : ClassDecl) (methods : OrderedMap String RoutineId) : ClassDecl :=
  { c with methods := methods.entries.foldl (fun acc e => acc.insertNew e.1 e.2) c.methods }

end ClassDecl

/-- All that a program declares. -/
structure Declarations where
  /-- Every routine, at the position that is its number. -/
  routines : Array RoutineDecl
  /-- Functions by the key of their name; conditional declarations share a name. -/
  functions : OrderedMap String (List RoutineId)
  /-- Classes by the key of their name. -/
  classes : OrderedMap String ClassDecl
  deriving Repr, Inhabited

namespace Declarations

/-- A program without declarations. -/
def empty : Declarations :=
  ⟨#[], .empty, .empty⟩

/-! ### Declaring -/

/-- Adds a routine and gives it the next number. -/
def addRoutine (d : Declarations) (r : RoutineDecl) : RoutineId × Declarations :=
  let id := d.routines.size
  (id, { d with routines := d.routines.push { r with id := id } })

/-- Declares a function under the next number. Earlier functions of the same name stay. -/
def declareFunction (d : Declarations) (r : RoutineDecl) : RoutineId × Declarations :=
  let (id, d) := d.addRoutine r
  let ids := (d.functions.find? r.name.key).getD []
  (id, { d with functions := d.functions.insert r.name.key (ids ++ [id]) })

/-- Declares a method, and its class if nobody has declared that yet. -/
def declareMethod (d : Declarations) (cls : Name) (r : RoutineDecl) : RoutineId × Declarations :=
  let (id, d) := d.addRoutine { r with cls? := some cls }
  let c := (d.classes.find? cls.key).getD (.new cls)
  let c := { c with methods := c.methods.insert r.name.key id }
  (id, { d with classes := d.classes.insert cls.key c })

/-- Declares a routine that no call can name, such as top-level code or a closure. -/
def declareUnnamed (d : Declarations) (name : Name) (cls? : Option Name) :
    RoutineId × Declarations :=
  d.addRoutine ⟨0, name, cls?, [], none, .isPublic, false⟩

/-- Declares a class; methods that were declared for it before stay. -/
def declareClass (d : Declarations) (c : ClassDecl) : Declarations :=
  match d.classes.find? c.name.key with
  | some old => { d with classes := d.classes.insert c.name.key (c.inheritMethods old.methods) }
  | none => { d with classes := d.classes.insert c.name.key c }

/-! ### Looking up -/

/-- The routine with a number. -/
def routine? (d : Declarations) (id : RoutineId) : Option RoutineDecl :=
  d.routines[id]?

/-- All functions of a name, in the order in which they were declared. -/
def functionsNamed (d : Declarations) (name : Name) : List RoutineId :=
  (d.functions.find? name.key).getD []

/-- The class of a name, in any spelling. -/
def class? (d : Declarations) (name : Name) : Option ClassDecl :=
  d.classes.find? name.key

end Declarations

end FlowTyping
