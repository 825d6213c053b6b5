import FlowTyping.Declaration.Hierarchy

/-!
# Overload resolution

Picks the routine that a call reaches among several candidates, by what it costs to pass the
arguments. Candidates that the calling class may not see, that take another number of arguments or
that refuse an argument are out; of the rest the cheapest wins, and among equally cheap ones the one
whose class derives from the classes of all others.
-/

namespace FlowTyping

/-- What it costs to pass a value to a parameter, cheapest first. -/
inductive Cost where
  | pass
  /-- `long` to `double`. -/
  | widening
  /-- A conversion between scalars, or a check at run time. -/
  | cast
  /-- A known value goes to a parameter without a type. -/
  | wrap
  | incompatible
  deriving DecidableEq, Repr, Inhabited

namespace Cost

/-- How bad a conversion is, from none at all to impossible. -/
def rank : Cost → Nat
  | .pass => 0
  | .widening => 1
  | .cast => 2
  | .wrap => 3
  | .incompatible => 4

/-- The worse of two conversions. -/
def worse (a b : Cost) : Cost :=
  if a.rank ≤ b.rank then b else a

end Cost

/-- One argument of a call. -/
structure ArgumentType where
  mask : Mask
  /-- Stands for an unknown number of arguments. -/
  unpack : Bool
  deriving DecidableEq, Repr, Inhabited

/-- What a call is bound to. -/
inductive Binding where
  | resolved (routine : RoutineId)
  | ambiguous (routines : List RoutineId)
  /-- No candidate fits, or the arguments cannot be told apart by position. -/
  | missing
  deriving DecidableEq, Repr, Inhabited

/-- The worst argument of a call, then the number of arguments that are not passed as they are. -/
structure Score where
  worst : Cost
  conversions : Nat
  deriving DecidableEq, Repr, Inhabited

namespace Score

/-- Whether a score is as good as another one: the worst conversion counts first, then how many
there are. -/
def le (a b : Score) : Bool :=
  a.worst.rank < b.worst.rank || (a.worst.rank == b.worst.rank && a.conversions ≤ b.conversions)

/-- The smallest of some scores. -/
def least? : List Score → Option Score
  | [] => none
  | s :: rest =>
    match least? rest with
    | none => some s
    | some best => if s.le best then some s else some best

/-- The score with one more argument. -/
def add (s : Score) (c : Cost) : Score :=
  ⟨s.worst.worse c, if c = .pass then s.conversions else s.conversions + 1⟩

end Score

namespace Overload

variable (d : Declarations)

/-- A parameter mask has a kind that passes a test. -/
def accepts (t : KindTable) (param : Mask) (test : Kind → Bool) : Bool :=
  param.members.any fun i => (t.kind? i).any test

/-- The cost of passing a value of one kind to a parameter with known kinds. -/
def kindCost (t : KindTable) (kind : Kind) (index : Nat) (param : Mask) : Cost :=
  if param.has index then .pass
  else
    match kind with
    | .array _ => if accepts t param Kind.isArray then .pass else .incompatible
    | .object cls =>
      let related := fun
        | Kind.object target => d.isSubclass cls target
        | _ => false
      if accepts t param related then .pass else .incompatible
    | .long =>
      if accepts t param (· == .double) then .widening
      else if accepts t param Kind.isScalar then .cast
      else .incompatible
    | .bool | .double | .string => if accepts t param Kind.isScalar then .cast else .incompatible
    | .null | .resource => .incompatible

/-- The cost of passing a value to a parameter; `none` is a parameter without a type. -/
def cost (t : KindTable) (arg : Mask) (param? : Option Mask) : Cost :=
  match param?.filter fun param => !param.any with
  | none => if arg.any then .pass else .wrap
  | some param =>
    if arg.any then .cast
    else
      arg.members.foldl
        (fun worst i =>
          match t.kind? i with
          | some kind => worst.worse (kindCost d t kind i param)
          | none => .incompatible)
        .pass

/-- The mask that a parameter declares. -/
def acceptedMask? (p : ParamDecl) : Typing (Option Mask) := do
  match p.hint? with
  | none => return none
  | some hint =>
    let m ← KindTable.hintMask hint
    return some (if p.nullDefault then m ∪ .null else m)

/-- The cost of passing one argument to the parameter at its position. -/
def argumentCost (r : RoutineDecl) (position : Nat) (arg : ArgumentType) : Typing Cost := do
  match r.paramAt? position with
  | none => return .incompatible
  | some p =>
    let param? ← acceptedMask? p
    return cost d (← get) arg.mask param?

/-- Scores the arguments from a position on. -/
def scoreFrom (r : RoutineDecl) : Nat → Score → List ArgumentType → Typing Score
  | _, s, [] => return s
  | position, s, arg :: args => do
    let c ← argumentCost d r position arg
    scoreFrom r (position + 1) (s.add c) args

/-- What it takes to pass some arguments to a candidate. -/
def score (r : RoutineDecl) (args : List ArgumentType) : Typing Score :=
  scoreFrom d r 0 ⟨.pass, 0⟩ args

/-- Whether code of a class, or of none, may call a routine. -/
def isVisible (scope? : Option Name) (r : RoutineDecl) : Bool :=
  match r.cls? with
  | none => true
  | some declaring =>
    match r.visibility, scope? with
    | .isPublic, _ => true
    | .isPrivate, some scope => scope == declaring
    | .isProtected, some scope => d.isSubclass scope declaring || d.isSubclass declaring scope
    | _, none => false

/-- The visible candidates that take a number of arguments: those of fixed arity, and only without
any such the variadic ones. -/
def applicable (scope? : Option Name) (candidates : List RoutineDecl) (count : Nat) :
    List RoutineDecl :=
  let visible := candidates.filter (isVisible d scope?)
  let fixed := visible.filter fun r =>
    !r.isVariadic && r.mandatoryCount ≤ count && count ≤ r.fixedCount
  if fixed.isEmpty then visible.filter fun r => r.isVariadic && r.mandatoryCount ≤ count
  else fixed

/-- The first candidate whose class strictly derives from the class of every other one. -/
def mostDerived? (tied : List RoutineDecl) : Option RoutineDecl :=
  tied.find? fun r =>
    match r.cls? with
    | none => false
    | some cls =>
      tied.all fun other =>
        other.id == r.id ||
          match other.cls? with
          | some base => base != cls && d.isSubclass cls base
          | none => false

/-- Decides between the candidates with the best score. -/
def decideTie : List RoutineDecl → Binding
  | [] => .missing
  | [only] => .resolved only.id
  | tied =>
    match mostDerived? d tied with
    | some r => .resolved r.id
    | none => .ambiguous (tied.map RoutineDecl.id)

/-- The candidates that share the smallest score. -/
def cheapest (scored : List (Score × RoutineDecl)) : List RoutineDecl :=
  match Score.least? (scored.map Prod.fst) with
  | none => []
  | some best => (scored.filter fun s => s.1 == best).map Prod.snd

/-- Binds a call with some arguments, made in a class or in none. -/
def resolve (candidates : List RoutineDecl) (args : List ArgumentType) (scope? : Option Name) :
    Typing Binding := do
  if candidates.isEmpty || args.any ArgumentType.unpack then return .missing
  let scored ← (applicable d scope? candidates args.length).mapM fun r => do
    return (← score d r args, r)
  return decideTie d (cheapest (scored.filter fun s => s.1.worst != .incompatible))

end Overload

end FlowTyping
