import FlowTyping.Options.Basic
import FlowTyping.Text.Json

/-!
# Reading options

Options are written as a JSON record whose fields may be missing, or as a list of their values in
order. Unknown fields are passed over; a known field may stand only once.
-/

namespace FlowTyping.Options

open Text.Json

/-- The fields read so far. -/
structure Fields where
  kindCap? : Option Nat
  maxIterations? : Option Nat
  deferOnPending? : Option Bool
  deriving DecidableEq, Repr, Inhabited

namespace Fields

/-- No field has been read. -/
def none : Fields :=
  ⟨.none, .none, .none⟩

/-- Missing fields have their default value. -/
def options (f : Fields) : Options :=
  ⟨f.kindCap?.getD Options.default.kindCap, f.maxIterations?.getD Options.default.maxIterations,
    f.deferOnPending?.getD Options.default.deferOnPending⟩

end Fields

/-- Numbers have to fit in 64 bits. -/
def numberBound : Nat :=
  18446744073709551616

/-- Reads the number of kinds. A field may be given once only. -/
def readKindCap (f : Fields) (cs : List Char) : Option (Fields × List Char) := do
  if f.kindCap?.isSome then failure
  let (n, rest) ← readNat numberBound (skipBlanks cs)
  return ({ f with kindCap? := some n }, rest)

/-- Reads the limit on visits. A field may be given once only. -/
def readMaxIterations (f : Fields) (cs : List Char) : Option (Fields × List Char) := do
  if f.maxIterations?.isSome then failure
  let (n, rest) ← readNat numberBound (skipBlanks cs)
  return ({ f with maxIterations? := some n }, rest)

/-- Reads whether blocks are held back. A field may be given once only. -/
def readDeferOnPending (f : Fields) (cs : List Char) : Option (Fields × List Char) := do
  if f.deferOnPending?.isSome then failure
  let (b, rest) ← readBool (skipBlanks cs)
  return ({ f with deferOnPending? := some b }, rest)

/-- Reads the value of a field. -/
def readField (f : Fields) (key : String) (cs : List Char) : Option (Fields × List Char) :=
  match key with
  | "type_ref_cap" => readKindCap f cs
  | "max_iterations" => readMaxIterations f cs
  | "defer_on_pending_callee" => readDeferOnPending f cs
  | _ => (skipValue cs).map (f, ·)

/-- Reads the fields of a record and its closing brace. -/
def readRecord : (fuel : Nat) → Fields → List Char → Option (Fields × List Char)
  | 0, _, _ => none
  | fuel + 1, f, cs => do
    let (key, rest) ← readText (← expect '"' cs)
    let (f, rest) ← readField f (String.ofList key) (← expect ':' rest)
    match skipBlanks rest with
    | ',' :: rest => readRecord fuel f rest
    | '\x7d' :: rest => some (f, rest)
    | _ => none

/-- Reads values in order and the closing bracket. -/
def readValues : List (Fields → List Char → Option (Fields × List Char)) → Fields → List Char →
    Option (Fields × List Char)
  | [], _, _ => none
  | reader :: readers, f, cs => do
    let (f, rest) ← reader f cs
    match skipBlanks rest with
    | ',' :: rest => readValues readers f rest
    | ']' :: rest => some (f, rest)
    | _ => none

/-- Reads the fields in either form. -/
def readFields (cs : List Char) : Option (Fields × List Char) :=
  match skipBlanks cs with
  | '\x7b' :: rest =>
    match expect '\x7d' rest with
    | some rest => some (.none, rest)
    | none => readRecord rest.length .none rest
  | '[' :: rest =>
    match expect ']' rest with
    | some rest => some (.none, rest)
    | none => readValues [readKindCap, readMaxIterations, readDeferOnPending] .none rest
  | _ => none

/-- Reads options; the cap on kinds is cut down to what a mask can hold. -/
def ofJson? (text : String) : Option Options := do
  let (f, rest) ← readFields text.toList
  if !(skipBlanks rest).isEmpty then failure
  return f.options.withKindCap f.options.kindCap

/-- What is said about a text that holds no options. -/
def unreadable : String :=
  "Failed to parse analysis options"

end FlowTyping.Options
