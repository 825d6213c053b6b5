/-!
# Reading JSON

Reading proceeds on a list of characters. Each reader takes what it expects from the front and hands
back the rest, or nothing if the front is not as expected. `skipValue` passes over a whole value.
-/

namespace FlowTyping.Text.Json

/-- Blanks that may stand between any two parts. -/
def isBlank (c : Char) : Bool :=
  c == ' ' || c == '\n' || c == '\t' || c == '\r'

/-- Passes over blanks. -/
def skipBlanks (cs : List Char) : List Char :=
  cs.dropWhile isBlank

/-- Takes one character, after blanks. -/
def expect (c : Char) (cs : List Char) : Option (List Char) :=
  match skipBlanks cs with
  | d :: rest => if d = c then some rest else none
  | [] => none

/-- Takes a word letter by letter. -/
def expectWord : List Char → List Char → Option (List Char)
  | [], cs => some cs
  | c :: word, d :: cs => if d = c then expectWord word cs else none
  | _ :: _, [] => none

/-! ### Texts -/

/-- The value of a hexadecimal digit. -/
def hexDigit? (c : Char) : Option Nat :=
  if '0' ≤ c ∧ c ≤ '9' then some (c.toNat - '0'.toNat)
  else if 'a' ≤ c ∧ c ≤ 'f' then some (c.toNat - 'a'.toNat + 10)
  else if 'A' ≤ c ∧ c ≤ 'F' then some (c.toNat - 'A'.toNat + 10)
  else none

/-- The value of four hexadecimal digits. -/
def hex4? (a b c d : Char) : Option Nat := do
  let a ← hexDigit? a
  let b ← hexDigit? b
  let c ← hexDigit? c
  let d ← hexDigit? d
  return ((a * 16 + b) * 16 + c) * 16 + d

/-- The character of an escape of one letter. -/
def escape? (c : Char) : Option Char :=
  if c = '"' then some '"'
  else if c = '\\' then some '\\'
  else if c = '/' then some '/'
  else if c = 'b' then some (Char.ofNat 8)
  else if c = 'f' then some (Char.ofNat 12)
  else if c = 'n' then some '\n'
  else if c = 'r' then some '\r'
  else if c = 't' then some '\t'
  else none

/-- The first of two surrogates. -/
def isLeading (n : Nat) : Bool :=
  0xd800 ≤ n && n ≤ 0xdbff

/-- The second of two surrogates. -/
def isTrailing (n : Nat) : Bool :=
  0xdc00 ≤ n && n ≤ 0xdfff

/-- The character of a surrogate pair. -/
def pairChar (high low : Nat) : Char :=
  Char.ofNat (0x10000 + (high - 0xd800) * 0x400 + (low - 0xdc00))

/-- Reads a text up to its closing quote; the opening one has been taken. Surrogates must come in
pairs, and control characters must be escaped. -/
def readText : List Char → Option (List Char × List Char)
  | [] => none
  | '"' :: rest => some ([], rest)
  | '\\' :: 'u' :: a :: b :: c :: d :: rest => do
    let n ← hex4? a b c d
    if isTrailing n then none
    else if isLeading n then
      match rest with
      | '\\' :: 'u' :: e :: f :: g :: h :: rest => do
        let m ← hex4? e f g h
        if isTrailing m then
          let (text, rest) ← readText rest
          return (pairChar n m :: text, rest)
        else none
      | _ => none
    else
      let (text, rest) ← readText rest
      return (Char.ofNat n :: text, rest)
  | '\\' :: c :: rest => do
    let e ← escape? c
    let (text, rest) ← readText rest
    return (e :: text, rest)
  | c :: rest => do
    if c.toNat < 32 || c = '\\' then none
    else
      let (text, rest) ← readText rest
      return (c :: text, rest)

/-- Passes over a text up to its closing quote; lone surrogates do no harm. -/
def skipText : List Char → Option (List Char)
  | [] => none
  | '"' :: rest => some rest
  | '\\' :: 'u' :: a :: b :: c :: d :: rest => do
    let _ ← hex4? a b c d
    skipText rest
  | '\\' :: c :: rest => do
    let _ ← escape? c
    skipText rest
  | c :: rest => if c.toNat < 32 || c = '\\' then none else skipText rest

/-! ### Numbers -/

/-- Passes over digits, of which there must be one. -/
def skipDigits (cs : List Char) : Option (List Char) :=
  match cs with
  | c :: rest => if c.isDigit then some (rest.dropWhile Char.isDigit) else none
  | [] => none

/-- Passes over an integer without superfluous zeros. -/
def skipInteger (cs : List Char) : Option (List Char) :=
  match cs with
  | '0' :: c :: rest => if c.isDigit then none else some (c :: rest)
  | _ => skipDigits cs

/-- Passes over the digits after a point, of which there is at least one. -/
def skipFraction (cs : List Char) : Option (List Char) :=
  match cs with
  | '.' :: rest => skipDigits rest
  | _ => some cs

/-- Passes over a sign. -/
def skipSign (cs : List Char) : List Char :=
  match cs with
  | '+' :: rest => rest
  | '-' :: rest => rest
  | _ => cs

/-- Passes over an exponent. -/
def skipExponent (cs : List Char) : Option (List Char) :=
  match cs with
  | 'e' :: rest => skipDigits (skipSign rest)
  | 'E' :: rest => skipDigits (skipSign rest)
  | _ => some cs

/-- Passes over a number without its sign. -/
def skipNumber (cs : List Char) : Option (List Char) := do
  skipExponent (← skipFraction (← skipInteger cs))

/-- The number that decimal digits stand for. -/
def digitsValue (cs : List Char) : Nat :=
  cs.foldl (fun n c => n * 10 + (c.toNat - '0'.toNat)) 0

/-- Reads a natural number below a bound, without sign, fraction or exponent. -/
def readNat (bound : Nat) (cs : List Char) : Option (Nat × List Char) := do
  let rest ← skipInteger cs
  let n := digitsValue (cs.takeWhile Char.isDigit)
  match rest with
  | '.' :: _ => none
  | 'e' :: _ => none
  | 'E' :: _ => none
  | _ => if n < bound then return (n, rest) else none

/-- Reads a truth value. -/
def readBool (cs : List Char) : Option (Bool × List Char) :=
  match cs with
  | 't' :: rest => (expectWord ['r', 'u', 'e'] rest).map (true, ·)
  | 'f' :: rest => (expectWord ['a', 'l', 's', 'e'] rest).map (false, ·)
  | _ => none

/-! ### Values -/

mutual

/-- Passes over a value that starts after blanks. -/
def skipValueWithin : (fuel : Nat) → List Char → Option (List Char)
  | 0, _ => none
  | fuel + 1, cs =>
    match skipBlanks cs with
    | 'n' :: rest => expectWord ['u', 'l', 'l'] rest
    | 't' :: rest => expectWord ['r', 'u', 'e'] rest
    | 'f' :: rest => expectWord ['a', 'l', 's', 'e'] rest
    | '"' :: rest => skipText rest
    | '-' :: rest => skipNumber rest
    | '[' :: rest =>
      match expect ']' rest with
      | some rest => some rest
      | none => skipItemsWithin fuel rest
    | '\x7b' :: rest =>
      match expect '\x7d' rest with
      | some rest => some rest
      | none => skipFieldsWithin fuel rest
    | cs => skipNumber cs

/-- Passes over the items of a list and its closing bracket. -/
def skipItemsWithin : (fuel : Nat) → List Char → Option (List Char)
  | 0, _ => none
  | fuel + 1, cs => do
    let rest ← skipValueWithin fuel cs
    match skipBlanks rest with
    | ',' :: rest => skipItemsWithin fuel rest
    | ']' :: rest => some rest
    | _ => none

/-- Passes over the fields of a record and its closing brace. -/
def skipFieldsWithin : (fuel : Nat) → List Char → Option (List Char)
  | 0, _ => none
  | fuel + 1, cs => do
    let rest ← skipText (← expect '"' cs)
    let rest ← skipValueWithin fuel (← expect ':' rest)
    match skipBlanks rest with
    | ',' :: rest => skipFieldsWithin fuel rest
    | '\x7d' :: rest => some rest
    | _ => none

end

/-- Passes over a value. Each level of nesting takes a character, so two calls for each character
are enough. -/
def skipValue (cs : List Char) : Option (List Char) :=
  skipValueWithin (2 * cs.length + 2) cs

end FlowTyping.Text.Json
