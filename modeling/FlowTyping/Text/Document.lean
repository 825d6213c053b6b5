import FlowTyping.Text.Quoted

/-!
# Documents

Data as nested lists and records, and its layout as indented text: two blanks for each level, one
element on a line, and nothing but the brackets for an empty list or record.
-/

namespace FlowTyping.Text

/-- A tree of values that can be laid out as text. -/
inductive Document where
  | null
  | bool (value : Bool)
  | number (value : Nat)
  | text (value : String)
  | list (items : List Document)
  | record (fields : List (String × Document))
  deriving Repr, Inhabited

/-- Two hexadecimal digits. -/
def hexPair (n : Nat) : List Char :=
  let digits := hexDigits n
  if digits.length < 2 then '0' :: digits else digits

/-- One character between the quotes of a text. -/
def escapeChar (c : Char) : List Char :=
  if c = '"' then ['\\', '"']
  else if c = '\\' then ['\\', '\\']
  else if c = '\n' then ['\\', 'n']
  else if c = '\r' then ['\\', 'r']
  else if c = '\t' then ['\\', 't']
  else if c.toNat = 8 then ['\\', 'b']
  else if c.toNat = 12 then ['\\', 'f']
  else if c.toNat < 32 then ['\\', 'u', '0', '0'] ++ hexPair c.toNat
  else [c]

/-- A text in quotes, with escapes where they are needed. -/
def escape (s : String) : String :=
  String.ofList ('"' :: s.toList.flatMap escapeChar ++ ['"'])

/-- A new line at a level. -/
def newLine (level : Nat) : String :=
  String.ofList ('\n' :: List.replicate (2 * level) ' ')

/-- Items on lines of their own, between brackets. -/
def bracket (left right : String) (level : Nat) (items : List String) : String :=
  if items.isEmpty then left ++ right
  else
    left ++ String.intercalate "," (items.map (newLine (level + 1) ++ ·)) ++ newLine level ++ right

namespace Document

mutual

/-- A document as text, indented to a level. -/
def layout (level : Nat) : Document → String
  | .null => "null"
  | .bool value => if value then "true" else "false"
  | .number value => toString value
  | .text value => escape value
  | .list items => bracket "[" "]" level (layoutItems (level + 1) items)
  | .record fields => bracket "\x7b" "\x7d" level (layoutFields (level + 1) fields)

/-- The items of a list, each on lines of its own. -/
def layoutItems (level : Nat) : List Document → List String
  | [] => []
  | item :: rest => layout level item :: layoutItems level rest

/-- The fields of a record, each on lines of its own. -/
def layoutFields (level : Nat) : List (String × Document) → List String
  | [] => []
  | (name, value) :: rest =>
    (escape name ++ ": " ++ layout level value) :: layoutFields level rest

end

/-- The indented text. -/
def pretty (d : Document) : String :=
  d.layout 0

end Document

end FlowTyping.Text
