import FlowTyping.Text.ExtendingMark
import FlowTyping.Text.Unprintable

/-!
# Quoted text

A text between double quotes, with an escape for every character that would not show as itself.
-/

namespace FlowTyping.Text

/-- A character is written by its code when nothing would show for it, or when it would merge with
the character before it. -/
def isWrittenByCode (c : Char) : Bool :=
  isExtendingMark c || isUnprintable c

/-- The digits of a number in lower-case hexadecimal, without leading zeros. -/
def hexDigits (n : Nat) : List Char :=
  Nat.toDigits 16 n

/-- One character as it stands between the quotes. -/
def quoteChar (c : Char) : List Char :=
  if c = '"' then ['\\', '"']
  else if c = '\\' then ['\\', '\\']
  else if c = '\t' then ['\\', 't']
  else if c = '\n' then ['\\', 'n']
  else if c = '\r' then ['\\', 'r']
  else if c.toNat = 0 then ['\\', '0']
  else if isWrittenByCode c then ['\\', 'u', '\x7b'] ++ hexDigits c.toNat ++ ['\x7d']
  else [c]

/-- The text between double quotes. -/
def quote (s : String) : String :=
  String.ofList ('"' :: s.toList.flatMap quoteChar ++ ['"'])

end FlowTyping.Text
