import FlowTyping.Mask.Basic
import FlowTyping.Text.Quoted

/-!
# Masks as words

A mask is one word of 64 bits: bits 0 to 59 are the kinds, then come "any value", "subclasses",
"no value" and "shared". Any word is the word of a mask. A word is written in hexadecimal.
-/

namespace FlowTyping

/-- A mask as a word of 64 bits: sixty kinds and four marks. -/
abbrev Word := BitVec 64

namespace Word

/-- The bits of the kinds. -/
def typeBits : Word :=
  (1#64 <<< kindLimit) - 1#64

/-- The bit of "any value". -/
def anyBit : Word :=
  1#64 <<< 60

/-- The word allows any value. -/
def isAny (w : Word) : Bool :=
  w &&& anyBit != 0#64

/-- The word of one kind, for a number that a word has a bit for. -/
def fromIndex (i : Nat) : Except Fault Word :=
  if i < kindLimit then .ok (1#64 <<< i) else .error (.kindIndex i)

/-- Whether the word has a kind; the flags above the kinds are none. -/
def hasType (w : Word) (i : Nat) : Bool :=
  decide (i < kindLimit) && w &&& (1#64 <<< i) != 0#64

/-- How many kinds the word has. -/
def typeCount (w : Word) : Nat :=
  (w &&& typeBits).cpop.toNat

/-- The numbers of the kinds in the word, in increasing order. -/
def types (w : Word) : List Nat :=
  Mask.walk (w &&& typeBits)

/-- Any value absorbs every kind. -/
def normalize (w : Word) : Word :=
  if w.isAny then w &&& ~~~typeBits else w

/-- The values of either word, with the flags of both. -/
def union (a b : Word) : Word :=
  normalize (a ||| b)

end Word

namespace Mask

/-- The word of a mask. -/
def toWord (m : Mask) : Word :=
  BitVec.ofBool m.ref ++ BitVec.ofBool m.void ++ BitVec.ofBool m.subclasses ++
    BitVec.ofBool m.any ++ m.kinds

/-- The mask of a word, taken as it is. -/
def ofWord (w : Word) : Mask :=
  ⟨w.extractLsb' 0 60, w.getLsbD 60, w.getLsbD 61, w.getLsbD 62, w.getLsbD 63⟩

/-- A word holds the whole mask. -/
theorem ofWord_toWord (m : Mask) : ofWord m.toWord = m := by
  obtain ⟨kinds, any, subclasses, void, ref⟩ := m
  ext i hi
  · simp only [ofWord, toWord, BitVec.getElem_extractLsb', BitVec.getLsbD_append]
    simp [hi]
  all_goals
    simp only [ofWord, toWord, BitVec.getLsbD_append]
    simp

/-- A mask as it is shown while debugging: its word in hexadecimal digits. -/
def toHex (m : Mask) : String :=
  "0x" ++ String.ofList (Text.hexDigits m.toWord.toNat)

/-- The value of a hexadecimal digit. -/
def hexValue? (c : Char) : Option Nat :=
  if '0' ≤ c ∧ c ≤ '9' then some (c.toNat - '0'.toNat)
  else if 'a' ≤ c ∧ c ≤ 'f' then some (c.toNat - 'a'.toNat + 10)
  else if 'A' ≤ c ∧ c ≤ 'F' then some (c.toNat - 'A'.toNat + 10)
  else none

/-- Reads `0x` and hexadecimal digits. -/
def ofHex? (s : String) : Option Mask :=
  match s.toList with
  | '0' :: 'x' :: digits =>
    (digits.foldlM (fun n c => (hexValue? c).map (n * 16 + ·)) 0).map fun n =>
      ofWord (BitVec.ofNat _ n)
  | _ => none

/-- The word together with what it is. -/
def inspect (m : Mask) : String :=
  "TypeRefMask(" ++ m.toHex ++ ")"

end Mask

end FlowTyping
