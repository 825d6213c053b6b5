import FlowTyping.Text.Quoted

/-!
# Names

Functions, classes and methods are named without regard to the case of ASCII letters. A name keeps
the spelling it was written with; two names are the same when their keys agree.
-/

namespace FlowTyping

/-- A name as it is written in the code. -/
structure Name where
  text : String
  deriving Repr, Inhabited

namespace Name

/-- Lower-cases the ASCII letters of a text and leaves every other character alone. -/
def foldCase (s : String) : String :=
  String.ofList (s.toList.map Char.toLower)

/-- What names are compared by. -/
def key (n : Name) : String :=
  foldCase n.text

instance : BEq Name :=
  ⟨fun a b => a.key == b.key⟩

/-- Whether a text is a spelling of the name. -/
def isSpelled (n : Name) (s : String) : Bool :=
  n.key == foldCase s

/-- A name in quotes, as texts for debugging write it. -/
def quoted (n : Name) : String :=
  Text.quote n.text

/-- Names are the same when their keys are. -/
theorem beq_iff {a b : Name} : (a == b) = true ↔ a.key = b.key := by
  simp [BEq.beq]

instance : ReflBEq Name :=
  ⟨beq_iff.2 rfl⟩

instance : PartialEquivBEq Name where
  symm h := beq_iff.2 (beq_iff.1 h).symm
  trans h h' := beq_iff.2 ((beq_iff.1 h).trans (beq_iff.1 h'))

end Name

end FlowTyping
