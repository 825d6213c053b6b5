import FlowTyping.Mask.Basic

/-!
# Options of a run
-/

namespace FlowTyping

/-- What a caller can choose. -/
structure Options where
  /-- Kinds per routine before further ones count as any value. -/
  kindCap : Nat
  /-- Block visits before a run gives up. -/
  maxIterations : Nat
  /-- Hold back the successors of a block while a routine that it calls may still change. -/
  deferOnPending : Bool
  deriving DecidableEq, Repr, Inhabited

namespace Options

/-- The options of a caller that chooses nothing. -/
def default : Options :=
  ⟨kindLimit, 100000, true⟩

/-- The options with another number of kinds, which masks limit to sixty. -/
def withKindCap (o : Options) (cap : Nat) : Options :=
  { o with kindCap := min cap kindLimit }

/-- The options with another limit on visits. -/
def withMaxIterations (o : Options) (n : Nat) : Options :=
  { o with maxIterations := n }

/-- The options under which no block is held back. -/
def withoutDeferral (o : Options) : Options :=
  { o with deferOnPending := false }

end Options

end FlowTyping
