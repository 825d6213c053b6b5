import FlowTyping.Mask.Basic

/-!
# Flow states

What is known about every variable of a routine at one point. States of one routine are joined where
paths meet: a variable may hold what it holds on either path, is assigned if it is on both, and is
shared if it is on either.
-/

namespace FlowTyping

/-- What is known about one variable. -/
@[ext]
structure Slot where
  mask : Mask
  /-- Every path to this point assigns the variable. -/
  assigned : Bool
  /-- Something else may write to the variable through a reference. -/
  shared : Bool
  /-- A `long` in the variable is below the largest one. -/
  belowMax : Bool
  deriving DecidableEq, Repr, Inhabited

namespace Slot

/-- A variable that nothing has been assigned to. -/
def unset : Slot :=
  ⟨.empty, false, false, false⟩

/-- The mask of every shared variable. -/
def sharedMask : Mask :=
  Mask.top.withRef true

/-- What either slot says; a shared variable may hold anything. -/
def join (a b : Slot) : Slot :=
  let shared := a.shared || b.shared
  ⟨if shared then sharedMask else a.mask ∪ b.mask, a.assigned && b.assigned, shared,
    a.belowMax && b.belowMax⟩

/-- After an assignment; a shared variable may hold anything all the same. -/
def assign (m : Mask) (s : Slot) : Slot :=
  ⟨if s.shared then sharedMask else m.withRef false, true, s.shared, false⟩

/-- After a reference to the variable was taken. -/
def share (_ : Slot) : Slot :=
  ⟨sharedMask, true, true, false⟩

/-- The variable is assigned, whatever it may hold. -/
def markAssigned (s : Slot) : Slot :=
  { s with assigned := true }

/-- A test has shown what the variable holds; what others may write is never narrowed. -/
def narrow (m : Mask) (s : Slot) : Slot :=
  if s.shared then s else { s with mask := m.withRef false }

/-- Notes whether a `long` is below the largest one; of a shared variable nothing is known. -/
def setBelowMax (b : Bool) (s : Slot) : Slot :=
  { s with belowMax := b && !s.shared }

/-- After code that may write to any variable, and may share it. -/
def forget (share : Bool) (s : Slot) : Slot :=
  ⟨Mask.top.withRef (s.shared || share), true, s.shared || share, false⟩

end Slot

/-- What is known about the variables of a routine at one point of its code. -/
@[ext]
structure State where
  context : ContextId
  slots : List Slot
  deriving DecidableEq, Repr, Inhabited

namespace State

/-- No variable is assigned. -/
def new (context : ContextId) (vars : Nat) : State :=
  ⟨context, List.replicate vars .unset⟩

/-- What is known about a variable. -/
def slot (s : State) (v : VarId) : Except Fault Slot :=
  match s.slots[v]? with
  | some slot => .ok slot
  | none => .error (.missingVariable v)

/-- Changes what is known about one variable. -/
def update (s : State) (v : VarId) (f : Slot → Slot) : Except Fault State :=
  if v < s.slots.length then .ok { s with slots := s.slots.modify v f }
  else .error (.missingVariable v)

/-- A variable is assigned a value of a mask. -/
def assign (s : State) (v : VarId) (m : Mask) : Except Fault State :=
  s.update v (Slot.assign m)

/-- Something else may write to a variable from now on. -/
def share (s : State) (v : VarId) : Except Fault State :=
  s.update v Slot.share

/-- A variable is assigned, whatever it may hold. -/
def markAssigned (s : State) (v : VarId) : Except Fault State :=
  s.update v Slot.markAssigned

/-- A variable is removed. -/
def unset (s : State) (v : VarId) : Except Fault State :=
  s.update v fun _ => .unset

/-- A variable has been tested and is of a mask. -/
def narrow (s : State) (v : VarId) (m : Mask) : Except Fault State :=
  s.update v (Slot.narrow m)

/-- Notes whether a `long` in a variable is below the largest one. -/
def setBelowMax (s : State) (v : VarId) (b : Bool) : Except Fault State :=
  s.update v (Slot.setBelowMax b)

/-- Every variable may hold anything. -/
def forgetAll (s : State) (share : Bool) : State :=
  { s with slots := s.slots.map (Slot.forget share) }

/-- Whether two states are about the same variables of the same routine. -/
def compatible (a b : State) : Bool :=
  a.context == b.context && a.slots.length == b.slots.length

/-- Joins other slots into the slots of a state one by one. The flag is set once a slot has
changed. -/
def absorbSlots : (changed : Bool) → List Slot → List Slot → Bool × List Slot
  | changed, slot :: rest, other :: others =>
    let joined := slot.join other
    let tail := absorbSlots (changed || slot != joined) rest others
    (tail.1, joined :: tail.2)
  | changed, slots, _ => (changed, slots)

/-- Joins another state into a state, and tells whether anything has changed. -/
def absorb (a b : State) : Except Fault (Bool × State) :=
  if a.compatible b then
    let absorbed := absorbSlots false a.slots b.slots
    .ok (absorbed.1, { a with slots := absorbed.2 })
  else .error (.foreignState a.context b.context)

/-- The state where two paths meet. -/
def join (a b : State) : Except Fault State :=
  Prod.snd <$> a.absorb b

/-- The first state allows everything that the second one allows. -/
def subsumes (a b : State) : Except Fault Bool := do
  let joined ← a.join b
  return joined == a

/-! ### Joining slot by slot -/

/-- Every slot is joined. The flag is set if it was before, or if the slots are no longer the
same. -/
theorem absorbSlots_eq {slots others : List Slot} (changed : Bool)
    (h : slots.length = others.length) :
    absorbSlots changed slots others =
      (changed || List.zipWith Slot.join slots others != slots,
        List.zipWith Slot.join slots others) := by
  induction slots generalizing others changed with
  | nil => simp [absorbSlots]
  | cons slot rest ih =>
      cases others with
      | nil => cases h
      | cons other others =>
          have hflag : (slot.join other :: List.zipWith Slot.join rest others != slot :: rest) =
              (slot != slot.join other || List.zipWith Slot.join rest others != rest) := by
            rw [bne, List.cons_beq_cons, Bool.not_and, bne_comm]
            rfl
          rw [absorbSlots, ih _ (Nat.succ.inj h), List.zipWith_cons_cons, hflag, Bool.or_assoc]

/-- Joining a state into a state changes it just if the join is another state. -/
theorem absorb_eq (a b : State) :
    a.absorb b = (do
      let joined ← a.join b
      return (joined != a, joined)) := by
  rw [join, absorb]
  split
  · rename_i hcompatible
    have hlength : a.slots.length = b.slots.length := by
      rw [compatible, Bool.and_eq_true] at hcompatible
      exact beq_iff_eq.1 hcompatible.2
    have hflag (slots : List Slot) :
        (({ a with slots := slots } : State) != a) = (slots != a.slots) := by
      rw [Bool.eq_iff_iff, bne_iff_ne, bne_iff_ne, ne_eq, State.ext_iff]
      simp
    rw [absorbSlots_eq false hlength, Bool.false_or]
    change _ = Except.ok (_ != a, _)
    rw [hflag]
  · rfl

/-- A join succeeds for states of the same variables, and joins slot by slot. -/
theorem join_eq (a b : State) :
    a.join b =
      if a.compatible b then .ok ⟨a.context, List.zipWith Slot.join a.slots b.slots⟩
      else .error (.foreignState a.context b.context) := by
  rw [join, absorb]
  split
  · rename_i hcompatible
    rw [compatible, Bool.and_eq_true] at hcompatible
    rw [absorbSlots_eq false (beq_iff_eq.1 hcompatible.2)]
    rfl
  · rfl

end State

end FlowTyping
