import FlowTyping.Proofs.Body
import FlowTyping.Proofs.Kind.Typing

/-!
# Scenes that fit a body

A state fits a kind table when it is about the variables of one body and all its masks fit. A scene
fits a body when its state and its facts do; every step of a visit keeps that.
-/

namespace FlowTyping

namespace Slot

/-- The mask fits a table with `n` kinds, and a shared slot says nothing. -/
structure Fits (s : Slot) (n : Nat) : Prop where
  mask : s.mask.Fits n
  shared : s.shared = true → s.mask = sharedMask

namespace Fits

variable {s s' : Slot} {n n' : Nat} {m : Mask}

theorem proper (h : s.Fits n) : s.Proper :=
  ⟨h.mask.normal, h.shared⟩

theorem mono (h : s.Fits n) (hn : n ≤ n') : s.Fits n' :=
  ⟨h.mask.mono hn, h.shared⟩

theorem unset : Slot.unset.Fits n :=
  ⟨Mask.Fits.empty, fun h => nomatch h⟩

theorem assign (s : Slot) (hm : m.Fits n) : (s.assign m).Fits n := by
  cases hs : s.shared with
  | true =>
      exact ⟨by simp [Slot.assign, hs, Mask.fits_sharedMask], fun _ => by simp [Slot.assign, hs]⟩
  | false => exact ⟨by simpa [Slot.assign, hs] using hm.withRef false, by simp [Slot.assign, hs]⟩

theorem share (s : Slot) : s.share.Fits n :=
  ⟨Mask.fits_sharedMask, fun _ => rfl⟩

theorem markAssigned (h : s.Fits n) : s.markAssigned.Fits n :=
  ⟨h.mask, h.shared⟩

theorem narrow (h : s.Fits n) (hm : m.Fits n) : (s.narrow m).Fits n := by
  rw [Slot.narrow]
  split
  · exact h
  · rename_i hs
    exact ⟨hm.withRef false, fun h' => absurd h' hs⟩

theorem setBelowMax (h : s.Fits n) (b : Bool) : (s.setBelowMax b).Fits n :=
  ⟨h.mask, h.shared⟩

theorem forget (s : Slot) (b : Bool) : (s.forget b).Fits n := by
  refine ⟨Mask.Fits.top.withRef _, fun h => ?_⟩
  have h' : (s.shared || b) = true := h
  simp [Slot.forget, Slot.sharedMask, h']

theorem join (h : s.Fits n) (h' : s'.Fits n) : (s.join s').Fits n := by
  cases hs : s.shared || s'.shared with
  | true => exact ⟨by simp [Slot.join, hs, Mask.fits_sharedMask], fun _ => by simp [Slot.join, hs]⟩
  | false =>
      refine ⟨by simpa [Slot.join, hs] using h.mask.union h'.mask, fun hj => ?_⟩
      have hj' : (s.shared || s'.shared) = true := hj
      simp [hs] at hj'

end Fits

end Slot

namespace State

/-- The state is about `vars` variables, and its masks fit the table. -/
structure Fits (s : State) (vars : Nat) (t : KindTable) : Prop where
  context : s.context = t.id
  length : s.slots.length = vars
  slots : ∀ x ∈ s.slots, x.Fits t.size

namespace Fits

variable {s s' : State} {vars : Nat} {t t' : KindTable} {v : VarId}

theorem proper (h : s.Fits vars t) : s.Proper :=
  fun x hx => (h.slots x hx).proper

theorem grow (h : s.Fits vars t) (hg : t.Grows t') : s.Fits vars t' :=
  ⟨h.context.trans hg.id.symm, h.length, fun x hx => (h.slots x hx).mono hg.size_le⟩

theorem slot (h : s.Fits vars t) (hv : v < vars) : ∃ x, s.slot v = .ok x ∧ x.Fits t.size := by
  have hlt : v < s.slots.length := h.length ▸ hv
  refine ⟨s.slots[v], ?_, h.slots _ (List.getElem_mem hlt)⟩
  rw [State.slot, List.getElem?_eq_getElem hlt]

/-- The slot of a variable can be updated. -/
theorem update (h : s.Fits vars t) (hv : v < vars) {f : Slot → Slot}
    (hf : ∀ x, x.Fits t.size → (f x).Fits t.size) :
    ∃ s', s.update v f = .ok s' ∧ s'.Fits vars t := by
  have hlt : v < s.slots.length := h.length ▸ hv
  obtain ⟨s', hs', hcontext, hlength, hslots⟩ := forall_slots_update hf h.slots hlt
  exact ⟨s', hs', hcontext.trans h.context, hlength.trans h.length, hslots⟩

theorem forgetAll (h : s.Fits vars t) (b : Bool) : (s.forgetAll b).Fits vars t := by
  refine ⟨h.context, by simp [State.forgetAll, h.length], fun x hx => ?_⟩
  obtain ⟨y, _, rfl⟩ := List.mem_map.1 hx
  exact Slot.Fits.forget y b

/-- States that fit can be joined. -/
theorem join (h : s.Fits vars t) (h' : s'.Fits vars t) :
    ∃ j, s.join s' = .ok j ∧ j.Fits vars t := by
  have hj := join_of_compatible (h.context.trans h'.context.symm) (h.length.trans h'.length.symm)
  refine ⟨_, hj, h.context, (length_of_join hj).trans h.length, ?_⟩
  exact forall_slots_join (fun _ _ => Slot.Fits.join) h.slots h'.slots hj

end Fits

end State

namespace Facts

/-- The facts are about a body, and all their masks fit their table. -/
structure Fits (f : Facts) (b : Body) : Prop where
  routine : f.routine = b.routine
  kind : f.kind = b.kind
  table : f.table.WellFormed
  returned : f.returned.Fits f.table.size
  size : f.exprMasks.size = b.exprs.size
  masks : ∀ m ∈ f.exprMasks, m.Fits f.table.size

namespace Fits

variable {f : Facts} {b : Body} {m : Mask}

theorem exprMask (h : f.Fits b) (e : ExprId) : (f.exprMask e).Fits f.table.size := by
  rw [Facts.exprMask, Array.getD]
  split
  · exact h.masks _ (Array.getElem_mem _)
  · exact Mask.Fits.empty

/-- A recorded mask fits if it is made of known kinds. -/
theorem record (h : f.Fits b) (e : ExprId) (hm : m.Fits f.table.size) : (f.record e m).Fits b := by
  refine ⟨h.routine, h.kind, h.table, h.returned, ?_, ?_⟩
  · simp [Facts.record, h.size]
  · intro m' hm'
    obtain ⟨i, hi, rfl⟩ := Array.mem_iff_getElem.1 hm'
    have hi' : i < f.exprMasks.size := by simpa [Facts.record] using hi
    have hfit : f.exprMasks[i].Fits f.table.size := h.masks _ (Array.getElem_mem hi')
    simp only [Facts.record, Array.getElem_modify]
    split
    · exact hfit.union hm
    · exact hfit

theorem addReturn (h : f.Fits b) (hm : m.Fits f.table.size) : (f.addReturn m).Fits b :=
  ⟨h.routine, h.kind, h.table, h.returned.union (hm.withRef false), h.size, h.masks⟩

theorem grow (h : f.Fits b) {t : KindTable} (ht : t.WellFormed) (hg : f.table.Grows t) :
    { f with table := t }.Fits b :=
  ⟨h.routine, h.kind, ht, hg.fits h.returned, h.size, fun m hm => hg.fits (h.masks m hm)⟩

end Fits

/-- At first nothing is recorded, which fits. -/
theorem fits_new (b : Body) {t : KindTable} (ht : t.WellFormed) : (Facts.new b t).Fits b where
  routine := rfl
  kind := rfl
  table := ht
  returned := Mask.Fits.empty
  size := Array.size_replicate
  masks m hm := by
    rw [(Array.mem_replicate.1 hm).2]
    exact Mask.Fits.empty

end Facts

namespace Scene

/-- The scene is about a body, and all its masks fit the kind table. -/
structure Fits (s : Scene) (b : Body) : Prop where
  facts : s.facts.Fits b
  state : s.state.Fits b.vars.length s.facts.table

/-- A mask fits the kind table of the scene. -/
abbrev Holds (s : Scene) (m : Mask) : Prop :=
  m.Fits s.facts.table.size

/-- The masks of primitive kinds fit every scene. -/
theorem Fits.holds_bit {s : Scene} {b : Body} (hs : s.Fits b) {i : Nat} (hi : i < 6) :
    s.Holds (.bit i) :=
  Mask.Fits.bit (Nat.lt_of_lt_of_le hi hs.facts.table.six_le_size)

end Scene

end FlowTyping
