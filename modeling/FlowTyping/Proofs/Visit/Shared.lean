import FlowTyping.Proofs.Semilattice
import FlowTyping.Proofs.Visit.Block
import FlowTyping.Proofs.Visit.Exit
import FlowTyping.Proofs.Visit.Invariant

/-!
# Shared variables stay shared

Something else may write to a shared variable at any time, so a visit must never learn anything
about it. That nothing but its sharing is known of a variable is a lasting property, so that all
states that a visit to a block hands out have it, unless the block removes the variable itself.

Main statement: `visitBlock_exposes`.
-/

namespace FlowTyping

/-- The variable is shared, may hold anything, and nothing else is known about it. -/
structure Slot.Exposed (x : Slot) : Prop where
  shared : x.shared = true
  mask : x.mask = sharedMask
  belowMax : x.belowMax = false

namespace Slot.Exposed

variable {x y : Slot}

theorem of_wellFormed (h : x.WellFormed) (hx : x.shared = true) : x.Exposed :=
  ⟨hx, h.shared hx, h.belowMax hx⟩

theorem assign (h : x.Exposed) (m : Mask) : (x.assign m).Exposed where
  shared := h.shared
  mask := if_pos h.shared
  belowMax := rfl

theorem share (x : Slot) : x.share.Exposed :=
  ⟨rfl, rfl, rfl⟩

theorem markAssigned (h : x.Exposed) : x.markAssigned.Exposed :=
  ⟨h.shared, h.mask, h.belowMax⟩

theorem narrow (h : x.Exposed) (m : Mask) : (x.narrow m).Exposed := by
  rw [Slot.narrow, if_pos h.shared]
  exact h

theorem setBelowMax (h : x.Exposed) (b : Bool) : (x.setBelowMax b).Exposed where
  shared := h.shared
  mask := h.mask
  belowMax := by rw [Slot.setBelowMax, h.shared, Bool.not_true, Bool.and_false]

theorem forget (h : x.Exposed) (b : Bool) : (x.forget b).Exposed := by
  rw [Slot.forget, h.shared, Bool.true_or]
  exact ⟨rfl, rfl, rfl⟩

/-- It is enough that one of the two paths shares the variable. -/
theorem join (h : x.Exposed) (y : Slot) : (x.join y).Exposed := by
  rw [Slot.join, h.shared, h.belowMax, Bool.true_or, Bool.false_and]
  exact ⟨rfl, rfl, rfl⟩

end Slot.Exposed

namespace State

variable {s s' : State} {w : VarId}

/-- Nothing is known about the variable but that it is shared. -/
def Exposes (s : State) (w : VarId) : Prop :=
  ∃ x, s.slots[w]? = some x ∧ x.Exposed

/-- A shared variable stays exposed if the update leaves it so. -/
theorem Exposes.update (h : s.Exposes w) {v : VarId} {f : Slot → Slot} (hs' : s.update v f = .ok s')
    (hf : v = w → ∀ x : Slot, x.Exposed → (f x).Exposed) : s'.Exposes w := by
  obtain ⟨x, hx, hexposed⟩ := h
  rw [State.update] at hs'
  split at hs'
  · cases hs'
    refine ⟨_, by rw [List.getElem?_modify, hx]; rfl, ?_⟩
    split
    · rename_i hvw
      exact hf hvw x hexposed
    · exact hexposed
  · cases hs'

/-- No change to a state reveals anything about a shared variable. -/
theorem lasting_exposes (w : VarId) : Lasting (Exposes · w) where
  change hh h hs' := by
    cases hh with
    | assign v m => exact h.update hs' fun _ _ hx => hx.assign m
    | share v => exact h.update hs' fun _ x _ => .share x
    | markAssigned v => exact h.update hs' fun _ _ hx => hx.markAssigned
    | narrow v m => exact h.update hs' fun _ _ hx => hx.narrow m
    | setBelowMax v b => exact h.update hs' fun _ _ hx => hx.setBelowMax b
  forgetAll b h := by
    obtain ⟨x, hx, hexposed⟩ := h
    exact ⟨x.forget b, by rw [State.forgetAll, List.getElem?_map, hx]; rfl, hexposed.forget b⟩
  join h _ hj := by
    obtain ⟨x, hx, hexposed⟩ := h
    obtain ⟨z, hz, -⟩ := shares_of_join hj ⟨x, hx, hexposed.shared⟩
    obtain ⟨x', y, hx', -, rfl⟩ := slot_of_join hj hz
    cases hx.symm.trans hx'
    exact ⟨x.join y, hz, hexposed.join y⟩

/-- The removal of another variable changes nothing. -/
theorem Exposes.unset (h : s.Exposes w) {v : VarId} (hv : v ≠ w) (hs' : s.unset v = .ok s') :
    s'.Exposes w :=
  h.update hs' fun hvw => absurd hvw hv

end State

/-- A visit to a block succeeds, and a variable that is shared on entry may hold anything and has no
known bound in the state on the way to each successor and in the state for the handlers, unless an
action of the block removes the variable itself. -/
theorem visitBlock_exposes {env : Setting} {i : BlockId} {block : Block} {s : Scene} {w : VarId}
    (hb : env.body.WellFormed) (hblock : env.body.blocks[i]? = some block) (hs : s.Fits env.body)
    (hstate : s.state.WellFormed s.facts.table.id env.body.vars.length) (hw : s.state.Shares w)
    (hremoves : ∀ a ∈ block.actions, ¬a.Removes env.body w) :
    ∃ o s', (visitBlock env block).run s = .ok (o, s') ∧
      (o.exits.map Prod.fst).Perm block.edge.successors ∧ (∀ e ∈ o.exits, e.2.Exposes w) ∧
      (block.handlers ≠ [] → o.thrown?.isSome = true) ∧ (∀ st ∈ o.thrown?, st.Exposes w) := by
  have hentry : s.state.Exposes w := by
    obtain ⟨x, hx, hshared⟩ := hw
    exact ⟨x, hx, .of_wellFormed (hstate.slots x (List.mem_of_getElem? hx)) hshared⟩
  have hpreserves :
      Visit.Preserves (State.Exposes · w) (visitBlock env block)
      (Outcome.All (State.Exposes · w)) := by
    apply visitBlock_preserves (State.lasting_exposes w)
    intro a ha x hx st st' hst hunset
    apply hst.unset _ hunset
    rintro rfl
    exact hremoves a ha hx
  obtain ⟨o, s', hrun, -⟩ := visitBlock_runs (p := env.published) hb hblock hs
  obtain ⟨-, hall⟩ := hpreserves s o s' hentry hrun
  obtain ⟨_, _, -, hactions⟩ := Visit.exists_of_run_bind hrun
  obtain ⟨_, _, -, hedge⟩ := Visit.exists_of_run_bind hactions
  have hcovers := visitEdge_covers hedge
  refine ⟨o, s', hrun, hcovers.exits, hall.exits, ?_, hall.thrown⟩
  intro hhandlers
  exact hcovers.thrown (by simpa using hhandlers)

namespace Alias

/-- Catches an exception in `$x`, stores a number in it, removes `$y`, and then asks
`$x === null`. -/
def body : Body :=
  ⟨0, .function, [⟨"x", .localVar⟩, ⟨"y", .localVar⟩],
    #[.var 0, .literal (.long 1), .assign 0 1, .var 1, .var 0, .literal .null,
    .binary .identical 4 5],
    #[⟨0, [.bindException (some 0) [⟨"Exception"⟩], .eval 2, .unset [3]], .branch 6 1 2, [1]⟩,
      ⟨1, [], .ret none, []⟩, ⟨2, [], .ret none, []⟩], 0⟩

/-- The body on its own, without declarations. -/
def setting : Setting :=
  ⟨body, ⟨#[], .empty, .empty⟩, .empty, 0⟩

/-- `$x` is shared, and nothing has been assigned to `$y`. -/
def scene : Scene :=
  ⟨⟨0, [Slot.unset.share, .unset]⟩, .new body (.new 0 60 none), .empty, none⟩

theorem scene_fits : scene.Fits body := by
  refine ⟨Facts.fits_new body (.new 0 60 none), rfl, rfl, ?_⟩
  exact List.forall_mem_cons.2 ⟨.share _, List.forall_mem_singleton.2 .unset⟩

theorem scene_wellFormed : scene.state.WellFormed 0 2 where
  context := rfl
  length := rfl
  slots := List.forall_mem_cons.2 ⟨.share _, List.forall_mem_singleton.2 .unset⟩

end Alias

/-- Neither the exception that is caught nor the number nor the comparison says anything about
`$x`. -/
theorem visitBlock_exposes_alias :
    ∃ o s',
      (visitBlock Alias.setting ⟨0, [.bindException (some 0) [⟨"Exception"⟩], .eval 2, .unset [3]],
        .branch 6 1 2, [1]⟩).run Alias.scene = .ok (o, s') ∧
      (o.exits.map Prod.fst).Perm [1, 2] ∧ (∀ e ∈ o.exits, e.2.Exposes 0) ∧
      o.thrown?.isSome = true ∧ ∀ st ∈ o.thrown?, st.Exposes 0 := by
  have hb : Alias.setting.body.WellFormed := Body.malformed?_eq_none_iff.1 (by decide +kernel)
  have hremoves : ∀ a ∈ [Action.bindException (some 0) [⟨"Exception"⟩], .eval 2, .unset [3]],
      ¬a.Removes Alias.setting.body 0 := by
    rintro a ha ⟨es, rfl, e, he, hx⟩
    have hes : es = [3] := by simpa using ha
    rw [hes, List.mem_singleton] at he
    subst he
    cases hx
  obtain ⟨o, s', hrun, hexits, hexposes, hthrown, hhandled⟩ :=
    visitBlock_exposes (i := 0) (w := 0) hb rfl Alias.scene_fits Alias.scene_wellFormed
      ⟨Slot.unset.share, rfl, rfl⟩ hremoves
  exact ⟨o, s', hrun, hexits, hexposes, hthrown (List.cons_ne_nil _ _), hhandled⟩

end FlowTyping
