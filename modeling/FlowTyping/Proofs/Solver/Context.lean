import FlowTyping.Proofs.Solver.Step
import FlowTyping.Proofs.Visit.Alone

/-!
# Runs under another number

`RoutineRun.inContext` is a run whose kind table goes by another number. What the solver does to one
run, starting it and joining states into its entries, it does the same way to the other.
-/

namespace FlowTyping

open Visit

theorem Facts.onTable_inContext {α : Type} {x : Typing α} (hx : Typing.IsBlind x) (c : ContextId)
    {f f' : Facts} {a : α} (h : f.onTable x = .ok (a, f')) :
    (f.inContext c).onTable x = .ok (a, f'.inContext c) := by
  cases hrun : x.run f.table with
  | error fault =>
      simp [Facts.onTable, hrun, bind, Except.bind] at h
  | ok found =>
      simp only [Facts.onTable, hrun, bind, Except.bind] at h
      cases h
      have halone : x.run (f.inContext c).table = .ok (found.1, found.2.inContext c) :=
        hx c _ _ _ hrun
      rw [Facts.onTable, halone]
      rfl

theorem Facts.result_inContext (c : ContextId) {f f' : Facts} {m : Mask}
    (h : f.result = .ok (m, f')) : (f.inContext c).result = .ok (m, f'.inContext c) := by
  rw [Facts.result] at h
  rw [Facts.result, show (f.inContext c).effects = f.effects from rfl]
  split at h
  · rename_i hgenerator
    rw [if_pos hgenerator]
    exact Facts.onTable_inContext (KindTable.instanceOf_blind _ _) c h
  · rename_i hgenerator
    rw [if_neg hgenerator]
    cases h
    rfl

/-- States that leave a block, of a table with another number. -/
def flowsInContext (flows : List (BlockId × State)) (c : ContextId) : List (BlockId × State) :=
  flows.map fun e => (e.1, e.2.inContext c)

/-- A block sends on the same states in every context. -/
theorem flows_inContext (block : Block) (o : Outcome) (c : ContextId) :
    Solver.flows block (o.inContext c) = flowsInContext (Solver.flows block o) c := by
  rw [flowsInContext, Solver.flows, Solver.flows, List.map_append]
  congr 1
  cases hthrown : o.thrown? with
  | none => simp [Outcome.inContext, hthrown]
  | some thrown => simp [Outcome.inContext, hthrown, Function.comp_def]

/-- States are merged alike in every context. -/
theorem State.absorb_inContext (c : ContextId) {a b joined : State} {grew : Bool}
    (h : a.absorb b = .ok (grew, joined)) :
    (a.inContext c).absorb (b.inContext c) = .ok (grew, joined.inContext c) := by
  obtain ⟨hjoin, rfl⟩ := State.absorb_eq_ok_iff.1 h
  have hcontext : joined.context = a.context := by
    obtain ⟨-, -, rfl⟩ := State.join_eq_ok_iff.1 hjoin
    rfl
  have hsame : (joined != a) = (joined.inContext c != a.inContext c) := by
    rw [Bool.eq_iff_iff, bne_iff_ne, bne_iff_ne]
    refine not_congr ⟨fun heq => congrArg (·.inContext c) heq, fun heq => ?_⟩
    exact State.ext hcontext (congrArg State.slots heq :)
  exact State.absorb_eq_ok_iff.2 ⟨join_inContext b a joined hjoin, hsame⟩

namespace RoutineRun

/-- The same run, of a table with another number. -/
def inContext (run : RoutineRun) (c : ContextId) : RoutineRun :=
  { run with
    facts := run.facts.inContext c
    entries := run.entries.map (Option.map (·.inContext c)) }

variable {run run' : RoutineRun} {b : BlockId} {st : State} {grew : Bool} {grown : List BlockId}

theorem entry?_inContext (c : ContextId) (h : run.entry? b = some st) :
    RoutineRun.entry? (run.inContext c) b = some (st.inContext c) := by
  rw [entry?_eq_some] at h ⊢
  simp [inContext, h]

theorem mergeEntry_inContext (c : ContextId) (h : run.mergeEntry b st = .ok (grew, run')) :
    (run.inContext c).mergeEntry b (st.inContext c) = .ok (grew, run'.inContext c) := by
  have hset (new : State) :
      (run.entries.setIfInBounds b (some new)).map (Option.map (·.inContext c)) =
        (run.inContext c).entries.setIfInBounds b (some (new.inContext c)) := by
    apply Array.ext_getElem?
    intro i
    simp only [inContext, Array.getElem?_map, Array.getElem?_setIfInBounds, Array.size_map]
    split
    · split <;> rfl
    · rfl
  have hentry : (run.inContext c).entries[b]? = run.entries[b]?.map (Option.map (·.inContext c)) :=
    Array.getElem?_map ..
  rw [mergeEntry] at h
  rw [mergeEntry, hentry]
  cases hold : run.entries[b]? with
  | none =>
      rw [hold] at h
      cases h
  | some old? =>
      cases old? with
      | none =>
          rw [hold] at h
          cases h
          simp only [Option.map_some, Option.map_none]
          rw [← hset]
          rfl
      | some old =>
          rw [hold] at h
          cases habsorb : old.absorb st with
          | error fault => simp [habsorb, bind, Except.bind] at h
          | ok found =>
              simp only [habsorb, bind, Except.bind] at h
              cases h
              simp only [Option.map_some, State.absorb_inContext c habsorb, bind, Except.bind]
              rw [← hset]
              rfl

/-- Entries are merged alike in every context. -/
theorem mergeEntries_inContext (c : ContextId) {flows : List (BlockId × State)}
    (h : run.mergeEntries flows = .ok (grown, run')) :
    (run.inContext c).mergeEntries (flowsInContext flows c) = .ok (grown, run'.inContext c) := by
  induction flows generalizing run grown with
  | nil =>
      cases h
      rfl
  | cons e rest ih =>
      cases hfirst : run.mergeEntry e.1 e.2 with
      | error fault => simp [mergeEntries, hfirst, bind, Except.bind] at h
      | ok first =>
          simp only [mergeEntries, hfirst, bind, Except.bind] at h
          cases hrest : first.2.mergeEntries rest with
          | error fault => simp [hrest] at h
          | ok found =>
              simp only [hrest] at h
              cases h
              have hfirst' : (run.inContext c).mergeEntry e.1 (e.2.inContext c) =
                  .ok (first.1, first.2.inContext c) := mergeEntry_inContext c hfirst
              have hrest' : (first.2.inContext c).mergeEntries (flowsInContext rest c) =
                  .ok (found.1, found.2.inContext c) := ih hrest
              rw [flowsInContext, List.map_cons, ← flowsInContext]
              simp only [mergeEntries, hfirst', bind, Except.bind, hrest']
              rfl

/-- A routine starts the same way under every number. -/
theorem start_inContext {body : Body} {r : RoutineDecl} {c₀ : ContextId} {cap : Nat}
    (c : ContextId) (h : start body r c₀ cap = .ok run) :
    start body r c cap = .ok (run.inContext c) := by
  cases hslots : (Facts.new body (KindTable.new c₀ cap r.cls?)).onTable
      (body.vars.mapM (Facts.entrySlot r)) with
  | error fault => simp [start, Facts.entryState, hslots, bind, Except.bind] at h
  | ok found =>
      simp only [start, Facts.entryState, hslots, bind, Except.bind, pure, Except.pure,
        Except.ok.injEq] at h
      subst h
      have hblind : Typing.IsBlind (body.vars.mapM (Facts.entrySlot r)) :=
        fun _ => .mapM (fun v => Facts.entrySlot_blind r v _) body.vars
      have hslots' : (Facts.new body (KindTable.new c cap r.cls?)).onTable
          (body.vars.mapM (Facts.entrySlot r)) = .ok (found.1, found.2.inContext c) :=
        Facts.onTable_inContext hblind c hslots
      simp only [start, Facts.entryState, hslots', bind, Except.bind, pure, Except.pure]
      congr 1
      simp only [inContext, mk.injEq, true_and, and_true]
      apply Array.ext_getElem?
      intro i
      simp only [Array.getElem?_map, Array.getElem?_setIfInBounds, Array.size_replicate,
        Array.getElem?_replicate]
      split
      · split <;> rfl
      · split <;> rfl

end RoutineRun

end FlowTyping
