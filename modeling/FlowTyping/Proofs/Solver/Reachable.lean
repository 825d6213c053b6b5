import FlowTyping.Proofs.Solver.Arrival
import FlowTyping.Proofs.Solver.Outset
import FlowTyping.Proofs.Visit.Exit

/-!
# Blocks that control can get to

Main statement: `Reaches.staysReachable`. A run reaches only blocks that control can get to from the
entry of their routine, along edges and into handlers.
-/

namespace FlowTyping

/-- Control can get to a block of a body, along edges and into handlers. -/
inductive Body.Reachable (b : Body) : BlockId → Prop
  | entry : Reachable b b.entry
  | successor {i target : BlockId} {block : Block} (h : Reachable b i)
      (hblock : b.blocks[i]? = some block) (htarget : target ∈ block.edge.successors) :
      Reachable b target
  | handler {i target : BlockId} {block : Block} (h : Reachable b i)
      (hblock : b.blocks[i]? = some block) (htarget : target ∈ block.handlers) :
      Reachable b target

/-- Joining states in reaches only the blocks that they are sent to. -/
theorem RoutineRun.exists_flow_of_mergeEntries {run run' : RoutineRun}
    {flows : List (BlockId × State)} {grown : List BlockId}
    (h : run.mergeEntries flows = .ok (grown, run')) {c : BlockId} (hc : (run'.entry? c).isSome) :
    (run.entry? c).isSome ∨ ∃ st, (c, st) ∈ flows := by
  induction flows generalizing run grown with
  | nil =>
      cases h
      exact Or.inl hc
  | cons e flows ih =>
      obtain ⟨grew, run₁, grown', hmerge, hmerges, -⟩ := mergeEntries_cons h
      rcases ih hmerges with hc | ⟨st, hst⟩
      · rcases mergeEntry_fresh hmerge hc with hc | ⟨rfl, -⟩
        · exact Or.inl hc
        · exact Or.inr ⟨e.2, List.mem_cons_self ..⟩
      · exact Or.inr ⟨st, List.mem_cons_of_mem _ hst⟩

namespace Solver

variable {d : Declarations} {o : Options} {s₀ s s' : Solver} {log : List Visited}
  {bodies : List Body}

/-- Every block that has been reached can be reached by control. -/
def StaysReachable (s : Solver) : Prop :=
  ∀ ⦃r : RoutineId⦄ ⦃run : RoutineRun⦄, s.runs.find? r = some run →
    ∀ c, (run.entry? c).isSome → run.body.Reachable c

/-- At the outset only entries have been reached. -/
theorem Opens.staysReachable (h : s.Opens bodies) : s.StaysReachable := by
  intro r run hrun c hc
  rw [((h.new hrun).reached c).1 hc]
  exact .entry

/-- The end of a round reaches no further block. -/
theorem StaysReachable.round (h : s.StaysReachable) (hs : s.Fits) (hend : s.endRound = .ok s') :
    s'.StaysReachable := by
  obtain ⟨s₁, hend₁, hs', ha, -, -, hi⟩ := endRound_ok hs
  cases hend.symm.trans hend₁
  intro r run' hrun' c hc
  obtain ⟨run, hrun, hbody⟩ := ha.exists_run hs hs' hrun'
  have hentry : run'.entry? c = run.entry? c := by
    have hsame := hi.entry? (r, c)
    rwa [Solver.entry?, Solver.entry?, hrun, hrun'] at hsame
  rw [hentry] at hc
  rw [hbody]
  exact h hrun c hc

/-- A visit reaches only successors and handlers of its block. -/
theorem StaysReachable.visit {v : Visited} (h : v.unit.StaysReachable) (hs : v.unit.Fits)
    (hreal : v.Real d) (hvisit : v.unit.visit d o v.ref = .ok s') : s'.StaysReachable := by
  obtain ⟨s₁, hvisit₁, hs', hadvances, -⟩ := hreal.visit_ok hs o
  cases hvisit.symm.trans hvisit₁
  intro r run' hrun' c hc
  obtain ⟨run, hrun, hbody⟩ := hadvances.exists_run hs hs' hrun'
  rw [hbody]
  have hnew : (s'.entry? (r, c)).isSome := by
    rw [Solver.entry?, hrun']
    exact hc
  have hold (hentry : (v.unit.entry? (r, c)).isSome) : run.body.Reachable c := by
    rw [Solver.entry?, hrun] at hentry
    exact h hrun c hentry
  cases hheld : v.isHeld o with
  | true =>
      rw [hreal.entry?_of_held hvisit hheld] at hnew
      exact hold hnew
  | false =>
      obtain ⟨grown, run₂, hmerge, hruns, -⟩ := hreal.merges_of_sent hs hvisit hheld
      rw [entry?_of_insert hruns] at hnew
      split at hnew
      · rename_i hr
        rcases RoutineRun.exists_flow_of_mergeEntries hmerge hnew with hentry | hflow
        · apply hold
          rw [hreal.entry?_unit hr]
          exact hentry
        · have hown : run = v.run := by
            have hfind := hreal.run
            rw [hr, hrun] at hfind
            exact Option.some.inj hfind
          rw [hown]
          have hsource : v.run.body.Reachable v.ref.2 :=
            h hreal.run _ (Option.isSome_iff_exists.2 ⟨_, hreal.entry⟩)
          rcases (mem_flows_iff hreal.outcome).1 hflow with htarget | htarget
          · exact hsource.successor hreal.block htarget
          · exact hsource.handler hreal.block htarget
      · exact hold hnew

theorem StaysReachable.precedes (h : s.StaysReachable) (hs : s.Fits) (hround : s.Precedes s') :
    s'.StaysReachable := by
  rcases hround with rfl | ⟨-, hend⟩
  · exact h
  · exact h.round hs hend

theorem StaysReachable.dequeue (h : s.StaysReachable) {ref : BlockRef}
    (hdequeues : s.Dequeues ref s') : s'.StaysReachable := by
  rw [StaysReachable, hdequeues.runs]
  exact h

/-- A run reaches only blocks that control can reach. -/
theorem Reaches.staysReachable (h : Reaches d o s₀ s log) (hs₀ : s₀.Fits)
    (hopens : s₀.Opens bodies) : s.StaysReachable := by
  induction h with
  | start => exact hopens.staysReachable
  | round h hend ih => exact ih.round (h.fits hs₀) hend
  | visit h hdequeues hreal hvisit ih =>
      exact (ih.dequeue hdequeues).visit (hdequeues.fits (h.fits hs₀)) hreal hvisit

end Solver

end FlowTyping
