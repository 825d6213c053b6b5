import FlowTyping.Proofs.Inference.Fixpoint
import FlowTyping.Proofs.Kind.RoundTrip
import FlowTyping.Proofs.Solver.Outset
import FlowTyping.Proofs.Solver.Tally
import Mathlib.Algebra.BigOperators.Group.List.Basic

/-!
# The counters of a run

Main statement: `infer_counters`. Inference ends with a result for every unit that passes the check,
whatever the limit on visits. Its counters agree with the visits to the single blocks, and every
block that is taken from the queue before the limit is visited.
-/

namespace FlowTyping

variable {d : Declarations} {o : Options} {bodies : List Body} {unit : List (Body × RoutineDecl)}
  {s₀ s : Solver}

/-! ### The outset -/

namespace Solver

theorem addRoutine_tally {s' : Solver} {cap : Nat} {b : Body} {r : RoutineDecl}
    (h : s.addRoutine cap b r = .ok s') : s'.iterations = s.iterations ∧ s'.rounds = s.rounds := by
  cases hstart : RoutineRun.start b r s.runs.entries.length cap with
  | error fault => simp [addRoutine, hstart, bind, Except.bind] at h
  | ok run =>
      rw [addRoutine, hstart] at h
      cases h
      exact ⟨rfl, rfl⟩

theorem addRoutines_tally {s' : Solver} {cap : Nat}
    (h : unit.foldlM (fun s b => s.addRoutine cap b.1 b.2) s = .ok s') :
    s'.iterations = s.iterations ∧ s'.rounds = s.rounds := by
  induction unit generalizing s with
  | nil =>
      cases h
      exact ⟨rfl, rfl⟩
  | cons e rest ih =>
      cases hadd : s.addRoutine cap e.1 e.2 with
      | error fault => simp [hadd, bind, Except.bind] at h
      | ok s₁ =>
          rw [List.foldlM_cons, hadd] at h
          obtain ⟨hiterations₁, hrounds₁⟩ := addRoutine_tally hadd
          obtain ⟨hiterations, hrounds⟩ := ih h
          exact ⟨hiterations.trans hiterations₁, hrounds.trans hrounds₁⟩

/-- A run begins with its first round and no visits. -/
theorem start_tally {cap : Nat} (h : start cap unit = .ok s) : s.iterations = 0 ∧ s.rounds = 1 :=
  addRoutines_tally h

theorem Fresh.visitTotal (h : s.Fresh bodies) : s.visitTotal = 0 := by
  refine List.sum_eq_zero fun n hn => ?_
  obtain ⟨run, hrun, rfl⟩ := List.mem_map.1 hn
  obtain ⟨⟨r, run⟩, hentry, rfl⟩ := List.mem_map.1 hrun
  have hfind : s.runs.find? r = some run := OrderedMap.find?_of_mem h.fits.nodup hentry
  rw [← Array.sum_toList]
  refine List.sum_eq_zero fun n hn => ?_
  obtain ⟨b, hb⟩ := List.mem_iff_getElem?.1 hn
  have hcount := h.unvisited (r, b)
  rw [visitCount_eq hfind, Array.getD_eq_getD_getElem?, ← Array.getElem?_toList, hb] at hcount
  exact hcount

/-- A unit without bodies converges at once. -/
theorem run_empty (d : Declarations) (o : Options) (budget : Nat) :
    (⟨.empty, .empty, .empty, 0, 1⟩ : Solver).run d o budget =
      .ok (true, ⟨.empty, .empty, .empty, 0, 1⟩) := by
  cases budget <;> rfl

/-- All rounds but the last one of a run belong to different visits. -/
theorem rounds_le_of_run (hunit : checkUnit d [] bodies = .ok unit)
    (hstart : start o.kindCap unit = .ok s₀) (hs₀ : s₀.Fits) {budget : Nat} {converged : Bool}
    (hrun : s₀.run d o budget = .ok (converged, s)) : s.rounds ≤ s.iterations + 1 := by
  cases bodies with
  | nil =>
      cases hunit
      cases hstart
      cases hrun.symm.trans (run_empty d o budget)
      exact Nat.le_refl 1
  | cons b rest =>
      have hqueue : s₀.agenda.queue ≠ [] := by
        rw [(opens_of_start hunit hstart).queue]
        exact List.cons_ne_nil _ _
      have hrounds : s₀.rounds = s₀.iterations + 1 := by
        rw [(start_tally hstart).1, (start_tally hstart).2]
      exact (trace_of_run hrun).rounds_le hs₀ (Or.inr ⟨Nat.le_of_eq hrounds, hqueue⟩)

end Solver

/-! ### Results -/

/-- Results are listed with the visits of their runs. -/
theorem visits_of_mapM {runs : List (RoutineId × RoutineRun)}
    {results : List (RoutineId × RoutineResult)}
    (h : (runs.mapM fun e => do return (e.1, ← RoutineResult.ofRun e.2)) = .ok results) :
    results.map (fun e => e.2.visits) = runs.map fun e => e.2.visits := by
  have hall := KindTable.forall₂_of_mapM h
  clear h
  induction hall with
  | nil => rfl
  | @cons e entry _ _ hentry _ ih =>
      cases hresult : RoutineResult.ofRun e.2 with
      | error fault => simp [hresult, bind, Except.bind] at hentry
      | ok result =>
          rw [hresult] at hentry
          cases hentry
          rw [List.map_cons, List.map_cons, ih, (RoutineResult.of_ofRun hresult).2]

/-- A result has the counters of the unit that the run comes to. -/
theorem solve_tally {converged : Bool} {r : InferResult}
    (hstart : Solver.start o.kindCap unit = .ok s₀)
    (hrun : s₀.run d o o.maxIterations = .ok (converged, s)) (h : solve d o unit = .ok r) :
    r.iterations = s.iterations ∧ r.rounds = s.rounds ∧ r.converged = converged ∧
      (r.routines.values.map fun result => result.visits.sum).sum = s.visitTotal := by
  simp only [solve, hstart, hrun, bind, Except.bind] at h
  split at h
  · cases h
  · rename_i results hresults
    cases h
    refine ⟨rfl, rfl, rfl, ?_⟩
    have hvisits := congrArg (List.map Array.sum) (visits_of_mapM hresults)
    rw [List.map_map, List.map_map] at hvisits
    rw [Solver.visitTotal, OrderedMap.values, OrderedMap.values, List.map_map, List.map_map]
    exact congrArg List.sum hvisits

/-- Inference ends with a result for every unit that has been checked, whatever the limit on
visits. -/
theorem infer_counters (hunit : checkUnit d [] bodies = .ok unit) (o : Options) :
    ∃ r s₀, infer d o bodies false = .ok r ∧ unitStart? d o bodies = some s₀ ∧
      -- The visits to the blocks add up to the iterations, which stay within the limit.
      (r.routines.values.map fun result => result.visits.sum).sum = r.iterations ∧
      r.iterations ≤ o.maxIterations ∧ (r.converged = false → r.iterations = o.maxIterations) ∧
      -- All rounds but the last one come with a visit.
      r.rounds ≤ r.iterations + 1 ∧
      -- Every block that is taken from the queue before the limit is visited: its routine is known
      -- and it has been reached.
      (s₀.dequeued d o o.maxIterations).length = r.iterations ∧
      ∀ e ∈ s₀.dequeued d o o.maxIterations, ∃ run entry,
        e.2.runs.find? e.1.1 = some run ∧ run.entry? e.1.2 = some entry := by
  obtain ⟨s₀, hstart, hs₀, hfresh⟩ := unitStart?_ok hunit o
  obtain ⟨converged, s, hrun, -⟩ :=
    Solver.run_ok hfresh.fits (.start (d := d) (o := o)) o.maxIterations
  obtain ⟨r, -, -, hsolve, -⟩ := solve_ok hunit o
  obtain ⟨hiterations, hrounds, hconverged, hvisits⟩ := solve_tally hstart hrun hsolve
  have htrace := Solver.trace_of_run hrun
  obtain ⟨hcount, htotal, hle, hspent⟩ := htrace.counts hfresh.fits
  rw [(Solver.start_tally hstart).1, Nat.zero_add] at hcount
  rw [hfresh.visitTotal, Nat.zero_add] at htotal
  refine ⟨r, s₀, ?_, hs₀, ?_, ?_, fun hc => ?_, ?_, ?_, fun e he => ?_⟩
  · rw [infer_of_checkUnit hunit, hsolve]
    rfl
  · rw [hvisits, htotal, hiterations, hcount]
  · rw [hiterations, hcount]
    exact hle
  · rw [hiterations, hcount]
    exact hspent (hconverged.symm.trans hc)
  · rw [hrounds, hiterations]
    exact Solver.rounds_le_of_run hunit hstart hfresh.fits hrun
  · rw [hiterations, hcount]
  · obtain ⟨entry, hentry⟩ := Option.isSome_iff_exists.1 (htrace.known hfresh.fits e he)
    obtain ⟨run, hknown, hreached⟩ := Option.bind_eq_some_iff.1 hentry
    exact ⟨run, entry, hknown, hreached⟩

/-- The two functions `walk` and `items`, stopped after three visits. -/
theorem infer_counters_walk :
    ∃ unit r, checkUnit Sample.declarations [] [Sample.walk, Sample.items] = .ok unit ∧
      infer Sample.declarations ⟨60, 3, true⟩ [Sample.walk, Sample.items] false = .ok r ∧
      r.converged = false ∧ r.iterations = 3 ∧ r.rounds ≤ 4 ∧
      (r.routines.values.map fun result => result.visits.sum).sum = 3 := by
  have hcheck : (checkUnit Sample.declarations [] [Sample.walk, Sample.items]).toOption.any
      (fun _ => true) = true := by decide +kernel
  have hstopped : (infer Sample.declarations ⟨60, 3, true⟩ [Sample.walk, Sample.items]
      false).toOption.any (fun r => !r.converged) = true := by decide +kernel
  obtain ⟨unit, hunit, -⟩ := any_toOption_iff.1 hcheck
  obtain ⟨r, hr, hconverged⟩ := any_toOption_iff.1 hstopped
  rw [Bool.not_eq_true'] at hconverged
  obtain ⟨r', s₀, hr', -, hvisits, -, hlimit, hrounds, -⟩ := infer_counters hunit ⟨60, 3, true⟩
  cases hr.symm.trans hr'
  have hiterations : r.iterations = 3 := hlimit hconverged
  rw [hiterations] at hvisits hrounds
  exact ⟨unit, r, hunit, hr, hconverged, hiterations, hrounds, hvisits⟩

end FlowTyping
