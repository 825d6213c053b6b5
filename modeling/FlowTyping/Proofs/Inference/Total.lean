import FlowTyping.Proofs.Solver.Run
import Mathlib.Data.List.Nodup

/-!
# Inference succeeds

Main statement: `infer_never_faults`. Whatever the declarations and the options, a unit that passes
the check is solved. `infer_spec` ties a result to the unit at the end of the run.
-/

namespace FlowTyping

variable {d : Declarations} {o : Options} {bodies : List Body} {unit : List (Body × RoutineDecl)}

/-- The unit when inference begins, if it passes the check. -/
def unitStart? (d : Declarations) (o : Options) (bodies : List Body) : Option Solver :=
  match checkUnit d [] bodies with
  | .error _ => none
  | .ok unit => (Solver.start o.kindCap unit).toOption

/-- The visits that inference makes to the blocks of a unit, first to last. -/
def unitHistory (d : Declarations) (o : Options) (bodies : List Body) : List Visited :=
  match unitStart? d o bodies with
  | none => []
  | some s => s.history d o o.maxIterations

theorem RoutineResult.ofRun_ok {run : RoutineRun} (h : run.Fits) :
    ∃ result, RoutineResult.ofRun run = .ok result := by
  obtain ⟨m, t, hresult, -⟩ := Facts.result_ok h.facts
  rw [RoutineResult.ofRun, hresult]
  exact ⟨_, rfl⟩

/-- A result has the entries and the visits of its run. -/
theorem RoutineResult.of_ofRun {run : RoutineRun} {result : RoutineResult}
    (h : RoutineResult.ofRun run = .ok result) :
    result.entries = run.entries ∧ result.visits = run.visits := by
  cases hresult : run.facts.result with
  | error fault => simp [RoutineResult.ofRun, hresult, bind, Except.bind] at h
  | ok p =>
      simp only [RoutineResult.ofRun, hresult, bind, Except.bind, pure, Except.pure,
        Except.ok.injEq] at h
      rw [← h]
      exact ⟨rfl, rfl⟩

/-- The results are listed in the order of the runs, each under its routine. -/
theorem results_ok {runs : List (RoutineId × RoutineRun)} (h : ∀ e ∈ runs, e.2.Fits) :
    ∃ results, (runs.mapM fun e => do return (e.1, ← RoutineResult.ofRun e.2)) = .ok results ∧
      (∀ id result, OrderedMap.lookup id results = some result →
        ∃ run, OrderedMap.lookup id runs = some run ∧ RoutineResult.ofRun run = .ok result) ∧
      ∀ id run, OrderedMap.lookup id runs = some run →
        ∃ result, OrderedMap.lookup id results = some result ∧
          RoutineResult.ofRun run = .ok result := by
  induction runs with
  | nil => exact ⟨[], rfl, fun _ _ h => (nomatch h), fun _ _ h => (nomatch h)⟩
  | cons e rest ih =>
      obtain ⟨id, run⟩ := e
      obtain ⟨hrun, hrest⟩ := List.forall_mem_cons.1 h
      obtain ⟨result, hresult⟩ := RoutineResult.ofRun_ok hrun
      obtain ⟨results, hmap, hfrom, hto⟩ := ih hrest
      refine ⟨(id, result) :: results, ?_, fun id' result' h' => ?_, fun id' run' h' => ?_⟩
      · simp only [List.mapM_cons, hresult, hmap, bind, Except.bind, pure, Except.pure] at hmap ⊢
      · rw [OrderedMap.lookup] at h' ⊢
        split at h'
        · rename_i heq
          cases h'
          exact ⟨run, if_pos heq, hresult⟩
        · rename_i heq
          rw [if_neg heq]
          exact hfrom id' result' h'
      · rw [OrderedMap.lookup] at h' ⊢
        split at h'
        · rename_i heq
          cases h'
          exact ⟨result, if_pos heq, hresult⟩
        · rename_i heq
          rw [if_neg heq]
          exact hto id' run' h'

/-- The results are those of a unit at the end of a run. -/
structure InferResult.IsOf (r : InferResult) (s : Solver) : Prop where
  run : ∀ {id : RoutineId} {result : RoutineResult}, r.routine? id = some result →
    ∃ run, s.runs.find? id = some run ∧ RoutineResult.ofRun run = .ok result
  result : ∀ {id : RoutineId} {run : RoutineRun}, s.runs.find? id = some run →
    ∃ result, r.routine? id = some result ∧ RoutineResult.ofRun run = .ok result

theorem unitStart?_ok (h : checkUnit d [] bodies = .ok unit) (o : Options) :
    ∃ s₀, Solver.start o.kindCap unit = .ok s₀ ∧ unitStart? d o bodies = some s₀ ∧
      s₀.Fresh bodies := by
  obtain ⟨s₀, hstart, hs₀⟩ := Solver.start_ok h o.kindCap
  refine ⟨s₀, hstart, ?_, hs₀⟩
  rw [unitStart?, h]
  simp only [hstart]
  rfl

/-- The results of a unit are those of the unit that its run comes to. -/
theorem solve_of_run {s₀ s : Solver} {converged : Bool}
    (hstart : Solver.start o.kindCap unit = .ok s₀)
    (hrun : s₀.run d o o.maxIterations = .ok (converged, s)) (hs : s.Fits) :
    ∃ r, solve d o unit = .ok r ∧ r.IsOf s ∧ r.converged = converged := by
  obtain ⟨results, hresults, hfrom, hto⟩ :=
    results_ok fun e (he : e ∈ s.runs.entries) => (hs.runs (OrderedMap.find?_of_mem hs.nodup he)).2
  refine ⟨⟨⟨results⟩, s.iterations, s.rounds, converged⟩, ?_,
    ⟨fun h => hfrom _ _ h, fun h => hto _ _ h⟩, rfl⟩
  simp only [bind, Except.bind] at hresults
  simp only [solve, hstart, bind, Except.bind, hrun, hresults]
  rfl

/-- A unit that has been checked is solved. If the run converges, nothing is left to do, and the
visits are those of the history. -/
theorem solve_ok (h : checkUnit d [] bodies = .ok unit) (o : Options) :
    ∃ r s₀ s, solve d o unit = .ok r ∧ unitStart? d o bodies = some s₀ ∧ s₀.Fresh bodies ∧
      s.Fits ∧ r.IsOf s ∧
      (r.converged = true → s.Final ∧ Solver.Reaches d o s₀ s (unitHistory d o bodies)) := by
  obtain ⟨s₀, hstart, hunit, hs₀⟩ := unitStart?_ok h o
  obtain ⟨converged, s, hrun, hs, hend⟩ :=
    Solver.run_ok hs₀.fits (.start (d := d) (o := o)) o.maxIterations
  obtain ⟨r, hsolve, hof, hconverged⟩ := solve_of_run hstart hrun hs
  refine ⟨r, s₀, s, hsolve, hunit, hs₀, hs, hof, fun hc => ?_⟩
  have hhistory : unitHistory d o bodies = s₀.history d o o.maxIterations := by
    simp only [unitHistory, hunit]
  rw [hhistory]
  exact hend (hconverged.symm.trans hc)

theorem infer_of_checkUnit (h : checkUnit d [] bodies = .ok unit) (o : Options) :
    infer d o bodies false = (solve d o unit).mapError .fault := by
  simp only [infer, h, bind, Except.bind]
  rfl

/-- A unit that has been checked has the results of the unit that its run comes to. -/
theorem infer_of_run (h : checkUnit d [] bodies = .ok unit) {s₀ s : Solver} {converged : Bool}
    (hstart : Solver.start o.kindCap unit = .ok s₀)
    (hrun : s₀.run d o o.maxIterations = .ok (converged, s)) (hs : s.Fits) :
    ∃ r, infer d o bodies false = .ok r ∧ r.IsOf s ∧ r.converged = converged := by
  obtain ⟨r, hsolve, hof, hconverged⟩ := solve_of_run hstart hrun hs
  refine ⟨r, ?_, hof, hconverged⟩
  rw [infer_of_checkUnit h, hsolve]
  rfl

/-- Only a unit that passes the check and is not called off has a result. -/
theorem exists_of_infer_ok {r : InferResult} {cancelled : Bool}
    (h : infer d o bodies cancelled = .ok r) :
    ∃ unit, checkUnit d [] bodies = .ok unit ∧ cancelled = false := by
  cases hunit : checkUnit d [] bodies with
  | error e => simp [infer, hunit, bind, Except.bind] at h
  | ok unit =>
      cases cancelled with
      | true => simp [infer, hunit, bind, Except.bind, throw, throwThe, MonadExceptOf.throw] at h
      | false => exact ⟨unit, rfl, rfl⟩

theorem infer_spec {r : InferResult} {cancelled : Bool} (h : infer d o bodies cancelled = .ok r) :
    ∃ s₀ s : Solver, unitStart? d o bodies = some s₀ ∧ s₀.Fresh bodies ∧ s.Fits ∧ r.IsOf s ∧
      (r.converged = true → s.Final ∧ Solver.Reaches d o s₀ s (unitHistory d o bodies)) := by
  obtain ⟨unit, hunit, rfl⟩ := exists_of_infer_ok h
  obtain ⟨r', s₀, s, hsolve, hrest⟩ := solve_ok hunit o
  rw [infer_of_checkUnit hunit, hsolve] at h
  cases h
  exact ⟨s₀, s, hrest⟩

/-- In a unit that has a result, no two bodies belong to one routine. -/
theorem eq_of_routine_eq {r : InferResult} {cancelled : Bool}
    (h : infer d o bodies cancelled = .ok r)
    {b b' : Body} (hb : b ∈ bodies) (hb' : b' ∈ bodies) (hroutine : b.routine = b'.routine) :
    b = b' := by
  obtain ⟨unit, hunit, -⟩ := exists_of_infer_ok h
  exact List.inj_on_of_nodup_map (checkUnit_ok hunit).2.2.1 hb hb' hroutine

theorem checkUnit_ne_fault (d : Declarations) (seen : List RoutineId) (bodies : List Body)
    (fault : Fault) : checkUnit d seen bodies ≠ .error (.fault fault) := by
  induction bodies generalizing seen with
  | nil => exact fun h => nomatch h
  | cons b rest ih =>
      intro h
      rw [checkUnit] at h
      split at h
      · cases h
      · split at h
        · cases h
        · split at h
          · cases h
          · cases hrest : checkUnit d (b.routine :: seen) rest with
            | error e =>
                rw [hrest] at h
                cases h
                exact ih _ hrest
            | ok unit =>
                rw [hrest] at h
                cases h

/-- Inference never runs into a fault: every position and every kind that it looks up exists, it
joins only states of the same variables, and it descends only to earlier expressions. It yields a
result for every unit that passes the check, and only for those. -/
theorem infer_never_faults (d : Declarations) (o : Options) (bodies : List Body) :
    (∀ cancelled fault, infer d o bodies cancelled ≠ .error (.fault fault)) ∧
      ((∃ r, infer d o bodies false = .ok r) ↔ ∃ unit, checkUnit d [] bodies = .ok unit) := by
  cases hunit : checkUnit d [] bodies with
  | error e =>
      have hinfer (cancelled : Bool) : infer d o bodies cancelled = .error e := by
        simp only [infer, hunit, bind, Except.bind]
      refine ⟨fun cancelled fault h => ?_, ?_⟩
      · rw [hinfer] at h
        cases h
        exact checkUnit_ne_fault d [] bodies fault hunit
      · rw [hinfer]
        exact ⟨fun ⟨_, h⟩ => (nomatch h), fun ⟨_, h⟩ => (nomatch h)⟩
  | ok unit =>
      obtain ⟨r, -, -, hsolve, -⟩ := solve_ok hunit o
      have hinfer : infer d o bodies false = .ok r := by
        rw [infer_of_checkUnit hunit, hsolve]
        rfl
      refine ⟨fun cancelled fault h => ?_, fun _ => ⟨unit, rfl⟩, fun _ => ⟨r, hinfer⟩⟩
      cases cancelled with
      | false =>
          rw [hinfer] at h
          cases h
      | true => simp [infer, hunit, bind, Except.bind, throw, throwThe, MonadExceptOf.throw] at h

end FlowTyping
