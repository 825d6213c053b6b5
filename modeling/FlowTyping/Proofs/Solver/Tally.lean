import FlowTyping.Proofs.Solver.Run
import Mathlib.Algebra.GroupWithZero.Nat

/-!
# Counting along a run

`Solver.dequeued` lists the blocks that a run takes from the queue before its limit, and `Trace`
says how the run goes on from one to the next. Main statements: `Trace.known`, by which every block
that is taken can be visited, `Trace.counts`, by which all visits are counted, and
`Trace.rounds_le`, by which every round but the first is begun for the sake of a visit.
-/

namespace FlowTyping

/-- Replacing the value under a key replaces its share in a sum over the values. -/
theorem OrderedMap.sum_values_insert {κ β : Type} [DecidableEq κ] {m : OrderedMap κ β} {k : κ}
    {old : β} (f : β → Nat) (h : m.find? k = some old) (new : β) :
    ((m.insert k new).values.map f).sum + f old = (m.values.map f).sum + f new := by
  obtain ⟨entries⟩ := m
  simp only [find?, insert, values] at h ⊢
  induction entries with
  | nil => cases h
  | cons e rest ih =>
      obtain ⟨j, v⟩ := e
      rw [lookup] at h
      by_cases hj : j = k
      · rw [if_pos hj] at h
        cases h
        rw [put, if_pos hj]
        simp only [List.map_cons, List.sum_cons]
        omega
      · rw [if_neg hj] at h
        have hrest := ih h
        rw [put, if_neg hj]
        simp only [List.map_cons, List.sum_cons]
        omega

/-- A visit adds one to the visits of its routine. -/
theorem RoutineRun.sum_visits_countVisit {run : RoutineRun} {b : BlockId}
    (h : b < run.visits.size) : (run.countVisit b).visits.sum = run.visits.sum + 1 := by
  have hlist (l : List Nat) (i : Nat) (hi : i < l.length) : (l.modify i (· + 1)).sum =
    l.sum + 1 := by
    induction l generalizing i with
    | nil => cases hi
    | cons n rest ih =>
        cases i with
        | zero =>
            simp only [List.modify_zero_cons, List.sum_cons]
            omega
        | succ i =>
            simp only [List.modify_succ_cons, List.sum_cons, ih i (Nat.lt_of_succ_lt_succ hi)]
            omega
  rw [countVisit, ← Array.sum_toList, ← Array.sum_toList, Array.toList_modify]
  exact hlist _ _ h

namespace Solver

variable {d : Declarations} {o : Options} {s s' s'' : Solver}

/-- All visits to all blocks. -/
def visitTotal (s : Solver) : Nat :=
  (s.runs.values.map fun run => run.visits.sum).sum

/-- No visit is made in between, and no round begins. -/
structure Pauses (s s' : Solver) : Prop where
  iterations : s'.iterations = s.iterations
  rounds : s'.rounds = s.rounds
  visitTotal : s'.visitTotal = s.visitTotal

theorem Pauses.refl (s : Solver) : s.Pauses s :=
  ⟨rfl, rfl, rfl⟩

theorem Pauses.trans (h : s.Pauses s') (h' : s'.Pauses s'') : s.Pauses s'' :=
  ⟨h'.iterations.trans h.iterations, h'.rounds.trans h.rounds, h'.visitTotal.trans h.visitTotal⟩

theorem visitTotal_of_insert {r : RoutineId} {run run' : RoutineRun}
    (hrun : s.runs.find? r = some run) (hruns : s'.runs = s.runs.insert r run') :
    s'.visitTotal + run.visits.sum = s.visitTotal + run'.visits.sum := by
  rw [visitTotal, visitTotal, hruns]
  exact OrderedMap.sum_values_insert (fun run => run.visits.sum) hrun run'

theorem visitTotal_of_same {r : RoutineId} {run run' : RoutineRun}
    (hrun : s.runs.find? r = some run) (hruns : s'.runs = s.runs.insert r run')
    (hvisits : run'.visits = run.visits) : s'.visitTotal = s.visitTotal := by
  have hinsert := visitTotal_of_insert hrun hruns
  rw [hvisits] at hinsert
  exact Nat.add_right_cancel hinsert

/-! ### Between visits -/

/-- To publish a result makes no visit. -/
theorem publish_pauses (hs : s.Fits) {r : RoutineId} (h : s.publish r = .ok s') : s.Pauses s' := by
  cases hrun : s.runs.find? r with
  | none =>
      rw [publish, hrun] at h
      cases h
      exact .refl s
  | some run =>
      obtain ⟨-, hfits⟩ := hs.runs hrun
      obtain ⟨m, t, hresult, hw, -, hm, -⟩ := Facts.result_ok hfits.facts
      obtain ⟨summary, hsummary⟩ := KindTable.summarize_ok hw hm
      rw [publish_eq hrun hresult hsummary] at h
      have hruns : s'.runs = s.runs.insert r
        { run with facts := { run.facts with table := t } } := by
        cases h
        split <;> rfl
      refine ⟨?_, ?_, visitTotal_of_same hrun hruns rfl⟩
      · cases h
        split <;> rfl
      · cases h
        split <;> rfl

theorem foldlM_publish_pauses (hs : s.Fits) {rs : List RoutineId}
    (h : rs.foldlM publish s = .ok s') : s.Pauses s' := by
  induction rs generalizing s with
  | nil =>
      cases h
      exact .refl _
  | cons r rs ih =>
      obtain ⟨s₁, hpublish, hs₁, -⟩ := publish_ok hs r
      rw [List.foldlM_cons, hpublish] at h
      exact (publish_pauses hs hpublish).trans (ih hs₁ h)

theorem requireCompletion_pauses (s : Solver) (ref : BlockRef) :
    s.Pauses (s.requireCompletion ref) := by
  cases hrun : s.runs.find? ref.1 with
  | none =>
      rw [requireCompletion, hrun]
      exact .refl s
  | some run =>
      simp only [requireCompletion, hrun]
      exact ⟨rfl, rfl, visitTotal_of_same hrun rfl rfl⟩

theorem requeue_pauses (s : Solver) (refs : List BlockRef) : s.Pauses (s.requeue refs) := by
  induction refs generalizing s with
  | nil => exact .refl s
  | cons ref refs ih =>
      obtain ⟨hiterations, hrounds, htotal⟩ := requireCompletion_pauses s ref
      have hqueue : s.Pauses { s.requireCompletion ref with
          agenda := ((s.requireCompletion ref).agenda.enqueue ref).2 } :=
        ⟨hiterations, hrounds, htotal⟩
      exact hqueue.trans (ih _)

theorem foldl_release_pauses (s : Solver) (rs : List RoutineId) :
    s.Pauses (rs.foldl release s) := by
  induction rs generalizing s with
  | nil => exact .refl s
  | cons r rs ih =>
      have hrelease : s.Pauses (s.release r) := by
        obtain ⟨hiterations, hrounds, htotal⟩ :=
          requeue_pauses { s with agenda := (s.agenda.takeDeferred r).2 } (s.agenda.deferred r)
        rw [release_eq]
        exact ⟨hiterations, hrounds, htotal⟩
      exact hrelease.trans (ih _)

/-- The end of a round makes no visit. -/
theorem endRound_pauses (hs : s.Fits) (h : s.endRound = .ok s') : s.Pauses s' := by
  obtain ⟨s₁, hfold, -⟩ := foldlM_publish_ok hs s.runs.keys
  rw [endRound, hfold] at h
  cases h
  exact (foldlM_publish_pauses hs hfold).trans (foldl_release_pauses s₁ _)

/-! ### Visits -/

/-- A visit is counted once, and belongs to the round that is going on. -/
theorem visit_tally {v : Visited} (hreal : v.Real d) (hs : v.unit.Fits)
    (h : v.unit.visit d o v.ref = .ok s') :
    s'.iterations = v.unit.iterations + 1 ∧ s'.visitTotal = v.unit.visitTotal + 1 ∧
      s'.rounds = v.unit.rounds := by
  obtain ⟨hkey, hfits⟩ := hs.runs hreal.run
  have hafter : v.after.visits.sum = v.run.visits.sum + 1 := by
    apply RoutineRun.sum_visits_countVisit
    rw [hfits.counted]
    exact (Array.getElem?_eq_some_iff.1 hreal.block).1
  have htotal (run' : RoutineRun) (hruns : s'.runs = v.unit.runs.insert v.ref.1 run')
      (hvisits : run'.visits = v.after.visits) : s'.visitTotal = v.unit.visitTotal + 1 := by
    have hinsert := visitTotal_of_insert hreal.run hruns
    rw [hvisits, hafter] at hinsert
    omega
  cases hheld : v.isHeld o with
  | true =>
      obtain ⟨callee, -, hvisit⟩ := hreal.visit_of_held hheld
      cases h.symm.trans hvisit
      exact ⟨rfl, htotal _ rfl rfl, rfl⟩
  | false =>
      obtain ⟨grown, run', hmerge, -, hext, -⟩ :=
        RoutineRun.mergeEntries_ok (hreal.after_fits hs) (hreal.flows_fit hs)
      have hrest := hext.rest
      have hroutine : run'.body.routine = v.ref.1 := by
        rw [hrest]
        exact hkey
      rw [hreal.visit_of_sent hheld, propagate, hmerge] at h
      cases h
      refine ⟨rfl, htotal run' ?_ ?_, rfl⟩
      · rw [← hroutine]
        rfl
      · rw [hrest]

/-! ### Whole runs -/

/-- The blocks that a run takes from the queue before its limit, each with the unit at that time. -/
def dequeued (d : Declarations) (o : Options) : (budget : Nat) → Solver → List (BlockRef × Solver)
  | 0, _ => []
  | budget + 1, s =>
    match s.next with
    | .ok (.visit ref s) =>
      match s.visit d o ref with
      | .ok s' => (ref, s) :: dequeued d o budget s'
      | .error _ => [(ref, s)]
    | _ => []

/-- A run from `s` to `s'` that takes some blocks from the queue before its limit. -/
inductive Trace (d : Declarations) (o : Options) :
    (budget : Nat) → (s : Solver) → List (BlockRef × Solver) → (converged : Bool) → Solver → Prop
  | stop {budget : Nat} {s s' : Solver} (h : s.next = .ok (.stop s')) :
      Trace d o budget s [] true s'
  | limit {s s' : Solver} {ref : BlockRef} (h : s.next = .ok (.visit ref s')) :
      Trace d o 0 s [] false s'
  | visit {budget : Nat} {s s₁ s₂ s' : Solver} {ref : BlockRef} {log : List (BlockRef × Solver)}
      {converged : Bool} (h : s.next = .ok (.visit ref s₁)) (hvisit : s₁.visit d o ref = .ok s₂)
      (rest : Trace d o budget s₂ log converged s') :
      Trace d o (budget + 1) s ((ref, s₁) :: log) converged s'

variable {budget : Nat} {log : List (BlockRef × Solver)} {converged : Bool}

/-- Every run leaves a trace. -/
theorem trace_of_run (h : s.run d o budget = .ok (converged, s')) :
    Trace d o budget s (s.dequeued d o budget) converged s' := by
  induction budget generalizing s with
  | zero =>
      rw [run] at h
      cases hnext : s.next with
      | error fault => simp [hnext, bind, Except.bind] at h
      | ok next =>
          cases next with
          | stop s₁ =>
              rw [hnext] at h
              cases h
              exact .stop hnext
          | visit ref s₁ =>
              rw [hnext] at h
              cases h
              exact .limit hnext
  | succ budget ih =>
      cases hnext : s.next with
      | error fault => simp [run, hnext, bind, Except.bind] at h
      | ok next =>
          cases next with
          | stop s₁ =>
              simp only [run, hnext, bind, Except.bind] at h
              cases h
              simp only [dequeued, hnext]
              exact .stop hnext
          | visit ref s₁ =>
              cases hvisit : s₁.visit d o ref with
              | error fault => simp [run, hnext, bind, Except.bind, hvisit] at h
              | ok s₂ =>
                  simp only [run, hnext, bind, Except.bind, hvisit] at h
                  simp only [dequeued, hnext, hvisit]
                  exact .visit hnext hvisit (ih h)

/-- What is taken from the queue next has been reached. Nothing is counted, except that a new round
begins if the queue was empty. -/
theorem Fits.next_visit (hs : s.Fits) {ref : BlockRef} (h : s.next = .ok (.visit ref s')) :
    s'.Fits ∧ (s'.entry? ref).isSome ∧ s'.iterations = s.iterations ∧
      s'.visitTotal = s.visitTotal ∧
      s'.rounds = if s.agenda.queue = [] then s.rounds + 1 else s.rounds := by
  have hreached : s'.Fits ∧ (s'.entry? ref).isSome := by
    obtain ⟨s₁, c, s₂, -, hnext, hs₁, hdequeues⟩ | ⟨s₁, -, hnext, -⟩ := next_ok hs
    · cases h.symm.trans hnext
      exact ⟨hdequeues.fits hs₁, hdequeues.reached hs₁⟩
    · cases h.symm.trans hnext
  refine ⟨hreached.1, hreached.2, ?_⟩
  cases hdequeue : s.agenda.dequeue with
  | some taken =>
      have hqueue : s.agenda.queue ≠ [] := by
        rw [(Agenda.dequeue_eq_some hdequeue).1]
        exact List.cons_ne_nil _ _
      simp only [next, hdequeue] at h
      cases h
      exact ⟨rfl, rfl, (if_neg hqueue).symm⟩
  | none =>
      obtain ⟨s₁, hend, -⟩ := endRound_ok hs
      obtain ⟨hiterations, hrounds, htotal⟩ := endRound_pauses hs hend
      rw [if_pos (Agenda.dequeue_eq_none.1 hdequeue), ← hrounds]
      simp only [next, hdequeue, hend, bind, Except.bind] at h
      split at h
      · cases h
        exact ⟨hiterations, htotal, rfl⟩
      · cases h

theorem Fits.next_stop (hs : s.Fits) (h : s.next = .ok (.stop s')) : s.Pauses s' := by
  obtain ⟨s₁, c, s₂, -, hnext, -⟩ | ⟨s₁, hend, hnext, -⟩ := next_ok hs
  · cases h.symm.trans hnext
  · cases h.symm.trans hnext
    exact endRound_pauses hs hend

/-- A block that has been reached is visited, and that is counted. -/
theorem Fits.visit_tally (hs : s.Fits) {ref : BlockRef} (href : (s.entry? ref).isSome)
    (h : s.visit d o ref = .ok s') :
    s'.Fits ∧ s'.iterations = s.iterations + 1 ∧ s'.visitTotal = s.visitTotal + 1 ∧
      s'.rounds = s.rounds := by
  obtain ⟨v, hreal, rfl, rfl⟩ := hs.exists_visited d href
  obtain ⟨s₁, hvisit, hs₁, -⟩ := hreal.visit_ok hs o
  cases h.symm.trans hvisit
  exact ⟨hs₁, Solver.visit_tally hreal hs h⟩

/-- No more rounds have begun than visits were made, unless a block is queued for the round that is
going on. -/
def InPace (s : Solver) : Prop :=
  s.rounds ≤ s.iterations ∨ s.rounds ≤ s.iterations + 1 ∧ s.agenda.queue ≠ []

/-- There is at most one round more than visits. -/
theorem InPace.rounds_le (h : s.InPace) : s.rounds ≤ s.iterations + 1 := by
  rcases h with h | ⟨h, -⟩
  · exact Nat.le_succ_of_le h
  · exact h

theorem InPace.next_visit (h : s.InPace) (hs : s.Fits) {ref : BlockRef}
    (hnext : s.next = .ok (.visit ref s')) : s'.rounds ≤ s'.iterations + 1 := by
  obtain ⟨-, -, hiterations, -, hrounds⟩ := hs.next_visit hnext
  by_cases hempty : s.agenda.queue = []
  · have hle : s.rounds ≤ s.iterations := h.resolve_right fun hqueue => hqueue.2 hempty
    rw [hrounds, hiterations, if_pos hempty]
    exact Nat.succ_le_succ hle
  · rw [hrounds, hiterations, if_neg hempty]
    exact h.rounds_le

namespace Trace

/-- Every block that is taken from the queue has been reached. -/
theorem known (h : Trace d o budget s log converged s') (hs : s.Fits) :
    ∀ e ∈ log, (Solver.entry? e.2 e.1).isSome := by
  induction h with
  | stop => exact List.forall_mem_nil _
  | limit => exact List.forall_mem_nil _
  | visit hnext hvisit _ ih =>
      obtain ⟨hs₁, hreached, -⟩ := hs.next_visit hnext
      exact List.forall_mem_cons.2 ⟨hreached, ih (hs₁.visit_tally hreached hvisit).1⟩

/-- Every block that is taken from the queue is visited and counted. A run that does not converge
has used up its budget. -/
theorem counts (h : Trace d o budget s log converged s') (hs : s.Fits) :
    s'.iterations = s.iterations + log.length ∧ s'.visitTotal = s.visitTotal + log.length ∧
      log.length ≤ budget ∧ (converged = false → log.length = budget) := by
  induction h with
  | stop hnext =>
      obtain ⟨hiterations, -, htotal⟩ := hs.next_stop hnext
      exact ⟨hiterations, htotal, Nat.zero_le _, fun hc => absurd hc Bool.noConfusion⟩
  | limit hnext =>
      obtain ⟨-, -, hiterations, htotal, -⟩ := hs.next_visit hnext
      exact ⟨hiterations, htotal, Nat.le_refl _, fun _ => rfl⟩
  | visit hnext hvisit _ ih =>
      obtain ⟨hs₁, hreached, hiterations₁, htotal₁, -⟩ := hs.next_visit hnext
      obtain ⟨hs₂, hiterations₂, htotal₂, -⟩ := hs₁.visit_tally hreached hvisit
      obtain ⟨hiterations, htotal, hle, hspent⟩ := ih hs₂
      rw [List.length_cons]
      refine ⟨by omega, by omega, by omega, fun hc => ?_⟩
      rw [hspent hc]

/-- Along a run that starts in pace, there are no more rounds than visits, but for the last one. -/
theorem rounds_le (h : Trace d o budget s log converged s') (hs : s.Fits) (hpace : s.InPace) :
    s'.rounds ≤ s'.iterations + 1 := by
  induction h with
  | stop hnext =>
      obtain ⟨hiterations, hrounds, -⟩ := hs.next_stop hnext
      have hle := hpace.rounds_le
      omega
  | limit hnext => exact hpace.next_visit hs hnext
  | visit hnext hvisit _ ih =>
      obtain ⟨hs₁, hreached, -⟩ := hs.next_visit hnext
      obtain ⟨hs₂, hiterations, -, hrounds⟩ := hs₁.visit_tally hreached hvisit
      have hle := hpace.next_visit hs hnext
      exact ih hs₂ (Or.inl (by omega))

end Trace

end Solver

end FlowTyping
