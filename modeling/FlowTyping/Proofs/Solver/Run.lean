import FlowTyping.Proofs.Solver.Start

/-!
# Runs of the solver

`Solver.history` lists the visits of a run, and `Reaches` relates the unit that a run has come to
with the visits so far. Main statements: `run_ok`, by which a run that starts fit succeeds, and
`Reaches.logs`, by which the last visit to every block is tracked.
-/

namespace FlowTyping

open Solver

/-- The record of the visit that the solver makes to a block. -/
def Solver.visited? (d : Declarations) (s : Solver) (ref : BlockRef) : Option Visited :=
  match s.runs.find? ref.1 with
  | none => none
  | some run =>
    match run.entry? ref.2, run.body.blocks[ref.2]? with
    | some entry, some block =>
      match (visitBlock ⟨run.body, d, s.published, ref.2⟩ block).run
          ⟨entry, run.facts, s.agenda, none⟩ with
      | .ok (outcome, scene) => some ⟨s, ref, run, entry, block, outcome, scene⟩
      | .error _ => none
    | _, _ => none

/-- The visits of a run, first to last. -/
def Solver.history (d : Declarations) (o : Options) : (budget : Nat) → Solver → List Visited
  | 0, _ => []
  | budget + 1, s =>
    match s.next with
    | .ok (.visit ref s) =>
      match s.visited? d ref, s.visit d o ref with
      | some v, .ok s' => v :: history d o budget s'
      | _, _ => []
    | _ => []

/-- The last visit to a block among some visits. -/
def lastVisit? (log : List Visited) (ref : BlockRef) : Option Visited :=
  log.reverse.find? fun v => decide (v.ref = ref)

/-- The last visit to a block is the new one, if it is to this block. -/
theorem lastVisit?_concat (log : List Visited) (v : Visited) (ref : BlockRef) :
    lastVisit? (log ++ [v]) ref = if v.ref = ref then some v else lastVisit? log ref := by
  simp only [lastVisit?, List.reverse_append, List.reverse_cons, List.reverse_nil, List.nil_append,
    List.singleton_append, List.find?_cons]
  by_cases h : v.ref = ref <;> simp [h]

theorem ref_of_lastVisit? {log : List Visited} {ref : BlockRef} {v : Visited}
    (h : lastVisit? log ref = some v) : v.ref = ref := by
  have hfound := List.find?_some h
  exact of_decide_eq_true hfound

theorem mem_of_lastVisit? {log : List Visited} {ref : BlockRef} {v : Visited}
    (h : lastVisit? log ref = some v) : v ∈ log :=
  List.mem_reverse.1 (List.mem_of_find?_eq_some h)

/-- A block with a visit has a last one. -/
theorem exists_lastVisit? {log : List Visited} {ref : BlockRef}
    (h : 0 < log.countP fun v => decide (v.ref = ref)) : ∃ v, lastVisit? log ref = some v := by
  obtain ⟨v, hv, href⟩ := List.countP_pos_iff.1 h
  rw [← Option.isSome_iff_exists, lastVisit?, List.find?_isSome]
  exact ⟨v, List.mem_reverse.2 hv, href⟩

theorem Visited.Real.visited?_eq {d : Declarations} {v : Visited} (h : v.Real d) :
    v.unit.visited? d v.ref = some v := by
  have hrun : (visitBlock ⟨v.run.body, d, v.unit.published, v.ref.2⟩ v.block).run
      ⟨v.entry, v.run.facts, v.unit.agenda, none⟩ = .ok (v.outcome, v.scene) := h.outcome
  simp only [Solver.visited?, h.run, h.entry, h.block, hrun]

namespace Solver

variable {d : Declarations} {o : Options} {s s' : Solver}

/-- A unit in which nothing is left to do. -/
structure Final (s : Solver) : Prop where
  queue : s.agenda.queue = []
  settled : ∀ r, s.Settled r
  released : ∀ r, (s.published.find? r).isSome → s.agenda.deferred r = []

/-- In a final unit a visit that is tracked was sent on, and all it relied on is final. -/
theorem Tracks.of_final {v : Visited} (h : s.Tracks o v) (hs : s.Final) :
    v.isHeld o = false ∧ s.entry? v.ref = some v.entry ∧
      ∀ r, v.ref ∈ v.scene.agenda.waiters r →
        s.published.find? r = v.unit.published.find? r := by
  rcases h.stands with hqueued | ⟨hentry, hpublished, hheld⟩
  · rw [hs.queue] at hqueued
    cases hqueued
  · refine ⟨Bool.eq_false_iff.2 fun h => ?_, hentry, hpublished⟩
    obtain ⟨r, hlisted, hr⟩ := hheld h
    rw [hs.released r hlisted] at hr
    cases hr

/-- The visits so far: they are counted, and the last one to each block is tracked. -/
structure Logs (d : Declarations) (o : Options) (s : Solver) (log : List Visited) : Prop where
  real : ∀ v ∈ log, v.Real d ∧ v.unit.Fits
  tracks : ∀ {ref : BlockRef} {v : Visited}, lastVisit? log ref = some v → s.Tracks o v
  counted : ∀ ref, s.visitCount ref = log.countP fun v => decide (v.ref = ref)

/-- One unit is the other with the first block taken from its queue. -/
structure Dequeues (s : Solver) (ref : BlockRef) (s' : Solver) : Prop where
  runs : s'.runs = s.runs
  published : s'.published = s.published
  queue : s.agenda.queue = ref :: s'.agenda.queue
  dependents : s'.agenda.dependents = s.agenda.dependents

namespace Dequeues

variable {ref : BlockRef}

theorem entry? (h : s.Dequeues ref s') (c : BlockRef) : s'.entry? c = s.entry? c := by
  rw [Solver.entry?, Solver.entry?, h.runs]

theorem visitCount (h : s.Dequeues ref s') (c : BlockRef) : s'.visitCount c = s.visitCount c := by
  rw [Solver.visitCount, Solver.visitCount, h.runs]

/-- To take a block off the queue keeps the unit in shape. -/
theorem fits (h : s.Dequeues ref s') (hs : s.Fits) : s'.Fits := by
  refine ⟨h.runs ▸ hs.nodup, h.runs ▸ hs.runs, fun r => ?_, fun c hc => ?_, fun r c hc => ?_,
    fun r c hc => ?_⟩
  · rw [h.published, h.runs]
    exact hs.listed r
  · rw [h.entry?]
    exact hs.queued c (h.queue ▸ List.mem_cons_of_mem ref hc)
  · rw [h.entry?, h.published]
    exact hs.waiting r c (Agenda.waiters_congr h.dependents r ▸ hc)
  · rw [h.entry?]
    exact hs.held r c (Agenda.deferred_congr h.dependents r ▸ hc)

/-- What is tracked about other blocks stays tracked. -/
theorem tracks (h : s.Dequeues ref s') {v : Visited} (hv : s.Tracks o v) (hne : v.ref ≠ ref) :
    s'.Tracks o v := by
  refine ⟨?_, fun r hr => ?_, fun hsent e he => ?_⟩
  · rcases hv.stands with hqueued | ⟨hentry, hpublished, hheld⟩
    · rw [h.queue] at hqueued
      exact Or.inl ((List.mem_cons.1 hqueued).resolve_left hne)
    · rw [h.entry?, h.published]
      refine Or.inr ⟨hentry, hpublished, fun hw => ?_⟩
      obtain ⟨r, hlisted, hr⟩ := hheld hw
      exact ⟨r, hlisted, (Agenda.deferred_congr h.dependents r).symm ▸ hr⟩
  · exact (Agenda.waiters_congr h.dependents r).symm ▸ hv.waits r hr
  · rw [h.entry?]
    exact hv.flows hsent e he

theorem reached (h : s.Dequeues ref s') (hs : s.Fits) : (s'.entry? ref).isSome := by
  rw [h.entry?]
  exact hs.queued ref (h.queue ▸ List.mem_cons_self ..)

end Dequeues

/-- The units that a run comes to from another one, each with the visits made on the way. -/
inductive Reaches (d : Declarations) (o : Options) (s₀ : Solver) : Solver → List Visited → Prop
  | start : Reaches d o s₀ s₀ []
  | round {s s' : Solver} {log : List Visited} (h : Reaches d o s₀ s log)
      (hend : s.endRound = .ok s') : Reaches d o s₀ s' log
  | visit {s s' : Solver} {v : Visited} {log : List Visited} (h : Reaches d o s₀ s log)
      (hdequeues : s.Dequeues v.ref v.unit) (hreal : v.Real d)
      (hvisit : v.unit.visit d o v.ref = .ok s') : Reaches d o s₀ s' (log ++ [v])

/-- A run keeps the unit in shape. -/
theorem Reaches.fits {s₀ : Solver} {log : List Visited} (h : Reaches d o s₀ s log) (hs₀ : s₀.Fits) :
    s.Fits := by
  induction h with
  | start => exact hs₀
  | round _ hend ih =>
      obtain ⟨s₁, hend₁, hs₁, -⟩ := endRound_ok ih
      cases hend.symm.trans hend₁
      exact hs₁
  | visit _ hdequeues hreal hvisit ih =>
      obtain ⟨s₁, hvisit₁, hs₁, -⟩ := hreal.visit_ok (hdequeues.fits ih) o
      cases hvisit.symm.trans hvisit₁
      exact hs₁

/-- Along a run, every routine keeps its body. -/
theorem Reaches.body_mem {s₀ : Solver} {bodies : List Body} {log : List Visited}
    (h : Reaches d o s₀ s log) (hs₀ : s₀.Fresh bodies) {r : RoutineId} {run : RoutineRun}
    (hrun : s.runs.find? r = some run) : run.body ∈ bodies := by
  induction h generalizing run with
  | start => exact hs₀.bodies hrun
  | round h hend ih =>
      obtain ⟨s₁, hend₁, hs₁, hadvances, -⟩ := endRound_ok (h.fits hs₀.fits)
      cases hend.symm.trans hend₁
      obtain ⟨old, hold, hbody⟩ := hadvances.exists_run (h.fits hs₀.fits) hs₁ hrun
      exact hbody ▸ ih hold
  | visit h hdequeues hreal hvisit ih =>
      have hs₁ := hdequeues.fits (h.fits hs₀.fits)
      obtain ⟨s₂, hvisit₂, hs₂, hadvances, -⟩ := hreal.visit_ok hs₁ o
      cases hvisit.symm.trans hvisit₂
      obtain ⟨old, hold, hbody⟩ := hadvances.exists_run hs₁ hs₂ hrun
      exact hbody ▸ ih (hdequeues.runs ▸ hold)

/-- The log stays true over the end of a round. -/
theorem Logs.round {log : List Visited} (h : s.Logs d o log) (ha : s.Advances s')
    (hi : s.Idles s') : s'.Logs d o log :=
  ⟨h.real, fun hv => (h.tracks hv).advance ha, fun ref => (hi.visitCount ref).trans (h.counted ref)⟩

/-- Taking a block from the queue and visiting it logs one more visit. -/
theorem Logs.visit {log : List Visited} {v : Visited} (h : s.Logs d o log) (hs : s.Fits)
    (hdequeues : s.Dequeues v.ref v.unit) (hreal : v.Real d)
    (hvisit : v.unit.visit d o v.ref = .ok s') : s'.Logs d o (log ++ [v]) := by
  have hs₁ := hdequeues.fits hs
  obtain ⟨s₂, hvisit₂, -, hadvances, htracks, hcount⟩ := hreal.visit_ok hs₁ o
  cases hvisit.symm.trans hvisit₂
  refine ⟨fun w hw => ?_, fun {ref w} hw => ?_, fun ref => ?_⟩
  · rcases List.mem_append.1 hw with hw | hw
    · exact h.real w hw
    · rw [List.mem_singleton.1 hw]
      exact ⟨hreal, hs₁⟩
  · rw [lastVisit?_concat] at hw
    split at hw
    · cases hw
      exact htracks
    · rename_i hne
      have hother : w.ref ≠ v.ref := fun heq => hne (heq.symm.trans (ref_of_lastVisit? hw))
      exact (hdequeues.tracks (h.tracks hw) hother).advance hadvances
  · rw [hcount, hdequeues.visitCount, h.counted, List.countP_append, List.countP_singleton]
    simp only [decide_eq_true_eq]

/-- Along a run, all visits are logged. -/
theorem Reaches.logs {s₀ : Solver} {bodies : List Body} {log : List Visited}
    (h : Reaches d o s₀ s log) (hs₀ : s₀.Fresh bodies) : s.Logs d o log := by
  induction h with
  | start => exact ⟨fun v hv => (nomatch hv), fun hv => (nomatch hv), hs₀.unvisited⟩
  | round h hend ih =>
      obtain ⟨s₁, hend₁, -, hadvances, -, -, hidles⟩ := endRound_ok (h.fits hs₀.fits)
      cases hend.symm.trans hend₁
      exact ih.round hadvances hidles
  | visit h hdequeues hreal hvisit ih => exact ih.visit (h.fits hs₀.fits) hdequeues hreal hvisit

/-- What comes next: a block from the queue, possibly after the end of a round, or the end. -/
theorem next_ok (hs : s.Fits) :
    (∃ s₁ ref s₂, (s₁ = s ∨ s.endRound = .ok s₁) ∧ s.next = .ok (.visit ref s₂) ∧
        s₁.Fits ∧ s₁.Dequeues ref s₂) ∨
      ∃ s₁, s.endRound = .ok s₁ ∧ s.next = .ok (.stop s₁) ∧ s₁.Fits ∧ s₁.Final := by
  cases hdequeue : s.agenda.dequeue with
  | some taken =>
      obtain ⟨ref, a⟩ := taken
      obtain ⟨hqueue, hdependents⟩ := Agenda.dequeue_eq_some hdequeue
      refine Or.inl ⟨s, ref, { s with agenda := a }, Or.inl rfl, ?_, hs, rfl, rfl, hqueue,
        hdependents⟩
      simp only [next, hdequeue]
      rfl
  | none =>
      obtain ⟨s₁, hend, hs₁, -, hsettled, hreleased, -⟩ := endRound_ok hs
      cases hdequeue₁ : s₁.agenda.dequeue with
      | some taken =>
          obtain ⟨ref, a⟩ := taken
          obtain ⟨hqueue, hdependents⟩ := Agenda.dequeue_eq_some hdequeue₁
          refine Or.inl ⟨s₁, ref, { s₁ with agenda := a, rounds := s₁.rounds + 1 }, Or.inr hend, ?_,
            hs₁, rfl, rfl, hqueue, hdependents⟩
          simp only [next, hdequeue, hend, bind, Except.bind, hdequeue₁]
          rfl
      | none =>
          refine Or.inr ⟨s₁, hend, ?_, hs₁, Agenda.dequeue_eq_none.1 hdequeue₁, hsettled, hreleased⟩
          simp only [next, hdequeue, hend, bind, Except.bind, hdequeue₁]
          rfl

/-- A run that starts fit succeeds. If it converges, it comes to a unit in which nothing is left to
do, by the visits of its history. -/
theorem run_ok {s₀ : Solver} {log : List Visited} (hs : s.Fits) (h : Reaches d o s₀ s log)
    (budget : Nat) :
    ∃ converged s', s.run d o budget = .ok (converged, s') ∧ s'.Fits ∧
      (converged = true → s'.Final ∧ Reaches d o s₀ s' (log ++ s.history d o budget)) := by
  induction budget generalizing s log with
  | zero =>
      obtain ⟨s₁, ref, s₂, -, hnext, hs₁, hdequeues⟩ | ⟨s₁, hend, hnext, hs₁, hfinal⟩ := next_ok hs
      · refine ⟨false, s₂, ?_, hdequeues.fits hs₁, fun hc => nomatch hc⟩
        rw [run, hnext]
        rfl
      · refine ⟨true, s₁, ?_, hs₁, fun _ => ⟨hfinal, ?_⟩⟩
        · rw [run, hnext]
          rfl
        · rw [history, List.append_nil]
          exact h.round hend
  | succ budget ih =>
      obtain ⟨s₁, ref, s₂, hround, hnext, hs₁, hdequeues⟩ | ⟨s₁, hend, hnext, hs₁, hfinal⟩ :=
        next_ok hs
      · have h₁ : Reaches d o s₀ s₁ log := hround.elim (fun heq => heq ▸ h) h.round
        have hs₂ := hdequeues.fits hs₁
        obtain ⟨v, hreal, rfl, rfl⟩ := hs₂.exists_visited d (hdequeues.reached hs₁)
        obtain ⟨s₃, hvisit, hs₃, -⟩ := hreal.visit_ok hs₂ o
        obtain ⟨converged, s', hrun, hs', hend⟩ := ih hs₃ (h₁.visit hdequeues hreal hvisit)
        refine ⟨converged, s', ?_, hs', fun hc => ?_⟩
        · simp only [run, hnext, bind, Except.bind, hvisit]
          exact hrun
        · obtain ⟨hfinal, hreaches⟩ := hend hc
          refine ⟨hfinal, ?_⟩
          simp only [history, hnext, hreal.visited?_eq, hvisit]
          rwa [List.append_assoc] at hreaches
      · refine ⟨true, s₁, ?_, hs₁, fun _ => ⟨hfinal, ?_⟩⟩
        · simp only [run, hnext, bind, Except.bind]
          rfl
        · simp only [history, hnext, List.append_nil]
          exact h.round hend

/-! ### The next step -/

/-- The same unit, or the unit after the end of a round, if nothing is queued. -/
def Precedes (s s' : Solver) : Prop :=
  s' = s ∨ s.agenda.queue = [] ∧ s.endRound = .ok s'

/-- What a run may do next: it visits the first block in the queue, before which a round may end, or
it stops with a round that queues nothing. -/
inductive Continues (s : Solver) : Next → Prop
  | visit {s₁ s' : Solver} {ref : BlockRef} (hround : s.Precedes s₁)
      (hdequeues : s₁.Dequeues ref s') : Continues s (.visit ref s')
  | stop {s' : Solver} (hempty : s.agenda.queue = []) (hend : s.endRound = .ok s')
      (hempty' : s'.agenda.queue = []) : Continues s (.stop s')

/-- A step goes on with a visit or stops. -/
theorem continues_of_next {n : Next} (h : s.next = .ok n) : s.Continues n := by
  cases hdequeue : s.agenda.dequeue with
  | some taken =>
      obtain ⟨hqueue, hdependents⟩ := Agenda.dequeue_eq_some hdequeue
      simp only [next, hdequeue] at h
      cases h
      exact .visit (Or.inl rfl) ⟨rfl, rfl, hqueue, hdependents⟩
  | none =>
      have hempty := Agenda.dequeue_eq_none.1 hdequeue
      cases hend : s.endRound with
      | error fault => simp [next, hdequeue, hend, bind, Except.bind] at h
      | ok s₁ =>
          simp only [next, hdequeue, hend, bind, Except.bind] at h
          cases hdequeue₁ : s₁.agenda.dequeue with
          | some taken =>
              obtain ⟨hqueue, hdependents⟩ := Agenda.dequeue_eq_some hdequeue₁
              rw [hdequeue₁] at h
              cases h
              exact .visit (Or.inr ⟨hempty, hend⟩) ⟨rfl, rfl, hqueue, hdependents⟩
          | none =>
              rw [hdequeue₁] at h
              cases h
              exact .stop hempty hend (Agenda.dequeue_eq_none.1 hdequeue₁)

theorem Precedes.next_visit {ref : BlockRef} {rest : List BlockRef} (h : s.Precedes s')
    (hqueue : s'.agenda.queue = ref :: rest) :
    ∃ s₁, s.next = .ok (.visit ref s₁) ∧ s'.Dequeues ref s₁ := by
  cases hdequeue : s'.agenda.dequeue with
  | none =>
      rw [Agenda.dequeue_eq_none, hqueue] at hdequeue
      cases hdequeue
  | some taken =>
      obtain ⟨ref', a⟩ := taken
      obtain ⟨hqueue', hdependents⟩ := Agenda.dequeue_eq_some hdequeue
      cases (List.cons.inj (hqueue.symm.trans hqueue')).1
      rcases h with rfl | ⟨hempty, hend⟩
      · refine ⟨{ s' with agenda := a }, ?_, rfl, rfl, hqueue', hdependents⟩
        simp only [next, hdequeue]
        rfl
      · refine ⟨{ s' with agenda := a, rounds := s'.rounds + 1 }, ?_, rfl, rfl, hqueue',
          hdependents⟩
        simp only [next, Agenda.dequeue_eq_none.2 hempty, hend, bind, Except.bind, hdequeue]
        rfl

/-- A run stops where a round ends with nothing in the queue. -/
theorem next_stop (hempty : s.agenda.queue = []) (hend : s.endRound = .ok s')
    (hempty' : s'.agenda.queue = []) : s.next = .ok (.stop s') := by
  simp only [next, Agenda.dequeue_eq_none.2 hempty, hend, bind, Except.bind,
    Agenda.dequeue_eq_none.2 hempty']
  rfl

theorem Precedes.fits (h : s.Precedes s') (hs : s.Fits) : s'.Fits := by
  rcases h with rfl | ⟨-, hend⟩
  · exact hs
  · obtain ⟨s₁, hend₁, hs₁, -⟩ := endRound_ok hs
    cases hend.symm.trans hend₁
    exact hs₁

end Solver

end FlowTyping
