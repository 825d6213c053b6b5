import FlowTyping.Proofs.Solver.Step

/-!
# One visit of the solver

A `Visited` is the record of one visit: the unit when it began, the block and its entry, and what
the visit found. `Solver.Tracks` is what the solver keeps about the last visit to a block: either
the block is queued again, or the visit still stands. Main statement: `Visited.Real.visit_ok`.
-/

namespace FlowTyping

open Visit

/-- The record of a visit to a block. -/
structure Visited where
  /-- The unit when the visit began. -/
  unit : Solver
  ref : BlockRef
  run : RoutineRun
  entry : State
  block : Block
  outcome : Outcome
  /-- The scene when the visit ended. -/
  scene : Scene

namespace Visited

variable (d : Declarations) (o : Options)

/-- What the visit read. -/
def setting (v : Visited) : Setting :=
  ⟨v.run.body, d, v.unit.published, v.ref.2⟩

/-- The scene when the visit began. -/
def start (v : Visited) : Scene :=
  ⟨v.entry, v.run.facts, v.unit.agenda, none⟩

/-- The record is that of a visit to the block from its entry. -/
structure Real (v : Visited) : Prop where
  run : v.unit.runs.find? v.ref.1 = some v.run
  entry : v.run.entry? v.ref.2 = some v.entry
  block : v.run.body.blocks[v.ref.2]? = some v.block
  outcome : (visitBlock (v.setting d) v.block).run v.start = .ok (v.outcome, v.scene)

/-- The states that the visit found were not sent on. -/
def isHeld (v : Visited) : Bool :=
  v.scene.pending?.isSome && o.deferOnPending && !decide (v.ref.2 ∈ v.run.mustComplete)

/-- The run with the facts that the visit found. -/
def after (v : Visited) : RoutineRun :=
  { v.run.countVisit v.ref.2 with
    facts := v.scene.facts
    mustComplete := v.run.mustComplete.filter (· != v.ref.2) }

end Visited

namespace Solver

variable (d : Declarations) (o : Options)

/-- What the solver keeps about a visit that is the last one to its block. -/
structure Tracks (s : Solver) (v : Visited) : Prop where
  /-- Unless the block is queued, its entry is still the same, so are the results it waits for,
  and if the visit was held back then the block still is. -/
  stands : v.ref ∈ s.agenda.queue ∨
    s.entry? v.ref = some v.entry ∧
    (∀ r, v.ref ∈ v.scene.agenda.waiters r → s.published.find? r = v.unit.published.find? r) ∧
    (v.isHeld o = true → ∃ r, (s.published.find? r).isSome ∧ v.ref ∈ s.agenda.deferred r)
  waits : ∀ r, v.ref ∈ v.scene.agenda.waiters r → v.ref ∈ s.agenda.waiters r
  flows : v.isHeld o = false → ∀ e ∈ flows v.block v.outcome,
    ∃ final, s.entry? (v.ref.1, e.1) = some final ∧ final.subsumes e.2 = .ok true

variable {d o} {s s' : Solver} {v : Visited}

/-- A visit stays tracked as the unit advances. -/
theorem Tracks.advance (h : s.Tracks o v) (ha : s.Advances s') : s'.Tracks o v := by
  refine ⟨?_, fun r hr => ha.waiters r _ (h.waits r hr), fun hheld e he => ?_⟩
  · rcases h.stands with hqueued | ⟨hentry, hpublished, hdeferred⟩
    · exact Or.inl (ha.queue _ hqueued)
    by_cases hqueue : v.ref ∈ s'.agenda.queue
    · exact Or.inl hqueue
    refine Or.inr ⟨?_, fun r hr => ?_, fun hheld => ?_⟩
    · obtain ⟨new, hnew, _, hsame⟩ := ha.entry hentry
      rw [hnew, hsame.resolve_right hqueue]
    · rcases ha.published r with hsame | hwaiters
      · exact hsame.trans (hpublished r hr)
      · exact absurd (hwaiters _ (h.waits r hr)) hqueue
    · obtain ⟨r, hlisted, hr⟩ := hdeferred hheld
      exact ⟨r, (ha.listed r).trans hlisted, (ha.deferred r _ hr).resolve_right hqueue⟩
  · obtain ⟨mid, hmid, hsub⟩ := h.flows hheld e he
    obtain ⟨final, hfinal, hbelow, _⟩ := ha.entry hmid
    exact ⟨final, hfinal, hbelow _ hsub⟩

end Solver

namespace Visited

variable {d : Declarations} {o : Options} {v : Visited}

/-- The unit after the visit, if its states were held back. -/
def deferred (v : Visited) (callee : RoutineId) : Solver :=
  { v.unit with
    runs := v.unit.runs.insert v.ref.1 v.after
    agenda := v.scene.agenda.defer callee v.ref
    iterations := v.unit.iterations + 1 }

/-- The unit after the visit, but for the states that it sends on. -/
def sending (v : Visited) : Solver :=
  { v.unit with agenda := v.scene.agenda, iterations := v.unit.iterations + 1 }

namespace Real

/-- A visit holds its block back for a pending callee, or sends on what it found. -/
theorem visit_eq (h : v.Real d) (o : Options) :
    v.unit.visit d o v.ref =
      match v.scene.pending? with
      | some callee =>
        if o.deferOnPending && !decide (v.ref.2 ∈ v.run.mustComplete) then .ok (v.deferred callee)
        else v.sending.propagate v.after v.block v.outcome
      | none => v.sending.propagate v.after v.block v.outcome := by
  have hrun : (visitBlock ⟨v.run.body, d, v.unit.published, v.ref.2⟩ v.block).run
      ⟨v.entry, v.run.facts, v.unit.agenda, none⟩ = .ok (v.outcome, v.scene) := h.outcome
  simp only [Solver.visit, h.run, h.entry, h.block, hrun]
  rfl

theorem visit_of_held (h : v.Real d) (hheld : v.isHeld o = true) :
    ∃ callee, v.scene.pending? = some callee ∧
      v.unit.visit d o v.ref = .ok (v.deferred callee) := by
  rw [h.visit_eq o]
  simp only [isHeld, Bool.and_eq_true, Option.isSome_iff_exists] at hheld
  obtain ⟨⟨⟨callee, hcallee⟩, hdefer⟩, hmust⟩ := hheld
  refine ⟨callee, hcallee, ?_⟩
  rw [hcallee, hdefer, hmust]
  rfl

theorem visit_of_sent (h : v.Real d) (hheld : v.isHeld o = false) :
    v.unit.visit d o v.ref = v.sending.propagate v.after v.block v.outcome := by
  rw [h.visit_eq o]
  cases hpending : v.scene.pending? with
  | none => rfl
  | some callee =>
      rw [isHeld, hpending] at hheld
      simp only [Option.isSome_some, Bool.true_and] at hheld
      simp only [hheld, Bool.false_eq_true, if_false]

/-- A block that is visited was reached. -/
theorem reached (h : v.Real d) : (v.unit.entry? v.ref).isSome := by
  rw [Solver.entry?, h.run]
  exact Option.isSome_iff_exists.2 ⟨_, h.entry⟩

variable (h : v.Real d) (hs : v.unit.Fits)

include h hs

/-- A visit moves as visits do, keeps the scene fit and sends on states that fit. Against other
results that agree wherever the block waits, it does the same. -/
theorem runs (p : OrderedMap RoutineId Summary) :
    Moves (v.setting d) v.start v.scene ∧ v.scene.Fits v.run.body ∧
      v.outcome.Fits v.block.edge.successors v.run.body v.scene ∧
      ((v.setting d).Agrees p v.scene.agenda →
        (visitBlock ((v.setting d).against p) v.block).run v.start = .ok (v.outcome, v.scene)) := by
  obtain ⟨-, hfits⟩ := hs.runs h.run
  have hstart : v.start.Fits (v.setting d).body := ⟨hfits.facts, hfits.states h.entry⟩
  have hruns : Runs (v.setting d) p (visitBlock (v.setting d) v.block) _ v.start _ :=
    visitBlock_runs hfits.body h.block hstart
  obtain ⟨outcome, scene, hrun, hmoves, hscene, houtcome, hreplay⟩ := hruns
  cases h.outcome.symm.trans hrun
  exact ⟨hmoves, hscene, houtcome, hreplay⟩

theorem moves : Moves (v.setting d) v.start v.scene :=
  (h.runs hs v.unit.published).1

/-- The run after a visit is in shape. -/
theorem after_fits : v.after.Fits := by
  obtain ⟨-, hfits⟩ := hs.runs h.run
  refine ⟨hfits.body, (h.runs hs v.unit.published).2.1.facts, hfits.size, ?_, fun hentry => ?_⟩
  · simp [after, RoutineRun.countVisit, hfits.counted]
  · exact (hfits.states hentry).grow (h.moves hs).table

/-- A visit counts for its own block. -/
theorem visitCount_of_after {s' : Solver} {run' : RoutineRun}
    (hruns : s'.runs = v.unit.runs.insert v.ref.1 run') (hvisits : run'.visits = v.after.visits)
    (ref : BlockRef) :
    s'.visitCount ref = v.unit.visitCount ref + if v.ref = ref then 1 else 0 := by
  obtain ⟨-, hfits⟩ := hs.runs h.run
  obtain ⟨r, b⟩ := ref
  rw [Solver.visitCount_of_insert hruns, hvisits]
  by_cases hr : v.ref.1 = r
  · subst hr
    have hown : v.ref.2 < v.run.visits.size := by
      rw [hfits.counted]
      exact (Array.getElem?_eq_some_iff.1 h.block).1
    have href : v.ref = (v.ref.1, b) ↔ v.ref.2 = b :=
      ⟨fun heq => congrArg Prod.snd heq, fun heq => Prod.ext rfl heq⟩
    have hold : v.unit.visitCount (v.ref.1, b) = v.run.visits.getD b 0 := Solver.visitCount_eq h.run
    rw [if_pos rfl, hold]
    simp only [after, RoutineRun.countVisit, Array.getD_eq_getD_getElem?, Array.getElem?_modify,
      href]
    by_cases hb : v.ref.2 = b
    · subst hb
      simp [hown]
    · simp [hb]
  · rw [if_neg hr, if_neg fun heq => hr (congrArg Prod.fst heq), Nat.add_zero]

/-- Every block that waits after the visit has been reached, and waits for a routine of the unit. -/
theorem waiting (r : RoutineId) {ref : BlockRef} (href : ref ∈ v.scene.agenda.waiters r) :
    (v.unit.entry? ref).isSome ∧ (v.unit.published.find? r).isSome := by
  rcases (h.moves hs).mem_waiters href with hold | ⟨rfl, hlisted⟩
  · exact hs.waiting r ref hold
  · refine ⟨?_, hlisted⟩
    obtain ⟨hkey, hfits⟩ := hs.runs h.run
    have hroutine : v.start.facts.routine = v.ref.1 := hfits.facts.routine.trans hkey
    have hblock : (v.setting d).block = v.ref.2 := rfl
    rw [hroutine, hblock]
    exact h.reached

/-- A visit that is held back is counted and tracked. -/
theorem visit_held_ok {callee : RoutineId} (hcallee : v.scene.pending? = some callee)
    (hheld : v.isHeld o = true) :
    (v.deferred callee).Fits ∧ v.unit.Advances (v.deferred callee) ∧
      (v.deferred callee).Tracks o v ∧
      ∀ ref, (v.deferred callee).visitCount ref =
        v.unit.visitCount ref + if v.ref = ref then 1 else 0 := by
  have hmoves := h.moves hs
  have hfits := h.after_fits hs
  have hlisted : (v.unit.published.find? callee).isSome :=
    (hmoves.pending_listed hcallee).resolve_left (fun hnone => nomatch hnone)
  have hentry {b : BlockId} {old : State} (hold : v.run.entry? b = some old) :
      ∃ new, v.after.entry? b = some new ∧ old.Below new ∧
        (new = old ∨ (v.ref.1, b) ∈ (v.deferred callee).agenda.queue) :=
    ⟨old, hold, fun _ hx => hx, Or.inl rfl⟩
  have hruns : (v.deferred callee).runs = v.unit.runs.insert v.ref.1 v.after := rfl
  have hadvances : v.unit.Advances (v.deferred callee) := by
    refine ⟨Solver.run_of_insert h.run hruns rfl hmoves.facts_below,
      Solver.entry_of_insert h.run hruns hentry, fun _ => Or.inl rfl, fun _ => rfl,
      fun ref href => ?_, fun r ref href => ?_, fun r ref href => Or.inl ?_⟩
    · exact hmoves.queue ▸ href
    · exact (Agenda.waiters_defer ..).symm ▸ hmoves.waiters_mono href
    · refine Agenda.mem_deferred_defer.2 (Or.inl ?_)
      rw [hmoves.deferred]
      exact href
  refine ⟨⟨hs.nodup_of_insert hruns, hs.runs_of_insert h.run hruns rfl hfits, fun r => ?_,
      fun ref href => ?_, fun r ref href => ?_, fun r ref href => ?_⟩, hadvances,
    ⟨Or.inr ⟨?_, fun _ _ => rfl, fun _ => ?_⟩, fun r href => ?_, fun hsent => ?_⟩,
    h.visitCount_of_after hs hruns rfl⟩
  · exact (hs.listed r).trans (Solver.isSome_of_insert h.run hruns r).symm
  · exact hadvances.reached (hs.queued ref (hmoves.queue ▸ href))
  · exact (h.waiting hs r ((Agenda.waiters_defer ..).symm ▸ href)).imp_left hadvances.reached
  · rcases Agenda.mem_deferred_defer.1 href with hold | ⟨rfl, rfl⟩
    · rw [hmoves.deferred] at hold
      exact hadvances.reached (hs.held r ref hold)
    · exact hadvances.reached h.reached
  · rw [Solver.entry?_of_insert hruns, if_pos rfl]
    exact h.entry
  · exact ⟨callee, hlisted, Agenda.mem_deferred_defer.2 (Or.inr ⟨rfl, rfl⟩)⟩
  · exact (Agenda.waiters_defer ..).symm ▸ href
  · rw [hheld] at hsent
    cases hsent

/-- The states that a visit sends on go to blocks that exist, and fit. -/
theorem flows_fit : ∀ e ∈ Solver.flows v.block v.outcome,
    e.1 < v.after.body.blocks.size ∧ e.2.Fits v.after.body.vars.length v.after.facts.table := by
  obtain ⟨-, hfits⟩ := hs.runs h.run
  obtain ⟨-, -, houtcome, -⟩ := h.runs hs v.unit.published
  have htargets := hfits.body.targets h.block
  intro e he
  rcases List.mem_append.1 he with he | he
  · refine ⟨htargets e.1 (List.mem_append_left _ ?_), houtcome.exits e he⟩
    exact List.mem_append_left _ (houtcome.targets e he)
  · split at he
    · rename_i thrown hthrown
      obtain ⟨target, htarget, rfl⟩ := List.mem_map.1 he
      exact ⟨htargets target (List.mem_append_right _ htarget), houtcome.thrown thrown hthrown⟩
    · cases he

/-- A visit that sends on what it found does not fail, and is counted and tracked. -/
theorem visit_sent_ok (hheld : v.isHeld o = false) :
    ∃ s', v.sending.propagate v.after v.block v.outcome = .ok s' ∧ s'.Fits ∧ v.unit.Advances s' ∧
      s'.Tracks o v ∧
      ∀ ref, s'.visitCount ref = v.unit.visitCount ref + if v.ref = ref then 1 else 0 := by
  have hmoves := h.moves hs
  obtain ⟨hkey, hbody⟩ := hs.runs h.run
  obtain ⟨grown, run', hmerge, hfits, hext, hsub⟩ :=
    RoutineRun.mergeEntries_ok (h.after_fits hs) (h.flows_fit hs)
  have hsame : run'.body = v.run.body ∧ run'.facts = v.scene.facts := by
    rw [hext.rest]
    exact ⟨rfl, rfl⟩
  have hroutine : run'.body.routine = v.ref.1 := hsame.1 ▸ hkey
  let s' : Solver := { v.sending with
    runs := v.unit.runs.insert run'.body.routine run'
    agenda := v.scene.agenda.enqueueAll (grown.map (run'.body.routine, ·)) }
  have hpropagate : v.sending.propagate v.after v.block v.outcome = .ok s' := by
    rw [Solver.propagate, hmerge]
    rfl
  have hruns : s'.runs = v.unit.runs.insert v.ref.1 run' := by rw [← hroutine]
  have hqueue (ref : BlockRef) :
      ref ∈ s'.agenda.queue ↔ ref ∈ v.unit.agenda.queue ∨ ∃ b ∈ grown, (v.ref.1, b) = ref := by
    rw [Agenda.mem_queue_enqueueAll, hmoves.queue, List.mem_map, hroutine]
    rfl
  have hdependents : s'.agenda.dependents = v.scene.agenda.dependents :=
    Agenda.dependents_enqueueAll ..
  have hentry {b : BlockId} {old : State} (hold : v.run.entry? b = some old) :
      ∃ new, run'.entry? b = some new ∧ old.Below new ∧
        (new = old ∨ (v.ref.1, b) ∈ s'.agenda.queue) := by
    obtain ⟨new, hnew, hbelow, hsame⟩ := hext.entry (show v.after.entry? b = some old from hold)
    exact ⟨new, hnew, hbelow, hsame.imp_right fun hb => (hqueue _).2 (Or.inr ⟨b, hb, rfl⟩)⟩
  have hadvances : v.unit.Advances s' := by
    refine ⟨Solver.run_of_insert h.run hruns hsame.1 (hsame.2 ▸ hmoves.facts_below),
      Solver.entry_of_insert h.run hruns hentry, fun _ => Or.inl rfl, fun _ => rfl,
      fun ref href => (hqueue ref).2 (Or.inl href), fun r ref href => ?_,
      fun r ref href => Or.inl ?_⟩
    · rw [Agenda.waiters_congr hdependents]
      exact hmoves.waiters_mono href
    · rw [Agenda.deferred_congr hdependents, hmoves.deferred]
      exact href
  refine ⟨s', hpropagate, ⟨hs.nodup_of_insert hruns,
    hs.runs_of_insert h.run hruns hsame.1 hfits, fun r => ?_, fun ref href => ?_,
    fun r ref href => ?_, fun r ref href => ?_⟩, hadvances,
    ⟨?_, fun r href => ?_, fun _ e he => ?_⟩, h.visitCount_of_after hs hruns ?_⟩
  · exact (hs.listed r).trans (Solver.isSome_of_insert h.run hruns r).symm
  · rcases (hqueue ref).1 href with hold | ⟨b, hb, rfl⟩
    · exact hadvances.reached (hs.queued ref hold)
    · rw [Solver.entry?_of_insert hruns, if_pos rfl]
      exact hext.grown b hb
  · rw [Agenda.waiters_congr hdependents] at href
    exact (h.waiting hs r href).imp_left hadvances.reached
  · rw [Agenda.deferred_congr hdependents, hmoves.deferred] at href
    exact hadvances.reached (hs.held r ref href)
  · by_cases hqueued : v.ref ∈ s'.agenda.queue
    · exact Or.inl hqueued
    · refine Or.inr ⟨?_, fun _ _ => rfl, fun hheld' => absurd (hheld.symm.trans hheld') (by decide)⟩
      obtain ⟨new, hnew, _, hsame⟩ := hentry h.entry
      rw [Solver.entry?_of_insert hruns, if_pos rfl, hnew, hsame.resolve_right hqueued]
  · rw [Agenda.waiters_congr hdependents]
    exact href
  · rw [Solver.entry?_of_insert hruns, if_pos rfl]
    exact hsub e he
  · rw [hext.rest]

/-- A visit succeeds, keeps the unit fit and leaves every other block as a step may; its own record
is tracked from then on. -/
theorem visit_ok (o : Options) :
    ∃ s', v.unit.visit d o v.ref = .ok s' ∧ s'.Fits ∧ v.unit.Advances s' ∧ s'.Tracks o v ∧
      ∀ ref, s'.visitCount ref = v.unit.visitCount ref + if v.ref = ref then 1 else 0 := by
  cases hheld : v.isHeld o with
  | true =>
      obtain ⟨callee, hcallee, hvisit⟩ := h.visit_of_held hheld
      exact ⟨_, hvisit, h.visit_held_ok hs hcallee hheld⟩
  | false =>
      rw [h.visit_of_sent hheld]
      exact h.visit_sent_ok hs hheld

end Real

end Visited

/-- A block that has been reached can be visited. -/
theorem Solver.Fits.exists_visited {s : Solver} (hs : s.Fits) (d : Declarations) {ref : BlockRef}
    (href : (s.entry? ref).isSome) : ∃ v : Visited, v.Real d ∧ v.unit = s ∧ v.ref = ref := by
  obtain ⟨entry, hentry⟩ := Option.isSome_iff_exists.1 href
  obtain ⟨run, hrun, hentry⟩ := Option.bind_eq_some_iff.1 hentry
  obtain ⟨-, hfits⟩ := hs.runs hrun
  obtain ⟨block, hblock⟩ := hfits.block hentry
  let env : Setting := ⟨run.body, d, s.published, ref.2⟩
  have hstart : (⟨entry, run.facts, s.agenda, none⟩ : Scene).Fits env.body :=
    ⟨hfits.facts, hfits.states hentry⟩
  have hruns : Runs env s.published (visitBlock env block) _ _ _ :=
    visitBlock_runs hfits.body hblock hstart
  obtain ⟨outcome, scene, hvisit, -⟩ := hruns
  exact ⟨⟨s, ref, run, entry, block, outcome, scene⟩, ⟨hrun, hentry, hblock, hvisit⟩, rfl, rfl⟩

end FlowTyping
