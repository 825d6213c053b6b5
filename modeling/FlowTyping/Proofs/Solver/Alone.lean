import FlowTyping.Proofs.Solver.Change
import FlowTyping.Proofs.Solver.Context
import FlowTyping.Proofs.Solver.Run
import FlowTyping.Proofs.Visit.Alone

/-!
# One routine of a unit, on its own

`Solver.Shows` relates a unit with what one of its routines sees of it: a unit of just that routine,
with its run, its published result and its blocks in the queue, in the same order. As long as no
block waits for a routine but its own, a visit to a block of another routine changes nothing of that
view, and a visit to a block of the routine and the end of a round do there what they do in the
unit. Main statements: `Shows.visit_other`, `Shows.visit_own` and `Shows.endRound`.
-/

namespace FlowTyping

open Visit

/-! ### The agenda -/

namespace Agenda.Shows

variable {a a' b b' : Agenda} {r : RoutineId} {ref : BlockRef} {refs : List BlockRef}

/-- Only the queue and the blocks that wait for the routine count. -/
theorem congr (h : a.Shows r b) (hqueue : a'.queue = a.queue)
    (hwaiters : a'.waiters r = a.waiters r) (hqueue' : b'.queue = b.queue)
    (hwaiters' : b'.waiters r = b.waiters r) : a'.Shows r b' :=
  ⟨by rw [hqueue', hqueue, h.queue], by rw [hwaiters', hwaiters, h.waiters]⟩

/-- A block of another routine does not show. -/
theorem enqueue_other (h : a.Shows r b) (href : ref.1 ≠ r) : (a.enqueue ref).2.Shows r b := by
  refine ⟨?_, h.waiters.trans (waiters_congr (dependents_enqueue a ref) r).symm⟩
  rw [queue_enqueue]
  split
  · exact h.queue
  · simp [h.queue, href]

/-- A block of the routine shows in both agendas. -/
theorem enqueue_own (h : a.Shows r b) (href : ref.1 = r) :
    (a.enqueue ref).2.Shows r (b.enqueue ref).2 := by
  have hqueued : ref ∈ b.queue ↔ ref ∈ a.queue := by
    simp [h.queue, href]
  refine ⟨?_, ?_⟩
  · rw [queue_enqueue, queue_enqueue]
    simp only [hqueued]
    split
    · exact h.queue
    · simp [h.queue, href]
  · rw [waiters_congr (dependents_enqueue a ref),
      waiters_congr (dependents_enqueue b ref), h.waiters]

theorem enqueueAll_other (h : a.Shows r b) (hrefs : ∀ ref ∈ refs, ref.1 ≠ r) :
    (a.enqueueAll refs).Shows r b := by
  induction refs generalizing a with
  | nil => exact h
  | cons ref rest ih =>
      obtain ⟨href, hrest⟩ := List.forall_mem_cons.1 hrefs
      exact ih (h.enqueue_other href) hrest

theorem enqueueAll_own (h : a.Shows r b) (hrefs : ∀ ref ∈ refs, ref.1 = r) :
    (a.enqueueAll refs).Shows r (b.enqueueAll refs) := by
  induction refs generalizing a b with
  | nil => exact h
  | cons ref rest ih =>
      obtain ⟨href, hrest⟩ := List.forall_mem_cons.1 hrefs
      exact ih (h.enqueue_own href) hrest

end Agenda.Shows

/-! ### Visits -/

/-- Every setting can be left with the result of its own routine. -/
theorem Setting.exists_isolates (env : Setting) : ∃ p, env.Isolates p := by
  cases hown : env.published.find? env.body.routine with
  | none => exact ⟨.empty, hown.symm, fun _ _ => rfl⟩
  | some summary =>
      refine ⟨⟨[(env.body.routine, summary)]⟩, ?_, fun r hr => ?_⟩
      · rw [hown]
        exact if_pos rfl
      · exact if_neg hr.symm

/-- A visit changes the blocks that wait for a routine only if it waits for it. -/
theorem Moves.waiters_eq {env : Setting} {s s' : Scene} {r : RoutineId} (h : Moves env s s')
    (hr : (s.facts.routine, env.block) ∉ s'.agenda.waiters r) :
    s'.agenda.waiters r = s.agenda.waiters r := by
  induction h with
  | refl => rfl
  | tail hmoves hmove ih =>
      cases hmove with
      | state => exact ih hr
      | facts => exact ih hr
      | @await callee =>
          rw [Agenda.mem_waiters_await, not_or] at hr
          have hother : ¬callee = r := fun hcallee => hr.2 ⟨by rw [routine hmoves], hcallee⟩
          exact ((Agenda.waiters_await ..).trans (if_neg hother)).trans (ih hr.1)

namespace Visited

/-- The block waits for no routine but its own, so that it has never read the result of another. -/
def Secluded (v : Visited) : Prop :=
  ∀ callee, v.ref ∈ v.scene.agenda.waiters callee → callee = v.ref.1

attribute [local instance] BlockRef.lawfulBEq

instance (v : Visited) : Decidable v.Secluded :=
  decidable_of_iff
    (∀ callee ∈ v.scene.agenda.dependents.keys,
      v.ref ∈ v.scene.agenda.waiters callee → callee = v.ref.1)
    ⟨fun h callee hcallee => h callee (Agenda.mem_keys_of_mem_waiters hcallee) hcallee,
      fun h callee _ => h callee⟩

namespace Real

variable {d : Declarations} {o : Options} {v : Visited} (h : v.Real d) (hs : v.unit.Fits)

include h hs

theorem start_routine : v.start.facts.routine = v.ref.1 :=
  (hs.runs h.run).2.facts.routine.trans (hs.runs h.run).1

/-- A visit does the same for the routine alone. -/
theorem mirrors {p : OrderedMap RoutineId Summary} (hp : (v.setting d).Isolates p) (c : ContextId) :
    MirrorsRun (v.setting d) c (Outcome.Related fun st st' => st' = st.inContext c)
      (visitBlock ((v.setting d).against p) v.block) v.start v.outcome v.scene :=
  visitBlock_mirrors hp c v.block _ _ _ (hs.runs h.run).2.facts.routine h.outcome

theorem secluded (hv : v.Secluded) : (v.setting d).Secluded v.scene.agenda := by
  have hroutine : v.run.body.routine = v.ref.1 := (hs.runs h.run).1
  have href : (v.setting d).ref = v.ref := Prod.ext hroutine rfl
  intro callee hcallee
  rw [href] at hcallee
  exact (hv callee hcallee).trans hroutine.symm

/-- A block is not held back for its own routine. -/
theorem isHeld_of_secluded (hv : v.Secluded) : v.isHeld o = false := by
  obtain ⟨p, hp⟩ := (v.setting d).exists_isolates
  have hpending : v.scene.pending? = none := (h.mirrors hs hp 0).pending (h.secluded hs hv)
  rw [isHeld, hpending]
  rfl

end Real

end Visited

namespace Solver

variable {d : Declarations} {o : Options} {s s' t t' : Solver} {r : RoutineId} {v : Visited}

/-- Blocks wait only for their own routines, and none is held back. -/
structure Apart (s : Solver) : Prop where
  fits : s.Fits
  waiters : ∀ callee, ∀ ref ∈ s.agenda.waiters callee, ref.1 = callee
  deferred : ∀ callee, s.agenda.deferred callee = []

/-- The second unit is what one routine sees of the first. -/
structure Shows (s : Solver) (r : RoutineId) (t : Solver) : Prop where
  runs : ∃ run, s.runs.find? r = some run ∧ t.runs = ⟨[(r, run.inContext 0)]⟩
  published : ∃ summary, s.published.find? r = some summary ∧ t.published = ⟨[(r, summary)]⟩
  agenda : s.agenda.Shows r t.agenda
  deferred : ∀ callee, t.agenda.deferred callee = []

/-- To take a block off the queue keeps routines apart. -/
theorem Dequeues.apart {ref : BlockRef} (h : s.Dequeues ref s') (hs : s.Apart) : s'.Apart where
  fits := h.fits hs.fits
  waiters callee ref href := hs.waiters callee ref (Agenda.waiters_congr h.dependents callee ▸ href)
  deferred callee := (Agenda.deferred_congr h.dependents callee).trans (hs.deferred callee)

/-- Visits keep the routines apart. -/
theorem Apart.visit (hs : v.unit.Apart) (hreal : v.Real d) (hv : v.Secluded)
    (hvisit : v.unit.visit d o v.ref = .ok s') : s'.Apart := by
  obtain ⟨s₁, hvisit₁, hfits, -⟩ := hreal.visit_ok hs.fits o
  cases hvisit.symm.trans hvisit₁
  obtain ⟨run', hleaves⟩ := hreal.leaves hs.fits hvisit
  obtain ⟨grown, -, hagenda⟩ := hleaves.sent (hreal.isHeld_of_secluded hs.fits hv)
  have hmoves := hreal.moves hs.fits
  have hdependents : s'.agenda.dependents = v.scene.agenda.dependents := by
    rw [hagenda]
    exact Agenda.dependents_enqueueAll ..
  refine ⟨hfits, fun callee ref href => ?_, fun callee => ?_⟩
  · rw [Agenda.waiters_congr hdependents] at href
    rcases hmoves.mem_waiters href with hold | ⟨rfl, -⟩
    · exact hs.waiters callee ref hold
    · rw [hreal.start_routine hs.fits] at href ⊢
      exact (hv callee href).symm
  · rw [Agenda.deferred_congr hdependents, hmoves.deferred]
    exact hs.deferred callee

theorem Shows.find?_runs (h : s.Shows r t) {run : RoutineRun} (hrun : s.runs.find? r = some run) :
    t.runs.find? r = some (run.inContext 0) := by
  obtain ⟨run', hrun', hruns⟩ := h.runs
  cases hrun.symm.trans hrun'
  rw [hruns]
  exact if_pos rfl

theorem Shows.find?_published (h : s.Shows r t) :
    t.published.find? r = s.published.find? r := by
  obtain ⟨summary, hsummary, hpublished⟩ := h.published
  rw [hpublished, hsummary]
  exact if_pos rfl

theorem Shows.insert_runs (h : s.Shows r t) (run : RoutineRun) :
    t.runs.insert r run = ⟨[(r, run)]⟩ := by
  obtain ⟨run', -, hruns⟩ := h.runs
  simp [hruns, OrderedMap.insert, OrderedMap.put]

theorem Shows.insert_published (h : s.Shows r t) (summary : Summary) :
    t.published.insert r summary = ⟨[(r, summary)]⟩ := by
  obtain ⟨old, -, hpublished⟩ := h.published
  simp [hpublished, OrderedMap.insert, OrderedMap.put]

/-- A visit to a block of another routine is not seen. -/
theorem Shows.visit_other (h : s.Shows r t) (hs : s.Apart) (hdequeues : s.Dequeues v.ref v.unit)
    (hreal : v.Real d) (hv : v.Secluded) (hvisit : v.unit.visit d o v.ref = .ok s')
    (hother : v.ref.1 ≠ r) : s'.Shows r t := by
  have hunit : v.unit.Fits := hdequeues.fits hs.fits
  have hmoves := hreal.moves hunit
  obtain ⟨run', hleaves⟩ := hreal.leaves hunit hvisit
  obtain ⟨grown, -, hagenda⟩ := hleaves.sent (hreal.isHeld_of_secluded hunit hv)
  refine ⟨?_, ?_, ?_, h.deferred⟩
  · rw [hleaves.runs, OrderedMap.find?_insert, if_neg hother, hdequeues.runs]
    exact h.runs
  · rw [hleaves.published, hdequeues.published]
    exact h.published
  · have hscene : v.scene.agenda.Shows r t.agenda := by
      have hqueue : v.scene.agenda.queue = v.unit.agenda.queue := hmoves.queue
      have hwaiters : v.scene.agenda.waiters r = v.unit.agenda.waiters r := by
        apply hmoves.waiters_eq
        rw [hreal.start_routine hunit]
        exact fun hown => hother (hv r hown).symm
      refine ⟨?_, ?_⟩
      · rw [h.agenda.queue, hdequeues.queue, hqueue]
        exact List.filter_cons_of_neg (by simp [hother])
      · rw [hwaiters, Agenda.waiters_congr hdequeues.dependents, h.agenda.waiters]
    rw [hagenda]
    apply hscene.enqueueAll_other
    intro ref href
    obtain ⟨b, -, rfl⟩ := List.mem_map.1 href
    exact hother

/-- A visit to a block of the routine is seen as the same visit. -/
theorem Shows.visit_own (h : s.Shows v.ref.1 t) (hs : s.Apart) (hdequeues : s.Dequeues v.ref v.unit)
    (hreal : v.Real d) (hv : v.Secluded) (hvisit : v.unit.visit d o v.ref = .ok s')
    (ht : t.Fits) (hdequeues' : t.Dequeues v.ref t') :
    ∃ t₁, t'.visit d o v.ref = .ok t₁ ∧ t₁.Fits ∧ s'.Shows v.ref.1 t₁ := by
  have hunit : v.unit.Fits := hdequeues.fits hs.fits
  have hsecluded := hreal.secluded hunit hv
  obtain ⟨run', hleaves⟩ := hreal.leaves hunit hvisit
  obtain ⟨grown, hmerge, hagenda⟩ := hleaves.sent (hreal.isHeld_of_secluded hunit hv)
  have hroutine : v.run.body.routine = v.ref.1 := (hunit.runs hreal.run).1
  have hrun : s.runs.find? v.ref.1 = some v.run := hdequeues.runs ▸ hreal.run
  have hisolates : (v.setting d).Isolates t'.published := by
    refine ⟨?_, fun r' hr' => ?_⟩
    · rw [show (v.setting d).body.routine = v.ref.1 from hroutine, hdequeues'.published,
        h.find?_published]
      exact congrArg (·.find? v.ref.1) hdequeues.published.symm
    · obtain ⟨summary, -, hpublished⟩ := h.published
      rw [hdequeues'.published, hpublished]
      exact if_neg fun heq => hr' (heq.symm.trans hroutine.symm)
  have hbefore : v.unit.agenda.Shows v.run.body.routine t'.agenda := by
    rw [hroutine]
    refine ⟨?_, ?_⟩
    · have hqueue := h.agenda.queue
      rw [hdequeues.queue, hdequeues'.queue, List.filter_cons_of_pos (by simp)] at hqueue
      exact (List.cons.inj hqueue).2
    · rw [Agenda.waiters_congr hdequeues.dependents, Agenda.waiters_congr hdequeues'.dependents]
      exact h.agenda.waiters
  obtain ⟨o', b, hvisited, hrelated, hb⟩ :=
    (hreal.mirrors hunit hisolates 0).alone hsecluded _ hbefore
  obtain rfl := hrelated.eq_map
  let v' : Visited := ⟨t', v.ref, v.run.inContext 0, v.entry.inContext 0, v.block,
    v.outcome.inContext 0, v.scene.alone 0 b⟩
  have hreal' : v'.Real d := by
    refine ⟨?_, RoutineRun.entry?_inContext 0 hreal.entry, hreal.block, hvisited⟩
    exact hdequeues'.runs ▸ h.find?_runs hrun
  have ht' : t'.Fits := hdequeues'.fits ht
  obtain ⟨t₁, hvisit', ht₁, -⟩ := hreal'.visit_ok ht' o
  obtain ⟨run₁, hleaves'⟩ := hreal'.leaves ht' hvisit'
  obtain ⟨grown₁, hmerge₁, hagenda'⟩ := hleaves'.sent (hreal.isHeld_of_secluded hunit hv)
  have hmerge' : v'.after.mergeEntries (flows v'.block v'.outcome) =
      .ok (grown, run'.inContext 0) := by
    rw [flows_inContext]
    exact RoutineRun.mergeEntries_inContext 0 hmerge
  cases hmerge₁.symm.trans hmerge'
  refine ⟨t₁, hvisit', ht₁, ⟨run', ?_, ?_⟩, ?_, ?_, fun callee => ?_⟩
  · rw [hleaves.runs, OrderedMap.find?_insert, if_pos rfl]
  · rw [hleaves'.runs, hdequeues'.runs]
    exact h.insert_runs _
  · rw [hleaves.published, hleaves'.published, hdequeues.published, hdequeues'.published]
    exact h.published
  · rw [hagenda, hagenda']
    rw [show (v.setting d).body.routine = v.ref.1 from hroutine] at hb
    apply hb.enqueueAll_own
    intro ref href
    obtain ⟨c, -, rfl⟩ := List.mem_map.1 href
    rfl
  · rw [hagenda', Agenda.deferred_congr (Agenda.dependents_enqueueAll ..),
      (hreal'.moves ht').deferred]
    exact (Agenda.deferred_congr hdequeues'.dependents callee).trans (h.deferred callee)

/-! ### The end of a round -/

/-- To publish a summary keeps routines apart. -/
theorem Apart.publish (hs : s.Apart) (h : s.publish r = .ok s') : s'.Apart := by
  obtain ⟨s₁, hpublish, hfits, -⟩ := publish_ok hs.fits r
  cases h.symm.trans hpublish
  have hdependents := dependents_of_publish h
  refine ⟨hfits, fun callee ref href => ?_, fun callee => ?_⟩
  · rw [Agenda.waiters_congr hdependents] at href
    exact hs.waiters callee ref href
  · rw [Agenda.deferred_congr hdependents]
    exact hs.deferred callee

/-- What another routine publishes is not seen. -/
theorem Shows.publish_other (h : s.Shows r t) (hs : s.Apart) {r' : RoutineId} (hother : r' ≠ r)
    (hpublish : s.publish r' = .ok s') : s'.Shows r t := by
  obtain ⟨hsame, hagenda⟩ := publish_others hpublish
  obtain ⟨hruns, hpublished⟩ := hsame r hother.symm
  refine ⟨hruns ▸ h.runs, hpublished ▸ h.published, ?_, h.deferred⟩
  rcases hagenda with hagenda | hagenda
  · rw [hagenda]
    exact h.agenda
  · rw [hagenda]
    apply h.agenda.enqueueAll_other
    intro ref href
    rw [hs.waiters r' ref href]
    exact hother

theorem Shows.withRun (h : s.Shows r t) (run : RoutineRun) :
    (s.withRun r run).Shows r (t.withRun r (run.inContext 0)) := by
  refine ⟨⟨run, ?_, h.insert_runs _⟩, h.published, h.agenda, h.deferred⟩
  rw [Solver.withRun, OrderedMap.find?_insert, if_pos rfl]

/-- An announcement shows, if only blocks of the routine wait for it. -/
theorem Shows.announcing (h : s.Shows r t) (hwaiters : ∀ ref ∈ s.agenda.waiters r, ref.1 = r)
    (summary : Summary) : (s.announcing r summary).Shows r (t.announcing r summary) := by
  refine ⟨h.runs, ⟨summary, ?_, h.insert_published summary⟩, ?_, fun callee => ?_⟩
  · rw [Solver.announcing, OrderedMap.find?_insert, if_pos rfl]
  · rw [Solver.announcing, Solver.announcing, h.agenda.waiters]
    exact h.agenda.enqueueAll_own hwaiters
  · rw [Solver.announcing, Agenda.deferred_congr (Agenda.dependents_enqueueAll ..)]
    exact h.deferred callee

/-- What the routine publishes is seen as what it publishes on its own. -/
theorem Shows.publish_own (h : s.Shows r t) (hs : s.Apart) (hpublish : s.publish r = .ok s') :
    ∃ t', t.publish r = .ok t' ∧ s'.Shows r t' := by
  obtain ⟨run, hrun, -⟩ := h.runs
  obtain ⟨-, hfits⟩ := hs.fits.runs hrun
  obtain ⟨m, table, hresult, hw, hg, hm, -⟩ := Facts.result_ok hfits.facts
  obtain ⟨summary, hsummary⟩ := KindTable.summarize_ok hw hm
  have hresult' := Facts.result_inContext 0 hresult
  have hsummary' : (table.inContext 0).summarize m = .ok summary :=
    (KindTable.summarize_inContext table 0 m).trans hsummary
  rw [publish_eq hrun hresult hsummary] at hpublish
  rw [publish_eq (h.find?_runs hrun) hresult' hsummary', h.find?_published]
  refine ⟨_, rfl, ?_⟩
  cases hpublish
  have hseen := h.withRun { run with facts := { run.facts with table := table } }
  split
  · exact hseen
  · exact hseen.announcing (hs.waiters r) summary

/-- What other routines publish does not show. -/
theorem Shows.foldlM_publish_others (h : s.Shows r t) (hs : s.Apart) {rs : List RoutineId}
    (hrs : r ∉ rs) (hfold : rs.foldlM publish s = .ok s') : s'.Apart ∧ s'.Shows r t := by
  induction rs generalizing s with
  | nil =>
      cases hfold
      exact ⟨hs, h⟩
  | cons r' rest ih =>
      rw [List.mem_cons, not_or] at hrs
      obtain ⟨hother, hrest⟩ := hrs
      obtain ⟨s₁, hpublish, -⟩ := publish_ok hs.fits r'
      rw [List.foldlM_cons, hpublish] at hfold
      exact ih (h.publish_other hs (Ne.symm hother) hpublish) (hs.publish hpublish) hrest hfold

/-- If every routine publishes once, the routine alone publishes once. -/
theorem Shows.foldlM_publish (h : s.Shows r t) (hs : s.Apart) {rs : List RoutineId}
    (hnodup : rs.Nodup) (hrs : r ∈ rs) (hfold : rs.foldlM publish s = .ok s') :
    ∃ t', t.publish r = .ok t' ∧ s'.Apart ∧ s'.Shows r t' := by
  induction rs generalizing s with
  | nil => cases hrs
  | cons r' rest ih =>
      obtain ⟨hnew, hnodup⟩ := List.nodup_cons.1 hnodup
      obtain ⟨s₁, hpublish, -⟩ := publish_ok hs.fits r'
      rw [List.foldlM_cons, hpublish] at hfold
      have hs₁ := hs.publish hpublish
      by_cases hown : r' = r
      · subst hown
        obtain ⟨t', hpublish', h₁⟩ := h.publish_own hs hpublish
        exact ⟨t', hpublish', h₁.foldlM_publish_others hs₁ hnew hfold⟩
      · have hmem : r ∈ rest := (List.mem_cons.1 hrs).resolve_left (Ne.symm hown)
        exact ih (h.publish_other hs hown hpublish) hs₁ hnodup hmem hfold

theorem Shows.congr {s₁ t₁ : Solver} (h : s.Shows r t) (hs : s.Resembles s₁)
    (ht : t.Resembles t₁) : s₁.Shows r t₁ where
  runs := by
    rw [hs.runs, ht.runs]
    exact h.runs
  published := by
    rw [hs.published, ht.published]
    exact h.published
  agenda := h.agenda.congr hs.queue (hs.waiters r) ht.queue (ht.waiters r)
  deferred := ht.deferred

/-- The end of a round is seen as the end of a round. -/
theorem Shows.endRound (h : s.Shows r t) (hs : s.Apart) (hend : s.endRound = .ok s') :
    ∃ t', t.endRound = .ok t' ∧ s'.Apart ∧ s'.Shows r t' := by
  obtain ⟨s₁, hfold, -⟩ := foldlM_publish_ok hs.fits s.runs.keys
  have hlisted : r ∈ s.runs.keys := by
    obtain ⟨run, hrun, -⟩ := h.runs
    exact OrderedMap.mem_keys_iff.2 (Option.isSome_iff_exists.2 ⟨run, hrun⟩)
  obtain ⟨t₁, hpublish, hs₁, h₁⟩ := h.foldlM_publish hs hs.fits.nodup hlisted hfold
  have hreleased := (Resembles.refl hs₁.deferred).foldl_release s₁.published.keys
  have hreleased' := (Resembles.refl h₁.deferred).foldl_release t₁.published.keys
  rw [Solver.endRound, hfold] at hend
  cases hend
  refine ⟨_, ?_, ⟨?_, fun callee ref href => ?_, hreleased.deferred⟩, h₁.congr hreleased hreleased'⟩
  · obtain ⟨run, -, hruns⟩ := h.runs
    have hkeys : t.runs.keys = [r] := hruns ▸ rfl
    rw [Solver.endRound, hkeys, List.foldlM_cons, hpublish]
    rfl
  · exact (foldl_release_ok hs₁.fits s₁.published.keys).1
  · exact hs₁.waiters callee ref (hreleased.waiters callee ▸ href)

end Solver

end FlowTyping
