import FlowTyping.Proofs.Solver.Visited

/-!
# The end of a round

Publishing and releasing are steps in the sense of `Solver.Advances`. Main statement: `endRound_ok`.
After the end of a round every published result is that of the routine, and no block is held back.
-/

namespace FlowTyping

/-! ### Summaries that agree -/

mutual

theorem Desc.same_self : (d : Desc) → Desc.same d d = true
  | .null | .bool | .long | .double | .string | .resource => rfl
  | .array a r v s ks => by simp [Desc.same, Desc.sameAll_self ks]
  | .object c => by simp [Desc.same]

theorem Desc.sameAll_self : (ds : List Desc) → Desc.sameAll ds ds = true
  | [] => rfl
  | d :: ds => by simp [Desc.sameAll, Desc.same_self d, Desc.sameAll_self ds]

end

theorem Summary.beq_self (s : Summary) : (s == s) = true := by
  simp [BEq.beq, Desc.sameAll_self]

/-- Reading off the result of a routine again changes nothing. -/
theorem Facts.result_ok {f : Facts} {b : Body} (hf : f.Fits b) :
    ∃ m t, f.result = .ok (m, { f with table := t }) ∧ t.WellFormed ∧ f.table.Grows t ∧
      m.Fits t.size ∧
      ({ f with table := t } : Facts).result = .ok (m, { f with table := t }) := by
  cases hgen : f.effects.generator with
  | false =>
      have hresult : f.result = .ok (f.returned, f) := by
        rw [Facts.result, hgen]
        rfl
      exact ⟨f.returned, f.table, hresult, hf.table, .refl _, hf.returned, hresult⟩
  | true =>
      have hresult (t : KindTable) : ({ f with table := t } : Facts).result =
          ({ f with table := t } : Facts).onTable (KindTable.instanceOf ⟨"Generator"⟩ false) := by
        rw [Facts.result]
        exact if_pos hgen
      obtain ⟨m, t, hrun, hw, hg, hm, hagain⟩ :=
        KindTable.instanceOf_settles hf.table ⟨"Generator"⟩ false
      refine ⟨m, t, ?_, hw, hg, hm, ?_⟩
      · rw [show f.result = _ from hresult f.table, Facts.onTable, hrun]
        rfl
      · rw [hresult, Facts.onTable, hagain]
        rfl

namespace Solver

variable {s s' : Solver}

/-! ### Publishing -/

/-- The published result of a routine is what it returns. -/
def Settled (s : Solver) (r : RoutineId) : Prop :=
  ∀ run, s.runs.find? r = some run → ∃ m summary published,
    run.facts.result = .ok (m, run.facts) ∧ run.facts.table.summarize m = .ok summary ∧
      s.published.find? r = some published ∧ (published == summary) = true

/-- Whether a routine is settled depends on its run and its summary. -/
theorem Settled.congr {r : RoutineId} (h : s.Settled r) (hruns : s'.runs.find? r = s.runs.find? r)
    (hpublished : s'.published.find? r = s.published.find? r) : s'.Settled r := by
  intro run hrun
  rw [hruns] at hrun
  rw [hpublished]
  exact h run hrun

/-- No block is reached or visited in between. -/
structure Idles (s s' : Solver) : Prop where
  entry? : ∀ ref, s'.entry? ref = s.entry? ref
  visitCount : ∀ ref, s'.visitCount ref = s.visitCount ref

theorem Idles.trans {s'' : Solver} (h : s.Idles s') (h' : s'.Idles s'') : s.Idles s'' :=
  ⟨fun ref => (h'.entry? ref).trans (h.entry? ref),
    fun ref => (h'.visitCount ref).trans (h.visitCount ref)⟩

/-- The unit with another run of a routine. -/
def withRun (s : Solver) (r : RoutineId) (run : RoutineRun) : Solver :=
  { s with runs := s.runs.insert r run }

/-- The unit after a routine has published a new result. -/
def announcing (s : Solver) (r : RoutineId) (summary : Summary) : Solver :=
  { s with
    published := s.published.insert r summary
    agenda := s.agenda.enqueueAll (s.agenda.waiters r) }

/-- A run that keeps body, entries and visits takes the place of another. -/
theorem withRun_ok (hs : s.Fits) {r : RoutineId} {run run' : RoutineRun}
    (hrun : s.runs.find? r = some run) (hfits : run'.Fits) (hbody : run'.body = run.body)
    (hfacts : run.facts.Below run'.facts) (hentries : run'.entries = run.entries)
    (hvisits : run'.visits = run.visits) :
    (s.withRun r run').Fits ∧ s.Advances (s.withRun r run') ∧ s.Idles (s.withRun r run') := by
  have hruns : (s.withRun r run').runs = s.runs.insert r run' := rfl
  have hentry {b : BlockId} {old : State} (hold : run.entry? b = some old) :
      ∃ new, run'.entry? b = some new ∧ old.Below new ∧
        (new = old ∨ (r, b) ∈ (s.withRun r run').agenda.queue) := by
    rw [RoutineRun.entry?, ← hentries] at hold
    exact ⟨old, hold, fun _ hx => hx, Or.inl rfl⟩
  have hadvances : s.Advances (s.withRun r run') :=
    ⟨run_of_insert hrun hruns hbody hfacts, entry_of_insert hrun hruns hentry, fun _ => Or.inl rfl,
      fun _ => rfl, fun _ h => h, fun _ _ h => h, fun _ _ h => Or.inl h⟩
  refine ⟨⟨hs.nodup_of_insert hruns, hs.runs_of_insert hrun hruns hbody hfits, fun r' => ?_,
    fun ref h => hadvances.reached (hs.queued ref h),
    fun r' ref h => (hs.waiting r' ref h).imp_left hadvances.reached,
    fun r' ref h => hadvances.reached (hs.held r' ref h)⟩, hadvances, fun ref => ?_, fun ref => ?_⟩
  · exact (hs.listed r').trans (isSome_of_insert hrun hruns r').symm
  · rw [entry?_of_insert hruns]
    split
    · rename_i heq
      rw [Solver.entry?, ← heq, hrun, RoutineRun.entry?, hentries]
      rfl
    · rfl
  · rw [visitCount_of_insert hruns]
    split
    · rename_i heq
      rw [visitCount_eq (heq ▸ hrun), hvisits]
    · rfl

/-- A new result queues the blocks that wait for it. -/
theorem announcing_ok (hs : s.Fits) {r : RoutineId} (hlisted : (s.published.find? r).isSome)
    (summary : Summary) :
    (s.announcing r summary).Fits ∧ s.Advances (s.announcing r summary) ∧
      s.Idles (s.announcing r summary) := by
  have hdependents : (s.announcing r summary).agenda.dependents = s.agenda.dependents :=
    Agenda.dependents_enqueueAll ..
  have hlist (r' : RoutineId) :
      ((s.announcing r summary).published.find? r').isSome = (s.published.find? r').isSome := by
    rw [announcing, OrderedMap.find?_insert]
    split
    · rename_i heq
      rw [← heq, hlisted]
      rfl
    · rfl
  refine ⟨⟨hs.nodup, hs.runs, fun r' => (hlist r').trans (hs.listed r'), fun ref h => ?_,
    fun r' ref h => ?_, fun r' ref h => ?_⟩,
    ⟨fun h => ⟨_, h, rfl, .refl _⟩, fun h => ⟨_, h, fun _ hx => hx, Or.inl rfl⟩, fun r' => ?_,
      hlist, fun ref h => ?_, fun r' ref h => ?_, fun r' ref h => Or.inl ?_⟩, fun _ => rfl,
      fun _ => rfl⟩
  · rcases Agenda.mem_queue_enqueueAll.1 h with h | h
    · exact hs.queued ref h
    · exact (hs.waiting r ref h).1
  · rw [Agenda.waiters_congr hdependents] at h
    exact (hs.waiting r' ref h).imp_right fun hold => (hlist r').trans hold
  · rw [Agenda.deferred_congr hdependents] at h
    exact hs.held r' ref h
  · by_cases heq : r = r'
    · subst heq
      exact Or.inr fun ref href => Agenda.mem_queue_enqueueAll.2 (Or.inr href)
    · left
      rw [announcing, OrderedMap.find?_insert, if_neg heq]
  · exact Agenda.mem_queue_enqueueAll.2 (Or.inl h)
  · rw [Agenda.waiters_congr hdependents]
    exact h
  · rw [Agenda.deferred_congr hdependents]
    exact h

/-- What publishing does: the result is read off, and announced if it is new. -/
theorem publish_eq {r : RoutineId} {run : RoutineRun} {m : Mask} {facts : Facts} {summary : Summary}
    (hrun : s.runs.find? r = some run) (hresult : run.facts.result = .ok (m, facts))
    (hsummary : facts.table.summarize m = .ok summary) :
    s.publish r = .ok (if (s.published.find? r).any (· == summary)
      then s.withRun r { run with facts := facts }
      else (s.withRun r { run with facts := facts }).announcing r summary) := by
  simp only [publish, hrun, hresult, bind, Except.bind, hsummary]
  split <;> rfl

/-- What publishing changes beyond its own routine: waiting blocks may be queued. -/
theorem publish_others {r : RoutineId} (h : s.publish r = .ok s') :
    (∀ r', r' ≠ r → s'.runs.find? r' = s.runs.find? r' ∧
      s'.published.find? r' = s.published.find? r') ∧
      (s'.agenda = s.agenda ∨ s'.agenda = s.agenda.enqueueAll (s.agenda.waiters r)) := by
  cases hrun : s.runs.find? r with
  | none =>
      rw [publish, hrun] at h
      cases h
      exact ⟨fun _ _ => ⟨rfl, rfl⟩, Or.inl rfl⟩
  | some run =>
      cases hresult : run.facts.result with
      | error fault => simp [publish, hrun, hresult, bind, Except.bind] at h
      | ok found =>
          cases hsummary : found.2.table.summarize found.1 with
          | error fault => simp [publish, hrun, hresult, hsummary, bind, Except.bind] at h
          | ok summary =>
              rw [publish_eq hrun hresult hsummary] at h
              cases h
              split
              · refine ⟨fun r' hr' => ⟨?_, rfl⟩, Or.inl rfl⟩
                rw [withRun, OrderedMap.find?_insert, if_neg hr'.symm]
              · refine ⟨fun r' hr' => ⟨?_, ?_⟩, Or.inr rfl⟩
                · rw [announcing, withRun, OrderedMap.find?_insert, if_neg hr'.symm]
                · rw [announcing, OrderedMap.find?_insert, if_neg hr'.symm]
                  rfl

theorem dependents_of_publish {r : RoutineId} (h : s.publish r = .ok s') :
    s'.agenda.dependents = s.agenda.dependents := by
  rcases (publish_others h).2 with hagenda | hagenda
  · rw [hagenda]
  · rw [hagenda]
    exact Agenda.dependents_enqueueAll ..

/-- Publishing is a step, after which the routine is settled. -/
theorem publish_ok (hs : s.Fits) (r : RoutineId) :
    ∃ s', s.publish r = .ok s' ∧ s'.Fits ∧ s.Advances s' ∧ s'.Settled r ∧
      (∀ r', s.Settled r' → s'.Settled r') ∧ s.Idles s' := by
  cases hrun : s.runs.find? r with
  | none =>
      refine ⟨s, by rw [publish, hrun]; rfl, hs, .refl s, fun run hrun' => ?_, fun _ h => h,
        fun _ => rfl, fun _ => rfl⟩
      cases hrun.symm.trans hrun'
  | some run =>
      obtain ⟨-, hfits⟩ := hs.runs hrun
      obtain ⟨m, t, hresult, hw, hg, hm, hagain⟩ := Facts.result_ok hfits.facts
      obtain ⟨summary, hsummary⟩ := KindTable.summarize_ok hw hm
      let run' : RoutineRun := { run with facts := { run.facts with table := t } }
      have hfits' : run'.Fits :=
        ⟨hfits.body, hfits.facts.grow hw hg, hfits.size, hfits.counted,
          fun h => (hfits.states h).grow hg⟩
      have hbelow : run.facts.Below run'.facts := ⟨hg, fun _ => Mask.contains_refl _⟩
      obtain ⟨hs₁, hadvances, hidles⟩ := withRun_ok hs hrun hfits' rfl hbelow rfl rfl
      have hown : (s.withRun r run').runs.find? r = some run' := by
        rw [withRun, OrderedMap.find?_insert, if_pos rfl]
      have hother {r' : RoutineId} (hne : ¬r = r') :
          (s.withRun r run').runs.find? r' = s.runs.find? r' := by
        rw [withRun, OrderedMap.find?_insert, if_neg hne]
      rw [publish_eq hrun hresult hsummary]
      refine ⟨_, rfl, ?_⟩
      split
      · rename_i hsame
        obtain ⟨published, hpublished, hbeq⟩ := (Option.any_eq_true _ _).1 hsame
        have hsettled : (s.withRun r run').Settled r := by
          intro run₂ hrun₂
          cases hown.symm.trans hrun₂
          exact ⟨m, summary, published, hagain, hsummary, hpublished, hbeq⟩
        refine ⟨hs₁, hadvances, hsettled, fun r' hr' => ?_, hidles⟩
        by_cases hne : r = r'
        · exact hne ▸ hsettled
        · exact hr'.congr (hother hne) rfl
      · have hlisted : ((s.withRun r run').published.find? r).isSome := by
          rw [hs₁.listed, hown]
          rfl
        obtain ⟨hs₂, hadvances₂, hidles₂⟩ := announcing_ok hs₁ hlisted summary
        have hsettled : ((s.withRun r run').announcing r summary).Settled r := by
          intro run₂ hrun₂
          cases hown.symm.trans hrun₂
          refine ⟨m, summary, summary, hagain, hsummary, ?_, Summary.beq_self summary⟩
          rw [announcing, OrderedMap.find?_insert, if_pos rfl]
        refine ⟨hs₂, hadvances.trans hadvances₂, hsettled, fun r' hr' => ?_, hidles.trans hidles₂⟩
        by_cases hne : r = r'
        · exact hne ▸ hsettled
        · refine hr'.congr (hother hne) ?_
          rw [announcing, OrderedMap.find?_insert, if_neg hne]
          rfl

/-! ### Releasing -/

/-- Only the lists of blocks that must go through differ. -/
structure SameRuns (s s' : Solver) : Prop where
  keys : s'.runs.keys = s.runs.keys
  runs : ∀ r, (s'.runs.find? r).map (fun run => { run with mustComplete := [] }) =
    (s.runs.find? r).map fun run => { run with mustComplete := [] }

namespace SameRuns

theorem refl (s : Solver) : s.SameRuns s :=
  ⟨rfl, fun _ => rfl⟩

theorem trans {s'' : Solver} (h : s.SameRuns s') (h' : s'.SameRuns s'') : s.SameRuns s'' :=
  ⟨h'.keys.trans h.keys, fun r => (h'.runs r).trans (h.runs r)⟩

theorem find? (h : s.SameRuns s') {r : RoutineId} {run' : RoutineRun}
    (hrun' : s'.runs.find? r = some run') :
    ∃ run, s.runs.find? r = some run ∧
      { run with mustComplete := [] } = { run' with mustComplete := [] } := by
  have hr := h.runs r
  rw [hrun', Option.map_some, eq_comm] at hr
  exact Option.map_eq_some_iff.1 hr

theorem run (h : s.SameRuns s') {r : RoutineId} {run : RoutineRun}
    (hrun : s.runs.find? r = some run) :
    ∃ run', s'.runs.find? r = some run' ∧ run'.body = run.body ∧ run.facts.Below run'.facts := by
  have hr := h.runs r
  rw [hrun, Option.map_some] at hr
  obtain ⟨run', hrun', hsame⟩ := Option.map_eq_some_iff.1 hr
  simp only [RoutineRun.mk.injEq] at hsame
  exact ⟨run', hrun', hsame.1, hsame.2.1 ▸ .refl _⟩

theorem isSome (h : s.SameRuns s') (r : RoutineId) :
    (s'.runs.find? r).isSome = (s.runs.find? r).isSome := by
  have hr := congrArg Option.isSome (h.runs r)
  rwa [Option.isSome_map, Option.isSome_map] at hr

theorem entry? (h : s.SameRuns s') (ref : BlockRef) : s'.entry? ref = s.entry? ref := by
  have hread (t : Solver) : t.entry? ref =
      ((t.runs.find? ref.1).map fun run => { run with mustComplete := [] }).bind
        fun run => run.entry? ref.2 := by
    rw [Solver.entry?, Option.bind_map]
    rfl
  rw [hread, hread, h.runs ref.1]

theorem visitCount (h : s.SameRuns s') (ref : BlockRef) : s'.visitCount ref = s.visitCount ref := by
  have hread (t : Solver) : t.visitCount ref =
      (((t.runs.find? ref.1).map fun run => { run with mustComplete := [] }).map
        fun run => run.visits.getD ref.2 0).getD 0 := by
    rw [Solver.visitCount, Option.map_map]
    rfl
  rw [hread, hread, h.runs ref.1]

theorem idles (h : s.SameRuns s') : s.Idles s' :=
  ⟨h.entry?, h.visitCount⟩

/-- Runs that differ in nothing else are in shape alike. -/
theorem fits (h : s.SameRuns s') (hs : s.Fits) {r : RoutineId} {run' : RoutineRun}
    (hrun' : s'.runs.find? r = some run') : run'.body.routine = r ∧ run'.Fits := by
  obtain ⟨run, hrun, hsame⟩ := h.find? hrun'
  simp only [RoutineRun.mk.injEq] at hsame
  obtain ⟨hbody, hfacts, hentries, hvisits, -⟩ := hsame
  obtain ⟨hkey, hfits⟩ := hs.runs hrun
  refine ⟨hbody ▸ hkey, hbody ▸ hfits.body, ?_, ?_, ?_, fun {b st} hst => ?_⟩
  · rw [← hbody, ← hfacts]
    exact hfits.facts
  · rw [← hbody, ← hentries]
    exact hfits.size
  · rw [← hbody, ← hvisits]
    exact hfits.counted
  · rw [RoutineRun.entry?, ← hentries] at hst
    rw [← hbody, ← hfacts]
    exact hfits.states hst

/-- A routine stays settled as long as the published results stay the same. -/
theorem settled (h : s.SameRuns s') (hpublished : s'.published = s.published) {r : RoutineId}
    (hr : s.Settled r) : s'.Settled r := by
  intro run' hrun'
  obtain ⟨run, hrun, hsame⟩ := h.find? hrun'
  simp only [RoutineRun.mk.injEq] at hsame
  rw [hpublished, ← hsame.2.1]
  exact hr run hrun

end SameRuns

/-- To insist on a block changes no run otherwise. -/
theorem requireCompletion_same (s : Solver) (ref : BlockRef) :
    s.SameRuns (s.requireCompletion ref) := by
  rw [requireCompletion]
  cases hrun : s.runs.find? ref.1 with
  | none => exact .refl s
  | some run =>
      have hkey : ref.1 ∈ s.runs.keys :=
        OrderedMap.mem_keys_iff.2 (Option.isSome_iff_exists.2 ⟨run, hrun⟩)
      refine ⟨by simp only [OrderedMap.keys_insert, if_pos hkey], fun r => ?_⟩
      simp only [OrderedMap.find?_insert]
      split
      · rename_i heq
        rw [← heq, hrun]
        rfl
      · rfl

theorem agenda_requireCompletion (s : Solver) (ref : BlockRef) :
    (s.requireCompletion ref).agenda = s.agenda := by
  rw [requireCompletion]
  split <;> rfl

theorem published_requireCompletion (s : Solver) (ref : BlockRef) :
    (s.requireCompletion ref).published = s.published := by
  rw [requireCompletion]
  split <;> rfl

/-- Queues some blocks that must go through. -/
def requeue (s : Solver) (refs : List BlockRef) : Solver :=
  refs.foldl
    (fun s ref =>
      let s := s.requireCompletion ref
      { s with agenda := (s.agenda.enqueue ref).2 })
    s

/-- Queueing blocks that must go through changes nothing else. -/
theorem requeue_spec (s : Solver) (refs : List BlockRef) :
    s.SameRuns (s.requeue refs) ∧ (s.requeue refs).published = s.published ∧
      (s.requeue refs).agenda.dependents = s.agenda.dependents ∧
      s.agenda.queue.Sublist (s.requeue refs).agenda.queue ∧
      ∀ c, c ∈ (s.requeue refs).agenda.queue ↔ c ∈ s.agenda.queue ∨ c ∈ refs := by
  induction refs generalizing s with
  | nil => exact ⟨.refl s, rfl, rfl, .refl _, fun c => by simp [requeue]⟩
  | cons ref refs ih =>
      obtain ⟨hruns, hpublished, hdependents, hsublist, hqueue⟩ :=
        ih { s.requireCompletion ref with
          agenda := ((s.requireCompletion ref).agenda.enqueue ref).2 }
      refine ⟨?_, ?_, ?_, ?_, fun c => ?_⟩
      · exact (requireCompletion_same s ref).trans ⟨hruns.keys, hruns.runs⟩
      · exact hpublished.trans (published_requireCompletion s ref)
      · refine hdependents.trans ?_
        rw [Agenda.dependents_enqueue, agenda_requireCompletion]
      · refine List.Sublist.trans ?_ hsublist
        rw [Agenda.queue_enqueue, agenda_requireCompletion]
        split
        · exact .refl _
        · exact List.sublist_append_left ..
      · rw [show (s.requeue (ref :: refs)) = requeue _ refs from rfl, hqueue,
          Agenda.mem_queue_enqueue, agenda_requireCompletion, List.mem_cons, or_assoc]

/-- To release is to requeue what was held back for the callee. -/
theorem release_eq (s : Solver) (r : RoutineId) :
    s.release r = ({ s with agenda := (s.agenda.takeDeferred r).2 } : Solver).requeue
      (s.agenda.deferred r) := by
  rw [release, ← Agenda.takeDeferred_fst]
  rfl

/-- What releasing does to the agenda: the blocks held back for the routine are queued. -/
theorem release_agenda (s : Solver) (r : RoutineId) :
    (∀ r', (s.release r).agenda.waiters r' = s.agenda.waiters r') ∧
      (∀ r', (s.release r).agenda.deferred r' = if r = r' then [] else s.agenda.deferred r') ∧
      s.agenda.queue.Sublist (s.release r).agenda.queue ∧
      ∀ c, c ∈ (s.release r).agenda.queue ↔ c ∈ s.agenda.queue ∨ c ∈ s.agenda.deferred r := by
  obtain ⟨-, -, hdependents, hsublist, hqueue⟩ :=
    requeue_spec { s with agenda := (s.agenda.takeDeferred r).2 } (s.agenda.deferred r)
  rw [← release_eq] at hdependents hsublist hqueue
  refine ⟨fun r' => ?_, fun r' => ?_, ?_, fun c => ?_⟩
  · exact (Agenda.waiters_congr hdependents r').trans (Agenda.waiters_takeDeferred ..)
  · exact (Agenda.deferred_congr hdependents r').trans (Agenda.deferred_takeDeferred ..)
  · rwa [Agenda.queue_takeDeferred] at hsublist
  · rw [hqueue, Agenda.queue_takeDeferred]

/-- Releasing is a step, after which no block is held back for the routine. -/
theorem release_ok (hs : s.Fits) (r : RoutineId) :
    (s.release r).Fits ∧ s.Advances (s.release r) ∧ s.SameRuns (s.release r) ∧
      (s.release r).published = s.published ∧
      ∀ r', (s.release r).agenda.deferred r' = if r = r' then [] else s.agenda.deferred r' := by
  obtain ⟨hruns, hpublished, -⟩ :=
    requeue_spec { s with agenda := (s.agenda.takeDeferred r).2 } (s.agenda.deferred r)
  obtain ⟨hwaiters, hdeferred, -, hqueue⟩ := release_agenda s r
  rw [← release_eq] at hruns hpublished
  have hsame : s.SameRuns (s.release r) := ⟨hruns.keys, hruns.runs⟩
  refine ⟨⟨hsame.keys ▸ hs.nodup, hsame.fits hs, fun r' => ?_, fun ref h => ?_,
      fun r' ref h => ?_, fun r' ref h => ?_⟩,
    ⟨hsame.run, fun {ref old} h => ?_, fun _ => ?_, fun _ => ?_,
      fun ref h => (hqueue ref).2 (Or.inl h), fun r' ref h => hwaiters r' ▸ h, fun r' ref h => ?_⟩,
    hsame, hpublished, hdeferred⟩
  · rw [hpublished, hsame.isSome]
    exact hs.listed r'
  · rw [hsame.entry?]
    exact ((hqueue ref).1 h).elim (hs.queued ref) (hs.held r ref)
  · rw [hsame.entry?, hpublished]
    exact hs.waiting r' ref (hwaiters r' ▸ h)
  · rw [hsame.entry?]
    rw [hdeferred] at h
    split at h
    · cases h
    · exact hs.held r' ref h
  · rw [hsame.entry?]
    exact ⟨old, h, fun _ hx => hx, Or.inl rfl⟩
  · exact Or.inl (by rw [hpublished])
  · rw [hpublished]
  · by_cases heq : r = r'
    · subst heq
      exact Or.inr ((hqueue ref).2 (Or.inr h))
    · left
      rw [hdeferred, if_neg heq]
      exact h

/-! ### The whole end of a round -/

/-- Publishing does not fail, and settles the routines it is given. -/
theorem foldlM_publish_ok (hs : s.Fits) (rs : List RoutineId) :
    ∃ s', rs.foldlM publish s = .ok s' ∧ s'.Fits ∧ s.Advances s' ∧
      (∀ r, r ∈ rs ∨ s.Settled r → s'.Settled r) ∧ s.Idles s' := by
  induction rs generalizing s with
  | nil =>
      exact ⟨s, rfl, hs, .refl s, fun r h => h.resolve_left (List.not_mem_nil), fun _ => rfl,
        fun _ => rfl⟩
  | cons r rs ih =>
      obtain ⟨s₁, hpublish, hs₁, hadvances, hsettled, hkeeps, hidles⟩ := publish_ok hs r
      obtain ⟨s₂, hfold, hs₂, hadvances₂, hsettled₂, hidles₂⟩ := ih hs₁
      refine ⟨s₂, ?_, hs₂, hadvances.trans hadvances₂, fun r' hr' => hsettled₂ r' ?_,
        hidles.trans hidles₂⟩
      · rw [List.foldlM_cons, hpublish]
        exact hfold
      · rw [List.mem_cons] at hr'
        rcases hr' with (rfl | hmem) | hold
        · exact Or.inr hsettled
        · exact Or.inl hmem
        · exact Or.inr (hkeeps r' hold)

/-- Releasing empties what was held back for the callees it is given. -/
theorem foldl_release_ok (hs : s.Fits) (rs : List RoutineId) :
    (rs.foldl release s).Fits ∧ s.Advances (rs.foldl release s) ∧
      s.SameRuns (rs.foldl release s) ∧ (rs.foldl release s).published = s.published ∧
      ∀ r, r ∈ rs ∨ s.agenda.deferred r = [] → (rs.foldl release s).agenda.deferred r = [] := by
  induction rs generalizing s with
  | nil =>
      exact ⟨hs, .refl s, .refl s, rfl, fun r h => h.resolve_left (List.not_mem_nil)⟩
  | cons r rs ih =>
      obtain ⟨hs₁, hadvances, hruns, hpublished, hdeferred⟩ := release_ok hs r
      obtain ⟨hs₂, hadvances₂, hruns₂, hpublished₂, hdeferred₂⟩ := ih hs₁
      refine ⟨hs₂, hadvances.trans hadvances₂, hruns.trans hruns₂, hpublished₂.trans hpublished,
        fun r' hr' => hdeferred₂ r' ?_⟩
      rw [hdeferred]
      rw [List.mem_cons] at hr'
      rcases hr' with (rfl | hmem) | hold
      · exact Or.inr (if_pos rfl)
      · exact Or.inl hmem
      · right
        split
        · rfl
        · exact hold

/-- The end of a round is a step. After it every routine is settled and no block is held back for a
routine of the unit. -/
theorem endRound_ok (hs : s.Fits) :
    ∃ s', s.endRound = .ok s' ∧ s'.Fits ∧ s.Advances s' ∧ (∀ r, s'.Settled r) ∧
      (∀ r, (s'.published.find? r).isSome → s'.agenda.deferred r = []) ∧ s.Idles s' := by
  obtain ⟨s₁, hfold, hs₁, hadvances, hsettled, hidles⟩ := foldlM_publish_ok hs s.runs.keys
  obtain ⟨hs₂, hadvances₂, hruns, hpublished, hdeferred⟩ := foldl_release_ok hs₁ s₁.published.keys
  refine ⟨_, ?_, hs₂, hadvances.trans hadvances₂, fun r => ?_, fun r hr => ?_,
    hidles.trans hruns.idles⟩
  · rw [endRound, hfold]
    rfl
  · by_cases hr : (s.runs.find? r).isSome
    · exact hruns.settled hpublished (hsettled r (Or.inl (OrderedMap.mem_keys_iff.2 hr)))
    · intro run hrun
      have hlisted := hs₂.listed r
      rw [hrun, (hadvances.trans hadvances₂).listed r, hs.listed r] at hlisted
      exact absurd hlisted hr
  · rw [hpublished] at hr
    exact hdeferred r (Or.inl (OrderedMap.mem_keys_iff.2 hr))

/-! ### Rounds that change nothing -/

/-- Two units with the same runs, results, queue and waiting blocks, in which no block is held
back. -/
structure Resembles (s s' : Solver) : Prop where
  runs : s'.runs = s.runs
  published : s'.published = s.published
  queue : s'.agenda.queue = s.agenda.queue
  waiters : ∀ callee, s'.agenda.waiters callee = s.agenda.waiters callee
  deferred : ∀ callee, s'.agenda.deferred callee = []

theorem Resembles.release (h : s.Resembles s') (r : RoutineId) :
    s.Resembles (s'.release r) := by
  have hrelease : s'.release r = { s' with agenda := (s'.agenda.takeDeferred r).2 } := by
    rw [release_eq, h.deferred]
    rfl
  rw [hrelease]
  refine ⟨h.runs, h.published, ?_, fun callee => ?_, fun callee => ?_⟩
  · exact (Agenda.queue_takeDeferred ..).trans h.queue
  · exact (Agenda.waiters_takeDeferred ..).trans (h.waiters callee)
  · rw [Agenda.deferred_takeDeferred, h.deferred, ite_self]

/-- Where no block is held back, none is released. -/
theorem Resembles.foldl_release (h : s.Resembles s') (rs : List RoutineId) :
    s.Resembles (rs.foldl Solver.release s') := by
  induction rs generalizing s' with
  | nil => exact h
  | cons r rest ih => exact ih (h.release r)

theorem Resembles.refl (h : ∀ callee, s.agenda.deferred callee = []) : s.Resembles s :=
  ⟨rfl, rfl, rfl, fun _ => rfl, h⟩

theorem Resembles.symm (h : s.Resembles s') (hs : ∀ callee, s.agenda.deferred callee = []) :
    s'.Resembles s :=
  ⟨h.runs.symm, h.published.symm, h.queue.symm, fun callee => (h.waiters callee).symm, hs⟩

/-- A routine that is settled has nothing new to publish. -/
theorem publish_settled {r : RoutineId} (h : s.Settled r) : s.publish r = .ok s := by
  cases hrun : s.runs.find? r with
  | none =>
      rw [publish, hrun]
      rfl
  | some run =>
      obtain ⟨m, summary, published, hresult, hsummary, hpublished, hsame⟩ := h run hrun
      rw [publish_eq hrun hresult hsummary, hpublished, Option.any_some, if_pos hsame, withRun,
        OrderedMap.insert_of_find? hrun]

/-- Where all routines are settled and no block is held back, the end of a round changes nothing. -/
theorem endRound_settled (hsettled : ∀ r, s.Settled r)
    (hdeferred : ∀ callee, s.agenda.deferred callee = []) (hend : s.endRound = .ok s') :
    s.Resembles s' := by
  have hpublish (rs : List RoutineId) : rs.foldlM publish s = .ok s := by
    induction rs with
    | nil => rfl
    | cons r rest ih =>
        rw [List.foldlM_cons, publish_settled (hsettled r)]
        exact ih
  rw [endRound, hpublish] at hend
  cases hend
  exact (Resembles.refl hdeferred).foldl_release _

end Solver

end FlowTyping
