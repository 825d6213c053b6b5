import FlowTyping.Proofs.Solver.Arrival
import FlowTyping.Proofs.Visit.Keep

/-!
# What one step changes

`Visited.Leaves` says all that a visit changes: the run of its own routine, and in the agenda either
the visited block is held back or the blocks that gain something are queued. `Solver.Rests` says
what the end of a round leaves alone. Main statements: `Visited.Real.leaves` and `endRound_rests`.
-/

namespace FlowTyping

namespace Visited

/-- The unit `s'`, in which the routine has the run `run'`, is what a visit leaves behind. -/
structure Leaves (o : Options) (v : Visited) (s' : Solver) (run' : RoutineRun) : Prop where
  runs : s'.runs = v.unit.runs.insert v.ref.1 run'
  published : s'.published = v.unit.published
  body : run'.body = v.run.body
  facts : run'.facts = v.scene.facts
  mustComplete : run'.mustComplete = v.run.mustComplete.filter (· != v.ref.2)
  held : v.isHeld o = true → run'.entries = v.run.entries ∧ ∃ callee,
    (v.unit.published.find? callee).isSome ∧ s'.agenda = v.scene.agenda.defer callee v.ref
  sent : v.isHeld o = false → ∃ grown,
    v.after.mergeEntries (Solver.flows v.block v.outcome) = .ok (grown, run') ∧
      s'.agenda = v.scene.agenda.enqueueAll (grown.map (v.ref.1, ·))

/-- A visit leaves a run of its routine behind. -/
theorem Real.leaves {d : Declarations} {o : Options} {v : Visited} {s' : Solver} (h : v.Real d)
    (hs : v.unit.Fits) (hvisit : v.unit.visit d o v.ref = .ok s') : ∃ run', v.Leaves o s' run' := by
  cases hheld : v.isHeld o with
  | true =>
      obtain ⟨callee, hcallee, hvisit'⟩ := h.visit_of_held hheld
      cases hvisit.symm.trans hvisit'
      have hlisted : (v.unit.published.find? callee).isSome :=
        ((h.moves hs).pending_listed hcallee).resolve_left (fun hnone => nomatch hnone)
      refine ⟨v.after, rfl, rfl, rfl, rfl, rfl, fun _ => ⟨rfl, callee, hlisted, rfl⟩,
        fun hsent => ?_⟩
      cases hheld.symm.trans hsent
  | false =>
      obtain ⟨grown, run', hmerge, -, hext, -⟩ :=
        RoutineRun.mergeEntries_ok (h.after_fits hs) (h.flows_fit hs)
      have hrest := hext.rest
      have hroutine : run'.body.routine = v.ref.1 := by
        rw [hrest]
        exact (hs.runs h.run).1
      rw [h.visit_of_sent hheld, Solver.propagate, hmerge] at hvisit
      cases hvisit
      rw [hroutine]
      refine ⟨run', rfl, rfl, ?_, ?_, ?_, fun hheld' => ?_, fun _ => ⟨grown, hmerge, rfl⟩⟩
      · rw [hrest]
        rfl
      · rw [hrest]
        rfl
      · rw [hrest]
        rfl
      · cases hheld.symm.trans hheld'

end Visited

namespace Solver

variable {s s' s'' : Solver}

/-- The routines stay as they are, but for further kinds in their tables. -/
def Rests (s s' : Solver) : Prop :=
  ∀ r run, s.runs.find? r = some run →
    ∃ run' t, s'.runs.find? r = some run' ∧ run'.facts = { run.facts with table := t } ∧
      run.facts.table.Grows t

theorem Rests.refl (s : Solver) : s.Rests s := by
  intro r run hrun
  exact ⟨run, run.facts.table, hrun, rfl, .refl _⟩

theorem Rests.trans (h : s.Rests s') (h' : s'.Rests s'') : s.Rests s'' := by
  intro r run hrun
  obtain ⟨run₁, t₁, hrun₁, hfacts₁, hg₁⟩ := h r run hrun
  obtain ⟨run₂, t₂, hrun₂, hfacts₂, hg₂⟩ := h' r run₁ hrun₁
  rw [hfacts₁] at hfacts₂ hg₂
  exact ⟨run₂, t₂, hrun₂, hfacts₂, hg₁.trans hg₂⟩

/-- What publishing does to the routines: at most a kind is added to the table of its own. -/
theorem publish_rests (hs : s.Fits) {r : RoutineId} (h : s.publish r = .ok s') : s.Rests s' := by
  cases hrun : s.runs.find? r with
  | none =>
      rw [publish, hrun] at h
      cases h
      exact .refl s
  | some run =>
      obtain ⟨-, hfits⟩ := hs.runs hrun
      obtain ⟨m, t, hresult, hw, hg, hm, -⟩ := Facts.result_ok hfits.facts
      obtain ⟨summary, hsummary⟩ := KindTable.summarize_ok hw hm
      rw [publish_eq hrun hresult hsummary] at h
      have hruns : s'.runs = s.runs.insert r
        { run with facts := { run.facts with table := t } } := by
        cases h
        split <;> rfl
      intro r' old hold
      rw [hruns, OrderedMap.find?_insert]
      split
      · rename_i heq
        rw [← heq, hrun] at hold
        cases hold
        exact ⟨_, t, rfl, rfl, hg⟩
      · exact ⟨old, old.facts.table, hold, rfl, .refl _⟩

theorem SameRuns.rests (h : s.SameRuns s') : s.Rests s' := by
  intro r run hrun
  have hr := h.runs r
  rw [hrun, Option.map_some] at hr
  obtain ⟨run', hrun', hsame⟩ := Option.map_eq_some_iff.1 hr
  simp only [RoutineRun.mk.injEq] at hsame
  exact ⟨run', run.facts.table, hrun', hsame.2.1, .refl _⟩

/-- Publishing adds kinds to the tables and changes no other fact. -/
theorem foldlM_publish_rests (hs : s.Fits) {rs : List RoutineId}
    (h : rs.foldlM publish s = .ok s') : s.Rests s' := by
  induction rs generalizing s with
  | nil =>
      cases h
      exact .refl _
  | cons r rs ih =>
      obtain ⟨s₁, hpublish, hs₁, -⟩ := publish_ok hs r
      rw [List.foldlM_cons, hpublish] at h
      exact (publish_rests hs hpublish).trans (ih hs₁ h)

/-- The end of a round adds at most kinds to the tables of the routines. -/
theorem endRound_rests (hs : s.Fits) (h : s.endRound = .ok s') : s.Rests s' := by
  obtain ⟨s₁, hfold, hs₁, -⟩ := foldlM_publish_ok hs s.runs.keys
  rw [endRound, hfold] at h
  cases h
  have hreleased := (foldl_release_ok hs₁ s₁.published.keys).2.2.1
  exact (foldlM_publish_rests hs hfold).trans hreleased.rests

end Solver

end FlowTyping
