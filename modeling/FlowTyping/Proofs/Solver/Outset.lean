import FlowTyping.Proofs.Solver.Start

/-!
# The unit at the outset

Main statement: `Solver.opens_of_start`. When a run begins, every body of the unit has a run of its
own in which just the entry block has been reached, nothing is known and nothing has been published.
-/

namespace FlowTyping

/-- A run of a routine of which nothing is known yet. -/
structure RoutineRun.IsNew (run : RoutineRun) : Prop where
  reached : ∀ c, (run.entry? c).isSome ↔ c = run.body.entry
  returned : run.facts.returned = .empty
  effects : run.facts.effects = .none
  callTargets : run.facts.callTargets = .empty
  mustComplete : run.mustComplete = []

/-- A routine starts with a new run. -/
theorem RoutineRun.isNew_of_start {b : Body} (hb : b.WellFormed) {r : RoutineDecl}
    {context : ContextId} {cap : Nat} {run : RoutineRun}
    (h : RoutineRun.start b r context cap = .ok run) : run.body = b ∧ run.IsNew := by
  obtain ⟨run', hstart, -, hbody, hreached, -⟩ := RoutineRun.start_ok hb r context cap
  cases h.symm.trans hstart
  have hentry (c : BlockId) : (run.entry? c).isSome ↔ c = run.body.entry := by
    rw [hbody]
    exact hreached c
  cases hslots : (b.vars.mapM (Facts.entrySlot r)).run (KindTable.new context cap r.cls?) with
  | error fault =>
      simp [RoutineRun.start, Facts.entryState, Facts.onTable, Facts.new, hslots, bind,
        Except.bind] at h
  | ok p =>
      simp only [RoutineRun.start, Facts.entryState, Facts.onTable, Facts.new, hslots, bind,
        Except.bind, pure, Except.pure, Except.ok.injEq] at h
      rw [← h] at hentry ⊢
      exact ⟨rfl, hentry, rfl, rfl, rfl, rfl⟩

namespace Solver

/-- A unit in which the bodies have been set up and nothing else has happened. -/
structure Opens (s : Solver) (bodies : List Body) : Prop where
  keys : s.runs.keys = bodies.map Body.routine
  new : ∀ {id : RoutineId} {run : RoutineRun}, s.runs.find? id = some run → run.IsNew
  run : ∀ b ∈ bodies, ∃ run, s.runs.find? b.routine = some run ∧ run.body = b
  queue : s.agenda.queue = bodies.map fun b => (b.routine, b.entry)
  deferred : ∀ r, s.agenda.deferred r = []
  published : ∀ {id : RoutineId} {summary : Summary},
    s.published.find? id = some summary → summary = .nothing

variable {s s' : Solver} {bodies : List Body}

theorem opens_empty : (⟨.empty, .empty, .empty, 0, 1⟩ : Solver).Opens [] where
  keys := rfl
  new h := nomatch h
  run _ h := (List.not_mem_nil h).elim
  queue := rfl
  deferred _ := rfl
  published h := nomatch h

/-- One more body is set up, with its entry at the end of the queue. -/
theorem Opens.addRoutine (hs : s.Opens bodies) {b : Body} (hb : b.WellFormed)
    (hnew : b.routine ∉ bodies.map Body.routine) {r : RoutineDecl} {cap : Nat}
    (h : s.addRoutine cap b r = .ok s') : s'.Opens (bodies ++ [b]) := by
  cases hstart : RoutineRun.start b r s.runs.entries.length cap with
  | error fault => simp [Solver.addRoutine, hstart, bind, Except.bind] at h
  | ok run =>
      simp only [Solver.addRoutine, hstart, bind, Except.bind, pure, Except.pure,
        Except.ok.injEq] at h
      obtain ⟨hbody, hrun⟩ := RoutineRun.isNew_of_start hb hstart
      have hunlisted : b.routine ∉ s.runs.keys := hs.keys ▸ hnew
      have hunqueued : (b.routine, b.entry) ∉ s.agenda.queue := by
        rw [hs.queue]
        intro hmem
        obtain ⟨b', hb', heq⟩ := List.mem_map.1 hmem
        exact hnew (List.mem_map.2 ⟨b', hb', congrArg Prod.fst heq⟩)
      subst h
      constructor
      · rw [OrderedMap.keys_insert, if_neg hunlisted, hs.keys, List.map_append]
        rfl
      · intro id run' hrun'
        rw [OrderedMap.find?_insert] at hrun'
        split at hrun'
        · cases hrun'
          exact hrun
        · exact hs.new hrun'
      · intro b' hb'
        rw [OrderedMap.find?_insert]
        split
        · rename_i heq
          -- The routine of `b` is new, so that no other body has it.
          rcases List.mem_append.1 hb' with hold | hown
          · exact absurd (heq ▸ List.mem_map_of_mem hold) hnew
          · exact ⟨run, rfl, hbody.trans (List.mem_singleton.1 hown).symm⟩
        · rename_i hne
          rcases List.mem_append.1 hb' with hold | hown
          · exact hs.run b' hold
          · exact absurd (congrArg Body.routine (List.mem_singleton.1 hown).symm) hne
      · rw [Agenda.queue_enqueue, if_neg hunqueued, hs.queue, List.map_append]
        rfl
      · intro r'
        exact (Agenda.deferred_congr (Agenda.dependents_enqueue ..) r').trans (hs.deferred r')
      · intro id summary hsummary
        rw [OrderedMap.find?_insert] at hsummary
        split at hsummary
        · cases hsummary
          rfl
        · exact hs.published hsummary

/-- The bodies are set up in their order. -/
theorem Opens.addRoutines {unit : List (Body × RoutineDecl)} (hs : s.Opens bodies)
    (hwell : ∀ e ∈ unit, e.1.WellFormed)
    (hnodup : (bodies ++ unit.map Prod.fst).map Body.routine |>.Nodup) {cap : Nat}
    (h : unit.foldlM (fun s b => s.addRoutine cap b.1 b.2) s = .ok s') :
    s'.Opens (bodies ++ unit.map Prod.fst) := by
  induction unit generalizing s bodies with
  | nil =>
      cases h
      simpa using hs
  | cons e rest ih =>
      obtain ⟨hwell, hrest⟩ := List.forall_mem_cons.1 hwell
      cases hadd : s.addRoutine cap e.1 e.2 with
      | error fault => simp [hadd, bind, Except.bind] at h
      | ok s₁ =>
          rw [List.foldlM_cons, hadd] at h
          rw [List.map_cons, List.append_cons] at hnodup ⊢
          have hnew : e.1.routine ∉ bodies.map Body.routine := by
            rw [List.append_assoc, List.map_append, List.nodup_append] at hnodup
            exact fun hmem => hnodup.2.2 _ hmem _ (by simp) rfl
          exact ih (hs.addRoutine hwell hnew hadd) hrest hnodup h

/-- A unit that has been checked is set up as its bodies say. -/
theorem opens_of_start {d : Declarations} {unit : List (Body × RoutineDecl)} {cap : Nat}
    (hunit : checkUnit d [] bodies = .ok unit) (h : Solver.start cap unit = .ok s) :
    s.Opens bodies := by
  obtain ⟨hfst, hwell, hnodup, -⟩ := checkUnit_ok hunit
  have hopens : s.Opens ([] ++ unit.map Prod.fst) := by
    apply opens_empty.addRoutines _ _ h
    · intro e he
      exact hwell e.1 (hfst ▸ List.mem_map_of_mem he)
    · rw [List.nil_append, hfst]
      exact hnodup
  rwa [List.nil_append, hfst] at hopens

end Solver

end FlowTyping
