import FlowTyping.Inference.Solver
import FlowTyping.Proofs.Visit.Block

/-!
# Steps of the solver

`Solver.Fits` is what the solver keeps: every routine fits its body, and every block that is queued,
waits or is held back has been reached. `Solver.Advances` says once what a step can do to the rest
of the unit: states on entry only grow, and whatever a block relied on changes only if the block is
queued.
-/

namespace FlowTyping

namespace OrderedMap

variable {κ β : Type} [DecidableEq κ] {m : OrderedMap κ β} {k : κ}

theorem nodup_insert (h : m.keys.Nodup) (k : κ) (v : β) : (m.insert k v).keys.Nodup := by
  rw [keys_insert]
  split
  · exact h
  · rename_i hk
    rw [List.nodup_append]
    refine ⟨h, List.nodup_cons.2 ⟨List.not_mem_nil, List.nodup_nil⟩, fun a ha b hb hab => hk ?_⟩
    rw [← List.mem_singleton.1 hb, ← hab]
    exact ha

/-- To insert what is found anyway changes nothing. -/
theorem insert_of_find? {v : β} (h : m.find? k = some v) : m.insert k v = m := by
  obtain ⟨entries⟩ := m
  change lookup k entries = some v at h
  change OrderedMap.mk (put k v entries) = ⟨entries⟩
  congr 1
  induction entries with
  | nil => cases h
  | cons e rest ih =>
      obtain ⟨j, w⟩ := e
      rw [lookup] at h
      rw [put]
      split at h
      · rename_i hj
        cases h
        rw [if_pos hj]
      · rename_i hj
        rw [if_neg hj, ih h]

/-- With different keys, every entry is found. -/
theorem find?_of_mem {v : β} (h : m.keys.Nodup) (hmem : (k, v) ∈ m.entries) :
    m.find? k = some v := by
  obtain ⟨entries⟩ := m
  change (entries.map Prod.fst).Nodup at h
  change lookup k entries = some v
  induction entries with
  | nil => cases hmem
  | cons e rest ih =>
      obtain ⟨j, w⟩ := e
      rw [List.map_cons, List.nodup_cons] at h
      rw [lookup]
      rcases List.mem_cons.1 hmem with heq | hmem
      · cases heq
        exact if_pos rfl
      · have hne : ¬j = k := fun hjk => h.1 (hjk ▸ List.mem_map.2 ⟨(k, v), hmem, rfl⟩)
        rw [if_neg hne]
        exact ih hmem h.2

end OrderedMap

/-- What one state subsumes, the other subsumes as well. -/
def State.Below (a b : State) : Prop :=
  ∀ x, a.subsumes x = .ok true → b.subsumes x = .ok true

namespace RoutineRun

/-- The run is about a well-formed body, and all its states and facts fit. -/
structure Fits (run : RoutineRun) : Prop where
  body : run.body.WellFormed
  facts : run.facts.Fits run.body
  size : run.entries.size = run.body.blocks.size
  counted : run.visits.size = run.body.blocks.size
  states : ∀ {b : BlockId} {st : State}, run.entry? b = some st →
    st.Fits run.body.vars.length run.facts.table

theorem entry?_eq_some {run : RoutineRun} {b : BlockId} {st : State} :
    run.entry? b = some st ↔ run.entries[b]? = some (some st) := by
  rw [RoutineRun.entry?]
  cases run.entries[b]? with
  | none => simp
  | some e => simp

/-- A block that has been reached exists. -/
theorem Fits.block {run : RoutineRun} (h : run.Fits) {b : BlockId} {st : State}
    (hst : run.entry? b = some st) : ∃ block, run.body.blocks[b]? = some block := by
  have hlt := (Array.getElem?_eq_some_iff.1 (entry?_eq_some.1 hst)).1
  rw [h.size] at hlt
  exact ⟨_, Array.getElem?_eq_getElem hlt⟩

/-- A run in which the entries of some blocks have grown, and nothing else has changed. -/
structure Extends (grown : List BlockId) (run run' : RoutineRun) : Prop where
  rest : run' = { run with entries := run'.entries }
  size : run'.entries.size = run.entries.size
  entry : ∀ {b : BlockId} {old : State}, run.entry? b = some old →
    ∃ new, run'.entry? b = some new ∧ old.Below new ∧ (new = old ∨ b ∈ grown)
  grown : ∀ b ∈ grown, (run'.entry? b).isSome

namespace Extends

variable {grown grown' : List BlockId} {run run' run'' : RoutineRun}

theorem refl (run : RoutineRun) : Extends [] run run :=
  ⟨rfl, rfl, fun h => ⟨_, h, fun _ hx => hx, Or.inl rfl⟩, fun _ h => nomatch h⟩

/-- Runs extend each other step by step. -/
theorem trans (h : Extends grown run run') (h' : Extends grown' run' run'') :
    Extends (grown ++ grown') run run'' := by
  refine ⟨?_, h'.size.trans h.size, fun {b old} hold => ?_, fun b hb => ?_⟩
  · rw [h'.rest, h.rest]
  · obtain ⟨mid, hmid, hbelow, hsame⟩ := h.entry hold
    obtain ⟨new, hnew, hbelow', hsame'⟩ := h'.entry hmid
    refine ⟨new, hnew, fun x hx => hbelow' x (hbelow x hx), ?_⟩
    rcases hsame with rfl | hgrown
    · exact hsame'.imp_right fun h => List.mem_append_right _ h
    · exact Or.inr (List.mem_append_left _ hgrown)
  · rcases List.mem_append.1 hb with hb | hb
    · obtain ⟨mid, hmid⟩ := Option.isSome_iff_exists.1 (h.grown b hb)
      obtain ⟨new, hnew, _⟩ := h'.entry hmid
      rw [hnew]
      rfl
    · exact h'.grown b hb

end Extends

theorem entry?_set (run : RoutineRun) {b c : BlockId} {st : State} (hb : b < run.entries.size) :
    RoutineRun.entry? { run with entries := run.entries.setIfInBounds b (some st) } c =
      if b = c then some st else run.entry? c := by
  simp only [RoutineRun.entry?, Array.getElem?_setIfInBounds]
  by_cases h : b = c
  · subst h
    simp [hb]
  · simp [h]

/-- Setting the entry of one block. -/
theorem Fits.setEntry {run : RoutineRun} (h : run.Fits) {b : BlockId} {st : State}
    (hb : b < run.entries.size) (hst : st.Fits run.body.vars.length run.facts.table) :
    ({ run with entries := run.entries.setIfInBounds b (some st) } : RoutineRun).Fits := by
  refine ⟨h.body, h.facts, (Array.size_setIfInBounds ..).trans h.size, h.counted,
    fun {c st'} hc => ?_⟩
  rw [entry?_set run hb] at hc
  split at hc
  · cases hc
    exact hst
  · exact h.states hc

/-- Joining a state into the entry of a block succeeds. The entry then subsumes the state, and has
changed only if that is told. -/
theorem mergeEntry_ok {run : RoutineRun} (h : run.Fits) {b : BlockId} {st : State}
    (hb : b < run.body.blocks.size) (hst : st.Fits run.body.vars.length run.facts.table) :
    ∃ grew run', run.mergeEntry b st = .ok (grew, run') ∧ run'.Fits ∧
      Extends (if grew then [b] else []) run run' ∧
      ∃ new, run'.entry? b = some new ∧ new.subsumes st = .ok true := by
  have hb' : b < run.entries.size := h.size ▸ hb
  obtain ⟨slot, hslot⟩ : ∃ slot, run.entries[b]? = some slot := ⟨_, Array.getElem?_eq_getElem hb'⟩
  cases slot with
  | none =>
      refine ⟨true, _, by rw [mergeEntry, hslot], h.setEntry hb' hst, ⟨rfl, ?_, ?_, ?_⟩, st, ?_, ?_⟩
      · exact Array.size_setIfInBounds ..
      · intro c old hc
        rw [entry?_set run hb']
        split
        · rename_i hbc
          rw [entry?_eq_some, ← hbc, hslot] at hc
          cases hc
        · exact ⟨old, hc, fun _ hx => hx, Or.inl rfl⟩
      · intro c hc
        rw [if_pos rfl, List.mem_singleton] at hc
        rw [entry?_set run hb', if_pos hc.symm]
        rfl
      · rw [entry?_set run hb', if_pos rfl]
      · exact State.subsumes_self hst.proper
  | some old =>
      have hold : run.entry? b = some old := entry?_eq_some.2 hslot
      obtain ⟨new, hjoin, hnew⟩ := (h.states hold).join hst
      have habsorb : old.absorb st = .ok (new != old, new) :=
        State.absorb_eq_ok_iff.2 ⟨hjoin, rfl⟩
      refine ⟨new != old, _, ?_, h.setEntry hb' hnew, ⟨rfl, ?_, ?_, ?_⟩, new, ?_, ?_⟩
      · rw [mergeEntry, hslot]
        simp only [habsorb]
        rfl
      · exact Array.size_setIfInBounds ..
      · intro c old' hc
        rw [entry?_set run hb']
        split
        · rename_i hbc
          subst hbc
          cases hold.symm.trans hc
          refine ⟨new, rfl, fun x hx => State.subsumes_of_join hjoin hx, ?_⟩
          by_cases hsame : new = old
          · exact Or.inl hsame
          · right
            rw [if_pos (bne_iff_ne.2 hsame)]
            exact List.mem_singleton.2 rfl
        · exact ⟨old', hc, fun _ hx => hx, Or.inl rfl⟩
      · intro c hc
        split at hc
        · rw [entry?_set run hb', if_pos (List.mem_singleton.1 hc).symm]
          rfl
        · cases hc
      · rw [entry?_set run hb', if_pos rfl]
      · exact State.join_subsumes_right hjoin

/-- Joining states into the entries of blocks succeeds, and the entries then subsume the states. -/
theorem mergeEntries_ok {run : RoutineRun} (h : run.Fits) {flows : List (BlockId × State)}
    (hflows : ∀ e ∈ flows, e.1 < run.body.blocks.size ∧
      e.2.Fits run.body.vars.length run.facts.table) :
    ∃ grown run', run.mergeEntries flows = .ok (grown, run') ∧ run'.Fits ∧
      Extends grown run run' ∧
      ∀ e ∈ flows, ∃ new, run'.entry? e.1 = some new ∧ new.subsumes e.2 = .ok true := by
  induction flows generalizing run with
  | nil => exact ⟨[], run, rfl, h, .refl run, fun e he => nomatch he⟩
  | cons e rest ih =>
      obtain ⟨b, st⟩ := e
      obtain ⟨hhead, hrest⟩ := List.forall_mem_cons.1 hflows
      obtain ⟨grew, run₁, hmerge, hfits₁, hext₁, new, hnew, hsub⟩ := mergeEntry_ok h hhead.1 hhead.2
      have hsame : run₁.body = run.body ∧ run₁.facts = run.facts := by
        rw [hext₁.rest]
        exact ⟨rfl, rfl⟩
      obtain ⟨grown, run₂, hmerges, hfits₂, hext₂, hsub₂⟩ :=
        ih hfits₁ (by rw [hsame.1, hsame.2]; exact hrest)
      refine ⟨if grew then b :: grown else grown, run₂, ?_, hfits₂, ?_, ?_⟩
      · simp only [mergeEntries, hmerge, bind, Except.bind, hmerges]
        rfl
      · have hboth := hext₁.trans hext₂
        cases grew <;> exact hboth
      · rw [List.forall_mem_cons]
        refine ⟨?_, hsub₂⟩
        obtain ⟨final, hfinal, hbelow, _⟩ := hext₂.entry hnew
        exact ⟨final, hfinal, hbelow st hsub⟩

end RoutineRun

namespace Solver

/-- The state on entry to a block of the unit. -/
def entry? (s : Solver) (ref : BlockRef) : Option State :=
  (s.runs.find? ref.1).bind fun run => run.entry? ref.2

/-- How often a block of the unit was visited. -/
def visitCount (s : Solver) (ref : BlockRef) : Nat :=
  ((s.runs.find? ref.1).map fun run => run.visits.getD ref.2 0).getD 0

theorem visitCount_eq {s : Solver} {ref : BlockRef} {run : RoutineRun}
    (hrun : s.runs.find? ref.1 = some run) : s.visitCount ref = run.visits.getD ref.2 0 := by
  rw [visitCount, hrun]
  rfl

/-- What the solver keeps between its steps. -/
structure Fits (s : Solver) : Prop where
  nodup : s.runs.keys.Nodup
  runs : ∀ {r : RoutineId} {run : RoutineRun}, s.runs.find? r = some run →
    run.body.routine = r ∧ run.Fits
  listed : ∀ r, (s.published.find? r).isSome = (s.runs.find? r).isSome
  queued : ∀ ref ∈ s.agenda.queue, (s.entry? ref).isSome
  waiting : ∀ r, ∀ ref ∈ s.agenda.waiters r, (s.entry? ref).isSome ∧ (s.published.find? r).isSome
  held : ∀ r, ∀ ref ∈ s.agenda.deferred r, (s.entry? ref).isSome

/-- What a step does to the unit: facts and entries only grow, and a block is queued when its entry
changes, when a result that it waits for changes, or when it is no longer held back. -/
structure Advances (s s' : Solver) : Prop where
  run : ∀ {r : RoutineId} {run : RoutineRun}, s.runs.find? r = some run →
    ∃ run', s'.runs.find? r = some run' ∧ run'.body = run.body ∧ run.facts.Below run'.facts
  entry : ∀ {ref : BlockRef} {old : State}, s.entry? ref = some old →
    ∃ new, s'.entry? ref = some new ∧ old.Below new ∧ (new = old ∨ ref ∈ s'.agenda.queue)
  published : ∀ r, s'.published.find? r = s.published.find? r ∨
    ∀ ref ∈ s.agenda.waiters r, ref ∈ s'.agenda.queue
  listed : ∀ r, (s'.published.find? r).isSome = (s.published.find? r).isSome
  queue : ∀ ref ∈ s.agenda.queue, ref ∈ s'.agenda.queue
  waiters : ∀ r, ∀ ref ∈ s.agenda.waiters r, ref ∈ s'.agenda.waiters r
  deferred : ∀ r, ∀ ref ∈ s.agenda.deferred r,
    ref ∈ s'.agenda.deferred r ∨ ref ∈ s'.agenda.queue

variable {s s' s'' : Solver}

namespace Advances

theorem refl (s : Solver) : s.Advances s :=
  ⟨fun h => ⟨_, h, rfl, .refl _⟩, fun h => ⟨_, h, fun _ hx => hx, Or.inl rfl⟩, fun _ => Or.inl rfl,
    fun _ => rfl, fun _ h => h, fun _ _ h => h, fun _ _ h => Or.inl h⟩

theorem trans (h : s.Advances s') (h' : s'.Advances s'') : s.Advances s'' := by
  refine ⟨fun {r run} hrun => ?_, fun {ref old} hold => ?_, fun r => ?_,
    fun r => (h'.listed r).trans (h.listed r), fun ref href => h'.queue ref (h.queue ref href),
    fun r ref href => h'.waiters r ref (h.waiters r ref href), fun r ref href => ?_⟩
  · obtain ⟨run₁, hrun₁, hbody, hfacts⟩ := h.run hrun
    obtain ⟨run₂, hrun₂, hbody', hfacts'⟩ := h'.run hrun₁
    exact ⟨run₂, hrun₂, hbody'.trans hbody, hfacts.trans hfacts'⟩
  · obtain ⟨mid, hmid, hbelow, hsame⟩ := h.entry hold
    obtain ⟨new, hnew, hbelow', hsame'⟩ := h'.entry hmid
    refine ⟨new, hnew, fun x hx => hbelow' x (hbelow x hx), ?_⟩
    rcases hsame with rfl | hqueued
    · exact hsame'
    · exact Or.inr (h'.queue ref hqueued)
  · rcases h.published r with hsame | hqueued
    · rcases h'.published r with hsame' | hqueued'
      · exact Or.inl (hsame'.trans hsame)
      · exact Or.inr fun ref href => hqueued' ref (h.waiters r ref href)
    · exact Or.inr fun ref href => h'.queue ref (hqueued ref href)
  · rcases h.deferred r ref href with hdeferred | hqueued
    · exact h'.deferred r ref hdeferred
    · exact Or.inr (h'.queue ref hqueued)

/-- What was reached stays reached. -/
theorem reached (h : s.Advances s') {ref : BlockRef} (href : (s.entry? ref).isSome) :
    (s'.entry? ref).isSome := by
  obtain ⟨old, hold⟩ := Option.isSome_iff_exists.1 href
  obtain ⟨new, hnew, _⟩ := h.entry hold
  rw [hnew]
  rfl

/-- A step starts no routines. -/
theorem exists_run (h : s.Advances s') (hs : s.Fits) (hs' : s'.Fits) {r : RoutineId}
    {run' : RoutineRun} (hrun' : s'.runs.find? r = some run') :
    ∃ run, s.runs.find? r = some run ∧ run'.body = run.body := by
  have hlisted := h.listed r
  rw [hs.listed, hs'.listed, hrun'] at hlisted
  obtain ⟨run, hrun⟩ := Option.isSome_iff_exists.1 hlisted.symm
  obtain ⟨run₁, hrun₁, hbody, -⟩ := h.run hrun
  cases hrun'.symm.trans hrun₁
  exact ⟨run, hrun, hbody⟩

end Advances

/-! ### Replacing one run -/

section Insert

variable {id : RoutineId} {run run' : RoutineRun} (hrun : s.runs.find? id = some run)
  (hruns : s'.runs = s.runs.insert id run')

include hruns

/-- A new run changes the states of its routine only. -/
theorem entry?_of_insert (ref : BlockRef) :
    s'.entry? ref = if id = ref.1 then run'.entry? ref.2 else s.entry? ref := by
  rw [Solver.entry?, hruns, OrderedMap.find?_insert]
  split
  · rfl
  · rfl

include hrun

/-- The entries of the other runs stay, and those of the replaced one grow. -/
theorem entry_of_insert
    (hentry : ∀ {b : BlockId} {old : State}, run.entry? b = some old →
      ∃ new, run'.entry? b = some new ∧ old.Below new ∧ (new = old ∨ (id, b) ∈ s'.agenda.queue))
    {ref : BlockRef} {old : State} (hold : s.entry? ref = some old) :
    ∃ new, s'.entry? ref = some new ∧ old.Below new ∧ (new = old ∨ ref ∈ s'.agenda.queue) := by
  obtain ⟨r, b⟩ := ref
  rw [entry?_of_insert hruns]
  by_cases h : id = r
  · subst h
    have hold' : run.entry? b = some old := by
      rw [Solver.entry?, hrun] at hold
      exact hold
    rw [if_pos rfl]
    exact hentry hold'
  · rw [if_neg h]
    exact ⟨old, hold, fun _ hx => hx, Or.inl rfl⟩

/-- The other runs stay, and the facts of the replaced one grow. -/
theorem run_of_insert (hbody : run'.body = run.body) (hfacts : run.facts.Below run'.facts)
    {r : RoutineId} {old : RoutineRun} (hold : s.runs.find? r = some old) :
    ∃ new, s'.runs.find? r = some new ∧ new.body = old.body ∧ old.facts.Below new.facts := by
  rw [hruns, OrderedMap.find?_insert]
  by_cases h : id = r
  · subst h
    cases hrun.symm.trans hold
    exact ⟨run', if_pos rfl, hbody, hfacts⟩
  · exact ⟨old, (if_neg h).trans hold, rfl, .refl _⟩

omit hrun in
theorem Fits.nodup_of_insert (hs : s.Fits) : s'.runs.keys.Nodup :=
  hruns ▸ OrderedMap.nodup_insert hs.nodup id run'

omit hrun in
/-- A new run changes the counts of its routine only. -/
theorem visitCount_of_insert (ref : BlockRef) :
    s'.visitCount ref = if id = ref.1 then run'.visits.getD ref.2 0 else s.visitCount ref := by
  rw [visitCount, hruns, OrderedMap.find?_insert]
  split
  · rfl
  · rfl

/-- Replacing a run by one that fits keeps the runs fit. -/
theorem Fits.runs_of_insert (hs : s.Fits) (hbody : run'.body = run.body) (hfits : run'.Fits)
    {r : RoutineId} {run₂ : RoutineRun} (h : s'.runs.find? r = some run₂) :
    run₂.body.routine = r ∧ run₂.Fits := by
  rw [hruns, OrderedMap.find?_insert] at h
  split at h
  · rename_i heq
    cases h
    subst heq
    exact ⟨hbody ▸ (hs.runs hrun).1, hfits⟩
  · exact hs.runs h

theorem isSome_of_insert (r : RoutineId) :
    (s'.runs.find? r).isSome = (s.runs.find? r).isSome := by
  rw [hruns, OrderedMap.find?_insert]
  split
  · rename_i heq
    subst heq
    rw [hrun]
    rfl
  · rfl

end Insert

end Solver

end FlowTyping
