import FlowTyping.Inference.Result
import FlowTyping.Proofs.Solver.Round

/-!
# The start of a run

A unit that has been checked starts fit, with its entry blocks queued and no block visited.
-/

namespace FlowTyping

open Typing

variable {t : KindTable}

/-! ### The state on entry -/

theorem paramSlot_runs (p : ParamDecl) (ht : t.WellFormed) :
    Runs (Facts.paramSlot p) t fun x t' => x.Fits t'.size := by
  refine Runs.ite (fun _ => Runs.pure ht (Slot.Fits.share _)) fun _ => ?_
  refine Runs.bind (KindTable.hintMask?_runs p.hint? ht) fun m t' hw _ hm => ?_
  have hnull : (if p.nullDefault then m ∪ .null else m).Fits t'.size := by
    split
    · exact hm.union (Mask.Fits.bit (by have := hw.six_le_size; omega))
    · exact hm
  refine Runs.ite (fun _ => ?_) fun _ => Runs.pure hw (Slot.Fits.assign _ hnull)
  exact Runs.bind (KindTable.arrayOf_runs hw hnull) fun _ _ hw' _ hm' =>
    Runs.pure hw' (Slot.Fits.assign _ hm'.1)

theorem thisSlot_runs (ht : t.WellFormed) :
    Runs Facts.thisSlot t fun x t' => x.Fits t'.size := by
  refine Runs.get_bind ?_
  cases t.self? with
  | none => exact Runs.pure ht (Slot.Fits.assign _ Mask.Fits.top)
  | some cls =>
      exact Runs.bind (KindTable.instanceOf_runs ht cls true) fun _ _ hw _ hm =>
        Runs.pure hw (Slot.Fits.assign _ hm)

/-- What a variable holds on entry can always be told. -/
theorem entrySlot_runs (r : RoutineDecl) (v : Variable) (ht : t.WellFormed) :
    Runs (Facts.entrySlot r v) t fun x t' => x.Fits t'.size := by
  rw [Facts.entrySlot]
  cases v.kind with
  | localVar => exact Runs.pure ht Slot.Fits.unset
  | parameter =>
      cases r.params.find? fun p => p.name == v.name with
      | some p => exact paramSlot_runs p ht
      | none => exact Runs.pure ht (Slot.Fits.assign _ Mask.Fits.top)
  | thisObject => exact thisSlot_runs ht
  | captured byRef =>
      cases byRef with
      | true => exact Runs.pure ht (Slot.Fits.share _)
      | false => exact Runs.pure ht (Slot.Fits.assign _ Mask.Fits.top)

/-- A routine starts with just its entry block reached and nothing visited. -/
theorem RoutineRun.start_ok {b : Body} (hb : b.WellFormed) (r : RoutineDecl) (context : ContextId)
    (cap : Nat) :
    ∃ run, RoutineRun.start b r context cap = .ok run ∧ run.Fits ∧ run.body = b ∧
      (∀ c, (run.entry? c).isSome ↔ c = b.entry) ∧
      run.visits = Array.replicate b.blocks.size 0 := by
  let f := Facts.new b (KindTable.new context cap r.cls?)
  have hf : f.Fits b := Facts.fits_new b (KindTable.WellFormed.new context cap r.cls?)
  obtain ⟨slots, t, hrun, hw, hg, hlength, hslots⟩ :=
    Runs.mapM (P := fun (x : Slot) t => x.Fits t.size) (fun x t t' hg hx => hx.mono hg.size_le)
      (fun v (_ : v ∈ b.vars) t ht => entrySlot_runs r v ht) hf.table
  let entry : State := ⟨t.id, slots⟩
  let run : RoutineRun := {
    body := b
    facts := { f with table := t }
    entries := (Array.replicate b.blocks.size none).setIfInBounds b.entry (some entry)
    visits := Array.replicate b.blocks.size 0
    mustComplete := [] }
  have hentry : entry.Fits b.vars.length t := ⟨rfl, hlength, hslots⟩
  have hnone (c : BlockId) :
      RoutineRun.entry? { run with entries := Array.replicate b.blocks.size none } c = none := by
    simp only [RoutineRun.entry?, Array.getElem?_replicate]
    split <;> rfl
  have hbare : ({ run with entries := Array.replicate b.blocks.size none } : RoutineRun).Fits := by
    refine ⟨hb, hf.grow hw hg, Array.size_replicate, Array.size_replicate, fun {c st} hc => ?_⟩
    rw [hnone] at hc
    cases hc
  have hsize : b.entry < (Array.replicate b.blocks.size (none : Option State)).size := by
    simpa using hb.entry
  refine ⟨run, ?_, hbare.setEntry hsize hentry, rfl, fun c => ?_, rfl⟩
  · have honTable : f.onTable (b.vars.mapM (Facts.entrySlot r)) =
        .ok (slots, { f with table := t }) := by
      rw [Facts.onTable, hrun]
      rfl
    have hstate : f.entryState b r = .ok (entry, { f with table := t }) := by
      rw [Facts.entryState, honTable]
      rfl
    rw [RoutineRun.start, hstate]
    rfl
  · rw [entry?_set { run with entries := Array.replicate b.blocks.size none } hsize, hnone]
    by_cases hc : b.entry = c
    · simp [hc]
    · simp [hc, Ne.symm hc]

namespace Solver

variable {s : Solver} {bodies : List Body}

/-- A unit about to start: nothing has been visited, and all that has been reached is queued. -/
structure Fresh (s : Solver) (bodies : List Body) : Prop where
  fits : s.Fits
  bodies : ∀ {id : RoutineId} {run : RoutineRun}, s.runs.find? id = some run → run.body ∈ bodies
  queued : ∀ ref, (s.entry? ref).isSome → ref ∈ s.agenda.queue
  unvisited : ∀ ref, s.visitCount ref = 0

/-- A well-formed body can be added to a unit about to start. -/
theorem addRoutine_ok (hfresh : s.Fresh bodies) {b : Body} (hb : b.WellFormed) (hmem : b ∈ bodies)
    (hnew : s.runs.find? b.routine = none) (r : RoutineDecl) (cap : Nat) :
    ∃ s', s.addRoutine cap b r = .ok s' ∧ s'.Fresh bodies ∧
      ∀ id, (s'.runs.find? id).isSome → id = b.routine ∨ (s.runs.find? id).isSome := by
  have hs := hfresh.fits
  obtain ⟨run, hstart, hfits, hbody, hreached, hvisits⟩ :=
    RoutineRun.start_ok hb r s.runs.entries.length cap
  let s' : Solver := { s with
    runs := s.runs.insert b.routine run
    published := s.published.insert b.routine .nothing
    agenda := (s.agenda.enqueue (b.routine, b.entry)).2 }
  have hruns : s'.runs = s.runs.insert b.routine run := rfl
  have hdependents : s'.agenda.dependents = s.agenda.dependents := Agenda.dependents_enqueue ..
  have hkept {ref : BlockRef} (h : (s.entry? ref).isSome) : (s'.entry? ref).isSome := by
    rw [entry?_of_insert hruns]
    split
    · rename_i heq
      rw [Solver.entry?, ← heq, hnew] at h
      cases h
    · exact h
  have hrun {id : RoutineId} {run' : RoutineRun} (h : s'.runs.find? id = some run') :
      b.routine = id ∧ run' = run ∨ s.runs.find? id = some run' := by
    rw [hruns, OrderedMap.find?_insert] at h
    split at h
    · rename_i heq
      cases h
      exact Or.inl ⟨heq, rfl⟩
    · exact Or.inr h
  refine ⟨s', by rw [addRoutine, hstart]; rfl, ⟨⟨hs.nodup_of_insert hruns, fun {id run'} h => ?_,
    fun id => ?_, fun ref h => ?_, fun id ref h => ?_, fun id ref h => ?_⟩, fun {id run'} h => ?_,
    fun ref h => ?_, fun ref => ?_⟩, fun id h => ?_⟩
  · rcases hrun h with ⟨heq, rfl⟩ | h
    · exact ⟨hbody.symm ▸ heq, hfits⟩
    · exact hs.runs h
  · simp only [s', OrderedMap.find?_insert]
    split
    · rfl
    · exact hs.listed id
  · rcases Agenda.mem_queue_enqueue.1 h with h | rfl
    · exact hkept (hs.queued ref h)
    · rw [entry?_of_insert hruns, if_pos rfl]
      exact (hreached _).2 rfl
  · rw [Agenda.waiters_congr hdependents] at h
    obtain ⟨hreach, hlisted⟩ := hs.waiting id ref h
    refine ⟨hkept hreach, ?_⟩
    simp only [s', OrderedMap.find?_insert]
    split
    · rfl
    · exact hlisted
  · rw [Agenda.deferred_congr hdependents] at h
    exact hkept (hs.held id ref h)
  · rcases hrun h with ⟨-, rfl⟩ | h
    · exact hbody.symm ▸ hmem
    · exact hfresh.bodies h
  · rw [entry?_of_insert hruns] at h
    refine Agenda.mem_queue_enqueue.2 ?_
    split at h
    · rename_i heq
      exact Or.inr (Prod.ext heq.symm ((hreached _).1 h))
    · exact Or.inl (hfresh.queued ref h)
  · rw [visitCount_of_insert hruns, hvisits]
    split
    · simp only [Array.getD_eq_getD_getElem?, Array.getElem?_replicate]
      split <;> rfl
    · exact hfresh.unvisited ref
  · obtain ⟨run', hrun'⟩ := Option.isSome_iff_exists.1 h
    rcases hrun hrun' with ⟨heq, -⟩ | h
    · exact Or.inl heq.symm
    · exact Or.inr (Option.isSome_iff_exists.2 ⟨run', h⟩)

theorem fresh_empty (bodies : List Body) : (⟨.empty, .empty, .empty, 0, 1⟩ : Solver).Fresh bodies :=
  ⟨⟨List.nodup_nil, fun h => (nomatch h), fun _ => rfl, fun _ h => (List.not_mem_nil h).elim,
      fun _ _ h => (List.not_mem_nil h).elim, fun _ _ h => (List.not_mem_nil h).elim⟩,
    fun h => (nomatch h), fun _ h => (nomatch h), fun _ => rfl⟩

/-- So can any number of them, for different routines. -/
theorem addRoutines_ok {unit : List (Body × RoutineDecl)} (hs : s.Fresh bodies)
    (hbodies : ∀ e ∈ unit, e.1.WellFormed ∧ e.1 ∈ bodies) (hnodup : (unit.map (·.1.routine)).Nodup)
    (hnew : ∀ e ∈ unit, s.runs.find? e.1.routine = none) (cap : Nat) :
    ∃ s', unit.foldlM (fun s b => s.addRoutine cap b.1 b.2) s = .ok s' ∧ s'.Fresh bodies := by
  induction unit generalizing s with
  | nil => exact ⟨s, rfl, hs⟩
  | cons e rest ih =>
      obtain ⟨hb, hbodies⟩ := List.forall_mem_cons.1 hbodies
      obtain ⟨hfresh, hnew⟩ := List.forall_mem_cons.1 hnew
      obtain ⟨hfirst, hnodup⟩ := List.nodup_cons.1 hnodup
      obtain ⟨s₁, hadd, hs₁, hlisted⟩ := addRoutine_ok hs hb.1 hb.2 hfresh e.2 cap
      have hnew₁ : ∀ e' ∈ rest, s₁.runs.find? e'.1.routine = none := by
        intro e' he'
        cases hsome : s₁.runs.find? e'.1.routine with
        | none => rfl
        | some run =>
            rcases hlisted _ (Option.isSome_iff_exists.2 ⟨run, hsome⟩) with heq | hold
            · exact absurd (List.mem_map.2 ⟨e', he', heq⟩) hfirst
            · rw [hnew e' he'] at hold
              cases hold
      obtain ⟨s₂, hfold, hs₂⟩ := ih hs₁ hbodies hnodup hnew₁
      refine ⟨s₂, ?_, hs₂⟩
      rw [List.foldlM_cons, hadd]
      exact hfold

end Solver

/-- The first body of a unit that passes the check: it is new, declared and well-formed. -/
theorem exists_of_checkUnit_cons {d : Declarations} {b : Body} {rest : List Body}
    {seen : List RoutineId} {unit : List (Body × RoutineDecl)}
    (h : checkUnit d seen (b :: rest) = .ok unit) :
    b.routine ∉ seen ∧ ∃ r unit', d.routine? b.routine = some r ∧ b.malformed? = none ∧
      checkUnit d (b.routine :: seen) rest = .ok unit' ∧ unit = (b, r) :: unit' := by
  rw [checkUnit] at h
  split at h
  · cases h
  · rename_i hseen
    cases hr : d.routine? b.routine with
    | none => simp [hr] at h
    | some r =>
        cases hm : b.malformed? with
        | some cause => simp [hr, hm] at h
        | none =>
            cases hrest : checkUnit d (b.routine :: seen) rest with
            | error e => simp [hr, hm, hrest, bind, Except.bind] at h
            | ok unit' =>
                simp only [hr, hm, hrest, bind, Except.bind, pure, Except.pure,
                  Except.ok.injEq] at h
                exact ⟨hseen, r, unit', rfl, rfl, rfl, h.symm⟩

/-- A unit passes the check only with well-formed bodies of different routines. -/
theorem checkUnit_ok {d : Declarations} {bodies : List Body} {seen : List RoutineId}
    {unit : List (Body × RoutineDecl)} (h : checkUnit d seen bodies = .ok unit) :
    unit.map Prod.fst = bodies ∧ (∀ b ∈ bodies, b.WellFormed) ∧ (bodies.map Body.routine).Nodup ∧
      ∀ b ∈ bodies, b.routine ∉ seen := by
  induction bodies generalizing seen unit with
  | nil =>
      cases h
      simp
  | cons b rest ih =>
      obtain ⟨hseen, r, unit', -, hm, hrest, rfl⟩ := exists_of_checkUnit_cons h
      obtain ⟨hunit, hbodies, hnodup, hfresh⟩ := ih hrest
      refine ⟨?_, ?_, ?_, ?_⟩
      · rw [List.map_cons, hunit]
      · exact List.forall_mem_cons.2 ⟨Body.malformed?_eq_none_iff.1 hm, hbodies⟩
      · refine List.nodup_cons.2 ⟨fun hmem => ?_, hnodup⟩
        obtain ⟨b', hb', heq⟩ := List.mem_map.1 hmem
        exact hfresh b' hb' (heq ▸ List.mem_cons_self ..)
      · refine List.forall_mem_cons.2 ⟨hseen, fun b' hb' hmem => ?_⟩
        exact hfresh b' hb' (List.mem_cons_of_mem _ hmem)

/-- A unit that has been checked starts fresh. -/
theorem Solver.start_ok {d : Declarations} {bodies : List Body} {unit : List (Body × RoutineDecl)}
    (h : checkUnit d [] bodies = .ok unit) (cap : Nat) :
    ∃ s, Solver.start cap unit = .ok s ∧ s.Fresh bodies := by
  obtain ⟨hunit, hbodies, hnodup, -⟩ := checkUnit_ok h
  refine Solver.addRoutines_ok (Solver.fresh_empty bodies) (fun e he => ?_) ?_ (fun _ _ => rfl) cap
  · have hmem : e.1 ∈ bodies := hunit ▸ List.mem_map_of_mem he
    exact ⟨hbodies e.1 hmem, hmem⟩
  · rw [← hunit, List.map_map] at hnodup
    exact hnodup

end FlowTyping
