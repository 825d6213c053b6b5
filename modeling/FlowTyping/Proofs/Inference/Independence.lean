import FlowTyping.Proofs.Inference.Fixpoint
import FlowTyping.Proofs.Solver.Alone
import FlowTyping.Proofs.Solver.Outset

/-!
# Routines that do not read each other

Main statement: `inferRoutine_eq_of_secluded`. In a unit whose blocks read no results but those of
their own routines, every routine is inferred as it is on its own. The blocks of a routine stand in
the queue of the unit in the order in which they stand in its own queue, and the rounds of the unit
are rounds of the routine as long as it has something left to do.
-/

namespace FlowTyping

namespace Solver

variable {d : Declarations} {o : Options} {s s' s₁ t t₀ : Solver} {r : RoutineId}

/-! ### The run -/

/-- The end of a round of the unit is one for the routine, which may already have come to it. -/
theorem Shows.end_of_precedes (h : s.Shows r t) (hs : s.Apart) (ht₀ : t₀.Fits)
    (hprecedes : t₀.Precedes t) (hempty : s.agenda.queue = []) (hend : s.endRound = .ok s') :
    ∃ t', t₀.agenda.queue = [] ∧ t₀.endRound = .ok t' ∧ s'.Apart ∧ s'.Shows r t' := by
  have hemptyAlone : t.agenda.queue = [] := by
    rw [h.agenda.queue, hempty]
    rfl
  obtain ⟨t', hend', hs', h'⟩ := h.endRound hs hend
  rcases hprecedes with rfl | ⟨hempty₀, hend₀⟩
  · exact ⟨t', hemptyAlone, hend', hs', h'⟩
  · -- The routine has nothing left to do: it is settled, so that a further round adds nothing.
    obtain ⟨t₁, hend₁, -, -, hsettled, -⟩ := endRound_ok ht₀
    cases hend₀.symm.trans hend₁
    have hsame := endRound_settled hsettled h.deferred hend'
    exact ⟨t, hempty₀, hend₀, hs', h'.congr (.refl hs'.deferred) (hsame.symm h.deferred)⟩

/-- A step of the unit up to its next visit. -/
theorem Shows.precedes (h : s.Shows r t) (hs : s.Apart) (ht₀ : t₀.Fits) (hprecedes : t₀.Precedes t)
    (hround : s.Precedes s₁) : ∃ t₁, t₀.Precedes t₁ ∧ s₁.Apart ∧ s₁.Shows r t₁ := by
  rcases hround with rfl | ⟨hempty, hend⟩
  · exact ⟨t, hprecedes, hs, h⟩
  · obtain ⟨t₁, hempty₀, hend₀, hs₁, h₁⟩ := h.end_of_precedes hs ht₀ hprecedes hempty hend
    exact ⟨t₁, Or.inr ⟨hempty₀, hend₀⟩, hs₁, h₁⟩

theorem Shows.run_of_stop (h : s.Shows r t) (hs : s.Apart) (ht₀ : t₀.Fits)
    (hprecedes : t₀.Precedes t) (hstop : s.Continues (.stop s')) (n : Nat) :
    ∃ t', t₀.run d o n = .ok (true, t') ∧ t'.Fits ∧ s'.Shows r t' := by
  obtain - | ⟨hempty, hend, hempty'⟩ := hstop
  obtain ⟨t', hempty₀, hend₀, -, h'⟩ := h.end_of_precedes hs ht₀ hprecedes hempty hend
  have hnext₀ : t₀.next = .ok (.stop t') := by
    apply next_stop hempty₀ hend₀
    rw [h'.agenda.queue, hempty']
    rfl
  refine ⟨t', ?_, Precedes.fits (Or.inr ⟨hempty₀, hend₀⟩) ht₀, h'⟩
  cases n <;> simp only [Solver.run, hnext₀] <;> rfl

/-- A run of a unit that converges is seen as a run of the routine alone that converges, within the
same number of visits. -/
theorem Shows.run {n m : Nat} (h : s.Shows r t) (hs : s.Apart) (ht₀ : t₀.Fits)
    (hprecedes : t₀.Precedes t) (hsecluded : ∀ v ∈ s.history d o n, v.Secluded)
    (hrun : s.run d o n = .ok (true, s')) (hm : n ≤ m) :
    ∃ t', t₀.run d o m = .ok (true, t') ∧ t'.Fits ∧ s'.Shows r t' := by
  -- The routine alone makes the visits to its own blocks and waits during those to other blocks.
  -- When the unit ends a round, so may the routine; `t₀` is the unit from which it has not yet gone
  -- on.
  induction n generalizing s t t₀ m with
  | zero =>
      obtain ⟨-, ref, s₂, -, hnext, -⟩ | ⟨s₁, -, hnext, -⟩ := next_ok hs.fits
      · rw [Solver.run, hnext] at hrun
        cases hrun
      · rw [Solver.run, hnext] at hrun
        cases hrun
        exact h.run_of_stop hs ht₀ hprecedes (continues_of_next hnext) m
  | succ n ih =>
      obtain ⟨-, ref, s₂, -, hnext, -⟩ | ⟨s₁, -, hnext, -⟩ := next_ok hs.fits
      · obtain @⟨s₁, _, _, hround, hdequeues⟩ | - := continues_of_next hnext
        obtain ⟨t₁, hprecedes₁, hs₁, h₁⟩ := h.precedes hs ht₀ hprecedes hround
        have hs₂ := hdequeues.fits hs₁.fits
        obtain ⟨v, hreal, rfl, rfl⟩ := hs₂.exists_visited d (hdequeues.reached hs₁.fits)
        obtain ⟨s₃, hvisit, -⟩ := hreal.visit_ok hs₂ o
        simp only [Solver.run, hnext, bind, Except.bind, hvisit] at hrun
        simp only [history, hnext, hreal.visited?_eq, hvisit] at hsecluded
        obtain ⟨hv, hrest⟩ := List.forall_mem_cons.1 hsecluded
        have hs₃ := (hdequeues.apart hs₁).visit hreal hv hvisit
        by_cases hown : v.ref.1 = r
        · subst hown
          obtain ⟨m, rfl⟩ : ∃ k, m = k + 1 := ⟨m - 1, by omega⟩
          have hqueue := h₁.agenda.queue
          rw [hdequeues.queue, List.filter_cons_of_pos (by simp)] at hqueue
          obtain ⟨t₂, hnext₀, hdequeues'⟩ := hprecedes₁.next_visit hqueue
          obtain ⟨t₃, hvisit', ht₃, h₃⟩ := h₁.visit_own hs₁ hdequeues hreal hv hvisit
            (hprecedes₁.fits ht₀) hdequeues'
          obtain ⟨t', hrun', hend⟩ :=
            ih h₃ hs₃ ht₃ (Or.inl rfl) hrest hrun (Nat.le_of_succ_le_succ hm)
          refine ⟨t', ?_, hend⟩
          simp only [Solver.run, hnext₀, bind, Except.bind, hvisit']
          exact hrun'
        · have h₃ := h₁.visit_other hs₁ hdequeues hreal hv hvisit hown
          exact ih h₃ hs₃ ht₀ hprecedes₁ hrest hrun (Nat.le_of_succ_le hm)
      · simp only [Solver.run, hnext, bind, Except.bind] at hrun
        cases hrun
        exact h.run_of_stop hs ht₀ hprecedes (continues_of_next hnext) m

/-! ### The start -/

/-- A routine is set up with its declaration, under some number; routines that are not in the unit
are left alone. -/
theorem runs_of_addRoutines {unit : List (Body × RoutineDecl)} {cap : Nat}
    (hnodup : (unit.map (·.1.routine)).Nodup)
    (h : unit.foldlM (fun s b => s.addRoutine cap b.1 b.2) s = .ok s') :
    (∀ e ∈ unit, ∃ c run, RoutineRun.start e.1 e.2 c cap = .ok run ∧
        s'.runs.find? e.1.routine = some run) ∧
      (∀ id, id ∉ unit.map (·.1.routine) → s'.runs.find? id = s.runs.find? id) ∧
      s'.agenda.dependents = s.agenda.dependents := by
  induction unit generalizing s with
  | nil =>
      cases h
      exact ⟨fun _ he => (nomatch he), fun _ _ => rfl, rfl⟩
  | cons e rest ih =>
      rw [List.map_cons, List.nodup_cons] at hnodup
      cases hstart : RoutineRun.start e.1 e.2 s.runs.entries.length cap with
      | error fault => simp [addRoutine, hstart, bind, Except.bind] at h
      | ok run =>
          simp only [List.foldlM_cons, addRoutine, hstart, bind, Except.bind] at h
          obtain ⟨hlisted, hothers, hdependents⟩ := ih hnodup.2 h
          refine ⟨List.forall_mem_cons.2 ⟨⟨_, run, hstart, ?_⟩, hlisted⟩, fun id hid => ?_, ?_⟩
          · rw [hothers _ hnodup.1, OrderedMap.find?_insert, if_pos rfl]
          · rw [List.map_cons, List.mem_cons, not_or] at hid
            rw [hothers id hid.2, OrderedMap.find?_insert, if_neg (Ne.symm hid.1)]
          · rw [hdependents]
            exact Agenda.dependents_enqueue ..

/-- Each routine of a unit has one block in the queue when the run begins. -/
theorem filter_entries {bodies : List Body} {b : Body} (hb : b ∈ bodies)
    (hnodup : (bodies.map Body.routine).Nodup) :
    ((bodies.map fun b => (b.routine, b.entry)).filter fun ref => decide (ref.1 = b.routine)) =
      [(b.routine, b.entry)] := by
  induction bodies with
  | nil => cases hb
  | cons b' rest ih =>
      rw [List.map_cons, List.nodup_cons] at hnodup
      rw [List.map_cons]
      rcases List.mem_cons.1 hb with rfl | hb
      · rw [List.filter_cons_of_pos (by simp), List.filter_eq_nil_iff.2]
        intro ref href
        obtain ⟨b', hb', rfl⟩ := List.mem_map.1 href
        rw [decide_eq_true_eq]
        intro heq
        exact hnodup.1 (heq ▸ List.mem_map_of_mem hb')
      · rw [List.filter_cons_of_neg, ih hb hnodup.2]
        rw [decide_eq_true_eq]
        intro heq
        change b'.routine = b.routine at heq
        exact hnodup.1 (heq ▸ List.mem_map_of_mem hb)

/-- When a run begins, a routine sees of the unit what it starts with on its own. -/
theorem shows_of_start {bodies : List Body} {unit : List (Body × RoutineDecl)} {cap : Nat}
    {e : Body × RoutineDecl} (hunit : checkUnit d [] bodies = .ok unit) (he : e ∈ unit)
    (hstart : Solver.start cap unit = .ok s) :
    s.Apart ∧ ∃ t, Solver.start cap [e] = .ok t ∧ s.Shows e.1.routine t := by
  obtain ⟨hbodies, -, hnodup, -⟩ := checkUnit_ok hunit
  obtain ⟨s₁, hstart₁, hfresh⟩ := Solver.start_ok hunit cap
  cases hstart.symm.trans hstart₁
  have hopens := opens_of_start hunit hstart
  have hroutines : (unit.map (·.1.routine)).Nodup := by
    rwa [← hbodies, List.map_map] at hnodup
  obtain ⟨hruns, -, hdependents⟩ := runs_of_addRoutines hroutines hstart
  obtain ⟨c, run, hrun, hfind⟩ := hruns e he
  have hwaiters (callee : RoutineId) : s.agenda.waiters callee = [] :=
    Agenda.waiters_congr hdependents callee
  have halone : RoutineRun.start e.1 e.2 0 cap = .ok (run.inContext 0) :=
    RoutineRun.start_inContext 0 hrun
  let t : Solver := ⟨⟨[(e.1.routine, run.inContext 0)]⟩, ⟨[(e.1.routine, .nothing)]⟩,
    (Agenda.empty.enqueue (e.1.routine, e.1.entry)).2, 0, 1⟩
  refine ⟨⟨hfresh.fits, fun callee ref href => ?_, hopens.deferred⟩, t, ?_, ⟨run, hfind, rfl⟩,
    ⟨.nothing, ?_, rfl⟩, ⟨?_, (hwaiters _).symm⟩, fun _ => rfl⟩
  · rw [hwaiters] at href
    cases href
  · have hadd : (⟨.empty, .empty, .empty, 0, 1⟩ : Solver).addRoutine cap e.1 e.2 = .ok t := by
      change (RoutineRun.start e.1 e.2 0 cap >>= fun _ => _) = _
      rw [halone]
      rfl
    rw [Solver.start, List.foldlM_cons, hadd]
    rfl
  · have hlisted := hfresh.fits.listed e.1.routine
    rw [hfind] at hlisted
    obtain ⟨summary, hsummary⟩ := Option.isSome_iff_exists.1 hlisted
    rw [hsummary, hopens.published hsummary]
  · have hmem : e.1 ∈ bodies := hbodies ▸ List.mem_map_of_mem he
    rw [hopens.queue]
    exact (filter_entries hmem hnodup).symm

end Solver

/-- A body that passes the check within a unit passes it on its own. -/
theorem checkUnit_single {d : Declarations} {bodies : List Body} {seen : List RoutineId}
    {unit : List (Body × RoutineDecl)} {e : Body × RoutineDecl}
    (h : checkUnit d seen bodies = .ok unit) (he : e ∈ unit) : checkUnit d [] [e.1] = .ok [e] := by
  induction bodies generalizing seen unit with
  | nil =>
      cases h
      cases he
  | cons b rest ih =>
      obtain ⟨-, r, unit', hr, hm, hrest, rfl⟩ := exists_of_checkUnit_cons h
      rcases List.mem_cons.1 he with rfl | he
      · simp [checkUnit, hr, hm, bind, Except.bind, pure, Except.pure]
      · exact ih hrest he

/-! ### Results -/

namespace RoutineResult

/-- The same result, of a table with another number. -/
def inContext (result : RoutineResult) (c : ContextId) : RoutineResult :=
  { result with
    table := result.table.inContext c
    entries := result.entries.map (Option.map (·.inContext c)) }

theorem ofRun_inContext (c : ContextId) {run : RoutineRun} {result : RoutineResult}
    (h : ofRun run = .ok result) : ofRun (run.inContext c) = .ok (result.inContext c) := by
  cases hresult : run.facts.result with
  | error fault => simp [ofRun, hresult, bind, Except.bind] at h
  | ok found =>
      simp only [ofRun, hresult, bind, Except.bind, pure, Except.pure, Except.ok.injEq] at h
      subst h
      have hresult' : (run.inContext c).facts.result = .ok (found.1, found.2.inContext c) :=
        Facts.result_inContext c hresult
      rw [ofRun, hresult']
      rfl

end RoutineResult

/-- In a unit whose run converges, and in which no block ever reads the result of a routine other
than its own, every routine is inferred as it is on its own: the run of the routine alone converges
as well, and its whole result is the same but for the number of the kind table. -/
theorem inferRoutine_eq_of_secluded {d : Declarations} {o : Options} {bodies : List Body}
    {r : InferResult} (h : infer d o bodies false = .ok r) (hconverged : r.converged = true)
    (hsecluded : ∀ v ∈ unitHistory d o bodies, v.Secluded) {b : Body} (hb : b ∈ bodies) :
    ∃ result alone, r.routine? b.routine = some result ∧
      infer d o [b] false = .ok alone ∧ alone.converged = true ∧
      inferRoutine d o b false = .ok (result.inContext 0) := by
  obtain ⟨unit, hunit, -⟩ := exists_of_infer_ok h
  obtain ⟨s₀, hstart, hunitStart, hfresh⟩ := unitStart?_ok hunit o
  obtain ⟨converged, s, hrun, hs, -⟩ :=
    Solver.run_ok hfresh.fits (.start (d := d) (o := o)) o.maxIterations
  obtain ⟨r', hinfer, hof, rfl⟩ := infer_of_run hunit hstart hrun hs
  cases h.symm.trans hinfer
  rw [hconverged] at hrun
  have hhistory : unitHistory d o bodies = s₀.history d o o.maxIterations := by
    simp only [unitHistory, hunitStart]
  rw [hhistory] at hsecluded
  obtain ⟨e, he, rfl⟩ : ∃ e ∈ unit, e.1 = b := List.mem_map.1 ((checkUnit_ok hunit).1 ▸ hb)
  have hunit₀ := checkUnit_single hunit he
  obtain ⟨hapart, t₀, hstart₀, hshows⟩ := Solver.shows_of_start hunit he hstart
  obtain ⟨t₁, hstart₁, hfresh₀⟩ := Solver.start_ok hunit₀ o.kindCap
  cases hstart₀.symm.trans hstart₁
  obtain ⟨t, hrun₀, ht, hend⟩ :=
    hshows.run hapart hfresh₀.fits (Or.inl rfl) hsecluded hrun (Nat.le_refl _)
  obtain ⟨alone, hinfer₀, hof₀, hconverged₀⟩ := infer_of_run hunit₀ hstart₀ hrun₀ ht
  obtain ⟨run, hfound, -⟩ := hend.runs
  obtain ⟨result, hresult, hofRun⟩ := hof.result hfound
  obtain ⟨result₀, hresult₀, hofRun₀⟩ := hof₀.result (hend.find?_runs hfound)
  cases hofRun₀.symm.trans (RoutineResult.ofRun_inContext 0 hofRun)
  refine ⟨result, alone, hresult, hinfer₀, hconverged₀, ?_⟩
  simp only [inferRoutine, hinfer₀, bind, Except.bind, hresult₀]
  rfl

/-- Calls itself on one path and returns a number on the other. -/
def Sample.again : Body :=
  ⟨1, .function, [], #[.call ⟨"walk"⟩ [], .literal (.long 1), .literal (.bool true)],
    #[⟨0, [], .branch 2 1 2, []⟩, ⟨1, [], .ret (some 0), []⟩, ⟨2, [], .ret (some 1), []⟩], 0⟩

/-- A function that calls itself, next to one that calls nothing. The block with the call is visited
again when the result of the function changes, in the unit as on its own. -/
theorem inferRoutine_eq_of_secluded_again :
    ∃ r result alone,
      infer Sample.declarations Sample.options [Sample.items, Sample.again] false = .ok r ∧
      r.converged = true ∧
      (∀ v ∈ unitHistory Sample.declarations Sample.options [Sample.items, Sample.again],
        v.Secluded) ∧
      r.routine? 1 = some result ∧ result.visitCount 1 = 2 ∧ result.table.id = 1 ∧
      infer Sample.declarations Sample.options [Sample.again] false = .ok alone ∧
      alone.converged = true ∧
      inferRoutine Sample.declarations Sample.options Sample.again false =
        .ok (result.inContext 0) := by
  have hcheck : (infer Sample.declarations Sample.options [Sample.items, Sample.again]
      false).toOption.any (fun r => r.converged && (r.routine? 1).any fun result =>
        decide (result.visitCount 1 = 2 ∧ result.table.id = 1)) = true := by decide +kernel
  have hsecluded : (unitHistory Sample.declarations Sample.options
      [Sample.items, Sample.again]).all (fun v => decide v.Secluded) = true := by decide +kernel
  obtain ⟨r, hr, hcheck⟩ := any_toOption_iff.1 hcheck
  obtain ⟨hconverged, hcheck⟩ := Bool.and_eq_true_iff.1 hcheck
  obtain ⟨result, hresult, hvisits⟩ := (Option.any_eq_true _ _).1 hcheck
  obtain ⟨hcount, hid⟩ := of_decide_eq_true hvisits
  have hsecluded : ∀ v ∈ unitHistory Sample.declarations Sample.options
      [Sample.items, Sample.again], v.Secluded := by
    intro v hv
    exact of_decide_eq_true (List.all_eq_true.1 hsecluded v hv)
  obtain ⟨result', alone, hresult', hrest⟩ :=
    inferRoutine_eq_of_secluded (b := Sample.again) hr hconverged hsecluded (by simp)
  cases hresult.symm.trans hresult'
  exact ⟨r, result, alone, hr, hconverged, hsecluded, hresult, hcount, hid, hrest⟩

end FlowTyping
