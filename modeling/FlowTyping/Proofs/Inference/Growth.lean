import FlowTyping.Proofs.Inference.Fixpoint
import FlowTyping.Proofs.Solver.Change

/-!
# More visits only add

Main statement: `infer_grows`. A run with a larger limit on visits goes on where a run with a
smaller one stops, and every step adds to what is known: entries, recorded masks, unassigned reads,
effects, visit counts and diagnostics.
-/

namespace FlowTyping

namespace Facts

/-- Nothing that is known in one place gets lost in the other; diagnostics keep their order. -/
structure GrowsTo (f g : Facts) : Prop where
  keeps : f.Keeps g
  unassignedReads : ∀ e ∈ f.unassignedReads, e ∈ g.unassignedReads
  dynamicLocals : f.effects.dynamicLocals = true → g.effects.dynamicLocals = true
  lateStaticBinding : f.effects.lateStaticBinding = true → g.effects.lateStaticBinding = true
  diagnostics : f.diagnostics <+: g.diagnostics

namespace GrowsTo

variable {f g h : Facts}

theorem refl (f : Facts) : f.GrowsTo f :=
  ⟨.refl f, fun _ he => he, id, id, List.prefix_rfl⟩

theorem trans (hfg : f.GrowsTo g) (hgh : g.GrowsTo h) : f.GrowsTo h where
  keeps := hfg.keeps.trans hgh.keeps
  unassignedReads e he := hgh.unassignedReads e (hfg.unassignedReads e he)
  dynamicLocals := hgh.dynamicLocals ∘ hfg.dynamicLocals
  lateStaticBinding := hgh.lateStaticBinding ∘ hfg.lateStaticBinding
  diagnostics := hfg.diagnostics.trans hgh.diagnostics

end GrowsTo

theorem Step.growsTo {f g : Facts} (h : f.Step g) : f.GrowsTo g := by
  have hkeeps := h.keeps
  cases h with
  | unassignedRead e =>
      refine ⟨hkeeps, fun e' he' => ?_, id, id, List.prefix_rfl⟩
      rw [markUnassignedRead]
      split
      · exact he'
      · exact List.mem_append_left _ he'
  | dynamicLocals => exact ⟨hkeeps, fun _ he => he, fun _ => rfl, id, List.prefix_rfl⟩
  | lateStatic => exact ⟨hkeeps, fun _ he => he, id, fun _ => rfl, List.prefix_rfl⟩
  | report diagnostic =>
      refine ⟨hkeeps, fun _ he => he, id, id, ?_⟩
      rw [Facts.report]
      split
      · exact List.prefix_rfl
      · exact List.prefix_append ..
  | record | addReturn | generator | callTarget | table =>
      exact ⟨hkeeps, fun _ he => he, id, id, List.prefix_rfl⟩

end Facts

theorem Moves.growsTo {env : Setting} {s s' : Scene} (h : Moves env s s') :
    s.facts.GrowsTo s'.facts := by
  induction h with
  | refl => exact .refl _
  | tail _ hmove ih =>
      cases hmove with
      | state => exact ih
      | facts h => exact ih.trans h.growsTo
      | await => exact ih

namespace Solver

variable {d : Declarations} {o : Options} {s s' s'' : Solver}

/-- What one unit knows, the other knows as well. -/
structure GrowsTo (s s' : Solver) : Prop where
  facts : ∀ {r : RoutineId} {run : RoutineRun}, s.runs.find? r = some run →
    ∃ run', s'.runs.find? r = some run' ∧ run.facts.GrowsTo run'.facts
  entry : ∀ {ref : BlockRef} {old : State}, s.entry? ref = some old →
    ∃ new, s'.entry? ref = some new ∧ old.Below new
  visitCount : ∀ ref, s.visitCount ref ≤ s'.visitCount ref

namespace GrowsTo

theorem refl (s : Solver) : s.GrowsTo s :=
  ⟨fun h => ⟨_, h, .refl _⟩, fun h => ⟨_, h, fun _ hx => hx⟩, fun _ => Nat.le_refl _⟩

theorem trans (h : s.GrowsTo s') (h' : s'.GrowsTo s'') : s.GrowsTo s'' := by
  refine ⟨fun hrun => ?_, fun hold => ?_,
    fun ref => Nat.le_trans (h.visitCount ref) (h'.visitCount ref)⟩
  · obtain ⟨run₁, hrun₁, hfacts⟩ := h.facts hrun
    obtain ⟨run₂, hrun₂, hfacts'⟩ := h'.facts hrun₁
    exact ⟨run₂, hrun₂, hfacts.trans hfacts'⟩
  · obtain ⟨mid, hmid, hbelow⟩ := h.entry hold
    obtain ⟨new, hnew, hbelow'⟩ := h'.entry hmid
    exact ⟨new, hnew, fun x hx => hbelow' x (hbelow x hx)⟩

end GrowsTo

/-- Taking a block from the queue leaves all that is known. -/
theorem Dequeues.growsTo {ref : BlockRef} (h : s.Dequeues ref s') : s.GrowsTo s' := by
  refine ⟨fun hrun => ⟨_, h.runs ▸ hrun, .refl _⟩, fun {c old} hold => ?_, fun c => ?_⟩
  · exact ⟨old, (h.entry? c).trans hold, fun _ hx => hx⟩
  · exact Nat.le_of_eq (h.visitCount c).symm

/-- The end of a round adds at most kinds. -/
theorem growsTo_of_endRound (hs : s.Fits) (h : s.endRound = .ok s') : s.GrowsTo s' := by
  obtain ⟨s₁, hend, -, hadvances, -, -, hidles⟩ := endRound_ok hs
  cases h.symm.trans hend
  refine ⟨fun {r run} hrun => ?_, fun hold => ?_, fun ref => ?_⟩
  · obtain ⟨run', t, hrun', hfacts, hgrows⟩ := endRound_rests hs h r run hrun
    refine ⟨run', hrun', ?_⟩
    rw [hfacts]
    exact (Facts.Step.table run.facts hgrows).growsTo
  · obtain ⟨new, hnew, hbelow, -⟩ := hadvances.entry hold
    exact ⟨new, hnew, hbelow⟩
  · exact Nat.le_of_eq (hidles.visitCount ref).symm

/-- A visit adds what it finds. -/
theorem growsTo_of_visit {v : Visited} (hreal : v.Real d) (hs : v.unit.Fits)
    (h : v.unit.visit d o v.ref = .ok s') : v.unit.GrowsTo s' := by
  obtain ⟨s₁, hvisit, -, hadvances, -, hcount⟩ := hreal.visit_ok hs o
  cases h.symm.trans hvisit
  obtain ⟨own, hleaves⟩ := hreal.leaves hs h
  refine ⟨fun {r run} hrun => ?_, fun hold => ?_, fun ref => ?_⟩
  · rw [hleaves.runs, OrderedMap.find?_insert]
    split
    · rename_i hr
      rw [← hr, hreal.run] at hrun
      cases hrun
      refine ⟨own, rfl, ?_⟩
      rw [hleaves.facts]
      exact (hreal.moves hs).growsTo
    · exact ⟨run, hrun, .refl _⟩
  · obtain ⟨new, hnew, hbelow, -⟩ := hadvances.entry hold
    exact ⟨new, hnew, hbelow⟩
  · rw [hcount]
    exact Nat.le_add_right ..

/-- What a run does next: it visits a block, or it stops. In between nothing gets lost. -/
theorem next_growsTo (d : Declarations) (o : Options) (hs : s.Fits) :
    (∃ (v : Visited) (s' : Solver), s.next = .ok (.visit v.ref v.unit) ∧
      v.unit.visit d o v.ref = .ok s' ∧ s'.Fits ∧
        s.GrowsTo v.unit ∧ v.unit.GrowsTo s') ∨
      ∃ s', s.next = .ok (.stop s') ∧ s.GrowsTo s' := by
  obtain ⟨s₁, ref, s₂, hround, hnext, hs₁, hdequeues⟩ | ⟨s₁, hend, hnext, -⟩ := next_ok hs
  · have hs₂ := hdequeues.fits hs₁
    obtain ⟨v, hreal, rfl, rfl⟩ := hs₂.exists_visited d (hdequeues.reached hs₁)
    obtain ⟨s₃, hvisit, hs₃, -⟩ := hreal.visit_ok hs₂ o
    have hround : s.GrowsTo s₁ := by
      rcases hround with rfl | hend
      · exact .refl _
      · exact growsTo_of_endRound hs hend
    exact Or.inl ⟨v, s₃, hnext, hvisit, hs₃, hround.trans hdequeues.growsTo,
      growsTo_of_visit hreal hs₂ hvisit⟩
  · exact Or.inr ⟨s₁, hnext, growsTo_of_endRound hs hend⟩

theorem growsTo_of_run {budget : Nat} {converged : Bool} (hs : s.Fits)
    (h : s.run d o budget = .ok (converged, s')) : s.GrowsTo s' := by
  induction budget generalizing s with
  | zero =>
      obtain ⟨v, -, hnext, -, -, hto, -⟩ | ⟨s₁, hnext, hto⟩ := next_growsTo d o hs
      all_goals
        rw [run, hnext] at h
        cases h
        exact hto
  | succ budget ih =>
      obtain ⟨v, s₁, hnext, hvisit, hs₁, hto, hfrom⟩ | ⟨s₁, hnext, hto⟩ := next_growsTo d o hs
      · simp only [run, hnext, bind, Except.bind, hvisit] at h
        exact hto.trans (hfrom.trans (ih hs₁ h))
      · rw [run, hnext] at h
        cases h
        exact hto

/-- A run with a larger budget goes on where one with a smaller budget stops. -/
theorem growsTo_of_le {n m : Nat} {c c' : Bool} {s₁ s₂ : Solver} (hs : s.Fits) (hle : n ≤ m)
    (h : s.run d o n = .ok (c, s₁)) (h' : s.run d o m = .ok (c', s₂)) : s₁.GrowsTo s₂ := by
  induction n generalizing s m with
  | zero =>
      obtain ⟨v, t, hnext, hvisit, ht, -, hfrom⟩ | ⟨t, hnext, -⟩ := next_growsTo d o hs
      · rw [run, hnext] at h
        cases h
        cases m with
        | zero =>
            rw [run, hnext] at h'
            cases h'
            exact .refl _
        | succ m =>
            simp only [run, hnext, bind, Except.bind, hvisit] at h'
            exact hfrom.trans (growsTo_of_run ht h')
      · have hstop : s.run d o m = .ok (true, t) := by
          cases m <;> rw [run, hnext] <;> rfl
        rw [run, hnext] at h
        cases h
        cases hstop.symm.trans h'
        exact .refl _
  | succ n ih =>
      obtain ⟨m, rfl⟩ : ∃ k, m = k + 1 := ⟨m - 1, by omega⟩
      obtain ⟨v, t, hnext, hvisit, ht, -⟩ | ⟨t, hnext, -⟩ := next_growsTo d o hs
      · simp only [run, hnext, bind, Except.bind, hvisit] at h h'
        exact ih ht (by omega) h h'
      · rw [run, hnext] at h h'
        cases h
        cases h'
        exact .refl _

/-- Of the options, a run looks at the one on holding back only. -/
theorem run_withMaxIterations (d : Declarations) (o : Options) (n budget : Nat) (s : Solver) :
    s.run d (o.withMaxIterations n) budget = s.run d o budget := by
  induction budget generalizing s with
  | zero => rfl
  | succ budget ih =>
      have hvisit (ref : BlockRef) (t : Solver) :
          t.visit d (o.withMaxIterations n) ref = t.visit d o ref := rfl
      simp only [run, hvisit, ih]

end Solver

namespace RoutineResult

/-- What one result of a routine tells, the other tells as well. -/
structure GrowsTo (a b : RoutineResult) : Prop where
  entry : ∀ {c : BlockId} {old : State}, a.entry? c = some old →
    ∃ new, b.entry? c = some new ∧ new.subsumes old = .ok true
  exprMask : ∀ e, b.exprMask e ∪ a.exprMask e = b.exprMask e
  unassignedReads : ∀ e, a.isUnassignedRead e = true → b.isUnassignedRead e = true
  dynamicLocals : a.effects.dynamicLocals = true → b.effects.dynamicLocals = true
  lateStaticBinding : a.effects.lateStaticBinding = true → b.effects.lateStaticBinding = true
  generator : a.effects.generator = true → b.effects.generator = true
  visitCount : ∀ c, a.visitCount c ≤ b.visitCount c
  diagnostics : a.diagnostics <+: b.diagnostics

/-- A result hands out the facts of its run. -/
theorem eq_of_ofRun {run : RoutineRun} {result : RoutineResult} (hs : run.Fits)
    (h : ofRun run = .ok result) :
    ∃ m t, result = ⟨run.body.routine, t, m, run.facts.effects, run.facts.exprMasks,
      run.facts.unassignedReads, run.facts.callTargets, run.entries, run.visits,
      run.facts.diagnostics⟩ := by
  obtain ⟨m, t, hresult, -⟩ := Facts.result_ok hs.facts
  simp only [ofRun, hresult, bind, Except.bind, pure, Except.pure, Except.ok.injEq] at h
  exact ⟨m, t, h.symm⟩

/-- What a unit comes to know shows in the results. -/
theorem growsTo_of_solver {s s' : Solver} {id : RoutineId} {run run' : RoutineRun}
    {result result' : RoutineResult} (h : s.GrowsTo s') (hs : s.Fits) (hs' : s'.Fits)
    (hrun : s.runs.find? id = some run) (hrun' : s'.runs.find? id = some run')
    (hof : ofRun run = .ok result) (hof' : ofRun run' = .ok result') : result.GrowsTo result' := by
  obtain ⟨-, hfits⟩ := hs.runs hrun
  obtain ⟨run₁, hrun₁, hfacts⟩ := h.facts hrun
  cases hrun'.symm.trans hrun₁
  obtain ⟨m, t, rfl⟩ := eq_of_ofRun hfits hof
  obtain ⟨m', t', rfl⟩ := eq_of_ofRun (hs'.runs hrun').2 hof'
  constructor
  · intro c old hold
    have hentry : s.entry? (id, c) = some old := by
      rw [Solver.entry?, hrun]
      exact hold
    obtain ⟨new, hnew, hbelow⟩ := h.entry hentry
    rw [Solver.entry?, hrun'] at hnew
    exact ⟨new, hnew, hbelow old (State.subsumes_self (hfits.states hold).proper)⟩
  · intro e
    exact hfacts.keeps.exprMask e _ (Mask.union_self (hfits.facts.exprMask e).normal)
  · intro e he
    exact decide_eq_true (hfacts.unassignedReads e (of_decide_eq_true he))
  · exact hfacts.dynamicLocals
  · exact hfacts.lateStaticBinding
  · exact hfacts.keeps.generator
  · intro c
    have hcount := h.visitCount (id, c)
    rwa [Solver.visitCount_eq hrun, Solver.visitCount_eq hrun'] at hcount
  · exact hfacts.diagnostics

end RoutineResult

/-- With a larger limit on visits, inference finds all that it finds with a smaller one: every block
that was reached is reached with an entry that subsumes the old one, the recorded masks absorb the
old ones, unassigned reads and effects stay, visit counts do not fall, and diagnostics are only
added at the end. -/
theorem infer_grows {d : Declarations} {o : Options} {bodies : List Body}
    {unit : List (Body × RoutineDecl)} (hunit : checkUnit d [] bodies = .ok unit) {n m : Nat}
    (hle : n ≤ m) :
    ∃ r r', infer d (o.withMaxIterations n) bodies false = .ok r ∧
      infer d (o.withMaxIterations m) bodies false = .ok r' ∧
      ∀ {id : RoutineId} {result : RoutineResult}, r.routine? id = some result →
        ∃ result', r'.routine? id = some result' ∧ result.GrowsTo result' := by
  obtain ⟨s₀, hstart, -, hfresh⟩ := unitStart?_ok hunit o
  have hs₀ := hfresh.fits
  obtain ⟨c, s, hrun, hs, -⟩ := Solver.run_ok hs₀ (.start (d := d) (o := o)) n
  obtain ⟨c', s', hrun', hs', -⟩ := Solver.run_ok hs₀ (.start (d := d) (o := o)) m
  obtain ⟨r, hr, hof, -⟩ := infer_of_run (o := o.withMaxIterations n) hunit hstart
    ((Solver.run_withMaxIterations d o n n s₀).trans hrun) hs
  obtain ⟨r', hr', hof', -⟩ := infer_of_run (o := o.withMaxIterations m) hunit hstart
    ((Solver.run_withMaxIterations d o m m s₀).trans hrun') hs'
  have hgrows : s.GrowsTo s' := Solver.growsTo_of_le hs₀ hle hrun hrun'
  refine ⟨r, r', hr, hr', fun {id result} hresult => ?_⟩
  obtain ⟨run, hfind, hofRun⟩ := hof.run hresult
  obtain ⟨run', hfind', -⟩ := hgrows.facts hfind
  obtain ⟨result', hresult', hofRun'⟩ := hof'.result hfind'
  exact ⟨result', hresult',
    RoutineResult.growsTo_of_solver hgrows hs hs' hfind hfind' hofRun hofRun'⟩

/-- After three visits the loop in `walk` has just been reached, and nothing is known about the
array; with more visits the array holds numbers. -/
theorem infer_grows_walk :
    ∃ r r' result result',
      infer Sample.declarations (Sample.options.withMaxIterations 3) [Sample.walk, Sample.items]
        false = .ok r ∧
      infer Sample.declarations (Sample.options.withMaxIterations 10) [Sample.walk, Sample.items]
        false = .ok r' ∧
      r.converged = false ∧ r'.converged = true ∧ r.routine? 1 = some result ∧
      r'.routine? 1 = some result' ∧ result.exprMask 1 ≠ result'.exprMask 1 ∧
      result.GrowsTo result' := by
  have hcheck : (checkUnit Sample.declarations [] [Sample.walk, Sample.items]).toOption.any
      (fun _ => true) = true := by decide +kernel
  obtain ⟨unit, hunit, -⟩ := any_toOption_iff.1 hcheck
  obtain ⟨r, r', hr, hr', hgrows⟩ :=
    infer_grows (o := Sample.options) hunit (show 3 ≤ 10 by decide)
  have hshort : (infer Sample.declarations (Sample.options.withMaxIterations 3)
      [Sample.walk, Sample.items] false).toOption.any (fun r => !r.converged &&
        (r.routine? 1).any fun result => decide (result.exprMask 1 = .empty)) = true := by
    decide +kernel
  have hlong : (infer Sample.declarations (Sample.options.withMaxIterations 10)
      [Sample.walk, Sample.items] false).toOption.any (fun r => r.converged &&
        (r.routine? 1).any fun result => decide (result.exprMask 1 = .long)) = true := by
    decide +kernel
  rw [hr] at hshort
  rw [hr'] at hlong
  obtain ⟨hstopped, hshort⟩ := Bool.and_eq_true_iff.1 hshort
  obtain ⟨hconverged, hlong⟩ := Bool.and_eq_true_iff.1 hlong
  obtain ⟨result, hresult, hempty⟩ := (Option.any_eq_true _ _).1 hshort
  obtain ⟨result', hresult', hnumber⟩ := (Option.any_eq_true _ _).1 hlong
  obtain ⟨result₁, hresult₁, hgrown⟩ := hgrows hresult
  cases hresult'.symm.trans hresult₁
  refine ⟨r, r', result, result', hr, hr', (Bool.not_eq_true' _).mp hstopped, hconverged, hresult,
    hresult', ?_, hgrown⟩
  rw [of_decide_eq_true hempty, of_decide_eq_true hnumber]
  decide

end FlowTyping
