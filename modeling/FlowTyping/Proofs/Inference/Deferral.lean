import FlowTyping.Body.Lowering
import FlowTyping.Proofs.Inference.Fixpoint
import FlowTyping.Proofs.Solver.Deferral

/-!
# Holding back blocks

Main statement: `deferral_keeps_results`. A run in which no block is held back is the run that the
option is off for, visit by visit. If only blocks of routines without branches are held back, and a
further visit to each finds nothing new, the two runs make different visits but end in the same
results. Otherwise they may part for good: `deferral_changes_summary` gives a unit for which they
end in different results.
-/

namespace FlowTyping

namespace Solver

variable {d : Declarations} {o : Options} {s s' s₁ t t₀ : Solver}

/-! ### Runs in which no block is held back -/

/-- A visit whose states are sent on does not depend on the option. -/
theorem visit_withoutDeferral {v : Visited} (hreal : v.Real d) (hsent : v.isHeld o = false) :
    v.unit.visit d o.withoutDeferral v.ref = v.unit.visit d o v.ref := by
  rw [hreal.visit_of_sent (v.isHeld_withoutDeferral o), hreal.visit_of_sent hsent]

/-- As long as no block is held back, a run does not depend on the option. -/
theorem run_withoutDeferral {budget : Nat} (hs : s.Fits)
    (h : ∀ v ∈ s.history d o budget, v.isHeld o = false) :
    s.run d o.withoutDeferral budget = s.run d o budget := by
  induction budget generalizing s with
  | zero => rfl
  | succ budget ih =>
      obtain ⟨s₁, ref, s₂, -, hnext, hs₁, hdequeues⟩ | ⟨s₁, -, hnext, -⟩ := next_ok hs
      · have hs₂ := hdequeues.fits hs₁
        obtain ⟨v, hreal, rfl, rfl⟩ := hs₂.exists_visited d (hdequeues.reached hs₁)
        obtain ⟨s₃, hvisit, hs₃, -⟩ := hreal.visit_ok hs₂ o
        simp only [history, hnext, hreal.visited?_eq, hvisit, List.forall_mem_cons] at h
        have hvisit' := (visit_withoutDeferral hreal h.1).trans hvisit
        simp only [run, hnext, bind, Except.bind, hvisit, hvisit']
        exact ih hs₃ h.2
      · simp only [run, hnext, bind, Except.bind]

/-! ### Runs in which blocks are held back -/

namespace Matches

/-- The end of a round of the first unit is one for the second, which may already have come to
it. -/
theorem end_of_precedes (h : s.Matches d t) (hs : s.Fits) (ht₀ : t₀.Fits)
    (hprecedes : t₀.Precedes t) (hempty : s.agenda.queue = []) (hend : s.endRound = .ok s') :
    ∃ t', t₀.agenda.queue = [] ∧ t₀.endRound = .ok t' ∧ s'.Matches d t' := by
  have hnone : t.agenda.queue = [] := List.sublist_nil.1 (hempty ▸ h.queue)
  obtain ⟨t', hend', h'⟩ := h.endRound hs hempty hend
  rcases hprecedes with rfl | ⟨hempty₀, hend₀⟩
  · exact ⟨t', hnone, hend', h'⟩
  · -- The second unit has made no visit since its round ended, so that a further end changes
    -- nothing.
    obtain ⟨t₁, hend₁, -, -, hsettled, -⟩ := endRound_ok ht₀
    cases hend₀.symm.trans hend₁
    have hsame := endRound_settled hsettled h.deferred hend'
    exact ⟨t, hempty₀, hend₀, h'.trans_resembles (hsame.symm h.deferred)⟩

/-- A step of the first unit up to its next visit. -/
theorem precedes (h : s.Matches d t) (hs : s.Fits) (ht₀ : t₀.Fits) (hprecedes : t₀.Precedes t)
    (hround : s.Precedes s₁) : ∃ t₁, t₀.Precedes t₁ ∧ s₁.Matches d t₁ := by
  rcases hround with rfl | ⟨hempty, hend⟩
  · exact ⟨t, hprecedes, h⟩
  · obtain ⟨t₁, hempty₀, hend₀, h₁⟩ := h.end_of_precedes hs ht₀ hprecedes hempty hend
    exact ⟨t₁, .inr ⟨hempty₀, hend₀⟩, h₁⟩

theorem run_of_stop (h : s.Matches d t) (hs : s.Fits) (ht₀ : t₀.Fits) (hprecedes : t₀.Precedes t)
    (hstop : s.Continues (.stop s')) (n : Nat) :
    ∃ t', t₀.run d o n = .ok (true, t') ∧ t'.Fits ∧ s'.Matches d t' := by
  obtain - | ⟨hempty, hend, hempty'⟩ := hstop
  obtain ⟨t', hempty₀, hend₀, h'⟩ := h.end_of_precedes hs ht₀ hprecedes hempty hend
  have hnext₀ : t₀.next = .ok (.stop t') :=
    next_stop hempty₀ hend₀ (List.sublist_nil.1 (hempty' ▸ h'.queue))
  refine ⟨t', ?_, Precedes.fits (.inr ⟨hempty₀, hend₀⟩) ht₀, h'⟩
  cases n <;> simp only [Solver.run, hnext₀] <;> rfl

/-- Where the blocks held back have nothing left to find, a run that converges does so as well if no
block is held back, within the same number of visits. -/
theorem run {n m : Nat} (h : s.Matches d t) (hs : s.Fits) (hreach : s.StaysReachable)
    (ht₀ : t₀.Fits) (hprecedes : t₀.Precedes t)
    (hheld : ∀ v ∈ s.history d o n, v.isHeld o = true → v.run.body.IsStraight ∧ v.Repeats d)
    (hrun : s.run d o n = .ok (true, s')) (hm : n ≤ m) :
    ∃ t', t₀.run d o.withoutDeferral m = .ok (true, t') ∧ t'.Fits ∧ s'.Matches d t' := by
  -- The second run makes the same visits and waits while the first visits a block that was
  -- released. When the first ends a round, so may the second; `t₀` is the unit from which it has
  -- not yet gone on.
  induction n generalizing s t t₀ m with
  | zero =>
      obtain ⟨-, ref, s₂, -, hnext, -⟩ | ⟨s₁, -, hnext, -⟩ := next_ok hs
      · rw [Solver.run, hnext] at hrun
        cases hrun
      · rw [Solver.run, hnext] at hrun
        cases hrun
        exact h.run_of_stop hs ht₀ hprecedes (continues_of_next hnext) m
  | succ n ih =>
      obtain ⟨-, ref, s₂, -, hnext, -⟩ | ⟨s₁, -, hnext, -⟩ := next_ok hs
      · obtain @⟨s₁, _, _, hround, hdequeues⟩ | - := continues_of_next hnext
        have hs₁ := hround.fits hs
        obtain ⟨t₁, hprecedes₁, h₁⟩ := h.precedes hs ht₀ hprecedes hround
        have hs₂ := hdequeues.fits hs₁
        have hreach₂ := (hreach.precedes hs hround).dequeue hdequeues
        obtain ⟨v, hreal, rfl, rfl⟩ := hs₂.exists_visited d (hdequeues.reached hs₁)
        obtain ⟨s₃, hvisit, hs₃, -⟩ := hreal.visit_ok hs₂ o
        have hreach₃ := hreach₂.visit hs₂ hreal hvisit
        simp only [Solver.run, hnext, bind, Except.bind, hvisit] at hrun
        simp only [history, hnext, hreal.visited?_eq, hvisit] at hheld
        obtain ⟨hv, hrest⟩ := List.forall_mem_cons.1 hheld
        obtain ⟨hunqueued, hfresh, ⟨h₂, run, hspent⟩ | ⟨rest, hqueue, htake⟩⟩ :=
          h₁.dequeue hs₁ hdequeues
        · cases hreal.run.symm.trans hspent.owner
          have h₃ := h₂.visit_spare hs₂ hreach₂ hreal hunqueued hfresh hv hvisit hspent
          exact ih h₃ hs₃ hreach₃ ht₀ hprecedes₁ hrest hrun (Nat.le_of_succ_le hm)
        · obtain ⟨m, rfl⟩ : ∃ k, m = k + 1 := ⟨m - 1, by omega⟩
          obtain ⟨t₂, hnext₀, hdequeues'⟩ := hprecedes₁.next_visit hqueue
          have ht₂ := hdequeues'.fits (hprecedes₁.fits ht₀)
          obtain ⟨t₃, hvisit', ht₃, h₃⟩ :=
            (htake t₂ hdequeues').visit hs₂ hreach₂ hreal hunqueued hfresh hv hvisit ht₂
          obtain ⟨t', hrun', hend⟩ :=
            ih h₃ hs₃ hreach₃ ht₃ (.inl rfl) hrest hrun (Nat.le_of_succ_le_succ hm)
          refine ⟨t', ?_, hend⟩
          simp only [Solver.run, hnext₀, bind, Except.bind, hvisit']
          exact hrun'
      · simp only [Solver.run, hnext, bind, Except.bind] at hrun
        cases hrun
        exact h.run_of_stop hs ht₀ hprecedes (continues_of_next hnext) m

end Matches

/-- A unit in which no block is held back matches itself. -/
theorem Matches.refl (hdeferred : ∀ r, s.agenda.deferred r = []) : s.Matches d s := by
  refine ⟨⟨rfl, fun _ => rfl, rfl, fun _ => rfl, hdeferred⟩, .refl _,
    fun _ hc hout => absurd hc hout,
    fun r c hc => ?_⟩
  rw [hdeferred] at hc
  cases hc

end Solver

/-! ### Results -/

namespace RoutineResult

/-- What was inferred about a routine, apart from how often its blocks were visited. -/
def found (result : RoutineResult) : RoutineResult :=
  { result with visits := #[] }

theorem ofRun_found {run run' : RoutineRun} {result : RoutineResult}
    (hfound : run'.found = run.found) (h : ofRun run = .ok result) :
    ∃ result', ofRun run' = .ok result' ∧ result'.found = result.found := by
  obtain ⟨hbody, hfacts, hentries⟩ := RoutineRun.found_eq_iff.1 hfound
  rw [ofRun] at h ⊢
  rw [hfacts, hbody, hentries]
  cases hresult : run.facts.result with
  | error fault =>
      rw [hresult] at h
      cases h
  | ok found =>
      rw [hresult] at h
      cases h
      exact ⟨_, rfl, rfl⟩

end RoutineResult

theorem InferResult.IsOf.routine?_eq_none {r : InferResult} {s : Solver} (h : r.IsOf s)
    {id : RoutineId} (hrun : s.runs.find? id = none) : r.routine? id = none := by
  cases hresult : r.routine? id with
  | none => rfl
  | some result =>
      obtain ⟨run, hrun', -⟩ := h.run hresult
      cases hrun.symm.trans hrun'

/-- Units that have found the same give the same results. -/
theorem InferResult.IsOf.found_eq {r r' : InferResult} {s t : Solver} (h : r.IsOf s)
    (h' : r'.IsOf t) (halike : s.Alike t) (id : RoutineId) :
    (r'.routine? id).map RoutineResult.found = (r.routine? id).map RoutineResult.found := by
  cases hrun : s.runs.find? id with
  | none =>
      rw [h.routine?_eq_none hrun, h'.routine?_eq_none (halike.find?_eq_none hrun)]
  | some run =>
      obtain ⟨run', hrun', hfound⟩ := halike.find? hrun
      obtain ⟨result, hresult, hof⟩ := h.result hrun
      obtain ⟨result', hresult', hof'⟩ := h'.result hrun'
      obtain ⟨result₁, hof₁, hsame⟩ := RoutineResult.ofRun_found hfound hof
      cases hof'.symm.trans hof₁
      rw [hresult, hresult', Option.map_some, Option.map_some, hsame]

/-- Where no block is held back, inference does not depend on the option. -/
theorem infer_withoutDeferral_eq {d : Declarations} {o : Options} {bodies : List Body}
    (h : ∀ v ∈ unitHistory d o bodies, v.isHeld o = false) (cancelled : Bool) :
    infer d o.withoutDeferral bodies cancelled = infer d o bodies cancelled := by
  cases hunit : checkUnit d [] bodies with
  | error e => simp only [infer, hunit, bind, Except.bind]
  | ok unit =>
      obtain ⟨s₀, hstart, hs₀, hfresh⟩ := unitStart?_ok hunit o
      have hrun : s₀.run d o.withoutDeferral o.maxIterations = s₀.run d o o.maxIterations := by
        refine Solver.run_withoutDeferral hfresh.fits ?_
        rwa [unitHistory, hs₀] at h
      have hsolve : solve d o.withoutDeferral unit = solve d o unit := by
        simp only [solve, hstart, bind, Except.bind, Options.withoutDeferral] at hrun ⊢
        rw [hrun]
      simp only [infer, hunit, bind, Except.bind, hsolve]

/-- If the run that holds blocks back does so only with blocks of routines without branches, and a
further visit to each would find nothing new, then it makes no difference for what is inferred: if
the run converges, so does the one in which no block is held back, and every routine has the same
result but for the number of visits. Where no block is held back at all, the runs are the same
whatever their end. -/
theorem deferral_keeps_results {d : Declarations} {o : Options} {bodies : List Body}
    (h : ∀ v ∈ unitHistory d o bodies, v.isHeld o = true → v.run.body.IsStraight ∧ v.Repeats d)
    (cancelled : Bool) :
    ((∀ v ∈ unitHistory d o bodies, v.isHeld o = false) →
        infer d o.withoutDeferral bodies cancelled = infer d o bodies cancelled) ∧
      ∀ r, infer d o bodies cancelled = .ok r → r.converged = true →
        ∃ r', infer d o.withoutDeferral bodies cancelled = .ok r' ∧ r'.converged = true ∧
          ∀ id, (r'.routine? id).map RoutineResult.found =
            (r.routine? id).map RoutineResult.found := by
  refine ⟨fun hnone => infer_withoutDeferral_eq hnone cancelled, fun r hinfer hconverged => ?_⟩
  obtain ⟨unit, hunit, rfl⟩ := exists_of_infer_ok hinfer
  obtain ⟨s₀, hstart, hunitStart, hfresh⟩ := unitStart?_ok hunit o
  have hopens := Solver.opens_of_start hunit hstart
  obtain ⟨converged, s, hrun, hs, -⟩ :=
    Solver.run_ok hfresh.fits (.start (d := d) (o := o)) o.maxIterations
  obtain ⟨r₁, hinfer₁, hof, rfl⟩ := infer_of_run hunit hstart hrun hs
  cases hinfer.symm.trans hinfer₁
  rw [hconverged] at hrun
  simp only [unitHistory, hunitStart] at h
  obtain ⟨t, hrun', ht, hmatches⟩ := (Solver.Matches.refl hopens.deferred).run hfresh.fits
    hopens.staysReachable hfresh.fits (.inl rfl) h hrun (Nat.le_refl _)
  obtain ⟨r', hinfer', hof', hconverged'⟩ :=
    infer_of_run (o := o.withoutDeferral) hunit hstart hrun' ht
  exact ⟨r', hinfer', hconverged', hof.found_eq hof' hmatches.toAlike⟩

namespace Sample

/-- Returns what another function returns. -/
def forwarding (id : RoutineId) (callee : String) : Body :=
  ⟨id, .function, [], #[.call ⟨callee⟩ []], Stmt.blocks [.ret (some 0)], 0⟩

/-- Three functions, of which each calls the next. -/
def chain : List Body :=
  [forwarding 0 "middle", forwarding 1 "inner",
    ⟨2, .function, [], #[.literal (.double 1.5)], Stmt.blocks [.ret (some 0)], 0⟩]

/-- The functions of the chain, by the names under which they are called. -/
def chainDeclarations : Declarations :=
  ⟨#[function 0 "outer", function 1 "middle", function 2 "inner"],
    ⟨[("outer", [0]), ("middle", [1]), ("inner", [2])]⟩, .empty⟩

end Sample

/-- In a chain of calls the blocks of all functions but the last are held back, and it makes no
difference for what the functions return. -/
theorem deferral_keeps_results_chain :
    (∃ v ∈ unitHistory Sample.chainDeclarations Sample.options Sample.chain,
        v.isHeld Sample.options = true) ∧
      (∀ v ∈ unitHistory Sample.chainDeclarations Sample.options Sample.chain,
        v.isHeld Sample.options = true →
          v.run.body.IsStraight ∧ v.Repeats Sample.chainDeclarations) ∧
      ∃ r r', infer Sample.chainDeclarations Sample.options Sample.chain false = .ok r ∧
        infer Sample.chainDeclarations Sample.options.withoutDeferral Sample.chain false = .ok r' ∧
        r.converged = true ∧ r'.converged = true ∧
        ∀ id, (r'.routine? id).map RoutineResult.found =
          (r.routine? id).map RoutineResult.found := by
  have hsome : (unitHistory Sample.chainDeclarations Sample.options Sample.chain).any
      (fun v => v.isHeld Sample.options) = true := by decide +kernel
  have hall : (unitHistory Sample.chainDeclarations Sample.options Sample.chain).all
      (fun v => !v.isHeld Sample.options ||
        decide (v.run.body.IsStraight ∧ v.Repeats Sample.chainDeclarations)) = true := by
    decide +kernel
  have hcheck : (infer Sample.chainDeclarations Sample.options Sample.chain false).toOption.any
      (fun r => r.converged) = true := by decide +kernel
  have hheld : ∀ v ∈ unitHistory Sample.chainDeclarations Sample.options Sample.chain,
      v.isHeld Sample.options = true →
        v.run.body.IsStraight ∧ v.Repeats Sample.chainDeclarations := by
    intro v hv hheld
    have hv := List.all_eq_true.1 hall v hv
    rw [hheld] at hv
    exact of_decide_eq_true hv
  obtain ⟨r, hr, hconverged⟩ := any_toOption_iff.1 hcheck
  obtain ⟨r', hr', hconverged', hsame⟩ := (deferral_keeps_results hheld false).2 r hr hconverged
  exact ⟨List.any_eq_true.1 hsome, hheld, r, r', hr, hr', hconverged, hconverged', hsame⟩

/-! ### Results that differ -/

mutual

/-- Descriptions that differ at most in the order in which they list kinds. -/
inductive Desc.Alike : Desc → Desc → Prop
  | same {a b : Desc} : Desc.same a b = true → Alike a b
  | array {any ref void subclasses : Bool} {ks ks' : List Desc} : Desc.AllAlike ks ks' →
      Alike (.array any ref void subclasses ks) (.array any ref void subclasses ks')

/-- Lists of descriptions that differ at most in their order, at every level. -/
inductive Desc.AllAlike : List Desc → List Desc → Prop
  | nil : AllAlike [] []
  | cons {a b : Desc} {as bs : List Desc} : Desc.Alike a b → AllAlike as bs →
      AllAlike (a :: as) (b :: bs)
  | swap (a b : Desc) (as : List Desc) : AllAlike (a :: b :: as) (b :: a :: as)
  | trans {as bs cs : List Desc} : AllAlike as bs → AllAlike bs cs → AllAlike as cs

end

/-- Summaries that differ at most in the order in which they list kinds. -/
structure Summary.Alike (s s' : Summary) : Prop where
  any : s.any = s'.any
  ref : s.ref = s'.ref
  void : s.void = s'.void
  subclasses : s.subclasses = s'.subclasses
  kinds : Desc.AllAlike s.kinds s'.kinds

theorem Desc.AllAlike.length_eq {as bs : List Desc} : Desc.AllAlike as bs → as.length = bs.length
  | .nil => rfl
  | .cons _ h => congrArg Nat.succ h.length_eq
  | .swap .. => rfl
  | .trans h h' => h.length_eq.trans h'.length_eq

/-- Returns the first number of the array. -/
def Sample.first : Body :=
  ⟨1, .function, [⟨"v", .localVar⟩], #[.call ⟨"items"⟩ [], .var 0, .var 0],
    Stmt.blocks [.foreach 0 none 1 false [.ret (some 2)]], 0⟩

/-- What `first` may return: nothing or, if the loop is held back until `items` is known, a
number. -/
theorem summary_first (hold : Bool) :
    ∃ r result summary,
      infer Sample.declarations ⟨60, 10, hold⟩ [Sample.first, Sample.items] false = .ok r ∧
      r.converged = true ∧ (∀ e ∈ r.routines.entries, e.2.table.overflowed = false) ∧
      r.routine? 1 = some result ∧ result.summary = .ok summary ∧
      summary.kinds.length = if hold then 2 else 1 := by
  have hcheck : (infer Sample.declarations ⟨60, 10, hold⟩ [Sample.first, Sample.items]
      false).toOption.any (fun r => r.converged &&
        (r.routines.entries.all fun e => !e.2.table.overflowed) && (r.routine? 1).any fun result =>
          result.summary.toOption.any fun summary =>
            decide (summary.kinds.length = if hold then 2 else 1)) = true := by
    cases hold <;> decide +kernel
  obtain ⟨r, hr, hcheck⟩ := any_toOption_iff.1 hcheck
  simp only [Bool.and_eq_true, List.all_eq_true, Bool.not_eq_true'] at hcheck
  obtain ⟨⟨hconverged, hroom⟩, hcheck⟩ := hcheck
  obtain ⟨result, hresult, hcheck⟩ := (Option.any_eq_true _ _).1 hcheck
  obtain ⟨summary, hsummary, hcheck⟩ := any_toOption_iff.1 hcheck
  exact ⟨r, result, summary, hr, hconverged, hroom, hresult, hsummary, of_decide_eq_true hcheck⟩

/-- Both runs converge and no table is full, but only one of them finds that `first` may return a
number. -/
theorem deferral_changes_summary :
    ∃ r r' result result' summary summary',
      infer Sample.declarations Sample.options [Sample.first, Sample.items] false = .ok r ∧
      infer Sample.declarations Sample.options.withoutDeferral [Sample.first, Sample.items] false =
        .ok r' ∧
      r.converged = true ∧ r'.converged = true ∧
      (∀ e ∈ r.routines.entries ++ r'.routines.entries, e.2.table.overflowed = false) ∧
      r.routine? 1 = some result ∧ r'.routine? 1 = some result' ∧
      result.summary = .ok summary ∧ result'.summary = .ok summary' ∧ ¬ summary.Alike summary' := by
  obtain ⟨r, result, summary, hr, hconverged, hroom, hresult, hsummary, htwo⟩ := summary_first true
  obtain ⟨r', result', summary', hr', hconverged', hroom', hresult', hsummary', hone⟩ :=
    summary_first false
  refine ⟨r, r', result, result', summary, summary', hr, hr', hconverged, hconverged', ?_, hresult,
    hresult', hsummary, hsummary', fun halike => ?_⟩
  · intro e he
    exact (List.mem_append.1 he).elim (hroom e) (hroom' e)
  · have hlength := halike.kinds.length_eq
    rw [htwo, hone] at hlength
    cases hlength

end FlowTyping
