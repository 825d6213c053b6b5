import FlowTyping.Proofs.Inference.Total

/-!
# Convergence is a fixpoint

Main statement: `converged_fixpoint`. In a converged result, the last visit to every block started
from the final entry of the block, used final results only, and the states that it found are
subsumed by the final entries of the blocks they lead to.
-/

namespace FlowTyping

variable {d : Declarations} {o : Options}

/-- A visit agrees with the results of a run. -/
structure Visited.StandsIn (d : Declarations) (o : Options) (v : Visited) (r : InferResult) :
    Prop where
  /-- The record is that of a visit of the run. -/
  real : v.Real d
  /-- The visit started from the final entry of its block. -/
  entry : ∃ result, r.routine? v.ref.1 = some result ∧ result.entry? v.ref.2 = some v.entry
  /-- The states that the visit found were sent on. -/
  sent : v.isHeld o = false
  /-- The results that the block waits for are final. -/
  reads : ∀ callee, v.ref ∈ v.scene.agenda.waiters callee →
    ∃ final summary published, r.routine? callee = some final ∧ final.summary = .ok summary ∧
      v.unit.published.find? callee = some published ∧ (published == summary) = true
  /-- The visit depends on no other results. -/
  readsOnly : ∀ p, (v.setting d).Agrees p v.scene.agenda →
    (visitBlock ((v.setting d).against p) v.block).run v.start = .ok (v.outcome, v.scene)
  /-- The states that the visit found are subsumed where they lead to. -/
  flows : ∀ e ∈ Solver.flows v.block v.outcome, ∃ result final,
    r.routine? v.ref.1 = some result ∧ result.entry? e.1 = some final ∧
      final.subsumes e.2 = .ok true

/-- An entry of the unit is one of the results. -/
theorem InferResult.IsOf.entry {r : InferResult} {s : Solver} (h : r.IsOf s) {ref : BlockRef}
    {st : State} (hst : s.entry? ref = some st) :
    ∃ result, r.routine? ref.1 = some result ∧ result.entry? ref.2 = some st := by
  obtain ⟨run, hrun, hst⟩ := Option.bind_eq_some_iff.1 hst
  obtain ⟨result, hresult, hof⟩ := h.result hrun
  refine ⟨result, hresult, ?_⟩
  rw [RoutineResult.entry?, (RoutineResult.of_ofRun hof).1]
  exact hst

/-- In a settled unit the published results are the final ones. -/
theorem InferResult.IsOf.summary {r : InferResult} {s : Solver} (h : r.IsOf s) (hs : s.Fits)
    {id : RoutineId} (hsettled : s.Settled id) (hlisted : (s.published.find? id).isSome) :
    ∃ final summary published, r.routine? id = some final ∧ final.summary = .ok summary ∧
      s.published.find? id = some published ∧ (published == summary) = true := by
  rw [hs.listed] at hlisted
  obtain ⟨run, hrun⟩ := Option.isSome_iff_exists.1 hlisted
  obtain ⟨m, summary, published, hresult, hsummary, hpublished, hsame⟩ := hsettled run hrun
  obtain ⟨final, hfinal, hof⟩ := h.result hrun
  refine ⟨final, summary, published, hfinal, ?_, hpublished, hsame⟩
  simp only [RoutineResult.ofRun, hresult, bind, Except.bind, pure, Except.pure,
    Except.ok.injEq] at hof
  rw [← hof]
  exact hsummary

/-- The history lists every visit: as many to each block as the results count. When the run
converges, the last visit to a block agrees with the results. -/
theorem converged_fixpoint {bodies : List Body} {cancelled : Bool} {r : InferResult}
    (h : infer d o bodies cancelled = .ok r) (hconverged : r.converged = true) {id : RoutineId}
    {result : RoutineResult} (hresult : r.routine? id = some result) {b : BlockId}
    (hvisited : 0 < result.visitCount b) :
    result.visitCount b = (unitHistory d o bodies).countP (fun v => decide (v.ref = (id, b))) ∧
      ∃ v, lastVisit? (unitHistory d o bodies) (id, b) = some v ∧ v.StandsIn d o r := by
  obtain ⟨s₀, s, -, hs₀, hs, hof, hend⟩ := infer_spec h
  obtain ⟨hfinal, hreaches⟩ := hend hconverged
  have hlogs := hreaches.logs hs₀
  have hcount : result.visitCount b =
      (unitHistory d o bodies).countP (fun v => decide (v.ref = (id, b))) := by
    obtain ⟨run, hrun, hofRun⟩ := hof.run hresult
    rw [← hlogs.counted, Solver.visitCount_eq hrun, RoutineResult.visitCount,
      (RoutineResult.of_ofRun hofRun).2]
  refine ⟨hcount, ?_⟩
  obtain ⟨v, hlast⟩ := exists_lastVisit? (hcount ▸ hvisited)
  obtain ⟨hreal, hunit⟩ := hlogs.real v (mem_of_lastVisit? hlast)
  have htracks := hlogs.tracks hlast
  obtain ⟨hsent, hentry, hpublished⟩ := htracks.of_final hfinal
  refine ⟨v, hlast, hreal, hof.entry hentry, hsent, fun callee hwaits => ?_, fun p => ?_,
    fun e he => ?_⟩
  · have hlisted : (s.published.find? callee).isSome := by
      rw [hpublished callee hwaits]
      exact (hreal.waiting hunit callee hwaits).2
    rw [← hpublished callee hwaits]
    exact hof.summary hs (hfinal.settled callee) hlisted
  · exact (hreal.runs hunit p).2.2.2
  · obtain ⟨final, hfinal, hsub⟩ := htracks.flows hsent e he
    obtain ⟨result', hresult', hentry'⟩ := hof.entry hfinal
    exact ⟨result', final, hresult', hentry', hsub⟩

/-! ### A unit of two functions

The function `walk` loops over what the function `items` returns. -/

namespace Sample

/-- A function without parameters. -/
def function (id : RoutineId) (name : String) : RoutineDecl :=
  ⟨id, ⟨name⟩, none, [], none, .isPublic, false⟩

/-- Two functions, of which `walk` goes through what `items` returns. -/
def declarations : Declarations :=
  ⟨#[function 0 "items", function 1 "walk"], ⟨[("items", [0]), ("walk", [1])]⟩, .empty⟩

/-- Returns an array of one number. -/
def items : Body :=
  ⟨0, .function, [], #[.literal (.long 1), .array [⟨none, 0, false, false⟩]],
    #[⟨0, [], .ret (some 1), []⟩], 0⟩

/-- Walks the array, writes the number, and returns nothing. -/
def walk : Body :=
  ⟨1, .function, [⟨"v", .localVar⟩], #[.call ⟨"items"⟩ [], .var 0, .var 0],
    #[⟨0, [], .iterate 0 false 1, []⟩, ⟨1, [], .advance 0 none 1 false 2 3, []⟩,
      ⟨2, [.echo [2]], .leave 1, []⟩, ⟨3, [], .ret none, []⟩], 0⟩

/-- More visits than the samples take, with blocks held back. -/
def options : Options :=
  ⟨60, 10, true⟩

end Sample

/-- The head of the loop in `walk`, which is visited before and after the result of `items` is
known. -/
theorem converged_fixpoint_walk :
    ∃ r result, infer Sample.declarations Sample.options [Sample.walk, Sample.items] false = .ok r ∧
      r.converged = true ∧ r.routine? 1 = some result ∧ 0 < result.visitCount 1 ∧
      ∃ v, lastVisit? (unitHistory Sample.declarations Sample.options [Sample.walk, Sample.items])
        (1, 1) = some v ∧ v.StandsIn Sample.declarations Sample.options r := by
  have hcheck : (infer Sample.declarations Sample.options [Sample.walk, Sample.items]
      false).toOption.any (fun r => r.converged && (r.routine? 1).any fun result =>
        decide (0 < result.visitCount 1)) = true := by decide +kernel
  obtain ⟨r, hr, hcheck⟩ := any_toOption_iff.1 hcheck
  obtain ⟨hconverged, hcheck⟩ := Bool.and_eq_true_iff.1 hcheck
  obtain ⟨result, hresult, hvisited⟩ := (Option.any_eq_true _ _).1 hcheck
  have hvisited := of_decide_eq_true hvisited
  exact ⟨r, result, hr, hconverged, hresult, hvisited,
    (converged_fixpoint hr hconverged hresult hvisited).2⟩

end FlowTyping
