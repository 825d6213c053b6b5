import FlowTyping.Proofs.Inference.Fixpoint
import FlowTyping.Proofs.Solver.Reachable

/-!
# Exactly the reachable blocks are visited

Main statement: `visited_iff_reachable`. In a converged result a block has a state on entry, and was
visited, exactly when control can get there from the entry of its routine. A block that is held back
sends nothing on for the time being, but in the end every block that was visited did.
-/

namespace FlowTyping

namespace Solver

variable {d : Declarations} {o : Options} {s₀ s s' : Solver} {log : List Visited}
  {bodies : List Body}

/-- Along a run, no routine is lost. -/
theorem Reaches.exists_run (h : Reaches d o s₀ s log) (hs₀ : s₀.Fits) {r : RoutineId}
    {run₀ : RoutineRun} (hrun₀ : s₀.runs.find? r = some run₀) :
    ∃ run, s.runs.find? r = some run ∧ run.body = run₀.body := by
  induction h with
  | start => exact ⟨run₀, hrun₀, rfl⟩
  | round h hend ih =>
      obtain ⟨s₁, hend₁, -, hadvances, -⟩ := endRound_ok (h.fits hs₀)
      cases hend.symm.trans hend₁
      obtain ⟨run, hrun, hbody⟩ := ih
      obtain ⟨run', hrun', hbody', -⟩ := hadvances.run hrun
      exact ⟨run', hrun', hbody'.trans hbody⟩
  | visit h hdequeues hreal hvisit ih =>
      obtain ⟨s₁, hvisit₁, -, hadvances, -⟩ := hreal.visit_ok (hdequeues.fits (h.fits hs₀)) o
      cases hvisit.symm.trans hvisit₁
      obtain ⟨run, hrun, hbody⟩ := ih
      obtain ⟨run', hrun', hbody', -⟩ := hadvances.run (hdequeues.runs.symm ▸ hrun)
      exact ⟨run', hrun', hbody'.trans hbody⟩

/-- When nothing is left to do, every block that has been reached has a last visit. -/
theorem Collects.exists_lastVisit (h : Collects o s₀ s log) (hfinal : s.Final) {ref : BlockRef}
    (href : (s.entry? ref).isSome) : ∃ v, lastVisit? log ref = some v := by
  rcases h.reached ref href with hqueued | ⟨w, hw, hwref⟩
  · rw [hfinal.queue] at hqueued
    cases hqueued
  · apply exists_lastVisit?
    exact List.countP_pos_iff.2 ⟨w, hw, decide_eq_true hwref⟩

/-- When nothing is left to do, just the blocks that have been reached were visited. -/
theorem Final.visited_iff (hfinal : s.Final) (hlogs : s.Logs d o log)
    (hcollects : Collects o s₀ s log) (ref : BlockRef) :
    0 < s.visitCount ref ↔ (s.entry? ref).isSome := by
  rw [hlogs.counted]
  constructor
  · intro hcount
    obtain ⟨v, hlast⟩ := exists_lastVisit? hcount
    have hentry := ((hlogs.tracks hlast).of_final hfinal).2.1
    rw [ref_of_lastVisit? hlast] at hentry
    exact Option.isSome_iff_exists.2 ⟨v.entry, hentry⟩
  · intro href
    obtain ⟨v, hlast⟩ := hcollects.exists_lastVisit hfinal href
    apply List.countP_pos_iff.2
    exact ⟨v, mem_of_lastVisit? hlast, decide_eq_true (ref_of_lastVisit? hlast)⟩

/-- When nothing is left to do, the last visit to a block has sent a state to each of its successors
and handlers. -/
theorem Final.reached_next (hfinal : s.Final) (hlogs : s.Logs d o log)
    (hcollects : Collects o s₀ s log) {r : RoutineId} {run : RoutineRun}
    (hrun : s.runs.find? r = some run) {i target : BlockId} {block : Block}
    (hi : (s.entry? (r, i)).isSome) (hblock : run.body.blocks[i]? = some block)
    (htarget : target ∈ block.edge.successors ∨ target ∈ block.handlers) :
    (s.entry? (r, target)).isSome := by
  obtain ⟨v, hlast⟩ := hcollects.exists_lastVisit hfinal hi
  have hv := mem_of_lastVisit? hlast
  have href := ref_of_lastVisit? hlast
  obtain ⟨hreal, -⟩ := hlogs.real v hv
  obtain ⟨run', hrun', hbody, -⟩ := hcollects.known v hv
  rw [href, hrun] at hrun'
  cases hrun'
  have hown : v.block = block := by
    have hfound := hreal.block
    rw [← hbody, href, hblock] at hfound
    exact (Option.some.inj hfound).symm
  obtain ⟨st, hst⟩ := (mem_flows_iff hreal.outcome).2 (hown ▸ htarget)
  have htracks := hlogs.tracks hlast
  obtain ⟨final, hfinal, -⟩ := htracks.flows (htracks.of_final hfinal).1 _ hst
  rw [href] at hfinal
  exact Option.isSome_iff_exists.2 ⟨final, hfinal⟩

theorem Final.reached_of_reachable (hfinal : s.Final) (hlogs : s.Logs d o log)
    (hcollects : Collects o s₀ s log) {r : RoutineId} {run : RoutineRun}
    (hrun : s.runs.find? r = some run) (hentry : (s.entry? (r, run.body.entry)).isSome)
    {c : BlockId} (hc : run.body.Reachable c) : (s.entry? (r, c)).isSome := by
  induction hc with
  | entry => exact hentry
  | successor _ hblock htarget ih =>
      exact hfinal.reached_next hlogs hcollects hrun ih hblock (Or.inl htarget)
  | handler _ hblock htarget ih =>
      exact hfinal.reached_next hlogs hcollects hrun ih hblock (Or.inr htarget)

end Solver

theorem opens_of_unitStart? {d : Declarations} {o : Options} {bodies : List Body} {s₀ : Solver}
    (h : unitStart? d o bodies = some s₀) : s₀.Opens bodies := by
  rw [unitStart?] at h
  cases hunit : checkUnit d [] bodies with
  | error e => simp [hunit] at h
  | ok unit =>
      obtain ⟨s₁, hstart, -⟩ := Solver.start_ok hunit o.kindCap
      rw [hunit] at h
      simp only [hstart, Except.toOption, Option.some.injEq] at h
      exact h ▸ Solver.opens_of_start hunit hstart

/-- In a converged result, a block has a state on entry exactly when control can get there from the
entry of its routine, and the same blocks were visited. -/
theorem visited_iff_reachable {d : Declarations} {o : Options} {bodies : List Body}
    {cancelled : Bool} {r : InferResult} (h : infer d o bodies cancelled = .ok r)
    (hconverged : r.converged = true) {b : Body} (hb : b ∈ bodies) :
    ∃ result, r.routine? b.routine = some result ∧ ∀ c,
      ((result.entry? c).isSome ↔ b.Reachable c) ∧ (0 < result.visitCount c ↔ b.Reachable c) := by
  obtain ⟨s₀, s, hstart, hfresh, hs, hof, hend⟩ := infer_spec h
  obtain ⟨hfinal, hreaches⟩ := hend hconverged
  have hopens := opens_of_unitStart? hstart
  have hlogs := hreaches.logs hfresh
  have hcollects := hreaches.collects hfresh
  obtain ⟨run₀, hrun₀, hbody₀⟩ := hopens.run b hb
  obtain ⟨run, hrun, hbody⟩ := hreaches.exists_run hfresh.fits hrun₀
  obtain rfl : run.body = b := hbody.trans hbody₀
  obtain ⟨result, hresult, hofRun⟩ := hof.result hrun
  obtain ⟨hentries, hvisits⟩ := RoutineResult.of_ofRun hofRun
  have hentry (c : BlockId) : s.entry? (run.body.routine, c) = result.entry? c := by
    rw [Solver.entry?, hrun, RoutineResult.entry?, hentries]
    rfl
  have hcount (c : BlockId) : s.visitCount (run.body.routine, c) = result.visitCount c := by
    rw [Solver.visitCount_eq hrun, RoutineResult.visitCount, hvisits]
  have hfirst : (s.entry? (run.body.routine, run.body.entry)).isSome := by
    have hnew := ((hopens.new hrun₀).reached run.body.entry).2 (hbody ▸ rfl)
    obtain ⟨st, hst⟩ := Option.isSome_iff_exists.1 hnew
    have hstart : s₀.entry? (run.body.routine, run.body.entry) = some st := by
      rw [Solver.entry?, hrun₀]
      exact hst
    obtain ⟨entry, hentry, -⟩ := hcollects.arrived (.start hstart)
    exact Option.isSome_iff_exists.2 ⟨entry, hentry⟩
  have hreached (c : BlockId) : (result.entry? c).isSome ↔ run.body.Reachable c := by
    constructor
    · intro hc
      rw [RoutineResult.entry?, hentries] at hc
      exact hreaches.staysReachable hfresh.fits hopens hrun c hc
    · intro hc
      rw [← hentry]
      exact hfinal.reached_of_reachable hlogs hcollects hrun hfirst hc
  refine ⟨result, hresult, fun c => ⟨hreached c, ?_⟩⟩
  rw [← hcount, hfinal.visited_iff hlogs hcollects, hentry]
  exact hreached c

/-- Calls `items` where something may throw, and goes on after the handler with a `switch` whose
arms return. Since it has a default arm, what comes after it is dead code. -/
def Sample.attempt : Body :=
  ⟨1, .function, [], #[.call ⟨"items"⟩ [], .literal (.long 1), .literal (.long 2)],
    #[⟨0, [], .protect 1 [2] none 3, []⟩, ⟨1, [.eval 0], .goto 3, [2]⟩,
      ⟨2, [.bindException none [⟨"Exception"⟩]], .goto 3, []⟩,
      ⟨3, [], .switch 1 [⟨some 2, 4⟩, ⟨none, 5⟩] 6, []⟩, ⟨4, [], .ret none, []⟩,
      ⟨5, [], .ret (some 1), []⟩, ⟨6, [], .ret none, []⟩], 0⟩

/-- The call is held back until the result of `items` is known, and the handler and the arms of the
`switch` are reached only then. The dead code is never reached. -/
theorem visited_iff_reachable_attempt :
    ∃ r result, infer Sample.declarations Sample.options [Sample.attempt, Sample.items] false =
        .ok r ∧
      r.converged = true ∧ r.routine? 1 = some result ∧
      (∀ c, ((result.entry? c).isSome ↔ Sample.attempt.Reachable c) ∧
        (0 < result.visitCount c ↔ Sample.attempt.Reachable c)) ∧
      Sample.attempt.Reachable 2 ∧ Sample.attempt.Reachable 5 ∧ ¬Sample.attempt.Reachable 6 := by
  have hcheck : (infer Sample.declarations Sample.options [Sample.attempt, Sample.items]
      false).toOption.any (fun r => r.converged && (r.routine? 1).any fun result =>
        (result.entry? 2).isSome && (result.entry? 5).isSome && (result.entry? 6).isNone) =
          true := by
    decide +kernel
  obtain ⟨r, hr, hcheck⟩ := any_toOption_iff.1 hcheck
  obtain ⟨hconverged, hcheck⟩ := Bool.and_eq_true_iff.1 hcheck
  obtain ⟨result, hresult, hcheck⟩ := (Option.any_eq_true _ _).1 hcheck
  obtain ⟨hlive, hdead⟩ := Bool.and_eq_true_iff.1 hcheck
  obtain ⟨hcatch, harm⟩ := Bool.and_eq_true_iff.1 hlive
  obtain ⟨result', hresult', hreach⟩ :=
    visited_iff_reachable hr hconverged (b := Sample.attempt) (List.mem_cons_self ..)
  cases hresult.symm.trans hresult'
  refine ⟨r, result, hr, hconverged, hresult, hreach, (hreach 2).1.1 hcatch, (hreach 5).1.1 harm,
    fun hreachable => ?_⟩
  have hentry := (hreach 6).1.2 hreachable
  rw [Option.isNone_iff_eq_none.1 hdead] at hentry
  cases hentry

end FlowTyping
