import FlowTyping.Proofs.Inference.Fixpoint
import FlowTyping.Proofs.Inference.Reachable
import FlowTyping.Proofs.Solver.Bound

/-!
# Callers see what their callees return in the end

Main statement: `call_covers_callee`. In a converged result, the mask of a call covers what every
routine that it may go to returns in the end, as the caller's kind table has it.
-/

namespace FlowTyping

variable {d : Declarations} {o : Options} {bodies : List Body} {cancelled : Bool} {r : InferResult}
  {result callee : RoutineResult} {v : Visited} {e : ExprId} {target : CallTarget}

/-- A mask covers what another routine returns in the end, read into the kind table of the
routine. -/
def RoutineResult.Covers (result : RoutineResult) (m : Mask) (callee : RoutineResult) : Prop :=
  ∃ summary part t, callee.summary = .ok summary ∧
    (KindTable.adopt summary).run result.table = .ok (part, t) ∧ m ∪ part = m

/-- The result of a routine holds what was known about it, and at most one more kind. -/
theorem RoutineResult.facts_of_ofRun {run : RoutineRun} (h : RoutineResult.ofRun run = .ok result)
    (hfits : run.Fits) :
    result.table.WellFormed ∧ run.facts.table.Grows result.table ∧
      (∀ e, result.exprMask e = run.facts.exprMask e) ∧
      result.callTargets = run.facts.callTargets := by
  obtain ⟨m, t, hresult, hwf, hgrows, -⟩ := Facts.result_ok hfits.facts
  simp only [RoutineResult.ofRun, hresult, bind, Except.bind, pure, Except.pure,
    Except.ok.injEq] at h
  rw [← h]
  exact ⟨hwf, hgrows, fun _ => rfl, rfl⟩

/-- What a visit found agrees with the results: its facts are known in the result of the routine,
and what it waits for is what the routines return in the end. -/
structure Visited.Accords (d : Declarations) (v : Visited) (r : InferResult)
    (result : RoutineResult) : Prop where
  real : v.Real d
  unit : v.unit.Fits
  wellFormed : result.table.WellFormed
  table : v.scene.facts.table.Grows result.table
  exprMask : ∀ e, (v.scene.facts.exprMask e).Below (result.exprMask e)
  reads : ∀ {g : RoutineId} {callee : RoutineResult}, r.routine? g = some callee →
    ∃ published summary, v.unit.published.find? g = some published ∧ callee.summary = .ok summary ∧
      (v.ref ∈ v.scene.agenda.waiters g → (published == summary) = true)

namespace Visited.Accords

/-- The scene of a visit is one of the routine that it belongs to. -/
theorem routine (h : v.Accords d r result) : v.scene.facts.routine = v.ref.1 := by
  obtain ⟨hkey, hfits⟩ := h.unit.runs h.real.run
  calc v.scene.facts.routine = v.start.facts.routine := (h.real.rebinds h.unit).keeps.routine
    _ = v.run.body.routine := hfits.facts.routine
    _ = v.ref.1 := hkey

/-- A mask that accounts for a routine covers what the routine returns in the end. -/
theorem covers (h : v.Accords d r result) {m m' : Mask} {decl : RoutineDecl}
    (haccounts : v.scene.Accounts (v.setting d) m decl) (hm : m.Below m')
    (hcallee : r.routine? decl.id = some callee) : result.Covers m' callee := by
  obtain ⟨published, summary, hpublished, hsummary, hsame⟩ := h.reads hcallee
  obtain ⟨hwaits, part, hpart, hsettles⟩ := haccounts published hpublished
  rw [h.routine] at hwaits
  obtain ⟨overflowed, hadopt⟩ := hsettles summary (hsame hwaits) result.table h.wellFormed h.table
  exact ⟨summary, part, _, hsummary, hadopt, hm part hpart⟩

end Visited.Accords

/-- In a final unit, the visit that left the target of a call agrees with the results. -/
theorem Visited.Binds.accords {s : Solver} {run : RoutineRun} (hbinds : v.Binds run e target)
    (hreal : v.Real d) (hunit : v.unit.Fits) (htracks : s.Tracks o v) (hs : s.Fits)
    (hfinal : s.Final)
    (hlisted : ∀ g, (v.unit.published.find? g).isSome = (s.published.find? g).isSome)
    (hof : r.IsOf s) (hfits : run.Fits) (hofRun : RoutineResult.ofRun run = .ok result) :
    v.Accords d r result := by
  obtain ⟨hwf, hgrows, hmasks, -⟩ := RoutineResult.facts_of_ofRun hofRun hfits
  refine ⟨hreal, hunit, hwf, hbinds.keeps.table.trans hgrows, fun x => ?_,
    fun {g callee} hcallee => ?_⟩
  · rw [hmasks]
    exact hbinds.keeps.exprMask x
  · obtain ⟨run', hrun', -⟩ := hof.run hcallee
    have hsome : (s.published.find? g).isSome := by
      rw [hs.listed, hrun']
      rfl
    obtain ⟨published, hpublished⟩ := Option.isSome_iff_exists.1 ((hlisted g).trans hsome)
    obtain ⟨callee', summary, final, hcallee', hsummary, hfound, hsame⟩ :=
      hof.summary hs (hfinal.settled g) hsome
    cases hcallee.symm.trans hcallee'
    refine ⟨published, summary, hpublished, hsummary, fun hwaits => ?_⟩
    have hread := (htracks.of_final hfinal).2.2 g hwaits
    rw [hfound, hpublished] at hread
    cases hread
    exact hsame

/-- The target that a call has in a converged result was left by a visit that agrees with the
results, and the mask recorded by it is right for the target. -/
theorem exists_serving_visit (h : infer d o bodies cancelled = .ok r)
    (hconverged : r.converged = true) {b : Body} (hb : b ∈ bodies)
    (hresult : r.routine? b.routine = some result) {x : Expr} (hx : b.exprs[e]? = some x)
    (hcall : x.isCall = true) (htarget : result.callTarget? e = some target) :
    ∃ v : Visited, v.Accords d r result ∧
      v.scene.Serves (v.setting d) x target (v.scene.facts.exprMask e) := by
  obtain ⟨s₀, s, hstart, hfresh, hs, hof, hend⟩ := infer_spec h
  obtain ⟨hfinal, hreaches⟩ := hend hconverged
  have hopens := opens_of_unitStart? hstart
  obtain ⟨run₀, hrun₀, hbody₀⟩ := hopens.run b hb
  obtain ⟨run, hrun, hofRun⟩ := hof.run hresult
  obtain ⟨run', hrun', hbody⟩ := hreaches.exists_run hfresh.fits hrun₀
  cases hrun.symm.trans hrun'
  obtain rfl : run.body = b := hbody.trans hbody₀
  have hfits := (hs.runs hrun).2
  obtain ⟨-, -, -, htargets⟩ := RoutineResult.facts_of_ofRun hofRun hfits
  rw [RoutineResult.callTarget?, htargets] at htarget
  obtain ⟨v, hlast, hbinds⟩ := hreaches.logsTargets hfresh hopens hrun ⟨x, hx, hcall⟩ htarget
  have hlogs := hreaches.logs hfresh
  have hmem := mem_of_lastVisit? hlast
  obtain ⟨hreal, hunit⟩ := hlogs.real v hmem
  refine ⟨v, ?_, hbinds.serves hreal hunit hx hcall⟩
  exact hbinds.accords hreal hunit (hlogs.tracks hlast) hs hfinal (hreaches.listed hfresh hmem) hof
    hfits hofRun

/-- In a converged result, the mask of a call to a function or a method covers what each routine
that the call may go to returns in the end, unless the routine declares what it returns. -/
theorem call_covers_callee (h : infer d o bodies cancelled = .ok r)
    (hconverged : r.converged = true) {b : Body} (hb : b ∈ bodies)
    (hresult : r.routine? b.routine = some result) (hcall : b.IsCall e)
    (htarget : result.callTarget? e = some target) {f : RoutineId} (hf : f ∈ target.routines)
    {decl : RoutineDecl} (hdecl : d.routine? f = some decl) (hreturns : decl.returns? = none)
    (hcallee : r.routine? decl.id = some callee) :
    ∃ summary m t, callee.summary = .ok summary ∧
      (KindTable.adopt summary).run result.table = .ok (m, t) ∧
      result.exprMask e ∪ m = result.exprMask e := by
  obtain ⟨x, hx, hisCall⟩ := hcall
  obtain ⟨v, haccords, hserves⟩ := exists_serving_visit h hconverged hb hresult hx hisCall htarget
  have haccounts : v.scene.Accounts (v.setting d) (v.scene.facts.exprMask e) decl :=
    hserves.answers f hf decl hdecl hreturns
  exact haccords.covers haccounts (haccords.exprMask e) hcallee

/-- The call in `walk`, which is first visited when `items` has not returned anything yet. -/
theorem call_covers_callee_walk :
    ∃ r result callee summary m t,
      infer Sample.declarations Sample.options [Sample.walk, Sample.items] false = .ok r ∧
      r.converged = true ∧ r.routine? 1 = some result ∧ r.routine? 0 = some callee ∧
      result.callTarget? 0 = some (.resolved 0) ∧ callee.summary = .ok summary ∧
      (KindTable.adopt summary).run result.table = .ok (m, t) ∧
      result.exprMask 0 ∪ m = result.exprMask 0 := by
  have hcheck : (infer Sample.declarations Sample.options [Sample.walk, Sample.items]
      false).toOption.any (fun r => r.converged && ((r.routine? 0).isSome && (r.routine? 1).any fun
        result => decide (result.callTarget? 0 = some (.resolved 0)))) = true := by decide +kernel
  obtain ⟨r, hr, hcheck⟩ := any_toOption_iff.1 hcheck
  obtain ⟨hconverged, hcheck⟩ := Bool.and_eq_true_iff.1 hcheck
  obtain ⟨hcallee, hcheck⟩ := Bool.and_eq_true_iff.1 hcheck
  obtain ⟨callee, hcallee⟩ := Option.isSome_iff_exists.1 hcallee
  obtain ⟨result, hresult, htarget⟩ := (Option.any_eq_true _ _).1 hcheck
  have htarget := of_decide_eq_true htarget
  have hcall : Sample.walk.IsCall 0 := ⟨.call ⟨"items"⟩ [], rfl, rfl⟩
  obtain ⟨summary, m, t, hcovers⟩ :=
    call_covers_callee hr hconverged (List.mem_cons_self ..) hresult
    hcall htarget (List.mem_singleton.2 rfl) rfl rfl hcallee
  exact ⟨r, result, callee, summary, m, t, hr, hconverged, hresult, hcallee, htarget, hcovers⟩

end FlowTyping
