import FlowTyping.Proofs.Solver.Change
import FlowTyping.Proofs.Solver.Outset
import FlowTyping.Proofs.Visit.Through

/-!
# Which visit bound a call

The target of a call is overwritten by every visit that goes through it, and every visit to a block
goes through the same calls. So the target that a call has in a unit is the one that the last visit
to some block left, and what that visit found is still known. Main statement: `Reaches.logsTargets`.
-/

namespace FlowTyping

namespace Visited

variable {d : Declarations} {v : Visited}

/-- A visit binds just the calls in the expressions of its block. -/
theorem Real.rebinds (h : v.Real d) (hs : v.unit.Fits) :
    Rebinds (v.setting d) (v.run.body.Parts v.block.visited) v.start v.scene := by
  obtain ⟨-, hfits⟩ := hs.runs h.run
  have hstart : v.start.Of v.run.body := ⟨hfits.facts.routine, hfits.facts.size⟩
  have hbinds : Visit.Binds (v.setting d) v.block.visited (visitBlock (v.setting d) v.block) v.start
      fun _ _ => True := visitBlock_binds v.block hstart
  exact (hbinds v.outcome v.scene h.outcome).1

/-- The target that a call has in a run was left by the visit, and what the visit found is still
known there. -/
structure Binds (v : Visited) (run : RoutineRun) (e : ExprId) (target : CallTarget) : Prop where
  body : v.run.body = run.body
  through : v.run.body.Parts v.block.visited e
  target : v.scene.facts.callTargets.find? e = some target
  keeps : v.scene.facts.Keeps run.facts

/-- A target stays bound as facts grow. -/
theorem Binds.mono {run run' : RoutineRun} {e : ExprId} {target : CallTarget}
    (h : v.Binds run e target) (hbody : run'.body = run.body)
    (hkeeps : run.facts.Keeps run'.facts) : v.Binds run' e target where
  body := h.body.trans hbody.symm
  through := h.through
  target := h.target
  keeps := h.keeps.trans hkeeps

/-- The mask that a visit recorded for a call is right for the target that it left. -/
theorem Binds.serves {run : RoutineRun} {e : ExprId} {target : CallTarget} {x : Expr}
    (h : v.Binds run e target) (hreal : v.Real d) (hs : v.unit.Fits)
    (hx : run.body.exprs[e]? = some x) (hcall : x.isCall = true) :
    v.scene.Serves (v.setting d) x target (v.scene.facts.exprMask e) := by
  have hbound := (hreal.rebinds hs).bound e h.through
  rw [← h.body] at hx
  obtain ⟨target', htarget', hserves⟩ := hbound x hx hcall
  cases h.target.symm.trans htarget'
  exact hserves

end Visited

namespace Solver

variable {d : Declarations} {o : Options} {s s' s₀ : Solver} {log : List Visited}

/-- Every call that has a target was bound by the last visit to some block. -/
def LogsTargets (s : Solver) (log : List Visited) : Prop :=
  ∀ {r : RoutineId} {run : RoutineRun} {e : ExprId} {target : CallTarget},
    s.runs.find? r = some run → run.body.IsCall e → run.facts.callTargets.find? e = some target →
      ∃ v, lastVisit? log (r, v.ref.2) = some v ∧ v.Binds run e target

/-- Before the first visit no target is bound. -/
theorem Opens.logsTargets {bodies : List Body} (h : s.Opens bodies) : s.LogsTargets [] := by
  intro r run e target hrun _ htarget
  rw [(h.new hrun).callTargets] at htarget
  cases htarget

/-- The end of a round changes no target. -/
theorem LogsTargets.round (h : s.LogsTargets log) (hs : s.Fits) (hend : s.endRound = .ok s') :
    s'.LogsTargets log := by
  intro r run' e target hrun' hcall htarget
  obtain ⟨s₁, hend₁, hs₁, hadvances, -⟩ := endRound_ok hs
  cases hend.symm.trans hend₁
  obtain ⟨run, hrun, hbody⟩ := hadvances.exists_run hs hs₁ hrun'
  obtain ⟨run₁, t, hrun₁, hfacts, hgrows⟩ := endRound_rests hs hend r run hrun
  cases hrun'.symm.trans hrun₁
  rw [hfacts] at htarget
  rw [hbody] at hcall
  obtain ⟨v, hlast, hbinds⟩ := h hrun hcall htarget
  refine ⟨v, hlast, hbinds.mono hbody ?_⟩
  rw [hfacts]
  exact .onTable run.facts hgrows

/-- A visit binds the calls that it goes through. The target of any other call was left by a visit
to another block, since all visits to one block go through the same calls. -/
theorem LogsTargets.visit {v : Visited} (h : s.LogsTargets log) (hlogs : s.Logs d o log)
    (hs : s.Fits) (hdequeues : s.Dequeues v.ref v.unit) (hreal : v.Real d)
    (hvisit : v.unit.visit d o v.ref = .ok s') : s'.LogsTargets (log ++ [v]) := by
  intro r run' e target hrun' hcall htarget
  have hunit := hdequeues.fits hs
  obtain ⟨own, hleaves⟩ := hreal.leaves hunit hvisit
  have hrebinds := hreal.rebinds hunit
  rw [hleaves.runs, OrderedMap.find?_insert, hdequeues.runs] at hrun'
  split at hrun'
  · rename_i hr
    cases hrun'
    subst hr
    rw [hleaves.facts] at htarget
    have hbody : run'.body = v.run.body := hleaves.body
    by_cases hthrough : v.run.body.Parts v.block.visited e
    · refine ⟨v, ?_, hbody.symm, hthrough, htarget, ?_⟩
      · rw [lastVisit?_concat, if_pos rfl]
      · rw [hleaves.facts]
        exact .refl _
    · rw [hbody] at hcall
      have hold : v.run.facts.callTargets.find? e = some target :=
        (hrebinds.others e hcall hthrough).symm.trans htarget
      obtain ⟨w, hlast, hbinds⟩ := h (hdequeues.runs ▸ hreal.run) hcall hold
      have hother : v.ref ≠ (v.ref.1, w.ref.2) := by
        intro heq
        have hblock := ((hlogs.real w (mem_of_lastVisit? hlast)).1).block
        rw [hbinds.body, ← congrArg Prod.snd heq, hreal.block, Option.some.injEq] at hblock
        apply hthrough
        rw [hblock, ← hbinds.body]
        exact hbinds.through
      refine ⟨w, ?_, hbinds.mono hbody ?_⟩
      · rw [lastVisit?_concat, if_neg hother]
        exact hlast
      · rw [hleaves.facts]
        exact hrebinds.keeps.facts
  · rename_i hr
    obtain ⟨w, hlast, hbinds⟩ := h hrun' hcall htarget
    refine ⟨w, ?_, hbinds⟩
    rw [lastVisit?_concat, if_neg fun heq => hr (congrArg Prod.fst heq)]
    exact hlast

/-- Along a run, every target is that of the last visit to some block. -/
theorem Reaches.logsTargets {bodies : List Body} (h : Reaches d o s₀ s log) (hs₀ : s₀.Fresh bodies)
    (hopens : s₀.Opens bodies) : s.LogsTargets log := by
  induction h with
  | start => exact hopens.logsTargets
  | round h hend ih => exact LogsTargets.round ih (h.fits hs₀.fits) hend
  | visit h hdequeues hreal hvisit ih =>
      exact LogsTargets.visit ih (h.logs hs₀) (h.fits hs₀.fits) hdequeues hreal hvisit

/-- Along a run, results are published for the same routines. -/
theorem Reaches.listed {bodies : List Body} (h : Reaches d o s₀ s log) (hs₀ : s₀.Fresh bodies)
    {v : Visited} (hv : v ∈ log) (r : RoutineId) :
    (v.unit.published.find? r).isSome = (s.published.find? r).isSome := by
  induction h with
  | start => cases hv
  | round h hend ih =>
      obtain ⟨s₁, hend₁, -, hadvances, -⟩ := endRound_ok (h.fits hs₀.fits)
      cases hend.symm.trans hend₁
      rw [hadvances.listed]
      exact ih hv
  | visit h hdequeues hreal hvisit ih =>
      obtain ⟨s₁, hvisit₁, -, hadvances, -⟩ :=
        hreal.visit_ok (hdequeues.fits (h.fits hs₀.fits)) o
      cases hvisit.symm.trans hvisit₁
      rw [hadvances.listed]
      rcases List.mem_append.1 hv with hv | hv
      · rw [hdequeues.published]
        exact ih hv
      · rw [List.mem_singleton.1 hv]

end Solver

end FlowTyping
