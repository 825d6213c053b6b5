import FlowTyping.Proofs.Inference.Reachable
import FlowTyping.Proofs.Solver.Progress

/-!
# Enough visits

Main statement: `converged_of_visitBound_le`. How many visits are enough for a run to converge
depends only on how many bodies, blocks and variables the unit has. As long as a unit gets further,
what is still to go shrinks by a whole load of the agenda; otherwise every visit takes some of the
load away.
-/

namespace FlowTyping

namespace Solver

variable {d : Declarations} {o : Options} {bodies : List Body} {s s' : Solver} {n n' : Nat}

/-- A bound on the visits that a unit still needs, from how far it has come and its load. -/
def toGo (bodies : List Body) (s : Solver) (n : Nat) : Nat :=
  s.unitLoad bodies + maxLoad bodies * (maxProgress bodies - n)

theorem toGo_of_lt (hlt : n < n') (hn' : n' ≤ maxProgress bodies) :
    s'.toGo bodies n' ≤ maxLoad bodies * (maxProgress bodies - n) := by
  calc s'.toGo bodies n' ≤ maxLoad bodies + maxLoad bodies * (maxProgress bodies - n') :=
        Nat.add_le_add_right (load_le s') _
    _ = maxLoad bodies * (maxProgress bodies - n' + 1) := by rw [Nat.mul_succ, Nat.add_comm]
    _ ≤ maxLoad bodies * (maxProgress bodies - n) := Nat.mul_le_mul_left _ (by omega)

theorem Gains.toGo_le (h : s.Gains bodies n s') :
    ∃ n', s'.Stands bodies n' ∧ s'.toGo bodies n' ≤ s.toGo bodies n := by
  obtain ⟨n', hs', hle, hload⟩ := h
  refine ⟨n', hs', ?_⟩
  rcases Nat.eq_or_lt_of_le hle with rfl | hlt
  · exact Nat.add_le_add_right (hload rfl) _
  · exact (toGo_of_lt hlt hs'.le).trans (Nat.le_add_left ..)

/-- The end of a round, if there is one, adds nothing to what is still to go. -/
theorem Stands.round (h : s.Stands bodies n) (hround : s' = s ∨ s.endRound = .ok s') :
    ∃ n', s'.Stands bodies n' ∧ s'.toGo bodies n' ≤ s.toGo bodies n := by
  rcases hround with rfl | hend
  · exact h.gains.toGo_le
  · exact (h.endRound hend).toGo_le

theorem Stands.unitLoad_pos {ref : BlockRef} (h : s.Stands bodies n)
    (hdequeues : s.Dequeues ref s') : 0 < s.unitLoad bodies := by
  have hqueued : ref ∈ s.agenda.queue := hdequeues.queue ▸ List.mem_cons_self ..
  have hblock : ref ∈ unitBlocks bodies := h.mem_blocks (h.fits.queued ref hqueued)
  calc 0 < s.queued ref := one_le_queued hqueued
    _ ≤ s.duty (unitRoutines bodies) ref := Nat.le_add_right ..
    _ ≤ s.unitLoad bodies := Finset.single_le_sum (fun _ _ => Nat.zero_le _) hblock

/-- A visit takes away from what is still to go. -/
theorem Stands.toGo_lt {v : Visited} (h : s.Stands bodies n) (hdequeues : s.Dequeues v.ref v.unit)
    (hreal : v.Real d) (hvisit : v.unit.visit d o v.ref = .ok s') :
    ∃ n', s'.Stands bodies n' ∧ s'.toGo bodies n' < s.toGo bodies n := by
  obtain ⟨n', hs', hle, hload⟩ := h.visit hdequeues hreal hvisit
  refine ⟨n', hs', ?_⟩
  rcases Nat.eq_or_lt_of_le hle with rfl | hlt
  · exact Nat.add_lt_add_right (hload rfl) _
  · have hsome : 0 < s.unitLoad bodies := h.unitLoad_pos hdequeues
    exact Nat.lt_of_le_of_lt (toGo_of_lt hlt hs'.le) (Nat.lt_add_of_pos_left hsome)

/-- A run converges if it may make as many visits as are still to go. -/
theorem run_converges (h : s.Stands bodies n) {budget : Nat} (hbudget : s.toGo bodies n ≤ budget) :
    ∃ s', s.run d o budget = .ok (true, s') := by
  induction budget generalizing s n with
  | zero =>
      obtain ⟨s₁, ref, s₂, hround, hnext, hs₁, hdequeues⟩ | ⟨s₁, hend, hnext, hs₁, hfinal⟩ :=
        next_ok h.fits
      · obtain ⟨n₁, hs₁, hle⟩ := h.round hround
        have hsome := hs₁.unitLoad_pos hdequeues
        have hnone : s₁.toGo bodies n₁ ≤ 0 := hle.trans hbudget
        rw [toGo] at hnone
        omega
      · refine ⟨s₁, ?_⟩
        rw [run, hnext]
        rfl
  | succ budget ih =>
      obtain ⟨s₁, ref, s₂, hround, hnext, hs₁, hdequeues⟩ | ⟨s₁, hend, hnext, hs₁, hfinal⟩ :=
        next_ok h.fits
      · obtain ⟨n₁, hstands₁, hle⟩ := h.round hround
        have hs₂ := hdequeues.fits hs₁
        obtain ⟨v, hreal, rfl, rfl⟩ := hs₂.exists_visited d (hdequeues.reached hs₁)
        obtain ⟨s₃, hvisit, -⟩ := hreal.visit_ok hs₂ o
        obtain ⟨n₃, hstands₃, hlt⟩ := hstands₁.toGo_lt hdequeues hreal hvisit
        obtain ⟨s', hrun⟩ := ih hstands₃ (by omega)
        refine ⟨s', ?_⟩
        simp only [run, hnext, bind, Except.bind, hvisit]
        exact hrun
      · refine ⟨s₁, ?_⟩
        simp only [run, hnext, bind, Except.bind]
        rfl

/-- A unit that is about to start has come nowhere but to the entries of its routines. -/
theorem Opens.stands (h : s.Opens bodies) (hs : s.Fresh bodies) :
    s.Stands bodies (s.reach bodies) := by
  refine ⟨hs.fits, hs.bodies, fun _ => 0, ?_, fun _ => Nat.zero_le _, ?_⟩
  · intro r run p hrun hp
    have hempty : run.facts.returned = .empty := (h.new hrun).returned
    rw [h.published hp]
    exact .returned (m := .empty) .empty (by rw [hempty]; rfl) rfl (Summary.beq_self _)
  · simp

end Solver

/-- A number of visits that is enough for every unit of so many bodies, blocks and variables. -/
def visitBound (bodies blocks vars : Nat) : Nat :=
  blocks * (bodies + 2) * (blocks * (67 * vars + 1) + bodies * 65 + 1)

theorem toGo_le_visitBound (bodies : List Body) (s : Solver) (n : Nat) :
    s.toGo bodies n ≤ visitBound bodies.length (bodies.map fun b => b.blocks.size).sum
      (bodies.map fun b => b.vars.length).sum := by
  have hbodies : (unitRoutines bodies).card ≤ bodies.length := by
    calc (unitRoutines bodies).card ≤ (bodies.map Body.routine).length := List.toFinset_card_le _
      _ = bodies.length := List.length_map ..
  have hblocks : (unitBlocks bodies).card ≤ (bodies.map fun b => b.blocks.size).sum := by
    apply (List.toFinset_card_le _).trans
    simp [List.length_flatMap]
  have hload : Solver.maxLoad bodies ≤
      (bodies.map fun b => b.blocks.size).sum * (bodies.length + 2) :=
    Nat.mul_le_mul hblocks (Nat.add_le_add_right hbodies 2)
  have hprogress : Solver.maxProgress bodies ≤ (bodies.map fun b => b.blocks.size).sum *
      (67 * (bodies.map fun b => b.vars.length).sum + 1) + bodies.length * 65 :=
    Nat.add_le_add (Nat.mul_le_mul_right _ hblocks) (Nat.mul_le_mul_right _ hbodies)
  calc s.toGo bodies n
      ≤ Solver.maxLoad bodies + Solver.maxLoad bodies * Solver.maxProgress bodies :=
        Nat.add_le_add (Solver.load_le s) (Nat.mul_le_mul_left _ (Nat.sub_le ..))
    _ = Solver.maxLoad bodies * (Solver.maxProgress bodies + 1) := by
      rw [Nat.mul_succ, Nat.add_comm]
    _ ≤ _ := Nat.mul_le_mul hload (Nat.succ_le_succ hprogress)

/-- A unit is reported as converged if its run converges. -/
theorem converged_of_run {d : Declarations} {o : Options} {unit : List (Body × RoutineDecl)}
    {s₀ s : Solver} {r : InferResult} {converged : Bool}
    (hstart : Solver.start o.kindCap unit = .ok s₀)
    (hrun : s₀.run d o o.maxIterations = .ok (converged, s)) (h : solve d o unit = .ok r) :
    r.converged = converged := by
  simp only [solve, hstart, hrun, bind, Except.bind] at h
  split at h
  · cases h
  · cases h
    rfl

/-- Inference converges within a number of visits that depends only on how many bodies, blocks and
variables a unit has, whatever it declares, computes and calls. -/
theorem converged_of_visitBound_le {d : Declarations} {o : Options} {bodies : List Body}
    {unit : List (Body × RoutineDecl)} (hunit : checkUnit d [] bodies = .ok unit)
    (h : visitBound bodies.length (bodies.map fun b => b.blocks.size).sum
      (bodies.map fun b => b.vars.length).sum ≤ o.maxIterations) :
    ∃ r, infer d o bodies false = .ok r ∧ r.converged = true := by
  obtain ⟨s₀, hstart, -, hfresh⟩ := unitStart?_ok hunit o
  have hstands := (Solver.opens_of_start hunit hstart).stands hfresh
  obtain ⟨s, hrun⟩ : ∃ s, s₀.run d o o.maxIterations = .ok (true, s) :=
    Solver.run_converges hstands ((toGo_le_visitBound bodies s₀ _).trans h)
  obtain ⟨r, -, -, hsolve, -⟩ := solve_ok hunit o
  refine ⟨r, ?_, ?_⟩
  · rw [infer_of_checkUnit hunit, hsolve]
    rfl
  · exact converged_of_run hstart hrun hsolve

/-- The two functions `walk` and `items`, with as many visits as are certainly enough for them. -/
theorem converged_of_visitBound_le_walk :
    ∃ unit r, checkUnit Sample.declarations [] [Sample.walk, Sample.items] = .ok unit ∧
      visitBound 2 5 1 = 9420 ∧
      infer Sample.declarations ⟨60, 9420, true⟩ [Sample.walk, Sample.items] false = .ok r ∧
      r.converged = true := by
  have hcheck : (checkUnit Sample.declarations [] [Sample.walk, Sample.items]).toOption.any
      (fun _ => true) = true := by decide +kernel
  obtain ⟨unit, hunit, -⟩ := any_toOption_iff.1 hcheck
  obtain ⟨r, hr, hconverged⟩ :=
    converged_of_visitBound_le (o := ⟨60, 9420, true⟩) hunit (by decide)
  exact ⟨unit, r, hunit, by decide, hr, hconverged⟩

end FlowTyping
