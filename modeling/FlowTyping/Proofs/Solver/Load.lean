import FlowTyping.Proofs.Solver.Change
import Mathlib.Algebra.Order.BigOperators.Group.Finset

/-!
# The load of the agenda

`Solver.load` bounds the visits that are still to come as long as no entry and no published result
changes: a queued block may be held back once before it goes through, and a block that is held back
is queued once more. Main statements: `Visited.Leaves.load_lt`, by which a visit that adds nothing
takes some of the load away, and `release_load_le`, by which releasing adds none.
-/

namespace FlowTyping

namespace Solver

/-- The block must go through on its next visit. -/
def insistsOn (s : Solver) (ref : BlockRef) : Bool :=
  (s.runs.find? ref.1).any fun run => decide (ref.2 ∈ run.mustComplete)

attribute [local instance] BlockRef.lawfulBEq

/-- The visits that the queue promises a block: two if it may still be held back. -/
def queued (s : Solver) (ref : BlockRef) : Nat :=
  if ref ∈ s.agenda.queue then if s.insistsOn ref then 1 else 2 else 0

variable (K : Finset RoutineId) (R : Finset BlockRef)

/-- The routines that a block is held back for. -/
def holders (s : Solver) (ref : BlockRef) : Finset RoutineId :=
  K.filter fun r => ref ∈ s.agenda.deferred r

/-- The visits that the agenda promises a block. -/
def duty (s : Solver) (ref : BlockRef) : Nat :=
  s.queued ref + (s.holders K ref).card

/-- The visits that the agenda promises to some blocks. -/
def load (s : Solver) : Nat :=
  ∑ ref ∈ R, s.duty K ref

variable {K R} {s s' : Solver}

theorem queued_le (s : Solver) (ref : BlockRef) : s.queued ref ≤ 2 := by
  rw [queued]
  split
  · split <;> omega
  · omega

theorem duty_le (s : Solver) (ref : BlockRef) : s.duty K ref ≤ K.card + 2 := by
  have hqueued := s.queued_le ref
  have hholders : (s.holders K ref).card ≤ K.card := Finset.card_filter_le ..
  rw [duty]
  omega

/-- The load is bounded by the blocks and routines there are. -/
theorem load_le (s : Solver) : s.load K R ≤ R.card * (K.card + 2) :=
  Finset.sum_le_card_nsmul R _ _ fun ref _ => s.duty_le ref

theorem one_le_queued {ref : BlockRef} (h : ref ∈ s.agenda.queue) : 1 ≤ s.queued ref := by
  rw [queued, if_pos h]
  split <;> omega

theorem holders_congr (h : s'.agenda.dependents = s.agenda.dependents) (ref : BlockRef) :
    s'.holders K ref = s.holders K ref := by
  rw [holders, holders]
  congr
  funext r
  rw [Agenda.deferred_congr h]

theorem load_withRun {r : RoutineId} {run run' : RoutineRun} (hrun : s.runs.find? r = some run)
    (hsame : run'.mustComplete = run.mustComplete) : (s.withRun r run').load K R = s.load K R := by
  have hinsists (c : BlockRef) : (s.withRun r run').insistsOn c = s.insistsOn c := by
    rw [insistsOn, insistsOn, withRun, OrderedMap.find?_insert]
    split
    · rename_i hr
      rw [← hr, hrun, Option.any_some, Option.any_some, hsame]
    · rfl
  have hagenda : (s.withRun r run').agenda = s.agenda := rfl
  simp only [load, duty, queued, holders, hagenda, hinsists]

/-- A block that has been taken from the queue is no longer in it. -/
theorem Dequeues.not_mem {ref : BlockRef} (h : s.Dequeues ref s') : ref ∉ s'.agenda.queue := by
  have hnodup := s.agenda.inStep.nodup
  rw [h.queue, List.nodup_cons] at hnodup
  exact hnodup.1

/-- Taking a block from the queue takes away what the queue promised it, and nothing else. -/
theorem Dequeues.duty {ref : BlockRef} (h : s.Dequeues ref s') (c : BlockRef) :
    s'.duty K c + (if c = ref then s.queued ref else 0) = s.duty K c := by
  have hinsists : s'.insistsOn c = s.insistsOn c := by rw [insistsOn, insistsOn, h.runs]
  rw [Solver.duty, Solver.duty, holders_congr h.dependents]
  by_cases hc : c = ref
  · subst hc
    have hgone : s'.queued c = 0 := if_neg h.not_mem
    rw [hgone, if_pos rfl]
    omega
  · have hsame : s'.queued c = s.queued c := by
      rw [Solver.queued, Solver.queued, h.queue, hinsists]
      simp only [List.mem_cons, hc, false_or]
    rw [hsame, if_neg hc]
    omega

end Solver

namespace Visited.Leaves

variable {o : Options} {v : Visited} {s' : Solver} {run' : RoutineRun} {d : Declarations}
  {K : Finset RoutineId} {R : Finset BlockRef}

theorem insistsOn (h : v.Leaves o s' run') (hrun : v.unit.runs.find? v.ref.1 = some v.run)
    {c : BlockRef} (hc : c ≠ v.ref) : s'.insistsOn c = v.unit.insistsOn c := by
  rw [Solver.insistsOn, Solver.insistsOn, h.runs, OrderedMap.find?_insert]
  by_cases hr : v.ref.1 = c.1
  · have hblock : c.2 ≠ v.ref.2 := fun heq => hc (Prod.ext hr.symm heq)
    rw [if_pos hr, ← hr, hrun]
    simp [h.mustComplete, hblock]
  · rw [if_neg hr]

/-- A visit that is held back promises its block one more visit, and the others none. -/
theorem duty_of_held (h : v.Leaves o s' run') (hreal : v.Real d) (hs : v.unit.Fits)
    (hheld : v.isHeld o = true) (hown : v.ref ∉ v.unit.agenda.queue) (c : BlockRef) :
    s'.duty K c ≤ v.unit.duty K c + if c = v.ref then 1 else 0 := by
  obtain ⟨-, callee, -, hagenda⟩ := h.held hheld
  have hmoves := hreal.moves hs
  have hqueue : s'.agenda.queue = v.unit.agenda.queue := by
    rw [hagenda]
    exact hmoves.queue
  have hdeferred (r : RoutineId) :
      c ∈ s'.agenda.deferred r ↔ c ∈ v.unit.agenda.deferred r ∨ c = v.ref ∧ callee = r := by
    rw [hagenda, Agenda.mem_deferred_defer, hmoves.deferred]
    rfl
  by_cases hc : c = v.ref
  · subst hc
    have hgone : s'.queued v.ref = 0 := if_neg (hqueue ▸ hown)
    have hholders : s'.holders K v.ref ⊆ insert callee (v.unit.holders K v.ref) := by
      intro r hr
      rw [Solver.holders, Finset.mem_filter, hdeferred] at hr
      rw [Finset.mem_insert, Solver.holders, Finset.mem_filter]
      rcases hr with ⟨hr, hold | ⟨-, rfl⟩⟩
      · exact Or.inr ⟨hr, hold⟩
      · exact Or.inl rfl
    have hcard := (Finset.card_le_card hholders).trans (Finset.card_insert_le ..)
    rw [Solver.duty, Solver.duty, if_pos rfl]
    omega
  · have hsame : s'.queued c = v.unit.queued c := by
      rw [Solver.queued, Solver.queued, hqueue, h.insistsOn hreal.run hc]
    have hholders : s'.holders K c = v.unit.holders K c := by
      rw [Solver.holders, Solver.holders]
      congr
      funext r
      simp [hdeferred, hc]
    rw [Solver.duty, Solver.duty, hsame, hholders, if_neg hc]
    exact Nat.le_refl _

/-- A visit that adds nothing to any entry promises nothing. -/
theorem duty_of_sent (h : v.Leaves o s' run') (hreal : v.Real d) (hs : v.unit.Fits)
    (hagenda : s'.agenda = v.scene.agenda) (hown : v.ref ∉ v.unit.agenda.queue) (c : BlockRef) :
    s'.duty K c = v.unit.duty K c := by
  have hmoves := hreal.moves hs
  have hqueue : s'.agenda.queue = v.unit.agenda.queue := by
    rw [hagenda]
    exact hmoves.queue
  have hholders : s'.holders K c = v.unit.holders K c := by
    rw [Solver.holders, Solver.holders]
    congr
    funext r
    rw [hagenda, hmoves.deferred]
    rfl
  have hsame : s'.queued c = v.unit.queued c := by
    by_cases hc : c = v.ref
    · subst hc
      rw [Solver.queued, Solver.queued, hqueue, if_neg hown, if_neg hown]
    · rw [Solver.queued, Solver.queued, hqueue, h.insistsOn hreal.run hc]
  rw [Solver.duty, Solver.duty, hsame, hholders]

/-- A visit takes some of the load away, unless it adds something to an entry. -/
theorem load_lt {s : Solver} (h : v.Leaves o s' run') (hreal : v.Real d) (hs : s.Fits)
    (hdequeues : s.Dequeues v.ref v.unit) (hR : v.ref ∈ R) :
    s'.load K R < s.load K R ∨
      ∃ grown, v.isHeld o = false ∧ grown ≠ [] ∧
        v.after.mergeEntries (Solver.flows v.block v.outcome) = .ok (grown, run') := by
  have hs₁ := hdequeues.fits hs
  have hqueued : 1 ≤ s.queued v.ref :=
    Solver.one_le_queued (hdequeues.queue ▸ List.mem_cons_self ..)
  have hown : v.ref ∉ v.unit.agenda.queue := hdequeues.not_mem
  have hbefore (c : BlockRef) := hdequeues.duty (K := K) c
  have hlt (hduty : ∀ c, s'.duty K c + (if c = v.ref then 1 else 0) ≤ s.duty K c) :
      s'.load K R < s.load K R := by
    apply Finset.sum_lt_sum
    · intro c _
      exact Nat.le_of_add_right_le (hduty c)
    · refine ⟨v.ref, hR, ?_⟩
      have hv := hduty v.ref
      rw [if_pos rfl] at hv
      exact hv
  cases hheld : v.isHeld o with
  | true =>
      left
      apply hlt
      intro c
      have hb := hbefore c
      have ha := h.duty_of_held (K := K) hreal hs₁ hheld hown c
      by_cases hc : c = v.ref
      · -- A block that may be held back was promised two visits.
        have htwo : s.queued v.ref = 2 := by
          have hfree : s.insistsOn v.ref = false := by
            rw [Visited.isHeld, Bool.and_eq_true] at hheld
            rw [Solver.insistsOn, ← hdequeues.runs, hreal.run]
            simpa using hheld.2
          rw [Solver.queued, if_pos (hdequeues.queue ▸ List.mem_cons_self ..), hfree]
          rfl
        rw [if_pos hc] at ha hb ⊢
        omega
      · rw [if_neg hc] at ha hb ⊢
        omega
  | false =>
      obtain ⟨grown, hmerge, hagenda⟩ := h.sent hheld
      cases grown with
      | cons b grown => exact Or.inr ⟨b :: grown, rfl, by simp, hmerge⟩
      | nil =>
          left
          apply hlt
          intro c
          have hb := hbefore c
          rw [h.duty_of_sent hreal hs₁ hagenda hown c]
          by_cases hc : c = v.ref
          · rw [if_pos hc] at hb ⊢
            omega
          · rw [if_neg hc] at hb ⊢
            omega

end Visited.Leaves

namespace Solver

variable {s s' : Solver} {K : Finset RoutineId} {R : Finset BlockRef}

/-! ### Releasing -/

theorem insistsOn_requireCompletion {ref : BlockRef} (href : (s.runs.find? ref.1).isSome)
    (c : BlockRef) :
    (s.requireCompletion ref).insistsOn c = (s.insistsOn c || decide (c = ref)) := by
  obtain ⟨run, hrun⟩ := Option.isSome_iff_exists.1 href
  simp only [requireCompletion, hrun, insistsOn, OrderedMap.find?_insert]
  by_cases hr : ref.1 = c.1
  · rw [if_pos hr, ← hr, hrun]
    have hc : c = ref ↔ c.2 = ref.2 := by
      constructor
      · intro heq
        rw [heq]
      · intro heq
        exact Prod.ext hr.symm heq
    by_cases hmem : ref.2 ∈ run.mustComplete
    · by_cases hblock : c.2 = ref.2
      · simp [hblock, hmem]
      · simp [hblock, hmem, hc]
    · simp [hmem, hc, Bool.decide_or]
  · have hc : c ≠ ref := fun heq => hr (by rw [heq])
    simp [hr, hc]

/-- The blocks that are queued again must go through. -/
theorem insistsOn_requeue {refs : List BlockRef} (hrefs : ∀ ref ∈ refs, (s.runs.find? ref.1).isSome)
    (c : BlockRef) : (s.requeue refs).insistsOn c = (s.insistsOn c || decide (c ∈ refs)) := by
  induction refs generalizing s with
  | nil => simp [requeue]
  | cons ref refs ih =>
      obtain ⟨href, hrefs⟩ := List.forall_mem_cons.1 hrefs
      let s₁ : Solver := { s.requireCompletion ref with
        agenda := ((s.requireCompletion ref).agenda.enqueue ref).2 }
      have hruns : ∀ ref' ∈ refs, (s₁.runs.find? ref'.1).isSome := by
        intro ref' href'
        rw [show (s₁.runs.find? ref'.1).isSome = (s.runs.find? ref'.1).isSome from
          (requireCompletion_same s ref).isSome ref'.1]
        exact hrefs ref' href'
      have hfirst : s₁.insistsOn c = (s.insistsOn c || decide (c = ref)) :=
        insistsOn_requireCompletion href c
      rw [show s.requeue (ref :: refs) = s₁.requeue refs from rfl, ih hruns, hfirst]
      simp [List.mem_cons, Bool.decide_or, Bool.or_assoc]

/-- A block that is no longer held back for a routine is promised the visit in the queue instead. -/
theorem release_duty_le (hs : s.Fits) {r : RoutineId} (hr : r ∈ K) (c : BlockRef) :
    (s.release r).duty K c ≤ s.duty K c := by
  obtain ⟨-, -, hsame, -, hdeferred⟩ := release_ok hs r
  obtain ⟨-, -, -, hqueue⟩ := release_agenda s r
  have hinsists : (s.release r).insistsOn c =
      (s.insistsOn c || decide (c ∈ s.agenda.deferred r)) := by
    rw [release_eq]
    apply insistsOn_requeue
    intro ref href
    obtain ⟨st, hst⟩ := Option.isSome_iff_exists.1 (hs.held r ref href)
    obtain ⟨run, hrun, -⟩ := Option.bind_eq_some_iff.1 hst
    exact Option.isSome_iff_exists.2 ⟨run, hrun⟩
  have hholders : (s.release r).holders K c = (s.holders K c).erase r := by
    ext r'
    simp only [holders, Finset.mem_filter, Finset.mem_erase, hdeferred]
    by_cases heq : r = r'
    · simp [heq]
    · simp [heq, Ne.symm heq]
  rw [duty, duty, hholders]
  by_cases hc : c ∈ s.agenda.deferred r
  · have hmem : r ∈ s.holders K c := Finset.mem_filter.2 ⟨hr, hc⟩
    have hcard := Finset.card_erase_add_one hmem
    have hone : (s.release r).queued c = 1 := by
      rw [queued, if_pos ((hqueue c).2 (Or.inr hc)), hinsists, decide_eq_true hc, Bool.or_true]
      rfl
    omega
  · have hsame : (s.release r).queued c = s.queued c := by
      rw [queued, queued, hinsists, decide_eq_false hc, Bool.or_false]
      simp only [hqueue, hc, or_false]
    have hcard := Finset.card_erase_le (s := s.holders K c) (a := r)
    omega

/-- To release what was held back does not add to the load. -/
theorem release_load_le (hs : s.Fits) {r : RoutineId} (hr : r ∈ K) :
    (s.release r).load K R ≤ s.load K R :=
  Finset.sum_le_sum fun c _ => release_duty_le hs hr c

end Solver

end FlowTyping
