import FlowTyping.Proofs.Solver.Run

/-!
# Where the states on entry come from

`Arrival` lists the states that have come to a block: one at the start of the routine, and those
that visits to other blocks sent there. Main statement: `Reaches.collects`. The entry of a block
subsumes every arrival and admits nothing else, and the facts of a routine only grow from visit to
visit.
-/

namespace FlowTyping

namespace RoutineRun

variable {run run' : RoutineRun} {x : VarId} {k : Option Nat}

/-- What joining a state into the entry of a block can do. -/
theorem mergeEntry_cases {b : BlockId} {st : State} {grew : Bool}
    (h : run.mergeEntry b st = .ok (grew, run')) :
    ∃ new, (∀ c, run'.entry? c = if b = c then some new else run.entry? c) ∧
      (run.entry? b = none ∧ grew = true ∧ new = st ∨
        ∃ old, run.entry? b = some old ∧ old.join st = .ok new ∧ grew = (new != old)) := by
  rw [mergeEntry] at h
  cases hslot : run.entries[b]? with
  | none =>
      rw [hslot] at h
      cases h
  | some slot =>
      have hb : b < run.entries.size := (Array.getElem?_eq_some_iff.1 hslot).1
      cases slot with
      | none =>
          rw [hslot] at h
          cases h
          have hfresh : run.entry? b = none := by
            rw [RoutineRun.entry?, hslot]
            rfl
          exact ⟨st, fun c => entry?_set run hb, Or.inl ⟨hfresh, rfl, rfl⟩⟩
      | some old =>
          rw [hslot] at h
          cases habsorb : old.absorb st with
          | error fault => simp [habsorb, bind, Except.bind] at h
          | ok absorbed =>
              obtain ⟨hjoin, hgrew⟩ := State.absorb_eq_ok_iff.1 habsorb
              simp only [habsorb, bind, Except.bind, pure, Except.pure, Except.ok.injEq,
                Prod.mk.injEq] at h
              obtain ⟨rfl, rfl⟩ := h
              exact ⟨absorbed.2, fun c => entry?_set run hb,
                Or.inr ⟨old, entry?_eq_some.2 hslot, hjoin, hgrew⟩⟩

/-- A block is reached for the first time only by a state that adds something. -/
theorem mergeEntry_fresh {b c : BlockId} {st : State} {grew : Bool}
    (h : run.mergeEntry b st = .ok (grew, run')) (hc : (run'.entry? c).isSome) :
    (run.entry? c).isSome ∨ b = c ∧ grew = true := by
  obtain ⟨new, hentry, hcases⟩ := mergeEntry_cases h
  rw [hentry] at hc
  split at hc
  · rename_i heq
    rcases hcases with ⟨-, hgrew, -⟩ | ⟨old, hold, -⟩
    · exact Or.inr ⟨heq, hgrew⟩
    · rw [← heq, hold]
      exact Or.inl rfl
  · exact Or.inl hc

/-- Joining a state into the entry of a block adds only what the state admits. -/
theorem mergeEntry_origin {b c : BlockId} {st new : State} {grew : Bool}
    (h : run.mergeEntry b st = .ok (grew, run')) (hnew : run'.entry? c = some new)
    (hplain : ¬new.Shares x) (hk : new.Admits x k) :
    (∃ old, run.entry? c = some old ∧ ¬old.Shares x ∧ old.Admits x k) ∨ b = c ∧ st.Admits x k := by
  obtain ⟨joined, hentry, hcases⟩ := mergeEntry_cases h
  rw [hentry] at hnew
  split at hnew
  · rename_i heq
    cases hnew
    rcases hcases with ⟨-, -, rfl⟩ | ⟨old, hold, hjoin, -⟩
    · exact Or.inr ⟨heq, hk⟩
    · rcases State.admits_of_join hjoin hplain hk with hk | hk
      · exact Or.inl ⟨old, heq ▸ hold, fun hs => hplain (State.shares_of_join hjoin hs), hk⟩
      · exact Or.inr ⟨heq, hk⟩
  · exact Or.inl ⟨new, hnew, hplain, hk⟩

/-- Joining states in, one after the other. -/
theorem mergeEntries_cons {b : BlockId} {st : State} {flows : List (BlockId × State)}
    {grown : List BlockId} (h : run.mergeEntries ((b, st) :: flows) = .ok (grown, run')) :
    ∃ grew run₁ grown', run.mergeEntry b st = .ok (grew, run₁) ∧
      run₁.mergeEntries flows = .ok (grown', run') ∧
      grown = if grew then b :: grown' else grown' := by
  rw [mergeEntries] at h
  cases hmerge : run.mergeEntry b st with
  | error fault => simp [hmerge, bind, Except.bind] at h
  | ok r =>
      cases hmerges : r.2.mergeEntries flows with
      | error fault => simp [hmerge, hmerges, bind, Except.bind] at h
      | ok r' =>
          simp only [hmerge, hmerges, bind, Except.bind, pure, Except.pure, Except.ok.injEq,
            Prod.mk.injEq] at h
          obtain ⟨rfl, rfl⟩ := h
          exact ⟨r.1, r.2, r'.1, rfl, hmerges, rfl⟩

/-- A block that has a state was reached before or has grown now. -/
theorem mergeEntries_fresh {flows : List (BlockId × State)} {grown : List BlockId} {c : BlockId}
    (h : run.mergeEntries flows = .ok (grown, run')) (hc : (run'.entry? c).isSome) :
    (run.entry? c).isSome ∨ c ∈ grown := by
  induction flows generalizing run grown with
  | nil =>
      cases h
      exact Or.inl hc
  | cons e flows ih =>
      obtain ⟨grew, run₁, grown', hmerge, hmerges, rfl⟩ := mergeEntries_cons h
      rcases ih hmerges with hc | hc
      · rcases mergeEntry_fresh hmerge hc with hc | ⟨rfl, rfl⟩
        · exact Or.inl hc
        · exact Or.inr (List.mem_cons_self ..)
      · right
        split
        · exact List.mem_cons_of_mem _ hc
        · exact hc

/-- A kind that a state admits came from the state before or from one of the flows. -/
theorem mergeEntries_origin {flows : List (BlockId × State)} {grown : List BlockId} {c : BlockId}
    {new : State} (h : run.mergeEntries flows = .ok (grown, run')) (hnew : run'.entry? c = some new)
    (hplain : ¬new.Shares x) (hk : new.Admits x k) :
    (∃ old, run.entry? c = some old ∧ ¬old.Shares x ∧ old.Admits x k) ∨
      ∃ (n : Nat) (st : State), flows[n]? = some (c, st) ∧ st.Admits x k := by
  induction flows generalizing run grown with
  | nil =>
      cases h
      exact Or.inl ⟨new, hnew, hplain, hk⟩
  | cons e flows ih =>
      obtain ⟨grew, run₁, grown', hmerge, hmerges, rfl⟩ := mergeEntries_cons h
      rcases ih hmerges with ⟨mid, hmid, hplain₁, hk₁⟩ | ⟨n, st, hflow, hst⟩
      · rcases mergeEntry_origin hmerge hmid hplain₁ hk₁ with hold | ⟨rfl, hst⟩
        · exact Or.inl hold
        · exact Or.inr ⟨0, e.2, rfl, hst⟩
      · exact Or.inr ⟨n + 1, st, hflow, hst⟩

end RoutineRun

namespace Visited.Real

variable {d : Declarations} {o : Options} {v : Visited} {s' : Solver} (h : v.Real d)

theorem entry?_unit {ref : BlockRef} (h : v.Real d) (hr : v.ref.1 = ref.1) :
    v.unit.entry? ref = v.run.entry? ref.2 := by
  rw [Solver.entry?, ← hr, h.run]
  rfl

include h

/-- A visit that is held back leaves all entries alone. -/
theorem entry?_of_held (hvisit : v.unit.visit d o v.ref = .ok s') (hheld : v.isHeld o = true)
    (ref : BlockRef) : s'.entry? ref = v.unit.entry? ref := by
  obtain ⟨callee, -, hvisit'⟩ := h.visit_of_held hheld
  cases hvisit.symm.trans hvisit'
  have hruns : (v.deferred callee).runs = v.unit.runs.insert v.ref.1 v.after := rfl
  rw [Solver.entry?_of_insert hruns]
  split
  · rename_i hr
    exact (h.entry?_unit hr).symm
  · rfl

/-- A visit that is sent on changes the entries by joining in the states that it found. -/
theorem merges_of_sent (hs : v.unit.Fits) (hvisit : v.unit.visit d o v.ref = .ok s')
    (hsent : v.isHeld o = false) :
    ∃ grown run', v.after.mergeEntries (Solver.flows v.block v.outcome) = .ok (grown, run') ∧
      s'.runs = v.unit.runs.insert v.ref.1 run' ∧ ∀ b ∈ grown, (v.ref.1, b) ∈ s'.agenda.queue := by
  obtain ⟨grown, run', hmerge, -, hext, -⟩ :=
    RoutineRun.mergeEntries_ok (h.after_fits hs) (h.flows_fit hs)
  have hroutine : run'.body.routine = v.ref.1 := by
    rw [hext.rest]
    exact (hs.runs h.run).1
  rw [h.visit_of_sent hsent, Solver.propagate, hmerge] at hvisit
  cases hvisit
  rw [hroutine]
  refine ⟨grown, run', hmerge, rfl, fun b hb => ?_⟩
  exact Agenda.mem_queue_enqueueAll.2 (Or.inr (List.mem_map_of_mem hb))

/-- After a visit, the routine has the facts that the visit found. -/
theorem run_after (hs : v.unit.Fits) (hvisit : v.unit.visit d o v.ref = .ok s') :
    ∃ run, s'.runs.find? v.ref.1 = some run ∧ run.body = v.run.body ∧
      v.scene.facts.Below run.facts := by
  cases hheld : v.isHeld o with
  | true =>
      obtain ⟨callee, -, hvisit'⟩ := h.visit_of_held hheld
      cases hvisit.symm.trans hvisit'
      refine ⟨v.after, ?_, rfl, .refl _⟩
      rw [deferred, OrderedMap.find?_insert, if_pos rfl]
  | false =>
      obtain ⟨grown, run', hmerge, hruns, -⟩ := h.merges_of_sent hs hvisit hheld
      obtain ⟨grown', run₂, hmerge₂, -, hext, -⟩ :=
        RoutineRun.mergeEntries_ok (h.after_fits hs) (h.flows_fit hs)
      cases hmerge.symm.trans hmerge₂
      refine ⟨run', ?_, ?_, ?_⟩
      · rw [hruns, OrderedMap.find?_insert, if_pos rfl]
      · rw [hext.rest]
        rfl
      · rw [hext.rest]
        exact .refl _

/-- A block that a visit reaches for the first time is in the queue. -/
theorem visit_fresh (hs : v.unit.Fits) (hvisit : v.unit.visit d o v.ref = .ok s') {ref : BlockRef}
    (href : (s'.entry? ref).isSome) : (v.unit.entry? ref).isSome ∨ ref ∈ s'.agenda.queue := by
  cases hheld : v.isHeld o with
  | true =>
      rw [h.entry?_of_held hvisit hheld] at href
      exact Or.inl href
  | false =>
      obtain ⟨grown, run', hmerge, hruns, hqueue⟩ := h.merges_of_sent hs hvisit hheld
      rw [Solver.entry?_of_insert hruns] at href
      split at href
      · rename_i hr
        rw [h.entry?_unit hr]
        refine (RoutineRun.mergeEntries_fresh hmerge href).imp_right fun hgrown => ?_
        have hown := hqueue ref.2 hgrown
        rwa [hr] at hown
      · exact Or.inl href

/-- A visit adds to an entry only what one of the states that it sends on admits. -/
theorem visit_origin (hs : v.unit.Fits) (hvisit : v.unit.visit d o v.ref = .ok s') {ref : BlockRef}
    {new : State} {x : VarId} {k : Option Nat} (hnew : s'.entry? ref = some new)
    (hplain : ¬new.Shares x) (hk : new.Admits x k) :
    (∃ old, v.unit.entry? ref = some old ∧ ¬old.Shares x ∧ old.Admits x k) ∨
      v.isHeld o = false ∧ v.ref.1 = ref.1 ∧ ∃ (n : Nat) (st : State),
        (Solver.flows v.block v.outcome)[n]? = some (ref.2, st) ∧ st.Admits x k := by
  cases hheld : v.isHeld o with
  | true =>
      rw [h.entry?_of_held hvisit hheld] at hnew
      exact Or.inl ⟨new, hnew, hplain, hk⟩
  | false =>
      obtain ⟨grown, run', hmerge, hruns, -⟩ := h.merges_of_sent hs hvisit hheld
      rw [Solver.entry?_of_insert hruns] at hnew
      split at hnew
      · rename_i hr
        rw [h.entry?_unit hr]
        exact (RoutineRun.mergeEntries_origin hmerge hnew hplain hk).imp_right fun hflow =>
          ⟨rfl, hr, hflow⟩
      · exact Or.inl ⟨new, hnew, hplain, hk⟩

end Visited.Real

namespace Solver

variable {d : Declarations} {o : Options} {s₀ s s' : Solver} {log : List Visited}

/-- A state that has come to a block, and from where: at the start, or as the state that a visit to
a block sent on at some place in its list. -/
inductive Arrival (o : Options) (s₀ : Solver) (log : List Visited) (ref : BlockRef) :
    Option (BlockRef × Nat) → State → Prop
  | start {st : State} (h : s₀.entry? ref = some st) : Arrival o s₀ log ref none st
  | sent {v : Visited} {n : Nat} {st : State} (hv : v ∈ log) (hsent : v.isHeld o = false)
      (hroutine : v.ref.1 = ref.1) (hflow : (flows v.block v.outcome)[n]? = some (ref.2, st)) :
      Arrival o s₀ log ref (some (v.ref, n)) st

/-- What the visits so far have brought together. -/
structure Collects (o : Options) (s₀ s : Solver) (log : List Visited) : Prop where
  /-- A block that has been reached is queued or was visited. -/
  reached : ∀ ref, (s.entry? ref).isSome → ref ∈ s.agenda.queue ∨ ∃ v ∈ log, v.ref = ref
  arrived : ∀ {ref : BlockRef} {source : Option (BlockRef × Nat)} {st : State},
    Arrival o s₀ log ref source st →
      ∃ entry, s.entry? ref = some entry ∧ entry.subsumes st = .ok true
  origin : ∀ {ref : BlockRef} {entry : State}, s.entry? ref = some entry →
    ∀ {x : VarId} {k : Option Nat}, ¬entry.Shares x → entry.Admits x k →
      ∃ source st, Arrival o s₀ log ref source st ∧ st.Admits x k
  /-- What a visit found is still known. -/
  known : ∀ v ∈ log, ∃ run, s.runs.find? v.ref.1 = some run ∧ run.body = v.run.body ∧
    v.scene.facts.Below run.facts
  /-- The last visit to a block knows what the earlier ones found. -/
  ordered : ∀ {ref : BlockRef} {w : Visited}, lastVisit? log ref = some w →
    ∀ v ∈ log, v.ref = ref → v = w ∨ v.scene.facts.Below w.run.facts

/-- What has arrived stays arrived as the log grows. -/
theorem Arrival.mono {log' : List Visited} {ref : BlockRef} {source : Option (BlockRef × Nat)}
    {st : State} (h : Arrival o s₀ log ref source st) (hsub : ∀ v ∈ log, v ∈ log') :
    Arrival o s₀ log' ref source st := by
  cases h with
  | start h => exact .start h
  | sent hv hsent hroutine hflow => exact .sent (hsub _ hv) hsent hroutine hflow

/-- What arrives from a block was sent by a visit to it. -/
theorem Arrival.exists_visit {ref c : BlockRef} {n : Nat} {st : State}
    (h : Arrival o s₀ log ref (some (c, n)) st) :
    ∃ v ∈ log, v.ref = c ∧ (flows v.block v.outcome)[n]? = some (ref.2, st) := by
  cases h with
  | sent hv _ _ hflow => exact ⟨_, hv, rfl, hflow⟩

/-- After one more visit, an arrival is an old one or was sent by that visit. -/
theorem Arrival.concat {v : Visited} {ref : BlockRef} {source : Option (BlockRef × Nat)}
    {st : State} (h : Arrival o s₀ (log ++ [v]) ref source st) :
    Arrival o s₀ log ref source st ∨
      v.isHeld o = false ∧ v.ref.1 = ref.1 ∧ (ref.2, st) ∈ flows v.block v.outcome := by
  cases h with
  | start h => exact Or.inl (.start h)
  | sent hv hsent hroutine hflow =>
      rcases List.mem_append.1 hv with hv | hv
      · exact Or.inl (.sent hv hsent hroutine hflow)
      · cases List.mem_singleton.1 hv
        exact Or.inr ⟨hsent, hroutine, List.mem_of_getElem? hflow⟩

namespace Collects

/-- At the outset nothing has been sent, and all that has been reached is queued. -/
theorem start {bodies : List Body} (hs₀ : s₀.Fresh bodies) : Collects o s₀ s₀ [] := by
  refine ⟨fun ref href => Or.inl (hs₀.queued ref href), fun harrival => ?_,
    fun hentry _ _ _ hk => ⟨none, _, .start hentry, hk⟩, fun v hv => (nomatch hv),
    fun hw => (nomatch hw)⟩
  cases harrival with
  | start h =>
      obtain ⟨run, hrun, hst⟩ := Option.bind_eq_some_iff.1 h
      exact ⟨_, h, State.subsumes_self ((hs₀.fits.runs hrun).2.states hst).proper⟩
  | sent hv => cases hv

/-- The end of a round brings nothing new to any block. -/
theorem round (h : Collects o s₀ s log) (ha : s.Advances s') (hi : s.Idles s') :
    Collects o s₀ s' log := by
  refine ⟨fun ref href => ?_, fun {ref _ _} harrival => ?_, fun {ref _} hentry => ?_,
    fun v hv => ?_, h.ordered⟩
  · rw [hi.entry?] at href
    exact (h.reached ref href).imp_left (ha.queue ref)
  · rw [hi.entry?]
    exact h.arrived harrival
  · rw [hi.entry?] at hentry
    exact h.origin hentry
  · obtain ⟨run, hrun, hbody, hbelow⟩ := h.known v hv
    obtain ⟨run', hrun', hbody', hbelow'⟩ := ha.run hrun
    exact ⟨run', hrun', hbody'.trans hbody, hbelow.trans hbelow'⟩

/-- A visit brings the states that it sends on. -/
theorem visit {v : Visited} (h : Collects o s₀ s log) (hs : s.Fits)
    (hdequeues : s.Dequeues v.ref v.unit) (hreal : v.Real d)
    (hvisit : v.unit.visit d o v.ref = .ok s') : Collects o s₀ s' (log ++ [v]) := by
  have hs₁ := hdequeues.fits hs
  obtain ⟨s₂, hvisit₂, -, hadvances, htracks, -⟩ := hreal.visit_ok hs₁ o
  cases hvisit.symm.trans hvisit₂
  have hold : ∀ w ∈ log, w ∈ log ++ [v] := fun w hw => List.mem_append_left _ hw
  have hnew : v ∈ log ++ [v] := List.mem_append_right _ (List.mem_singleton.2 rfl)
  have hrun : ∃ run, s'.runs.find? v.ref.1 = some run ∧ run.body = v.run.body ∧
      v.scene.facts.Below run.facts := hreal.run_after hs₁ hvisit
  refine ⟨fun ref href => ?_, fun {ref _ _} harrival => ?_, fun {ref _} hentry x k hplain hk => ?_,
    fun w hw => ?_, fun {ref w} hw u hu href => ?_⟩
  · rcases hreal.visit_fresh hs₁ hvisit href with href | hqueued
    · rw [hdequeues.entry?] at href
      rcases h.reached ref href with hqueued | ⟨w, hw, rfl⟩
      · rw [hdequeues.queue] at hqueued
        rcases List.mem_cons.1 hqueued with rfl | hqueued
        · exact Or.inr ⟨v, hnew, rfl⟩
        · exact Or.inl (hadvances.queue ref hqueued)
      · exact Or.inr ⟨w, hold w hw, rfl⟩
    · exact Or.inl hqueued
  · rcases harrival.concat with harrival | ⟨hsent, hroutine, hflow⟩
    · obtain ⟨entry, hentry, hsub⟩ := h.arrived harrival
      rw [← hdequeues.entry?] at hentry
      obtain ⟨entry', hentry', hbelow, -⟩ := hadvances.entry hentry
      exact ⟨entry', hentry', hbelow _ hsub⟩
    · have hfinal := htracks.flows hsent _ hflow
      rwa [hroutine] at hfinal
  · rcases hreal.visit_origin hs₁ hvisit hentry hplain hk with
      ⟨old, hentry', hplain', hk'⟩ | ⟨hsent, hroutine, n, st, hflow, hst⟩
    · rw [hdequeues.entry?] at hentry'
      obtain ⟨source, st, harrival, hst⟩ := h.origin hentry' hplain' hk'
      exact ⟨source, st, harrival.mono hold, hst⟩
    · exact ⟨some (v.ref, n), st, .sent hnew hsent hroutine hflow, hst⟩
  · rcases List.mem_append.1 hw with hw | hw
    · obtain ⟨run, hrun, hbody, hbelow⟩ := h.known w hw
      rw [← hdequeues.runs] at hrun
      obtain ⟨run', hrun', hbody', hbelow'⟩ := hadvances.run hrun
      exact ⟨run', hrun', hbody'.trans hbody, hbelow.trans hbelow'⟩
    · cases List.mem_singleton.1 hw
      exact hrun
  · rw [lastVisit?_concat] at hw
    split at hw
    · rename_i hlast
      cases hw
      rcases List.mem_append.1 hu with hu | hu
      · obtain ⟨run, hrun, -, hbelow⟩ := h.known u hu
        rw [← hdequeues.runs, href, ← hlast, hreal.run] at hrun
        cases hrun
        exact Or.inr hbelow
      · exact Or.inl (List.mem_singleton.1 hu)
    · rename_i hne
      rcases List.mem_append.1 hu with hu | hu
      · exact h.ordered hw u hu href
      · cases List.mem_singleton.1 hu
        exact absurd href hne

end Collects

/-- Along a run, the entries bring together just what arrives. -/
theorem Reaches.collects {bodies : List Body} (h : Reaches d o s₀ s log) (hs₀ : s₀.Fresh bodies) :
    Collects o s₀ s log := by
  induction h with
  | start => exact .start hs₀
  | round h hend ih =>
      obtain ⟨s₁, hend₁, -, hadvances, -, -, hidles⟩ := endRound_ok (h.fits hs₀.fits)
      cases hend.symm.trans hend₁
      exact ih.round hadvances hidles
  | visit h hdequeues hreal hvisit ih => exact ih.visit (h.fits hs₀.fits) hdequeues hreal hvisit

end Solver

end FlowTyping
