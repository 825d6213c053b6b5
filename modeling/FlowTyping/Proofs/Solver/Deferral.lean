import FlowTyping.Proofs.Solver.Change
import FlowTyping.Proofs.Solver.Reachable
import FlowTyping.Proofs.Visit.Agenda

/-!
# Holding back blocks without effect

`Solver.Matches` relates a unit in which blocks are held back with the same unit in which none is.
To hold back the only block of a routine holds back no states, since it leads nowhere: what is left
is one more visit when the block is released. If that visit finds nothing new, the units go on
alike.

Main statements: `Matches.visit` for a block that both units visit, `Matches.visit_spare` for one
that only the first visits, and `Matches.endRound`.
-/

namespace FlowTyping

/-- Blocks that are queued in both agendas or in none are queued in both alike. -/
theorem Agenda.sublist_enqueueAll {a b : Agenda} {refs : List BlockRef}
    (h : b.queue.Sublist a.queue) (hrefs : ∀ c ∈ refs, c ∈ a.queue → c ∈ b.queue) :
    (b.enqueueAll refs).queue.Sublist (a.enqueueAll refs).queue := by
  induction refs generalizing a b with
  | nil => exact h
  | cons ref rest ih =>
      obtain ⟨href, hrest⟩ := List.forall_mem_cons.1 hrefs
      apply ih (a := (a.enqueue ref).2) (b := (b.enqueue ref).2)
      · rw [queue_enqueue, queue_enqueue]
        by_cases hqueued : ref ∈ a.queue
        · rw [if_pos hqueued, if_pos (href hqueued)]
          exact h
        · rw [if_neg hqueued, if_neg fun hmem => hqueued (h.subset hmem)]
          exact h.append (.refl _)
      · intro c hc hqueued
        rw [mem_queue_enqueue] at hqueued ⊢
        exact hqueued.imp_left (hrest c hc)

theorem Agenda.queue_enqueueAll_congr {a b : Agenda} (h : b.queue = a.queue)
    (refs : List BlockRef) : (b.enqueueAll refs).queue = (a.enqueueAll refs).queue :=
  List.Sublist.antisymm (sublist_enqueueAll (h ▸ .refl _) fun _ _ hc => h ▸ hc)
    (sublist_enqueueAll (h ▸ .refl _) fun _ _ hc => h ▸ hc)

/-! ### Routines without branches -/

/-- Control does not leave the entry block: the code runs straight from its beginning to its end. -/
def Body.IsStraight (b : Body) : Prop :=
  ∀ block, b.blocks[b.entry]? = some block → block.edge.successors = [] ∧ block.handlers = []

instance (b : Body) : Decidable b.IsStraight :=
  decidable_of_iff
    ((b.blocks[b.entry]?).all fun block =>
      block.edge.successors.isEmpty && block.handlers.isEmpty)
    (by simp [Body.IsStraight, Option.all_eq_true])

/-- In straight code nothing but the entry is reached. -/
theorem Body.IsStraight.eq_entry {b : Body} (h : b.IsStraight) {i : BlockId} (hi : b.Reachable i) :
    i = b.entry := by
  induction hi with
  | entry => rfl
  | successor _ hblock htarget ih =>
      rw [ih] at hblock
      rw [(h _ hblock).1] at htarget
      cases htarget
  | handler _ hblock htarget ih =>
      rw [ih] at hblock
      rw [(h _ hblock).2] at htarget
      cases htarget

namespace Visited

variable {d : Declarations} {o : Options} {v : Visited} {s' : Solver}

/-- Without deferral no visit is held back. -/
theorem isHeld_withoutDeferral (v : Visited) (o : Options) :
    v.isHeld o.withoutDeferral = false := by
  simp [isHeld, Options.withoutDeferral]

/-- Once the result of the routine is read off, a further visit to the block finds nothing new. -/
def Repeats (d : Declarations) (v : Visited) : Prop :=
  ∃ m facts, v.scene.facts.result = .ok (m, facts) ∧
    (v.setting d).FindsNothing v.block v.entry facts v.scene.agenda

instance (d : Declarations) (v : Visited) : Decidable (v.Repeats d) :=
  decidable_of_iff
    (v.scene.facts.result.toOption.any fun found =>
      decide ((v.setting d).FindsNothing v.block v.entry found.2 v.scene.agenda))
    (by simp [Repeats, any_toOption_iff])

namespace Real

/-- A visit to the only block of a routine has nowhere to send states to. -/
theorem flows_of_straight (h : v.Real d) (hreach : v.unit.StaysReachable)
    (hstraight : v.run.body.IsStraight) : Solver.flows v.block v.outcome = [] := by
  have hentry : v.ref.2 = v.run.body.entry :=
    hstraight.eq_entry (hreach h.run _ (Option.isSome_iff_exists.2 ⟨_, h.entry⟩))
  obtain ⟨hsuccessors, hhandlers⟩ := hstraight v.block (hentry ▸ h.block)
  rw [List.eq_nil_iff_forall_not_mem]
  intro e he
  rcases (mem_flows_iff h.outcome).1 ⟨e.2, he⟩ with htarget | htarget
  · rw [hsuccessors] at htarget
    cases htarget
  · rw [hhandlers] at htarget
    cases htarget

end Real

namespace Leaves

variable {run' : RoutineRun} (h : v.Leaves o s' run')

include h

/-- After its block a visit adds no more blocks that wait. -/
theorem waiters (r : RoutineId) : s'.agenda.waiters r = v.scene.agenda.waiters r := by
  cases hheld : v.isHeld o with
  | true =>
      obtain ⟨-, callee, -, hagenda⟩ := h.held hheld
      rw [hagenda, Agenda.waiters_defer]
  | false =>
      obtain ⟨grown, -, hagenda⟩ := h.sent hheld
      rw [hagenda, Agenda.waiters_congr (Agenda.dependents_enqueueAll ..)]

/-- What it then queues are blocks of its own routine. -/
theorem mem_queue {c : BlockRef} (hc : c ∈ s'.agenda.queue) :
    c ∈ v.scene.agenda.queue ∨ c.1 = v.ref.1 := by
  cases hheld : v.isHeld o with
  | true =>
      obtain ⟨-, callee, -, hagenda⟩ := h.held hheld
      rw [hagenda] at hc
      exact .inl hc
  | false =>
      obtain ⟨grown, -, hagenda⟩ := h.sent hheld
      rw [hagenda, Agenda.mem_queue_enqueueAll] at hc
      refine hc.imp_right fun hc => ?_
      obtain ⟨b, -, rfl⟩ := List.mem_map.1 hc
      rfl

theorem mem_deferred {r : RoutineId} {c : BlockRef} (hc : c ∈ s'.agenda.deferred r) :
    c ∈ v.scene.agenda.deferred r ∨
      c = v.ref ∧ v.isHeld o = true ∧ (v.unit.published.find? r).isSome := by
  cases hheld : v.isHeld o with
  | true =>
      obtain ⟨-, callee, hlisted, hagenda⟩ := h.held hheld
      rw [hagenda, Agenda.mem_deferred_defer] at hc
      refine hc.imp_right ?_
      rintro ⟨rfl, rfl⟩
      exact ⟨rfl, rfl, hlisted⟩
  | false =>
      obtain ⟨grown, -, hagenda⟩ := h.sent hheld
      rw [hagenda, Agenda.deferred_congr (Agenda.dependents_enqueueAll ..)] at hc
      exact .inl hc

/-- A visit that has no states to send on leaves the entries and the queue alone, held back or
not. -/
theorem of_flows_nil (hflows : Solver.flows v.block v.outcome = []) :
    run'.entries = v.run.entries ∧ s'.agenda.queue = v.scene.agenda.queue := by
  cases hheld : v.isHeld o with
  | true =>
      obtain ⟨hentries, callee, -, hagenda⟩ := h.held hheld
      rw [hagenda]
      exact ⟨hentries, rfl⟩
  | false =>
      obtain ⟨grown, hmerge, hagenda⟩ := h.sent hheld
      rw [hflows] at hmerge
      cases hmerge
      rw [hagenda]
      exact ⟨rfl, rfl⟩

end Leaves

end Visited

/-! ### What a run has found -/

namespace RoutineRun

variable {run run' run₁ : RoutineRun}

/-- What a run has found, apart from how often its blocks were visited and which must go through. -/
def found (run : RoutineRun) : RoutineRun :=
  { run with visits := #[], mustComplete := [] }

/-- What was found is the body, the facts and the states of the blocks. -/
theorem found_eq_iff : run'.found = run.found ↔
    run'.body = run.body ∧ run'.facts = run.facts ∧ run'.entries = run.entries := by
  simp [found]

/-- Merging a state depends on what was found only. -/
theorem mergeEntry_found {b : BlockId} {st : State} {grew : Bool} (hfound : run'.found = run.found)
    (h : run.mergeEntry b st = .ok (grew, run₁)) :
    ∃ run₁', run'.mergeEntry b st = .ok (grew, run₁') ∧ run₁'.found = run₁.found := by
  obtain ⟨hbody, hfacts, hentries⟩ := found_eq_iff.1 hfound
  rw [mergeEntry] at h ⊢
  rw [hentries]
  cases hslot : run.entries[b]? with
  | none =>
      rw [hslot] at h
      cases h
  | some old? =>
      cases old? with
      | none =>
          rw [hslot] at h
          cases h
          exact ⟨_, rfl, found_eq_iff.2 ⟨hbody, hfacts, rfl⟩⟩
      | some old =>
          rw [hslot] at h
          cases habsorb : old.absorb st with
          | error fault => simp [habsorb, bind, Except.bind] at h
          | ok absorbed =>
              simp only [habsorb, bind, Except.bind] at h ⊢
              cases h
              exact ⟨_, rfl, found_eq_iff.2 ⟨hbody, hfacts, rfl⟩⟩

/-- States are joined into the entries of both runs alike. -/
theorem mergeEntries_found {flows : List (BlockId × State)} {grown : List BlockId}
    (hfound : run'.found = run.found) (h : run.mergeEntries flows = .ok (grown, run₁)) :
    ∃ run₁', run'.mergeEntries flows = .ok (grown, run₁') ∧ run₁'.found = run₁.found := by
  induction flows generalizing run run' grown with
  | nil =>
      cases h
      exact ⟨run', rfl, hfound⟩
  | cons e rest ih =>
      obtain ⟨grew, run₂, grown', hmerge, hmerges, rfl⟩ := mergeEntries_cons h
      obtain ⟨run₂', hmerge', hfound₂⟩ := mergeEntry_found hfound hmerge
      obtain ⟨run₁', hmerges', hfound₁⟩ := ih hfound₂ hmerges
      refine ⟨run₁', ?_, hfound₁⟩
      simp only [mergeEntries, hmerge', bind, Except.bind, hmerges']
      rfl

end RoutineRun

namespace Visited

/-- A visit in another unit that finds the same. -/
structure IsTwin (v w : Visited) : Prop where
  ref : w.ref = v.ref
  run : w.run.found = v.run.found
  block : w.block = v.block
  outcome : w.outcome = v.outcome
  facts : w.scene.facts = v.scene.facts
  noted : Agenda.NotedAlike v.ref v.unit.agenda v.scene.agenda w.unit.agenda w.scene.agenda

/-- Twin visits find the same. -/
theorem IsTwin.after {v w : Visited} (h : v.IsTwin w) : w.after.found = v.after.found := by
  obtain ⟨hbody, -, hentries⟩ := RoutineRun.found_eq_iff.1 h.run
  exact RoutineRun.found_eq_iff.2 ⟨hbody, h.facts, hentries⟩

end Visited

namespace Solver

variable {d : Declarations} {o : Options} {s s' t t' : Solver} {v : Visited} {ref : BlockRef}
  {run run' : RoutineRun} {facts : Facts}

/-! ### Blocks with nothing left to find -/

/-- The block is the only one of its routine, and a visit from the given facts finds nothing new. -/
structure Spent (d : Declarations) (s : Solver) (ref : BlockRef) (run : RoutineRun)
    (facts : Facts) : Prop where
  owner : s.runs.find? ref.1 = some run
  straight : run.body.IsStraight
  again : ∃ entry block, run.entry? ref.2 = some entry ∧ run.body.blocks[ref.2]? = some block ∧
    (⟨entry, facts, s.agenda, none⟩ : Scene).Fits run.body ∧
    Setting.FindsNothing ⟨run.body, d, s.published, ref.2⟩ block entry facts s.agenda

namespace Spent

/-- The routine has no other block. -/
theorem eq_of_reached (h : s.Spent d ref run facts) (hreach : s.StaysReachable) {c : BlockRef}
    (hr : c.1 = ref.1) (hc : (s.entry? c).isSome) : c = ref := by
  obtain ⟨entry, block, hentry, -⟩ := h.again
  have hown := h.straight.eq_entry (hreach h.owner _ (Option.isSome_iff_exists.2 ⟨_, hentry⟩))
  rw [Solver.entry?, hr, h.owner] at hc
  exact Prod.ext hr ((h.straight.eq_entry (hreach h.owner _ hc)).trans hown.symm)

/-- What a block with nothing left to find depends on: the entry, the published results that it
waits for, and that it waits for them. -/
theorem congr (h : s.Spent d ref run facts) (hs : s.Fits) (hrun : s'.runs.find? ref.1 = some run')
    (hbody : run'.body = run.body) (hentries : run'.entries = run.entries)
    (hlisted : ∀ r, (s'.published.find? r).isSome = (s.published.find? r).isSome)
    (hpublished : ∀ r, ref ∈ s.agenda.waiters r → s'.published.find? r = s.published.find? r)
    (hwaits : ∀ r, ref ∈ s.agenda.waiters r → ref ∈ s'.agenda.waiters r) :
    s'.Spent d ref run' facts := by
  obtain ⟨entry, block, hentry, hblock, hfits, hnothing⟩ := h.again
  obtain ⟨hkey, hrunFits⟩ := hs.runs h.owner
  let env : Setting := ⟨run.body, d, s.published, ref.2⟩
  have href : env.ref = ref := Prod.ext hkey rfl
  have hagrees : env.Agrees s'.published s.agenda := by
    intro callee
    rw [href]
    exact ⟨(hlisted callee).symm, fun hr => (hpublished callee hr).symm⟩
  have hroutine : facts.routine = run.body.routine := hfits.facts.routine
  refine ⟨hrun, hbody ▸ h.straight, entry, block, ?_, hbody ▸ hblock, ?_, ?_⟩
  · rw [RoutineRun.entry?, hentries]
    exact hentry
  · rw [hbody]
    exact ⟨hfits.facts, hfits.state⟩
  · rw [hbody]
    apply (hnothing.against hrunFits.body hblock hfits hagrees).mono hroutine
    intro r hr
    change env.ref ∈ _ at hr
    change env.ref ∈ _
    rw [href] at hr ⊢
    exact hwaits r hr

/-- Visits to other blocks leave it so. -/
theorem visit_other (h : v.unit.Spent d ref run facts) (hs : v.unit.Fits)
    (hreach : v.unit.StaysReachable) (hreal : v.Real d) (hvisit : v.unit.visit d o v.ref = .ok s')
    (hne : ref ≠ v.ref) : s'.Spent d ref run facts := by
  obtain ⟨s₁, hvisit₁, -, hadvances, -⟩ := hreal.visit_ok hs o
  cases hvisit.symm.trans hvisit₁
  obtain ⟨run₁, hleaves⟩ := hreal.leaves hs hvisit
  have hother : v.ref.1 ≠ ref.1 := by
    intro hr
    exact hne (h.eq_of_reached hreach hr hreal.reached).symm
  refine h.congr hs ?_ rfl rfl hadvances.listed (fun r _ => ?_) fun r hr => hadvances.waiters r _ hr
  · rw [hleaves.runs, OrderedMap.find?_insert, if_neg hother]
    exact h.owner
  · rw [hleaves.published]

theorem dequeue (h : s.Spent d ref run facts) (hs : s.Fits) {c : BlockRef}
    (hdequeues : s.Dequeues c s') : s'.Spent d ref run facts := by
  apply h.congr hs (hdequeues.runs ▸ h.owner) rfl rfl
  · intro r
    rw [hdequeues.published]
  · intro r _
    rw [hdequeues.published]
  · intro r hr
    rwa [Agenda.waiters_congr hdequeues.dependents]

end Spent

/-! ### Units that have found the same -/

/-- The second unit has found the same as the first, and nothing is held back there. -/
structure Alike (s t : Solver) : Prop where
  keys : t.runs.keys = s.runs.keys
  runs : ∀ r, (t.runs.find? r).map RoutineRun.found = (s.runs.find? r).map RoutineRun.found
  published : t.published = s.published
  waiters : ∀ r, t.agenda.waiters r = s.agenda.waiters r
  deferred : ∀ r, t.agenda.deferred r = []

namespace Alike

/-- Units that are alike have found the same in each routine. -/
theorem find? (h : s.Alike t) {r : RoutineId} (hrun : s.runs.find? r = some run) :
    ∃ run', t.runs.find? r = some run' ∧ run'.found = run.found := by
  have hr := h.runs r
  rw [hrun, Option.map_some] at hr
  exact Option.map_eq_some_iff.1 hr

/-- They are about the same routines. -/
theorem find?_eq_none (h : s.Alike t) {r : RoutineId} (hrun : s.runs.find? r = none) :
    t.runs.find? r = none := by
  have hr := h.runs r
  rw [hrun, Option.map_none] at hr
  exact Option.map_eq_none_iff.1 hr

theorem congr (h : s.Alike t) (hruns : s'.runs = s.runs) (hpublished : s'.published = s.published)
    (hdependents : s'.agenda.dependents = s.agenda.dependents) (hruns' : t'.runs = t.runs)
    (hpublished' : t'.published = t.published)
    (hdependents' : t'.agenda.dependents = t.agenda.dependents) : s'.Alike t' := by
  refine ⟨?_, fun r => ?_, ?_, fun r => ?_, fun r => ?_⟩
  · rw [hruns', hruns, h.keys]
  · rw [hruns', hruns, h.runs]
  · rw [hpublished', hpublished, h.published]
  · rw [Agenda.waiters_congr hdependents', Agenda.waiters_congr hdependents, h.waiters]
  · rw [Agenda.deferred_congr hdependents', h.deferred]

/-- What is visited in the first unit can be visited in the second, and the visit finds the same. -/
theorem exists_twin (h : v.unit.Alike t) (hs : v.unit.Fits) (hreal : v.Real d) :
    ∃ w : Visited, w.Real d ∧ w.unit = t ∧ v.IsTwin w := by
  obtain ⟨twin, htwin, hfound⟩ := h.find? hreal.run
  obtain ⟨hbody, hfacts, hentries⟩ := RoutineRun.found_eq_iff.1 hfound
  obtain ⟨hkey, hfits⟩ := hs.runs hreal.run
  obtain ⟨outcome, b, pending?, houtcome, hrelated, hnoted⟩ :=
    (visitBlock_carriesOver (v.setting d) v.block _ _ _ hfits.facts.routine hreal.outcome).2
      t.agenda none
  obtain rfl := hrelated.eq
  have href : (v.setting d).ref = v.ref := Prod.ext hkey rfl
  let w : Visited := ⟨t, v.ref, twin, v.entry, v.block, v.outcome, v.scene.onAgenda b pending?⟩
  refine ⟨w, ⟨htwin, ?_, hbody ▸ hreal.block, ?_⟩, rfl, rfl, hfound, rfl, rfl, rfl, href ▸ hnoted⟩
  · change twin.entry? v.ref.2 = _
    rw [RoutineRun.entry?, hentries]
    exact hreal.entry
  · have hsetting : w.setting d = v.setting d := by
      rw [Visited.setting, Visited.setting, ← hbody, ← h.published]
    have hstart : w.start = v.start.onAgenda t.agenda none := by
      rw [Visited.start, Visited.start, Scene.onAgenda, ← hfacts]
    rw [hsetting, hstart]
    exact houtcome

end Alike

/-- A routine gets another run. -/
theorem found_insert {r : RoutineId} (hrun : s.runs.find? r = some run) {new : RoutineRun}
    (hs' : s'.runs = s.runs.insert r new) :
    s'.runs.keys = s.runs.keys ∧ ∀ r', (s'.runs.find? r').map RoutineRun.found =
      if r = r' then some new.found else (s.runs.find? r').map RoutineRun.found := by
  have hkey : r ∈ s.runs.keys := OrderedMap.mem_keys_iff.2 (Option.isSome_iff_exists.2 ⟨_, hrun⟩)
  refine ⟨?_, fun r' => ?_⟩
  · rw [hs', OrderedMap.keys_insert, if_pos hkey]
  · rw [hs', OrderedMap.find?_insert]
    split <;> rfl

/-! ### Units with and without held-back blocks -/

/-- The second unit is the first one as it is when no block is held back: it has found the same, and
has the same blocks in its queue but for some with nothing left to find. -/
structure Matches (d : Declarations) (s t : Solver) : Prop extends Alike s t where
  queue : t.agenda.queue.Sublist s.agenda.queue
  spare : ∀ ref ∈ s.agenda.queue, ref ∉ t.agenda.queue → ∃ run, s.Spent d ref run run.facts
  /-- A block that is held back has nothing left to find once its routine has published. -/
  held : ∀ r, ∀ ref ∈ s.agenda.deferred r, (s.published.find? r).isSome ∧ ref ∉ s.agenda.queue ∧
    ∃ run m facts, run.facts.result = .ok (m, facts) ∧ s.Spent d ref run facts

namespace Matches

theorem trans_resembles (h : s.Matches d t) (hsame : t.Resembles t') : s.Matches d t' := by
  refine ⟨⟨?_, fun r => ?_, ?_, fun r => ?_, hsame.deferred⟩, ?_, fun c hc hout => ?_, h.held⟩
  · rw [hsame.runs, h.keys]
  · rw [hsame.runs, h.runs]
  · rw [hsame.published, h.published]
  · rw [hsame.waiters, h.waiters]
  · rw [hsame.queue]
    exact h.queue
  · rw [hsame.queue] at hout
    exact h.spare c hc hout

section Visit

variable (h : v.unit.Matches d t) (hs : v.unit.Fits) (hreach : v.unit.StaysReachable)
  (hreal : v.Real d) (hunqueued : v.ref ∉ v.unit.agenda.queue)
  (hfresh : ∀ r, v.ref ∉ v.unit.agenda.deferred r)
  (hv : v.isHeld o = true → v.run.body.IsStraight ∧ v.Repeats d)
  (hvisit : v.unit.visit d o v.ref = .ok s')

include h hs hreach hreal hv in
/-- Two visits that find the same join the same states into the entries, or have none to join in. In
the second unit they queue the same blocks, since no visit leads to a block with nothing left to
find. -/
theorem leaves_alike {w : Visited} (hleaves : v.Leaves o s' run) (htwin : v.IsTwin w)
    (hunit : w.unit = t) (ht : t.Fits) (hw : w.Real d)
    (hleaves' : w.Leaves o.withoutDeferral t' run') :
    run'.found = run.found ∧ t'.agenda.queue.Sublist s'.agenda.queue ∧
      ∀ c ∈ s'.agenda.queue, c ∉ t'.agenda.queue →
        c ∈ v.unit.agenda.queue ∧ c ∉ t.agenda.queue := by
  subst hunit
  have hqueue : v.scene.agenda.queue = v.unit.agenda.queue := (hreal.moves hs).queue
  have hqueue' : w.scene.agenda.queue = w.unit.agenda.queue := (hw.moves ht).queue
  obtain ⟨hbody, -, hentries⟩ := RoutineRun.found_eq_iff.1 htwin.run
  cases hheld : v.isHeld o with
  | true =>
      have hflows := hreal.flows_of_straight hreach (hv hheld).1
      have hflows' : flows w.block w.outcome = [] := by rw [htwin.block, htwin.outcome, hflows]
      obtain ⟨hkept, hsame⟩ := hleaves.of_flows_nil hflows
      obtain ⟨hkept', hsame'⟩ := hleaves'.of_flows_nil hflows'
      refine ⟨RoutineRun.found_eq_iff.2 ⟨?_, ?_, ?_⟩, ?_, fun c hc hout => ?_⟩
      · rw [hleaves'.body, hleaves.body, hbody]
      · rw [hleaves'.facts, hleaves.facts, htwin.facts]
      · rw [hkept', hkept, hentries]
      · rw [hsame', hsame, hqueue', hqueue]
        exact h.queue
      · rw [hsame, hqueue] at hc
        rw [hsame', hqueue'] at hout
        exact ⟨hc, hout⟩
  | false =>
      obtain ⟨grown, hmerge, hagenda⟩ := hleaves.sent hheld
      obtain ⟨grown', hmerge', hagenda'⟩ := hleaves'.sent (w.isHeld_withoutDeferral o)
      obtain ⟨run₁, hmerge₁, hfound⟩ := RoutineRun.mergeEntries_found htwin.after hmerge
      rw [htwin.block, htwin.outcome, hmerge₁] at hmerge'
      cases hmerge'
      rw [hagenda, hagenda', htwin.ref]
      refine ⟨hfound, Agenda.sublist_enqueueAll ?_ fun c hc hqueued => ?_, fun c hc hout => ?_⟩
      · rw [hqueue', hqueue]
        exact h.queue
      · rw [hqueue] at hqueued
        rw [hqueue']
        by_contra hout
        obtain ⟨owner, hspent⟩ := h.spare c hqueued hout
        obtain ⟨b, hb, rfl⟩ := List.mem_map.1 hc
        cases hreal.run.symm.trans hspent.owner
        rw [hreal.flows_of_straight hreach hspent.straight] at hmerge
        cases hmerge
        cases hb
      · rw [Agenda.mem_queue_enqueueAll, hqueue] at hc
        rw [Agenda.mem_queue_enqueueAll, hqueue', not_or] at hout
        exact ⟨hc.resolve_right hout.2, hout.1⟩

include h hs hreach hreal hunqueued hfresh hv hvisit

/-- After a visit, a block that is held back has nothing left to find: it is the visited one, or
another one that the visit did not touch. -/
theorem held_of_visit {r : RoutineId} {c : BlockRef} (hc : c ∈ s'.agenda.deferred r) :
    (s'.published.find? r).isSome ∧ c ∉ s'.agenda.queue ∧
      ∃ run m facts, run.facts.result = .ok (m, facts) ∧ s'.Spent d c run facts := by
  have hmoves := hreal.moves hs
  obtain ⟨run', hleaves⟩ := hreal.leaves hs hvisit
  rw [hleaves.published]
  rcases hleaves.mem_deferred hc with hold | ⟨rfl, hheld, hlisted⟩
  · rw [hmoves.deferred] at hold
    obtain ⟨hlisted, hout, run, m, facts, hresult, hspent⟩ := h.held r c hold
    have hne : c ≠ v.ref := fun heq => hfresh r (heq ▸ hold)
    refine ⟨hlisted, fun hqueued => ?_, run, m, facts, hresult,
      hspent.visit_other hs hreach hreal hvisit hne⟩
    rcases hleaves.mem_queue hqueued with hqueued | hr
    · exact hout (hmoves.queue ▸ hqueued)
    · exact hne (hspent.eq_of_reached hreach hr.symm hreal.reached).symm
  · obtain ⟨hstraight, m, facts, hresult, hnothing⟩ := hv hheld
    obtain ⟨hentries, hqueue⟩ := hleaves.of_flows_nil (hreal.flows_of_straight hreach hstraight)
    obtain ⟨-, hscene, -⟩ := hreal.runs hs v.unit.published
    obtain ⟨m', table, hresult', hw, hg, -⟩ := Facts.result_ok hscene.facts
    cases hresult.symm.trans hresult'
    obtain ⟨-, hfits⟩ := hs.runs hreal.run
    have hread : run'.facts.result = .ok (m, { v.scene.facts with table := table }) := by
      rw [hleaves.facts]
      exact hresult
    refine ⟨hlisted, ?_, run', m, _, hread, ?_, hleaves.body ▸ hstraight, v.entry, v.block, ?_,
      hleaves.body ▸ hreal.block, ?_, ?_⟩
    · rw [hqueue, hmoves.queue]
      exact hunqueued
    · rw [hleaves.runs, OrderedMap.find?_insert, if_pos rfl]
    · rw [RoutineRun.entry?, hentries]
      exact hreal.entry
    · rw [hleaves.body]
      exact ⟨hscene.facts.grow hw hg, ((hfits.states hreal.entry).grow hmoves.table).grow hg⟩
    · rw [hleaves.body, hleaves.published]
      apply hnothing.mono hscene.facts.routine
      intro r hr
      rw [hleaves.waiters]
      exact hr

/-- A block that both units visit. -/
theorem visit (ht : t.Fits) :
    ∃ t', t.visit d o.withoutDeferral v.ref = .ok t' ∧ t'.Fits ∧ s'.Matches d t' := by
  have hmoves := hreal.moves hs
  obtain ⟨run', hleaves⟩ := hreal.leaves hs hvisit
  obtain ⟨w, hrealTwin, rfl, htwin⟩ := h.exists_twin hs hreal
  have hmovesTwin := hrealTwin.moves ht
  obtain ⟨t', hvisitTwin, ht', -⟩ := hrealTwin.visit_ok ht o.withoutDeferral
  obtain ⟨twin', hleavesTwin⟩ := hrealTwin.leaves ht hvisitTwin
  obtain ⟨grown, hmerge, hagenda⟩ := hleavesTwin.sent (w.isHeld_withoutDeferral o)
  obtain ⟨hfound, hsublist, hmore⟩ :=
    h.leaves_alike hs hreach hreal hv hleaves htwin rfl ht hrealTwin hleavesTwin
  obtain ⟨hkeys, hruns⟩ := found_insert hreal.run hleaves.runs
  obtain ⟨hkeysTwin, hrunsTwin⟩ := found_insert hrealTwin.run hleavesTwin.runs
  refine ⟨t', htwin.ref ▸ hvisitTwin, ht',
    ⟨?_, fun r => ?_, ?_, fun r => ?_, fun r => ?_⟩, hsublist,
    fun c hc hout => ?_,
    fun r c hc => h.held_of_visit hs hreach hreal hunqueued hfresh hv hvisit hc⟩
  · rw [hkeysTwin, hkeys, h.keys]
  · rw [hrunsTwin, hruns, htwin.ref, hfound, h.runs]
  · rw [hleavesTwin.published, hleaves.published, h.published]
  · rw [hleavesTwin.waiters, hleaves.waiters]
    exact htwin.noted.waiters_eq (h.waiters r)
  · rw [hagenda, Agenda.deferred_congr (Agenda.dependents_enqueueAll ..), hmovesTwin.deferred]
    exact h.deferred r
  · obtain ⟨hqueued, hout⟩ := hmore c hc hout
    obtain ⟨run, hspent⟩ := h.spare c hqueued hout
    exact ⟨run, hspent.visit_other hs hreach hreal hvisit fun heq => hunqueued (heq ▸ hqueued)⟩

/-- A block with nothing left to find, which only the first unit visits. -/
theorem visit_spare (hspent : v.unit.Spent d v.ref v.run v.run.facts) : s'.Matches d t := by
  have hmoves := hreal.moves hs
  obtain ⟨run', hleaves⟩ := hreal.leaves hs hvisit
  obtain ⟨hkey, hfits⟩ := hs.runs hreal.run
  obtain ⟨hkept, hqueue⟩ :=
    hleaves.of_flows_nil (hreal.flows_of_straight hreach hspent.straight)
  have hsame : v.scene.facts = v.run.facts ∧
      ∀ r, v.scene.agenda.waiters r = v.unit.agenda.waiters r := by
    obtain ⟨entry, block, hentry, hblock, -, hnothing⟩ := hspent.again
    cases hreal.entry.symm.trans hentry
    cases hreal.block.symm.trans hblock
    obtain ⟨outcome, scene, hrun, hfacts, hwaiters⟩ :=
      hnothing.elsewhere hfits.facts.routine fun _ hr => hr
    cases hreal.outcome.symm.trans hrun
    exact ⟨hfacts, hwaiters⟩
  have hfound : run'.found = v.run.found :=
    RoutineRun.found_eq_iff.2 ⟨hleaves.body, hleaves.facts.trans hsame.1, hkept⟩
  obtain ⟨hkeys, hruns⟩ := found_insert hreal.run hleaves.runs
  refine ⟨⟨h.keys.trans hkeys.symm, fun r => ?_, ?_, fun r => ?_, h.deferred⟩, ?_,
    fun c hc hout => ?_,
    fun r c hc => h.held_of_visit hs hreach hreal hunqueued hfresh hv hvisit hc⟩
  · rw [hruns, h.runs]
    split
    · rename_i hr
      rw [← hr, hreal.run, hfound]
      rfl
    · rfl
  · rw [hleaves.published, h.published]
  · rw [hleaves.waiters, hsame.2, h.waiters]
  · rw [hqueue, hmoves.queue]
    exact h.queue
  · rw [hqueue, hmoves.queue] at hc
    obtain ⟨run, hother⟩ := h.spare c hc hout
    exact ⟨run, hother.visit_other hs hreach hreal hvisit fun heq => hunqueued (heq ▸ hc)⟩

end Visit

/-- A block that is held back stays so when another one is taken from the queue. -/
theorem held_of_dequeue (h : s.Matches d t) (hs : s.Fits) (hdequeues : s.Dequeues ref s')
    {r : RoutineId} {c : BlockRef} (hc : c ∈ s'.agenda.deferred r) :
    (s'.published.find? r).isSome ∧ c ≠ ref ∧ c ∉ s'.agenda.queue ∧
      ∃ run m facts, run.facts.result = .ok (m, facts) ∧ s'.Spent d c run facts := by
  rw [Agenda.deferred_congr hdequeues.dependents] at hc
  obtain ⟨hlisted, hout, run, m, facts, hresult, hspent⟩ := h.held r c hc
  rw [hdequeues.queue, List.mem_cons, not_or] at hout
  exact ⟨hdequeues.published ▸ hlisted, hout.1, hout.2, run, m, facts, hresult,
    hspent.dequeue hs hdequeues⟩

/-- The first unit takes a block from its queue. The second one takes it as well, or has not queued
it, and then a visit finds nothing new. -/
theorem dequeue (h : s.Matches d t) (hs : s.Fits) (hdequeues : s.Dequeues ref s') :
    ref ∉ s'.agenda.queue ∧ (∀ r, ref ∉ s'.agenda.deferred r) ∧
      ((s'.Matches d t ∧ ∃ run, s'.Spent d ref run run.facts) ∨
        ∃ rest, t.agenda.queue = ref :: rest ∧
          ∀ t', t.Dequeues ref t' → s'.Matches d t') := by
  have hnodup : (ref :: s'.agenda.queue).Nodup := hdequeues.queue ▸ s.agenda.inStep.nodup
  obtain ⟨hnew, -⟩ := List.nodup_cons.1 hnodup
  have hheld (r : RoutineId) (c : BlockRef) (hc : c ∈ s'.agenda.deferred r) :=
    h.held_of_dequeue hs hdequeues hc
  have hspare (c : BlockRef) (hc : c = ref ∨ c ∈ s'.agenda.queue) (hout : c ∉ t.agenda.queue) :
      ∃ run, s'.Spent d c run run.facts := by
    obtain ⟨run, hspent⟩ := h.spare c (hdequeues.queue ▸ List.mem_cons.2 hc) hout
    exact ⟨run, hspent.dequeue hs hdequeues⟩
  have hqueue := h.queue
  rw [hdequeues.queue, List.sublist_cons_iff] at hqueue
  refine ⟨hnew, fun r hr => (hheld r ref hr).2.1 rfl, ?_⟩
  rcases hqueue with hskip | ⟨rest, hqueue, htake⟩
  · -- The second unit has not queued the block, which is only once in the first queue.
    have hfirst : ref ∉ t.agenda.queue := fun hmem => hnew (hskip.subset hmem)
    refine .inl ⟨⟨?_, hskip, fun c hc => hspare c (.inr hc), fun r c hc => ?_⟩,
      hspare ref (.inl rfl) hfirst⟩
    · exact h.congr hdequeues.runs hdequeues.published hdequeues.dependents rfl rfl rfl
    · obtain ⟨hlisted, -, hrest⟩ := hheld r c hc
      exact ⟨hlisted, hrest⟩
  · refine .inr ⟨rest, hqueue, fun t' ht' => ⟨?_, ?_, fun c hc hout => ?_, fun r c hc => ?_⟩⟩
    · exact h.congr hdequeues.runs hdequeues.published hdequeues.dependents ht'.runs ht'.published
        ht'.dependents
    · rw [(List.cons.inj (ht'.queue.symm.trans hqueue)).2]
      exact htake
    · apply hspare c (.inr hc)
      rw [ht'.queue, List.mem_cons, not_or]
      exact ⟨fun heq => hnew (heq ▸ hc), hout⟩
    · obtain ⟨hlisted, -, hrest⟩ := hheld r c hc
      exact ⟨hlisted, hrest⟩

end Matches

/-! ### The end of a round -/

namespace Alike

theorem withRun (h : s.Alike t) {r : RoutineId} (hrun : s.runs.find? r = some run)
    (hrun' : t.runs.find? r = some run') {new new' : RoutineRun} (hfound : new'.found = new.found) :
    (s.withRun r new).Alike (t.withRun r new') := by
  have hinsert : (s.withRun r new).runs = s.runs.insert r new := rfl
  have hinsert' : (t.withRun r new').runs = t.runs.insert r new' := rfl
  obtain ⟨hkeys, hruns⟩ := found_insert hrun hinsert
  obtain ⟨hkeys', hruns'⟩ := found_insert hrun' hinsert'
  refine ⟨?_, fun r' => ?_, h.published, h.waiters, h.deferred⟩
  · rw [hkeys', hkeys, h.keys]
  · rw [hruns', hruns, hfound, h.runs]

theorem announcing (h : s.Alike t) (r : RoutineId) (summary : Summary) :
    (s.announcing r summary).Alike (t.announcing r summary) := by
  refine ⟨h.keys, h.runs, ?_, fun r' => ?_, fun r' => ?_⟩
  · rw [Solver.announcing, Solver.announcing, h.published]
  · rw [Solver.announcing, Solver.announcing,
      Agenda.waiters_congr (Agenda.dependents_enqueueAll ..),
      Agenda.waiters_congr (Agenda.dependents_enqueueAll ..), h.waiters]
  · rw [Solver.announcing, Agenda.deferred_congr (Agenda.dependents_enqueueAll ..), h.deferred]

/-- Units that have found the same publish the same. -/
theorem publish (h : s.Alike t) (hs : s.Fits) (hqueue : t.agenda.queue = s.agenda.queue)
    {r : RoutineId} (hpublish : s.publish r = .ok s') :
    ∃ t', t.publish r = .ok t' ∧ s'.Alike t' ∧ t'.agenda.queue = s'.agenda.queue := by
  cases hrun : s.runs.find? r with
  | none =>
      rw [Solver.publish, hrun] at hpublish
      cases hpublish
      exact ⟨t, by rw [Solver.publish, h.find?_eq_none hrun]; rfl, h, hqueue⟩
  | some run =>
      obtain ⟨twin, htwin, hfound⟩ := h.find? hrun
      obtain ⟨hbody, hfacts, hentries⟩ := RoutineRun.found_eq_iff.1 hfound
      obtain ⟨m, table, hresult, hw, -, hm, -⟩ := Facts.result_ok (hs.runs hrun).2.facts
      obtain ⟨summary, hsummary⟩ := KindTable.summarize_ok hw hm
      have hresult' : twin.facts.result = .ok (m, { run.facts with table := table }) := by
        rw [hfacts, hresult]
      rw [publish_eq hrun hresult hsummary] at hpublish
      rw [publish_eq htwin hresult' hsummary, h.published]
      cases hpublish
      have hread := h.withRun hrun htwin (RoutineRun.found_eq_iff.2 ⟨hbody, rfl, hentries⟩ :
        RoutineRun.found { twin with facts := { run.facts with table := table } } =
          RoutineRun.found { run with facts := { run.facts with table := table } })
      refine ⟨_, rfl, ?_⟩
      split
      · exact ⟨hread, hqueue⟩
      · refine ⟨hread.announcing r summary, ?_⟩
        change (t.agenda.enqueueAll (t.agenda.waiters r)).queue =
          (s.agenda.enqueueAll (s.agenda.waiters r)).queue
        rw [h.waiters]
        exact Agenda.queue_enqueueAll_congr hqueue _

theorem foldlM_publish (h : s.Alike t) (hs : s.Fits) (hqueue : t.agenda.queue = s.agenda.queue)
    {rs : List RoutineId} (hfold : rs.foldlM Solver.publish s = .ok s') :
    ∃ t', rs.foldlM Solver.publish t = .ok t' ∧ s'.Alike t' ∧
      t'.agenda.queue = s'.agenda.queue := by
  induction rs generalizing s t with
  | nil =>
      cases hfold
      exact ⟨t, rfl, h, hqueue⟩
  | cons r rest ih =>
      obtain ⟨s₁, hpublish, hs₁, -⟩ := publish_ok hs r
      rw [List.foldlM_cons, hpublish] at hfold
      obtain ⟨t₁, hpublish', h₁, hqueue₁⟩ := h.publish hs hqueue hpublish
      rw [List.foldlM_cons, hpublish']
      exact ih h₁ hs₁ hqueue₁ hfold

end Alike

theorem dependents_of_foldlM_publish (hs : s.Fits) {rs : List RoutineId}
    (h : rs.foldlM publish s = .ok s') : s'.agenda.dependents = s.agenda.dependents := by
  induction rs generalizing s with
  | nil =>
      cases h
      rfl
  | cons r rest ih =>
      obtain ⟨s₁, hpublish, hs₁, -⟩ := publish_ok hs r
      rw [List.foldlM_cons, hpublish] at h
      exact (ih hs₁ h).trans (dependents_of_publish hpublish)

/-- What publishing does to a run: at most, its result is read off. -/
theorem publish_reads (hs : s.Fits) {r r' : RoutineId} (h : s.publish r = .ok s')
    (hrun : s.runs.find? r' = some run) {m : Mask} (hresult : run.facts.result = .ok (m, facts)) :
    ∃ run', s'.runs.find? r' = some run' ∧ run'.body = run.body ∧ run'.entries = run.entries ∧
      run'.facts.result = .ok (m, facts) := by
  by_cases hr : r' = r
  · subst hr
    obtain ⟨m', table, hresult', hw, -, hm, hagain⟩ := Facts.result_ok (hs.runs hrun).2.facts
    cases hresult.symm.trans hresult'
    obtain ⟨summary, hsummary⟩ := KindTable.summarize_ok hw hm
    rw [publish_eq hrun hresult hsummary] at h
    cases h
    refine ⟨{ run with facts := { run.facts with table := table } }, ?_, rfl, rfl, hagain⟩
    split <;> exact (OrderedMap.find?_insert ..).trans (if_pos rfl)
  · exact ⟨run, ((publish_others h).1 r' hr).1.trans hrun, rfl, rfl, hresult⟩

theorem foldlM_publish_reads (hs : s.Fits) {rs : List RoutineId} {r : RoutineId}
    (h : rs.foldlM publish s = .ok s') (hrun : s.runs.find? r = some run) {m : Mask}
    (hresult : run.facts.result = .ok (m, facts)) :
    ∃ run', s'.runs.find? r = some run' ∧ run'.body = run.body ∧ run'.entries = run.entries ∧
      run'.facts.result = .ok (m, facts) := by
  induction rs generalizing s run with
  | nil =>
      cases h
      exact ⟨run, hrun, rfl, rfl, hresult⟩
  | cons r' rest ih =>
      obtain ⟨s₁, hpublish, hs₁, -⟩ := publish_ok hs r'
      rw [List.foldlM_cons, hpublish] at h
      obtain ⟨run₁, hrun₁, hbody₁, hentries₁, hresult₁⟩ := publish_reads hs hpublish hrun hresult
      obtain ⟨run', hrun', hbody, hentries, hresult'⟩ := ih hs₁ h hrun₁ hresult₁
      exact ⟨run', hrun', hbody.trans hbody₁, hentries.trans hentries₁, hresult'⟩

/-- Once all routines have published, a block that was held back and is not queued for a new result
has nothing left to find. -/
theorem Spent.foldlM_publish (h : s.Spent d ref run facts) (hs : s.Fits) {m : Mask}
    (hresult : run.facts.result = .ok (m, facts)) (hfold : s.runs.keys.foldlM publish s = .ok s')
    (hout : ref ∉ s'.agenda.queue) : ∃ run', s'.Spent d ref run' run'.facts := by
  obtain ⟨s₁, hfold₁, -, hadvances, hsettled, -⟩ := foldlM_publish_ok hs s.runs.keys
  cases hfold.symm.trans hfold₁
  obtain ⟨run', hrun', hbody, hentries, hresult'⟩ :=
    foldlM_publish_reads hs hfold h.owner hresult
  have hkey : ref.1 ∈ s.runs.keys :=
    OrderedMap.mem_keys_iff.2 (Option.isSome_iff_exists.2 ⟨_, h.owner⟩)
  have hfacts : run'.facts = facts := by
    obtain ⟨m', -, -, hread, -⟩ := hsettled ref.1 (.inl hkey) run' hrun'
    cases hresult'.symm.trans hread
    rfl
  refine ⟨run', hfacts.symm ▸ h.congr hs hrun' hbody hentries hadvances.listed (fun r hr => ?_)
    fun r hr => hadvances.waiters r _ hr⟩
  exact (hadvances.published r).resolve_right fun hqueued => hout (hqueued ref hr)

/-- Releasing queues blocks that were held back, after those that are queued. -/
theorem foldl_release_agenda (s : Solver) (rs : List RoutineId) :
    (∀ r, (rs.foldl release s).agenda.waiters r = s.agenda.waiters r) ∧
      (∀ r, ∀ c ∈ (rs.foldl release s).agenda.deferred r, c ∈ s.agenda.deferred r) ∧
      s.agenda.queue.Sublist (rs.foldl release s).agenda.queue ∧
      ∀ c ∈ (rs.foldl release s).agenda.queue,
        c ∈ s.agenda.queue ∨ ∃ r, c ∈ s.agenda.deferred r := by
  induction rs generalizing s with
  | nil => exact ⟨fun _ => rfl, fun _ _ hc => hc, .refl _, fun _ hc => .inl hc⟩
  | cons r rest ih =>
      obtain ⟨hwaiters, hdeferred, hqueue, hmem⟩ := release_agenda s r
      obtain ⟨hwaiters', hdeferred', hqueue', hmem'⟩ := ih (s.release r)
      have hfewer (r' : RoutineId) (c : BlockRef) (hc : c ∈ (s.release r).agenda.deferred r') :
          c ∈ s.agenda.deferred r' := by
        rw [hdeferred] at hc
        split at hc
        · cases hc
        · exact hc
      refine ⟨fun r' => (hwaiters' r').trans (hwaiters r'),
        fun r' c hc => hfewer r' c (hdeferred' r' c hc), hqueue.trans hqueue', fun c hc => ?_⟩
      rcases hmem' c hc with hqueued | ⟨r', hheld⟩
      · exact ((hmem c).1 hqueued).imp_right fun hheld => ⟨r, hheld⟩
      · exact .inr ⟨r', hfewer r' c hheld⟩

theorem SameRuns.found (h : s.SameRuns s') (r : RoutineId) :
    (s'.runs.find? r).map RoutineRun.found = (s.runs.find? r).map RoutineRun.found := by
  have hread (t : Solver) : (t.runs.find? r).map RoutineRun.found =
      ((t.runs.find? r).map fun run => { run with mustComplete := [] }).map RoutineRun.found := by
    rw [Option.map_map]
    rfl
  rw [hread, hread, h.runs r]

/-- Publishing goes alike in both units. The blocks that only the first one releases have nothing
left to find then, or are queued in both for a new result. -/
theorem Matches.endRound (h : s.Matches d t) (hs : s.Fits) (hempty : s.agenda.queue = [])
    (hend : s.endRound = .ok s') : ∃ t', t.endRound = .ok t' ∧ s'.Matches d t' := by
  obtain ⟨s₁, hfold, hs₁, hadvances, -⟩ := foldlM_publish_ok hs s.runs.keys
  have hnone : t.agenda.queue = s.agenda.queue := by
    have hqueue := h.queue
    rw [hempty] at hqueue ⊢
    exact List.sublist_nil.1 hqueue
  obtain ⟨t₁, hfold', halike, hqueue⟩ := h.toAlike.foldlM_publish hs hnone hfold
  rw [Solver.endRound, hfold] at hend
  cases hend
  refine ⟨_, by rw [Solver.endRound, h.keys, hfold']; rfl, ?_⟩
  obtain ⟨-, -, hruns, hpublished, hreleased⟩ := foldl_release_ok hs₁ s₁.published.keys
  obtain ⟨hwaiters, hfewer, hsublist, hmem⟩ := foldl_release_agenda s₁ s₁.published.keys
  have hstays := (Resembles.refl halike.deferred).foldl_release t₁.published.keys
  have hheld (r : RoutineId) (c : BlockRef) (hc : c ∈ s₁.agenda.deferred r) :
      c ∈ s.agenda.deferred r := by
    rwa [Agenda.deferred_congr (dependents_of_foldlM_publish hs hfold)] at hc
  refine ⟨⟨?_, fun r => ?_, ?_, fun r => ?_, hstays.deferred⟩, ?_, fun c hc hout => ?_,
    fun r c hc => ?_⟩
  · rw [hstays.runs, hruns.keys, halike.keys]
  · rw [hstays.runs, halike.runs, hruns.found]
  · rw [hstays.published, hpublished, halike.published]
  · rw [hstays.waiters, hwaiters, halike.waiters]
  · rw [hstays.queue, hqueue]
    exact hsublist
  · rw [hstays.queue, hqueue] at hout
    obtain ⟨r, hc⟩ := (hmem c hc).resolve_left hout
    obtain ⟨-, -, run, m, facts, hresult, hspent⟩ := h.held r c (hheld r c hc)
    obtain ⟨run₁, hspent₁⟩ := hspent.foldlM_publish hs hresult hfold hout
    have hfound := hruns.found c.1
    rw [hspent₁.owner, Option.map_some] at hfound
    obtain ⟨run', hrun', hsame⟩ := Option.map_eq_some_iff.1 hfound
    obtain ⟨hbody, hfacts, hentries⟩ := RoutineRun.found_eq_iff.1 hsame
    refine ⟨run', hfacts ▸ hspent₁.congr hs₁ hrun' hbody hentries (fun r => ?_) (fun r _ => ?_)
      fun r hr => ?_⟩
    · rw [hpublished]
    · rw [hpublished]
    · rwa [hwaiters]
  · -- Every block is held back for a routine of the unit, and all of those release.
    obtain ⟨hlisted, -⟩ := h.held r c (hheld r c (hfewer r c hc))
    rw [← hadvances.listed r] at hlisted
    rw [hreleased r (.inl (OrderedMap.mem_keys_iff.2 hlisted))] at hc
    cases hc

end Solver

end FlowTyping
