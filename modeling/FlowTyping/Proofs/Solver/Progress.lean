import FlowTyping.Proofs.Kind.Settled
import FlowTyping.Proofs.Rank
import FlowTyping.Proofs.Solver.Load

/-!
# The progress of a unit

Entries and published results only climb, each within a bound of its own. `Solver.Stands` measures
how far a unit has come. Main statements: `Stands.visit`, by which a visit either gets further or
takes some of the load away, `Stands.endRound`, by which the end of a round does not add to the load
without getting further, and `Stands.le`, the bound.
-/

namespace FlowTyping

/-! ### The rank of a published result -/

namespace Facts

/-- A summary that the routine may have published, with its rank: it describes a part of what the
routine returns, or the routine is a generator, which ranks above all that. -/
inductive Publishes (f : Facts) (p : Summary) : Nat → Prop
  | returned {m : Mask} {s : Summary} (hm : m.Fits f.table.size)
      (hreturned : f.returned ∪ m = f.returned) (hs : f.table.summarize m = .ok s)
      (hp : (p == s) = true) : Publishes f p m.rank
  | generator {m : Mask} {s : Summary} (hgenerator : f.effects.generator = true)
      (hm : Typing.Settles (KindTable.instanceOf ⟨"Generator"⟩ false) f.table m)
      (hs : f.table.summarize m = .ok s) (hp : (p == s) = true) : Publishes f p 65

namespace Publishes

variable {f g : Facts} {p : Summary} {n : Nat}

/-- No published result ranks above a generator. -/
theorem le (h : f.Publishes p n) : n ≤ 65 := by
  cases h with
  | returned => exact Nat.le_succ_of_le (Mask.rank_le _)
  | generator => exact Nat.le_refl _

/-- What may have been published keeps its rank as facts grow. -/
theorem keeps (h : f.Publishes p n) (hfg : f.Keeps g) : g.Publishes p n := by
  cases h with
  | returned hm hreturned hs hp =>
      exact .returned (hm.mono hfg.table.size_le) (hfg.returned _ hreturned)
        (KindTable.summarize_grow hfg.table hs) hp
  | generator hgenerator hm hs hp =>
      exact .generator (hfg.generator hgenerator) (hm.grow hfg.table)
        (KindTable.summarize_grow hfg.table hs) hp

/-- A result that differs from the published one has a higher rank. -/
theorem renew {b : Body} (h : f.Publishes p n) (hf : f.Fits b) {m : Mask} {s : Summary}
    (hresult : f.result = .ok (m, g)) (hs : g.table.summarize m = .ok s) :
    (p == s) = true ∨ ∃ n', n < n' ∧ g.Publishes s n' := by
  cases hgen : f.effects.generator with
  | false =>
      rw [Facts.result, hgen] at hresult
      cases hresult
      cases h with
      | generator hgenerator => exact absurd (hgen.symm.trans hgenerator) (by decide)
      | @returned m₀ s₀ hm₀ hreturned hs₀ hp =>
          by_cases hsame : f.returned = m₀
          · rw [hsame, hs₀] at hs
            cases hs
            exact Or.inl hp
          · right
            have hjoin : m₀ ∪ f.returned = f.returned := (Mask.union_comm ..).trans hreturned
            refine ⟨f.returned.rank, ?_, .returned hf.returned
              (Mask.union_self hf.returned.normal) hs (Summary.beq_self s)⟩
            calc m₀.rank < (m₀ ∪ f.returned).rank :=
                  Mask.rank_lt_union hm₀.normal (hjoin.symm ▸ hsame)
              _ = f.returned.rank := by rw [hjoin]
  | true =>
      obtain ⟨m₁, t, hrun, -, hg, -⟩ := KindTable.instanceOf_runs hf.table ⟨"Generator"⟩ false
      have hresult' : f.result = .ok (m₁, { f with table := t }) := by
        rw [Facts.result, if_pos hgen, Facts.onTable, hrun]
        rfl
      cases hresult.symm.trans hresult'
      cases h with
      | @returned m₀ =>
          refine Or.inr ⟨65, ?_, .generator hgen (KindTable.settles_of_instanceOf hrun) hs
            (Summary.beq_self s)⟩
          exact Nat.lt_succ_of_le m₀.rank_le
      | @generator m₀ s₀ _ hm₀ hs₀ hp =>
          left
          obtain ⟨overflowed, hrun₀⟩ := hm₀ f.table hf.table (.refl _)
          cases hrun.symm.trans hrun₀
          have hs₁ := KindTable.summarize_grow hg hs₀
          cases hs.symm.trans hs₁
          exact hp

end Publishes

end Facts

/-! ### The rank of an entry -/

/-- The rank of the entry of a block, which has none as long as the block has not been reached. -/
def entryRank : Option State → Nat
  | none => 0
  | some st => st.rank + 1

namespace RoutineRun

variable {run run' : RoutineRun}

/-- States only rise, and one that has grown rises strictly. -/
theorem entryRank_mergeEntry (h : run.Fits) {b : BlockId} {st : State} {grew : Bool}
    (hmerge : run.mergeEntry b st = .ok (grew, run')) :
    (∀ c, entryRank (run.entry? c) ≤ entryRank (run'.entry? c)) ∧
      (grew = true → entryRank (run.entry? b) < entryRank (run'.entry? b)) := by
  obtain ⟨new, hentry, hcases⟩ := mergeEntry_cases hmerge
  have hown : entryRank (run.entry? b) ≤ entryRank (some new) ∧
      (grew = true → entryRank (run.entry? b) < entryRank (some new)) := by
    rcases hcases with ⟨hfresh, -, -⟩ | ⟨old, hold, hjoin, hgrew⟩
    · rw [hfresh]
      exact ⟨Nat.zero_le _, fun _ => Nat.succ_pos _⟩
    · have hproper := (h.states hold).proper
      rw [hold]
      refine ⟨Nat.succ_le_succ (State.rank_le_of_join hproper hjoin), fun htrue => ?_⟩
      have hne : new ≠ old := bne_iff_ne.1 (hgrew.symm.trans htrue)
      exact Nat.succ_lt_succ (State.rank_lt_of_join hproper hjoin hne)
  constructor
  · intro c
    rw [hentry]
    split
    · rename_i heq
      exact heq ▸ hown.1
    · exact Nat.le_refl _
  · rw [hentry, if_pos rfl]
    exact hown.2

/-- Joining states in lowers no entry, and raises those that are told to have gained something. -/
theorem entryRank_mergeEntries (h : run.Fits) {flows : List (BlockId × State)}
    (hflows : ∀ e ∈ flows, e.1 < run.body.blocks.size ∧
      e.2.Fits run.body.vars.length run.facts.table)
    {grown : List BlockId} (hmerges : run.mergeEntries flows = .ok (grown, run')) :
    (∀ c, entryRank (run.entry? c) ≤ entryRank (run'.entry? c)) ∧
      ∀ b ∈ grown, entryRank (run.entry? b) < entryRank (run'.entry? b) := by
  induction flows generalizing run grown with
  | nil =>
      cases hmerges
      exact ⟨fun _ => Nat.le_refl _, fun _ hb => nomatch hb⟩
  | cons e flows ih =>
      obtain ⟨hhead, hrest⟩ := List.forall_mem_cons.1 hflows
      obtain ⟨grew, run₁, grown', hmerge, hrests, rfl⟩ := mergeEntries_cons hmerges
      obtain ⟨grew', run₁', hmerge', hfits₁, hext, -⟩ := mergeEntry_ok h hhead.1 hhead.2
      cases hmerge.symm.trans hmerge'
      have hsame : run₁.body = run.body ∧ run₁.facts = run.facts := by
        rw [hext.rest]
        exact ⟨rfl, rfl⟩
      obtain ⟨hle, hlt⟩ := entryRank_mergeEntry h hmerge
      obtain ⟨hle', hlt'⟩ := ih hfits₁ (by rw [hsame.1, hsame.2]; exact hrest) hrests
      refine ⟨fun c => (hle c).trans (hle' c), fun b hb => ?_⟩
      have htail (hb : b ∈ grown') : entryRank (run.entry? b) < entryRank (run'.entry? b) :=
        Nat.lt_of_le_of_lt (hle b) (hlt' b hb)
      cases grew with
      | false => exact htail hb
      | true =>
          rcases List.mem_cons.1 hb with rfl | hb
          · exact Nat.lt_of_lt_of_le (hlt rfl) (hle' _)
          · exact htail hb

end RoutineRun

/-! ### The unit -/

/-- The routines that have a body in the unit. -/
def unitRoutines (bodies : List Body) : Finset RoutineId :=
  (bodies.map Body.routine).toFinset

/-- The blocks of the unit. -/
def unitBlocks (bodies : List Body) : Finset BlockRef :=
  (bodies.flatMap fun b => (List.range b.blocks.size).map (b.routine, ·)).toFinset

theorem mem_unitRoutines {bodies : List Body} {b : Body} (hb : b ∈ bodies) :
    b.routine ∈ unitRoutines bodies :=
  List.mem_toFinset.2 (List.mem_map_of_mem hb)

theorem mem_unitBlocks {bodies : List Body} {b : Body} (hb : b ∈ bodies) {c : BlockId}
    (hc : c < b.blocks.size) : (b.routine, c) ∈ unitBlocks bodies := by
  apply List.mem_toFinset.2
  apply List.mem_flatMap.2
  exact ⟨b, hb, List.mem_map.2 ⟨c, List.mem_range.2 hc, rfl⟩⟩

namespace Solver

variable {bodies : List Body} {s s' : Solver} {n : Nat}

/-- How far the entries of the unit have come. -/
def reach (bodies : List Body) (s : Solver) : Nat :=
  ∑ ref ∈ unitBlocks bodies, entryRank (s.entry? ref)

/-- The load of the unit on its agenda. -/
def unitLoad (bodies : List Body) (s : Solver) : Nat :=
  s.load (unitRoutines bodies) (unitBlocks bodies)

/-- What every routine has published is of its rank. -/
def Ranks (s : Solver) (rank : RoutineId → Nat) : Prop :=
  ∀ r run p, s.runs.find? r = some run → s.published.find? r = some p →
    run.facts.Publishes p (rank r)

/-- The unit has come to `n`: the ranks of its entries and of what it has published add up to
that. -/
structure Stands (bodies : List Body) (s : Solver) (n : Nat) : Prop where
  fits : s.Fits
  body : ∀ {r : RoutineId} {run : RoutineRun}, s.runs.find? r = some run → run.body ∈ bodies
  ranks : ∃ rank : RoutineId → Nat, s.Ranks rank ∧ (∀ r, rank r ≤ 65) ∧
    n = s.reach bodies + ∑ r ∈ unitRoutines bodies, rank r

namespace Stands

theorem mem_routines (h : s.Stands bodies n) {r : RoutineId} {run : RoutineRun}
    (hrun : s.runs.find? r = some run) : r ∈ unitRoutines bodies := by
  obtain ⟨rfl, -⟩ := h.fits.runs hrun
  exact mem_unitRoutines (h.body hrun)

/-- Only blocks of the unit are reached. -/
theorem mem_blocks (h : s.Stands bodies n) {ref : BlockRef} (href : (s.entry? ref).isSome) :
    ref ∈ unitBlocks bodies := by
  obtain ⟨st, hst⟩ := Option.isSome_iff_exists.1 href
  obtain ⟨run, hrun, hst⟩ := Option.bind_eq_some_iff.1 hst
  obtain ⟨hroutine, hfits⟩ := h.fits.runs hrun
  obtain ⟨block, hblock⟩ := hfits.block hst
  have hmem := mem_unitBlocks (h.body hrun) (Array.getElem?_eq_some_iff.1 hblock).1
  rwa [hroutine] at hmem

/-- A step keeps the bodies of the unit. -/
theorem body_of_advances (h : s.Stands bodies n) (ha : s.Advances s') (hs' : s'.Fits)
    {r : RoutineId} {run : RoutineRun} (hrun : s'.runs.find? r = some run) : run.body ∈ bodies := by
  obtain ⟨old, hold, hbody⟩ := ha.exists_run h.fits hs' hrun
  exact hbody ▸ h.body hold

end Stands

theorem reach_congr (h : ∀ ref, s'.entry? ref = s.entry? ref) :
    s'.reach bodies = s.reach bodies := by
  simp only [reach, h]

/-! ### The end of a round -/

/-- One unit gets at least as far as the other, and does not add to the load without getting
further. -/
def Gains (bodies : List Body) (s : Solver) (n : Nat) (s' : Solver) : Prop :=
  ∃ n', s'.Stands bodies n' ∧ n ≤ n' ∧ (n' = n → s'.unitLoad bodies ≤ s.unitLoad bodies)

theorem Stands.gains (h : s.Stands bodies n) : s.Gains bodies n s :=
  ⟨n, h, Nat.le_refl _, fun _ => Nat.le_refl _⟩

theorem Rests.publishes (h : s.Rests s') (hs : s.Fits) {rank : RoutineId → Nat}
    (hrank : s.Ranks rank) {r : RoutineId} {run' : RoutineRun} {p : Summary}
    (hrun' : s'.runs.find? r = some run') (hp : s.published.find? r = some p) :
    run'.facts.Publishes p (rank r) := by
  have hlisted := hs.listed r
  rw [hp] at hlisted
  obtain ⟨run, hrun⟩ := Option.isSome_iff_exists.1 hlisted.symm
  obtain ⟨run₁, t, hrun₁, hfacts, hg⟩ := h r run hrun
  cases hrun'.symm.trans hrun₁
  rw [hfacts]
  exact (hrank r run p hrun hp).keeps (.onTable _ hg)

/-- Raising one of the ranks raises their sum. -/
theorem sum_lt_sum_update {rs : Finset RoutineId} {rank : RoutineId → Nat} {r : RoutineId} {k : Nat}
    (hr : r ∈ rs) (hlt : rank r < k) : ∑ x ∈ rs, rank x < ∑ x ∈ rs, Function.update rank r k x := by
  apply Finset.sum_lt_sum
  · intro x _
    by_cases hx : x = r
    · subst hx
      rw [Function.update_self]
      exact Nat.le_of_lt hlt
    · rw [Function.update_of_ne hx]
  · refine ⟨r, hr, ?_⟩
    rw [Function.update_self]
    exact hlt

/-- A routine that announces a result changes its own rank only. -/
theorem Ranks.announcing {rank : RoutineId → Nat} {r : RoutineId} {run' : RoutineRun}
    {summary : Summary} {k : Nat} (hrank : s.Ranks rank) (hs : s.Fits)
    (hrests : s.Rests ((s.withRun r run').announcing r summary))
    (hpublishes : run'.facts.Publishes summary k) :
    ((s.withRun r run').announcing r summary).Ranks (Function.update rank r k) := by
  intro x run p hrun hp
  rw [Solver.announcing, OrderedMap.find?_insert] at hp
  by_cases hx : r = x
  · subst hx
    rw [Solver.announcing, withRun, OrderedMap.find?_insert, if_pos rfl] at hrun
    rw [if_pos rfl] at hp
    cases hrun
    cases hp
    rw [Function.update_self]
    exact hpublishes
  · rw [if_neg hx] at hp
    rw [Function.update_of_ne (Ne.symm hx)]
    exact hrests.publishes hs hrank hrun hp

/-- Publishing gets the unit further, unless the result is the one that was published before. -/
theorem Stands.publish (h : s.Stands bodies n) {r : RoutineId} (hpublish : s.publish r = .ok s') :
    s.Gains bodies n s' := by
  obtain ⟨s₁, hpublish₁, hs', hadvances, -, -, hidles⟩ := publish_ok h.fits r
  cases hpublish.symm.trans hpublish₁
  have hrests := publish_rests h.fits hpublish
  have hreach : s'.reach bodies = s.reach bodies := reach_congr hidles.entry?
  cases hrun : s.runs.find? r with
  | none =>
      rw [Solver.publish, hrun] at hpublish
      cases hpublish
      exact h.gains
  | some run =>
      obtain ⟨rank, hrank, hle, rfl⟩ := h.ranks
      obtain ⟨-, hfits⟩ := h.fits.runs hrun
      obtain ⟨m, t, hresult, hw, hg, hm, -⟩ := Facts.result_ok hfits.facts
      obtain ⟨summary, hsummary⟩ := KindTable.summarize_ok hw hm
      rw [publish_eq hrun hresult hsummary] at hpublish
      split at hpublish
      · cases hpublish
        refine ⟨_, ⟨hs', h.body_of_advances hadvances hs', rank, ?_, hle, rfl⟩, ?_, ?_⟩
        · intro r' run' p hrun' hp
          exact hrests.publishes h.fits hrank hrun' hp
        · rw [hreach]
        · intro _
          exact Nat.le_of_eq (load_withRun hrun rfl)
      · rename_i hnew
        have hlisted := h.fits.listed r
        rw [hrun] at hlisted
        obtain ⟨p, hp⟩ := Option.isSome_iff_exists.1 hlisted
        rw [hp] at hnew
        obtain ⟨k, hlt, hpublishes⟩ :=
          ((hrank r run p hrun hp).renew hfits.facts hresult hsummary).resolve_left hnew
        have hsum := sum_lt_sum_update (h.mem_routines hrun) hlt
        cases hpublish
        refine ⟨_, ⟨hs', h.body_of_advances hadvances hs', Function.update rank r k,
          hrank.announcing h.fits hrests hpublishes, fun x => ?_, rfl⟩, ?_, ?_⟩
        · rw [Function.update_apply]
          split
          · exact hpublishes.le
          · exact hle x
        · rw [hreach]
          exact Nat.add_le_add_left (Nat.le_of_lt hsum) _
        · intro hsame
          rw [hreach] at hsame
          omega

/-- Publishing loses no progress. -/
theorem Stands.foldlM_publish (h : s.Stands bodies n) {rs : List RoutineId}
    (hfold : rs.foldlM Solver.publish s = .ok s') : s.Gains bodies n s' := by
  induction rs generalizing s n with
  | nil =>
      cases hfold
      exact h.gains
  | cons r rs ih =>
      obtain ⟨s₁, hpublish, -⟩ := publish_ok h.fits r
      rw [List.foldlM_cons, hpublish] at hfold
      obtain ⟨n₁, hs₁, hle, hload⟩ := h.publish hpublish
      obtain ⟨n₂, hs₂, hle', hload'⟩ := ih hs₁ hfold
      refine ⟨n₂, hs₂, hle.trans hle', fun heq => ?_⟩
      have h₁ : n₁ = n := by omega
      exact (hload' (by omega)).trans (hload h₁)

theorem Stands.release (h : s.Stands bodies n) {r : RoutineId} (hr : r ∈ unitRoutines bodies) :
    (s.release r).Stands bodies n ∧ (s.release r).unitLoad bodies ≤ s.unitLoad bodies := by
  obtain ⟨rank, hrank, hle, rfl⟩ := h.ranks
  obtain ⟨hs', hadvances, hsame, hpublished, -⟩ := release_ok h.fits r
  refine ⟨⟨hs', h.body_of_advances hadvances hs', rank, ?_, hle, ?_⟩, release_load_le h.fits hr⟩
  · intro r' run' p hrun' hp
    rw [hpublished] at hp
    exact hsame.rests.publishes h.fits hrank hrun' hp
  · rw [reach_congr hsame.entry?]

/-- Releasing loses no progress and does not add to the load. -/
theorem Stands.foldl_release (h : s.Stands bodies n) {rs : List RoutineId}
    (hrs : ∀ r ∈ rs, r ∈ unitRoutines bodies) :
    (rs.foldl Solver.release s).Stands bodies n ∧
      (rs.foldl Solver.release s).unitLoad bodies ≤ s.unitLoad bodies := by
  induction rs generalizing s with
  | nil => exact ⟨h, Nat.le_refl _⟩
  | cons r rs ih =>
      obtain ⟨hr, hrs⟩ := List.forall_mem_cons.1 hrs
      obtain ⟨hs₁, hload⟩ := h.release hr
      obtain ⟨hs₂, hload'⟩ := ih hs₁ hrs
      exact ⟨hs₂, hload'.trans hload⟩

/-- The end of a round does not add to the load without getting further. -/
theorem Stands.endRound (h : s.Stands bodies n) (hend : s.endRound = .ok s') :
    s.Gains bodies n s' := by
  obtain ⟨s₁, hfold, -⟩ := foldlM_publish_ok h.fits s.runs.keys
  obtain ⟨n', hs₁, hle, hload⟩ := h.foldlM_publish hfold
  rw [Solver.endRound, hfold] at hend
  cases hend
  have hkeys : ∀ r ∈ s₁.published.keys, r ∈ unitRoutines bodies := by
    intro r hr
    rw [OrderedMap.mem_keys_iff, hs₁.fits.listed] at hr
    obtain ⟨run, hrun⟩ := Option.isSome_iff_exists.1 hr
    exact hs₁.mem_routines hrun
  obtain ⟨hs₂, hload'⟩ := hs₁.foldl_release hkeys
  exact ⟨n', hs₂, hle, fun heq => hload'.trans (hload heq)⟩

/-! ### A visit -/

/-- No visit lowers the state of a block. -/
theorem entryRank_of_leaves {d : Declarations} {o : Options} {v : Visited} {run' : RoutineRun}
    (h : v.Leaves o s' run') (hreal : v.Real d) (hs : v.unit.Fits) (ref : BlockRef) :
    entryRank (v.unit.entry? ref) ≤ entryRank (s'.entry? ref) := by
  rw [entry?_of_insert h.runs]
  split
  · rename_i hr
    rw [hreal.entry?_unit hr]
    cases hheld : v.isHeld o with
    | true =>
        rw [RoutineRun.entry?, RoutineRun.entry?, (h.held hheld).1]
    | false =>
        obtain ⟨grown, hmerge, -⟩ := h.sent hheld
        exact (RoutineRun.entryRank_mergeEntries (hreal.after_fits hs) (hreal.flows_fit hs)
          hmerge).1 ref.2
  · exact Nat.le_refl _

/-- A visit gets further, or takes some of the load away. -/
theorem Stands.visit {d : Declarations} {o : Options} {v : Visited} (h : s.Stands bodies n)
    (hdequeues : s.Dequeues v.ref v.unit) (hreal : v.Real d)
    (hvisit : v.unit.visit d o v.ref = .ok s') :
    ∃ n', s'.Stands bodies n' ∧ n ≤ n' ∧ (n' = n → s'.unitLoad bodies < s.unitLoad bodies) := by
  have hs₁ := hdequeues.fits h.fits
  obtain ⟨rank, hrank, hle, rfl⟩ := h.ranks
  obtain ⟨s₁, hvisit₁, hs', hadvances, -⟩ := hreal.visit_ok hs₁ o
  cases hvisit.symm.trans hvisit₁
  obtain ⟨run', hleaves⟩ := hreal.leaves hs₁ hvisit
  have hrise (ref : BlockRef) : entryRank (s.entry? ref) ≤ entryRank (s'.entry? ref) := by
    rw [← hdequeues.entry?]
    exact entryRank_of_leaves hleaves hreal hs₁ ref
  have hstands : s'.Stands bodies (s'.reach bodies + ∑ r ∈ unitRoutines bodies, rank r) := by
    refine ⟨hs', ?_, rank, ?_, hle, rfl⟩
    · intro r run hrun
      obtain ⟨old, hold, hbody⟩ := hadvances.exists_run hs₁ hs' hrun
      rw [hdequeues.runs] at hold
      exact hbody ▸ h.body hold
    · intro r run p hrun hp
      rw [hleaves.published, hdequeues.published] at hp
      rw [hleaves.runs, OrderedMap.find?_insert] at hrun
      split at hrun
      · rename_i hr
        cases hrun
        rw [hleaves.facts]
        have hold := hreal.run
        rw [hr, hdequeues.runs] at hold
        exact (hrank r v.run p hold hp).keeps (hreal.moves hs₁).keeps
      · rw [hdequeues.runs] at hrun
        exact hrank r run p hrun hp
  refine ⟨_, hstands, ?_, fun hsame => ?_⟩
  · exact Nat.add_le_add_right (Finset.sum_le_sum fun ref _ => hrise ref) _
  · rcases hleaves.load_lt hreal h.fits hdequeues (h.mem_blocks (hdequeues.entry? _ ▸
      hdequeues.reached h.fits)) with hlt | ⟨grown, hsent, hgrown, hmerge⟩
    · exact hlt
    · -- Something was added to the entry of a block, which has a higher rank now.
      obtain ⟨b, hb⟩ := List.exists_mem_of_ne_nil grown hgrown
      have hbefore : s.entry? (v.ref.1, b) = v.after.entry? b := by
        rw [← hdequeues.entry?]
        exact hreal.entry?_unit rfl
      have hafter : s'.entry? (v.ref.1, b) = run'.entry? b := by
        rw [entry?_of_insert hleaves.runs, if_pos rfl]
      have hlt : entryRank (s.entry? (v.ref.1, b)) < entryRank (s'.entry? (v.ref.1, b)) := by
        rw [hbefore, hafter]
        exact (RoutineRun.entryRank_mergeEntries (hreal.after_fits hs₁) (hreal.flows_fit hs₁)
          hmerge).2 b hb
      have hreached : (s'.entry? (v.ref.1, b)).isSome := by
        cases hentry : s'.entry? (v.ref.1, b) with
        | none =>
            rw [hentry] at hlt
            cases hlt
        | some st => rfl
      have hreach : s.reach bodies < s'.reach bodies :=
        Finset.sum_lt_sum (fun ref _ => hrise ref) ⟨_, hstands.mem_blocks hreached, hlt⟩
      omega

/-! ### The bounds -/

/-- The highest load that a unit can have. -/
def maxLoad (bodies : List Body) : Nat :=
  (unitBlocks bodies).card * ((unitRoutines bodies).card + 2)

/-- How far a unit can come at most. -/
def maxProgress (bodies : List Body) : Nat :=
  (unitBlocks bodies).card * (67 * (bodies.map fun b => b.vars.length).sum + 1) +
    (unitRoutines bodies).card * 65

/-- The rank of a state is bounded by the number of variables in the unit. -/
theorem entryRank_le (h : s.Stands bodies n) (ref : BlockRef) :
    entryRank (s.entry? ref) ≤ 67 * (bodies.map fun b => b.vars.length).sum + 1 := by
  cases hst : s.entry? ref with
  | none => exact Nat.zero_le _
  | some st =>
      obtain ⟨run, hrun, hentry⟩ := Option.bind_eq_some_iff.1 hst
      have hlength := ((h.fits.runs hrun).2.states hentry).length
      have hvars : run.body.vars.length ≤ (bodies.map fun b => b.vars.length).sum :=
        List.le_sum_of_mem (List.mem_map_of_mem (h.body hrun))
      apply Nat.succ_le_succ
      calc st.rank ≤ 67 * st.slots.length := st.rank_le
        _ ≤ 67 * (bodies.map fun b => b.vars.length).sum := by
          apply Nat.mul_le_mul_left
          rw [hlength]
          exact hvars

/-- Progress is bounded by the unit. -/
theorem Stands.le (h : s.Stands bodies n) : n ≤ maxProgress bodies := by
  obtain ⟨rank, -, hle, rfl⟩ := h.ranks
  apply Nat.add_le_add
  · exact Finset.sum_le_card_nsmul _ _ _ fun ref _ => entryRank_le h ref
  · exact Finset.sum_le_card_nsmul _ _ _ fun r _ => hle r

end Solver

end FlowTyping
