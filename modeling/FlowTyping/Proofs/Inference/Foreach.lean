import FlowTyping.Proofs.Inference.Fixpoint
import FlowTyping.Proofs.Solver.Arrival

/-!
# The value of a loop over a collection

The head of such a loop takes the elements of what is recorded for the collection at the time of the
visit. Main statement: `foreach_value_covers_iff`, which says exactly when the value at the start of
the loop body covers the elements of what is recorded for the collection in the end.
-/

namespace FlowTyping

open Visit

variable {d : Declarations} {o : Options} {bodies : List Body}

namespace Visited

/-- The scene when a visit has come to the edge of its block. -/
def atEdge (d : Declarations) (v : Visited) : Except Fault Scene := do
  let watched := !v.block.handlers.isEmpty
  let (thrown?, s) ← (noteThrow watched none).run v.start
  let (_, s) ← (visitActions (v.setting d) watched thrown? v.block.actions).run s
  return s

/-- What the elements of a collection are taken to be at the edge of the block. -/
def elementsSeen (d : Declarations) (v : Visited) (collection : ExprId) : Except Fault Mask := do
  let s ← v.atEdge d
  s.facts.table.elementMask (s.facts.exprMask collection)

end Visited

theorem State.slot_of_assign {a b : State} {x : VarId} {m : Mask} (h : a.assign x m = .ok b) :
    ∃ slot : Slot, b.slots[x]? = some (slot.assign m) := by
  rw [State.assign, State.update] at h
  split at h
  · rename_i hx
    cases h
    refine ⟨a.slots[x], ?_⟩
    simp [List.getElem?_eq_getElem hx]
  · cases h

/-- The head of a loop sends its variable to the body with the elements that it sees. -/
theorem exits_of_visitAdvance {env : Setting} {collection value : ExprId} {key? : Option ExprId}
    {body stop : BlockId} {x : VarId} {s s' : Scene} {exits : List (BlockId × State)}
    (hx : env.body.exprs[value]? = some (.var x))
    (h : (visitAdvance env collection key? value false body stop).run s = .ok (exits, s')) :
    ∃ (seen : Mask) (st : State) (slot : Slot),
      s.facts.table.elementMask (s.facts.exprMask collection) = .ok seen ∧
      exits = [(stop, s.state), (body, st)] ∧ st.slots[x]? = some (slot.assign seen) := by
  have hdone : (exitTo [stop]).run s = .ok ([(stop, s.state)], s) := rfl
  have htable : getTable.run s = .ok (s.facts.table, s) := rfl
  have hfacts : getFacts.run s = .ok (s.facts, s) := rfl
  rw [visitAdvance, run_bind_ok hdone, run_bind_ok htable, run_bind_ok hfacts] at h
  cases hseen : s.facts.table.elementMask (s.facts.exprMask collection) with
  | error fault =>
      rw [hseen] at h
      cases h
  | ok seen =>
      have hlift : (liftM (Except.ok seen : Except Fault Mask) : Visit Mask).run s =
          .ok (seen, s) := rfl
      rw [hseen, run_bind_ok hlift] at h
      obtain ⟨-, s₁, -, h⟩ := exists_of_run_bind h
      obtain ⟨m, s₂, hwrite, h⟩ := exists_of_run_bind h
      obtain ⟨slot, hslot⟩ := State.slot_of_assign (state_of_write_var hx hwrite)
      cases h
      exact ⟨seen, _, slot, rfl, rfl, hslot⟩

/-- A block ends by storing the next element of a collection in a variable and going to the body of
the loop. -/
def Body.IsLoopHead (b : Body) (i : BlockId) (collection : ExprId) (x : VarId) (body : BlockId) :
    Prop :=
  ∃ block key? value stop, b.blocks[i]? = some block ∧
    block.edge = .advance collection key? value false body stop ∧
    b.exprs[value]? = some (.var x)

namespace Visited.Real

variable {v : Visited} {collection : ExprId} {body : BlockId} {x : VarId}

/-- What a visit to the head of a loop sends to the body. -/
theorem sends_elements (h : v.Real d) (hs : v.unit.Fits)
    (hhead : v.run.body.IsLoopHead v.ref.2 collection x body) :
    ∃ (s : Scene) (seen : Mask) (st : State) (slot : Slot), v.elementsSeen d collection = .ok seen ∧
      s.facts.table.elementMask (s.facts.exprMask collection) = .ok seen ∧
      v.run.facts.Below s.facts ∧ s.facts.Below v.scene.facts ∧
      (Solver.flows v.block v.outcome)[1]? = some (body, st) ∧
      st.slots[x]? = some (slot.assign seen) := by
  obtain ⟨block, key?, value, stop, hblock, hedge, hx⟩ := hhead
  cases h.block.symm.trans hblock
  obtain ⟨-, hfits⟩ := hs.runs h.run
  have hstart : v.start.Fits (v.setting d).body := ⟨hfits.facts, hfits.states h.entry⟩
  have hexprs := List.forall_mem_append.1 (hfits.body.blockExprs h.block)
  have hnote : Runs (v.setting d) v.unit.published (noteThrow (!v.block.handlers.isEmpty) none) _
      v.start _ := noteThrow_runs _ hstart fun st hst => nomatch hst
  obtain ⟨thrown₁, s₁, hrun₁, hm₁, hs₁, ht₁, -⟩ := hnote
  have hacts : Runs (v.setting d) v.unit.published
      (visitActions (v.setting d) (!v.block.handlers.isEmpty) thrown₁ v.block.actions) _ s₁ _ :=
    visitActions_runs hfits.body _ hexprs.1 (hfits.body.blockVars h.block) hs₁ ht₁
  obtain ⟨thrown₂, s₂, hrun₂, hm₂, hs₂, ht₂, -⟩ := hacts
  have hend : Runs (v.setting d) v.unit.published
      (visitEdge (v.setting d) (!v.block.handlers.isEmpty) thrown₂ v.block.edge) _ s₂ _ :=
    visitEdge_runs hfits.body _ hexprs.2 hs₂ ht₂
  obtain ⟨outcome, s₃, hrun₃, hm₃, -⟩ := hend
  have hvisit : (visitBlock (v.setting d) v.block).run v.start = .ok (outcome, s₃) := by
    rw [visitBlock, run_bind_ok hrun₁, run_bind_ok hrun₂, hrun₃]
  cases h.outcome.symm.trans hvisit
  have hseen : v.elementsSeen d collection =
      s₂.facts.table.elementMask (s₂.facts.exprMask collection) := by
    simp only [elementsSeen, atEdge, hrun₁, bind, Except.bind, hrun₂, pure, Except.pure]
  rw [hedge] at hrun₃
  obtain ⟨exits, s₄, hadvance, hsettle⟩ := exists_of_run_bind hrun₃
  obtain ⟨thrown₃, s₅, -, hpure⟩ := exists_of_run_bind hsettle
  obtain ⟨seen, st, slot, helem, rfl, hslot⟩ := exits_of_visitAdvance hx hadvance
  have houtcome : v.outcome = ⟨[(stop, s₂.state), (body, st)], thrown₃⟩ :=
    (congrArg Prod.fst (Except.ok.inj hpure)).symm
  refine ⟨s₂, seen, st, slot, hseen.trans helem, helem, (hm₁.trans hm₂).facts_below,
    hm₃.facts_below, ?_, hslot⟩
  rw [Solver.flows, houtcome]
  rfl

/-- A later visit to the head of a loop sees all elements that an earlier one saw. -/
theorem elementsSeen_contains {w : Visited} (hv : v.Real d) (hvs : v.unit.Fits) (hw : w.Real d)
    (hws : w.unit.Fits) (hvhead : v.run.body.IsLoopHead v.ref.2 collection x body)
    (hwhead : w.run.body.IsLoopHead w.ref.2 collection x body)
    (horder : v = w ∨ v.scene.facts.Below w.run.facts) {seen seen' : Mask}
    (hseen : v.elementsSeen d collection = .ok seen)
    (hseen' : w.elementsSeen d collection = .ok seen') : seen'.contains seen = true := by
  rcases horder with rfl | hbelow
  · cases hseen.symm.trans hseen'
    exact Mask.contains_refl _
  · obtain ⟨s, m, -, -, hm, helem, -, hafter, -⟩ := hv.sends_elements hvs hvhead
    obtain ⟨s', m', -, -, hm', helem', hbefore, -⟩ := hw.sends_elements hws hwhead
    cases hseen.symm.trans hm
    cases hseen'.symm.trans hm'
    have hfacts := (hafter.trans hbelow).trans hbefore
    exact KindTable.elementMask_contains hfacts.table (hfacts.exprMask collection) helem helem'

end Visited.Real

theorem RoutineResult.elementMask_ok {run : RoutineRun} {result : RoutineResult} (h : run.Fits)
    (hof : RoutineResult.ofRun run = .ok result) (e : ExprId) :
    ∃ elem, result.table.elementMask (result.exprMask e) = .ok elem := by
  obtain ⟨m, t, hresult, hw, hg, -⟩ := Facts.result_ok h.facts
  simp only [RoutineResult.ofRun, hresult, bind, Except.bind, pure, Except.pure,
    Except.ok.injEq] at hof
  obtain ⟨elem, helem, -⟩ := KindTable.elementMask_ok hw (hg.fits (h.facts.exprMask e))
  rw [← hof]
  exact ⟨elem, helem⟩

/-- A variable after an assignment is shared, or holds just what was assigned. -/
theorem Slot.shared_or_admits_assign (m : Mask) (slot : Slot) :
    (slot.assign m).shared = true ∨ ∀ k, (slot.assign m).mask.Admits k ↔ m.Admits k := by
  cases hshared : slot.shared with
  | true => exact Or.inl hshared
  | false =>
      refine Or.inr fun k => ?_
      rw [Slot.assign, hshared]
      exact Mask.admits_withRef

/-- Let one of the ways to a block bring a variable with masks up to `seen`. What the variable
covers on entry to the block is in `seen` or came on another way. -/
theorem Solver.Collects.covers_iff {s₀ s : Solver} {log : List Visited} {ref : BlockRef}
    {source : Option (BlockRef × Nat)} {entry st : State} {x : VarId} {slot slot₁ : Slot}
    {seen elem : Mask} (h : Collects o s₀ s log) (hentry : s.entry? ref = some entry)
    (hslot : entry.slots[x]? = some slot) (hlast : Arrival o s₀ log ref source st)
    (hst : st.slots[x]? = some (slot₁.assign seen))
    (hall : ∀ {st' : State}, Arrival o s₀ log ref source st' →
      ∃ (seen' : Mask) (slot' : Slot), st'.slots[x]? = some (slot'.assign seen') ∧
        seen.contains seen' = true) :
    slot.shared = true ∨ slot.mask.contains elem = true ↔
      slot.shared = true ∨ ∀ k, elem.Admits k → seen.Admits k ∨
        ∃ source' st', source' ≠ source ∧ Arrival o s₀ log ref source' st' ∧ st'.Admits x k := by
  cases hshared : slot.shared with
  | true => simp
  | false =>
      have hplain : ¬entry.Shares x := fun hs => by
        rw [State.shares_iff hslot, hshared] at hs
        cases hs
      have harrived {source' : Option (BlockRef × Nat)} {st' : State}
          (ha : Arrival o s₀ log ref source' st') : entry.subsumes st' = .ok true := by
        obtain ⟨entry', hentry', hsub⟩ := h.arrived ha
        cases hentry.symm.trans hentry'
        exact hsub
      -- Over the given way the variable never comes shared, so it holds just what was assigned.
      have hassigned {st' : State} (ha : Arrival o s₀ log ref source st') {m : Mask} {slot' : Slot}
          (hst' : st'.slots[x]? = some (slot'.assign m)) (k : Option Nat) :
          st'.Admits x k ↔ m.Admits k := by
        rw [State.admits_iff hst']
        rcases Slot.shared_or_admits_assign m slot' with hs | hadmits
        · have hs' : st'.Shares x := (State.shares_iff hst').2 hs
          exact absurd (State.shares_of_subsumes (harrived ha) hs') hplain
        · exact hadmits k
      simp only [Bool.false_eq_true, false_or]
      rw [Mask.contains_iff_admits]
      refine forall_congr' fun k => imp_congr_right fun _ => ?_
      rw [← State.admits_iff hslot]
      constructor
      · intro hk
        obtain ⟨source', st', ha, hk'⟩ := h.origin hentry hplain hk
        by_cases hsource : source' = source
        · subst hsource
          obtain ⟨seen', slot', hst', hcontains⟩ := hall ha
          exact Or.inl (Mask.contains_iff_admits.1 hcontains k ((hassigned ha hst' k).1 hk'))
        · exact Or.inr ⟨source', st', hsource, ha, hk'⟩
      · rintro (hk | ⟨source', st', -, ha, hk⟩)
        · exact State.admits_of_subsumes (harrived hlast) hplain ((hassigned hlast hst k).2 hk)
        · exact State.admits_of_subsumes (harrived ha) hplain hk

/-- In a converged run, let the head of a loop have been reached. The variable of the loop is shared
at the start of the body, or covers the elements of what is recorded for the collection in the end,
if and only if it is shared there, or each kind of these elements was seen at the last visit to the
head or came to the body on another way than from the head. -/
theorem foreach_value_covers_iff {cancelled : Bool} {r : InferResult}
    (h : infer d o bodies cancelled = .ok r) (hconverged : r.converged = true) {b : Body}
    (hb : b ∈ bodies) {i : BlockId} {collection : ExprId} {x : VarId} {body : BlockId}
    (hhead : b.IsLoopHead i collection x body) {result : RoutineResult}
    (hresult : r.routine? b.routine = some result) (hreached : (result.entry? i).isSome) :
    ∃ s₀ v seen elem entry slot,
      unitStart? d o bodies = some s₀ ∧
      lastVisit? (unitHistory d o bodies) (b.routine, i) = some v ∧
      v.elementsSeen d collection = .ok seen ∧
      result.table.elementMask (result.exprMask collection) = .ok elem ∧
      result.entry? body = some entry ∧ entry.slots[x]? = some slot ∧
      (slot.shared = true ∨ slot.mask.contains elem = true ↔
        slot.shared = true ∨ ∀ k, elem.Admits k → seen.Admits k ∨
          ∃ source st, source ≠ some ((b.routine, i), 1) ∧
            Solver.Arrival o s₀ (unitHistory d o bodies) (b.routine, body) source st ∧
            st.Admits x k) := by
  obtain ⟨s₀, s, hstart, hfresh, hs, hof, hend⟩ := infer_spec h
  obtain ⟨hfinal, hreaches⟩ := hend hconverged
  have hlogs := hreaches.logs hfresh
  have hcollects := hreaches.collects hfresh
  obtain ⟨run, hrun, hofRun⟩ := hof.run hresult
  obtain ⟨hroutine, hfits⟩ := hs.runs hrun
  have hbody : run.body = b := eq_of_routine_eq h (hreaches.body_mem hfresh hrun) hb hroutine
  have hentries (c : BlockId) : s.entry? (b.routine, c) = result.entry? c := by
    rw [Solver.entry?, hrun, RoutineResult.entry?, (RoutineResult.of_ofRun hofRun).1]
    rfl
  -- Every visit to the routine is about the same body, so that the head stays the head.
  have hvisit {v : Visited} (hv : v ∈ unitHistory d o bodies) (href : v.ref = (b.routine, i)) :
      v.Real d ∧ v.unit.Fits ∧ v.run.body.IsLoopHead v.ref.2 collection x body := by
    obtain ⟨run', hrun', hbody', -⟩ := hcollects.known v hv
    rw [href, hrun] at hrun'
    cases hrun'
    refine ⟨(hlogs.real v hv).1, (hlogs.real v hv).2, ?_⟩
    rw [← hbody', hbody, href]
    exact hhead
  obtain ⟨v, hlast⟩ : ∃ v, lastVisit? (unitHistory d o bodies) (b.routine, i) = some v := by
    rcases hcollects.reached (b.routine, i) (hentries i ▸ hreached) with hqueued | ⟨w, hw, href⟩
    · rw [hfinal.queue] at hqueued
      cases hqueued
    · exact exists_lastVisit? (List.countP_pos_iff.2 ⟨w, hw, decide_eq_true href⟩)
  have hmem := mem_of_lastVisit? hlast
  have href := ref_of_lastVisit? hlast
  obtain ⟨hreal, hunit, hvhead⟩ := hvisit hmem href
  obtain ⟨-, seen, sent, slot₁, hseen, -, -, -, hflow, hslot₁⟩ := hreal.sends_elements hunit hvhead
  have hsent := ((hlogs.tracks hlast).of_final hfinal).1
  obtain ⟨elem, helem⟩ := RoutineResult.elementMask_ok hfits hofRun collection
  have hown : v.ref.1 = b.routine := by rw [href]
  have harrival : Solver.Arrival o s₀ (unitHistory d o bodies) (b.routine, body)
      (some (v.ref, 1)) sent := .sent hmem hsent hown hflow
  obtain ⟨entry, hentry, -⟩ := hcollects.arrived harrival
  obtain ⟨slot, hslot⟩ : ∃ slot, entry.slots[x]? = some slot := by
    rw [hentries, RoutineResult.entry?, (RoutineResult.of_ofRun hofRun).1] at hentry
    have hlength := (hfits.states hentry).length
    obtain ⟨block, key?, value, stop, -, -, hvalue⟩ := hhead
    have hx := hfits.body.exprVars (hbody ▸ hvalue) x (List.mem_singleton.2 rfl)
    exact ⟨_, List.getElem?_eq_getElem (hlength ▸ hx)⟩
  refine ⟨s₀, v, seen, elem, entry, slot, hstart, hlast, hseen, helem,
    (hentries body).symm.trans hentry, hslot, ?_⟩
  rw [← href]
  refine hcollects.covers_iff hentry hslot harrival hslot₁ fun {st'} ha => ?_
  obtain ⟨w, hw, hwref, hwflow⟩ := ha.exists_visit
  rw [href] at hwref
  obtain ⟨hwreal, hwunit, hwhead⟩ := hvisit hw hwref
  obtain ⟨-, seen', st, slot', hseen', -, -, -, hflow', hslot'⟩ :=
    hwreal.sends_elements hwunit hwhead
  cases hwflow.symm.trans hflow'
  refine ⟨seen', slot', hslot', ?_⟩
  exact hwreal.elementsSeen_contains hwunit hreal hunit hwhead hvhead
    (hcollects.ordered hlast w hw hwref) hseen' hseen

theorem Sample.walk_isLoopHead : Sample.walk.IsLoopHead 1 0 0 2 :=
  ⟨_, none, 1, 3, rfl, rfl, rfl⟩

/-- With `walk` first, its loop is held back until the result of `items` is known. The last visit to
its head has seen numbers, and numbers are what the variable holds in the body. -/
theorem foreach_value_covers_iff_walk :
    ∃ r result v entry slot,
      infer Sample.declarations Sample.options [Sample.walk, Sample.items] false = .ok r ∧
      r.converged = true ∧ r.routine? 1 = some result ∧
      lastVisit? (unitHistory Sample.declarations Sample.options [Sample.walk, Sample.items])
        (1, 1) = some v ∧
      v.elementsSeen Sample.declarations 0 = .ok .long ∧
      result.table.elementMask (result.exprMask 0) = .ok .long ∧
      result.entry? 2 = some entry ∧ entry.slots[0]? = some slot ∧
      slot.mask.contains .long = true := by
  have hcheck : (infer Sample.declarations Sample.options [Sample.walk, Sample.items]
      false).toOption.any (fun r => r.converged && (r.routine? 1).any fun result =>
        (result.entry? 1).isSome &&
          (result.table.elementMask (result.exprMask 0)).toOption == some .long &&
          (result.entry? 2).any fun entry => (entry.slots[0]?).any fun slot => !slot.shared) =
          true := by
    decide +kernel
  have hlast :
    (lastVisit? (unitHistory Sample.declarations Sample.options [Sample.walk, Sample.items])
      (Sample.walk.routine, 1)).any (fun v =>
      (v.elementsSeen Sample.declarations 0).toOption == some .long) = true := by
    decide +kernel
  obtain ⟨r, hr, hcheck⟩ := any_toOption_iff.1 hcheck
  obtain ⟨hconverged, hcheck⟩ := Bool.and_eq_true_iff.1 hcheck
  obtain ⟨result, hresult, hcheck⟩ := (Option.any_eq_true _ _).1 hcheck
  simp only [Bool.and_eq_true, beq_iff_eq] at hcheck
  obtain ⟨⟨hreached, hlong⟩, hcheck⟩ := hcheck
  obtain ⟨entry', hentry', hcheck⟩ := (Option.any_eq_true _ _).1 hcheck
  obtain ⟨slot', hslot', hplain⟩ := (Option.any_eq_true _ _).1 hcheck
  rw [Bool.not_eq_true'] at hplain
  obtain ⟨s₀, v, seen, elem, entry, slot, -, hv, hseen, helem, hentry, hslot, hiff⟩ :=
    foreach_value_covers_iff hr hconverged (List.mem_cons_self ..) Sample.walk_isLoopHead hresult
      hreached
  cases hentry'.symm.trans hentry
  cases hslot'.symm.trans hslot
  rw [hv, Option.any_some, hseen] at hlast
  obtain rfl : seen = .long := Option.some.inj (beq_iff_eq.1 hlast)
  rw [helem] at hlong
  obtain rfl : elem = .long := Option.some.inj hlong
  refine ⟨r, result, v, entry', slot', hr, hconverged, hresult, hv, hseen, helem, hentry, hslot, ?_⟩
  rw [hplain] at hiff
  simpa using hiff.2 (Or.inr fun k hk => Or.inl hk)

/-- With `items` first, the loop of `walk` is visited while nothing is known about the array, and
never again: its variable holds no value in the body, although the array holds numbers. -/
theorem foreach_value_uncovered :
    ∃ r result elem entry slot,
      infer Sample.declarations Sample.options [Sample.items, Sample.walk] false = .ok r ∧
      r.converged = true ∧ r.routine? Sample.walk.routine = some result ∧
      Sample.walk.IsLoopHead 1 0 0 2 ∧ (result.entry? 1).isSome ∧
      result.table.elementMask (result.exprMask 0) = .ok elem ∧
      result.entry? 2 = some entry ∧ entry.slots[0]? = some slot ∧
      slot.shared = false ∧ slot.mask.contains elem = false := by
  have hcheck : (infer Sample.declarations Sample.options [Sample.items, Sample.walk]
      false).toOption.any (fun r => r.converged && (r.routine? 1).any fun result =>
        (result.entry? 1).isSome &&
          (result.table.elementMask (result.exprMask 0)).toOption.any fun elem =>
            (result.entry? 2).any fun entry => (entry.slots[0]?).any fun slot =>
              !slot.shared && !slot.mask.contains elem) = true := by decide +kernel
  obtain ⟨r, hr, hcheck⟩ := any_toOption_iff.1 hcheck
  obtain ⟨hconverged, hcheck⟩ := Bool.and_eq_true_iff.1 hcheck
  obtain ⟨result, hresult, hcheck⟩ := (Option.any_eq_true _ _).1 hcheck
  obtain ⟨hreached, hcheck⟩ := Bool.and_eq_true_iff.1 hcheck
  obtain ⟨elem, helem, hcheck⟩ := any_toOption_iff.1 hcheck
  obtain ⟨entry, hentry, hcheck⟩ := (Option.any_eq_true _ _).1 hcheck
  obtain ⟨slot, hslot, hcheck⟩ := (Option.any_eq_true _ _).1 hcheck
  simp only [Bool.and_eq_true, Bool.not_eq_true'] at hcheck
  exact ⟨r, result, elem, entry, slot, hr, hconverged, hresult, Sample.walk_isLoopHead, hreached,
    helem, hentry, hslot, hcheck.1, hcheck.2⟩

end FlowTyping
