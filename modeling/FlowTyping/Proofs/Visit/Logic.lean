import FlowTyping.Proofs.Agenda
import FlowTyping.Proofs.Visit.Fit
import Mathlib.Logic.Relation

/-!
# What a visit does

Every part of a visit is a sequence of small moves: the state of the variables changes, facts are
added, and the block is noted as waiting for routines whose results it reads. `Visit.Runs` says that
a part of a visit succeeds and moves this way, and that it reads no other results: against other
published results that agree where the block waits, it does the same.
-/

namespace FlowTyping

/-- One addition to the facts about a routine. -/
inductive Facts.Step : Facts → Facts → Prop
  | record (f : Facts) (e : ExprId) (m : Mask) : Step f (f.record e m)
  | unassignedRead (f : Facts) (e : ExprId) : Step f (f.markUnassignedRead e)
  | addReturn (f : Facts) (m : Mask) : Step f (f.addReturn m)
  | dynamicLocals (f : Facts) : Step f f.markDynamicLocals
  | lateStatic (f : Facts) : Step f f.markLateStaticBinding
  | generator (f : Facts) : Step f f.markGenerator
  | callTarget (f : Facts) (e : ExprId) (target : CallTarget) : Step f (f.setCallTarget e target)
  | report (f : Facts) (d : Diagnostic) : Step f (f.report d)
  | table (f : Facts) {t : KindTable} (h : f.table.Grows t) : Step f { f with table := t }

namespace Setting

/-- The block under visit. -/
def ref (env : Setting) : BlockRef :=
  (env.body.routine, env.block)

/-- The same visit, against other published results. -/
def against (env : Setting) (p : OrderedMap RoutineId Summary) : Setting :=
  { env with published := p }

/-- The published results list the same routines as others, and are the same wherever the block
waits. -/
def Agrees (env : Setting) (p : OrderedMap RoutineId Summary) (a : Agenda) : Prop :=
  ∀ callee, (env.published.find? callee).isSome = (p.find? callee).isSome ∧
    (env.ref ∈ a.waiters callee → env.published.find? callee = p.find? callee)

end Setting

/-- One move of a visit. -/
inductive Move (env : Setting) : Scene → Scene → Prop
  | state (s : Scene) (st : State) : Move env s { s with state := st }
  | facts (s : Scene) {f : Facts} (h : s.facts.Step f) : Move env s { s with facts := f }
  /-- The block reads the result of a routine of the unit. -/
  | await (s : Scene) {callee : RoutineId} {pending? : Option RoutineId}
      (hlisted : (env.published.find? callee).isSome)
      (hpending : pending? = s.pending? ∨ pending? = some callee) :
      Move env s { s with
        agenda := (s.agenda.await callee (s.facts.routine, env.block)).2, pending? := pending? }

/-- A sequence of moves. -/
abbrev Moves (env : Setting) : Scene → Scene → Prop :=
  Relation.ReflTransGen (Move env)

namespace Facts.Step

variable {f g : Facts}

theorem routine (h : f.Step g) : g.routine = f.routine := by
  cases h <;> rfl

theorem table_grows (h : f.Step g) : f.table.Grows g.table := by
  cases h with
  | table h => exact h
  | _ => exact .refl _

theorem exprMask_contains (h : f.Step g) (e : ExprId) :
    (g.exprMask e).contains (f.exprMask e) = true := by
  cases h with
  | record e' m =>
      simp only [Facts.exprMask, Facts.record, Array.getD_eq_getD_getElem?, Array.getElem?_modify]
      split
      · cases f.exprMasks[e]? with
        | none => exact Mask.contains_refl _
        | some old => exact Mask.contains_union_left old m
      · exact Mask.contains_refl _
  | _ => exact Mask.contains_refl _

end Facts.Step

/-- What one routine's facts tell about kinds and expressions, the others tell as well. -/
structure Facts.Below (f g : Facts) : Prop where
  table : f.table.Grows g.table
  exprMask : ∀ e, (g.exprMask e).contains (f.exprMask e) = true

namespace Facts.Below

variable {f g h : Facts}

theorem refl (f : Facts) : f.Below f :=
  ⟨.refl _, fun _ => Mask.contains_refl _⟩

theorem trans (hfg : f.Below g) (hgh : g.Below h) : f.Below h :=
  ⟨hfg.table.trans hgh.table, fun e => Mask.contains_trans (hgh.exprMask e) (hfg.exprMask e)⟩

end Facts.Below

namespace Moves

variable {env : Setting} {s s' s'' : Scene}

theorem trans (h : Moves env s s') (h' : Moves env s' s'') : Moves env s s'' :=
  Relation.ReflTransGen.trans h h'

theorem routine (h : Moves env s s') : s'.facts.routine = s.facts.routine := by
  induction h with
  | refl => rfl
  | tail _ hmove ih =>
      cases hmove with
      | state => exact ih
      | facts h => exact h.routine.trans ih
      | await => exact ih

theorem table (h : Moves env s s') : s.facts.table.Grows s'.facts.table := by
  induction h with
  | refl => exact .refl _
  | tail _ hmove ih =>
      cases hmove with
      | state => exact ih
      | facts h => exact ih.trans h.table_grows
      | await => exact ih

theorem holds (h : Moves env s s') {m : Mask} (hm : s.Holds m) : s'.Holds m :=
  h.table.fits hm

/-- Along a visit the masks of expressions only grow. -/
theorem exprMask_contains (h : Moves env s s') (e : ExprId) :
    (s'.facts.exprMask e).contains (s.facts.exprMask e) = true := by
  induction h with
  | refl => exact Mask.contains_refl _
  | tail _ hmove ih =>
      cases hmove with
      | state => exact ih
      | facts h => exact Mask.contains_trans (h.exprMask_contains e) ih
      | await => exact ih

theorem facts_below (h : Moves env s s') : s.facts.Below s'.facts :=
  ⟨h.table, h.exprMask_contains⟩

/-- A visit to expressions queues no block. -/
theorem queue (h : Moves env s s') : s'.agenda.queue = s.agenda.queue := by
  induction h with
  | refl => rfl
  | tail _ hmove ih =>
      cases hmove with
      | state => exact ih
      | facts => exact ih
      | await => exact ih

/-- It holds no block back. -/
theorem deferred (h : Moves env s s') (r : RoutineId) :
    s'.agenda.deferred r = s.agenda.deferred r := by
  induction h with
  | refl => rfl
  | tail _ hmove ih =>
      cases hmove with
      | state => exact ih
      | facts => exact ih
      | await => exact (Agenda.deferred_await ..).trans ih

/-- A visit adds no waiting block but its own. -/
theorem mem_waiters (h : Moves env s s') {r : RoutineId} {b : BlockRef}
    (hb : b ∈ s'.agenda.waiters r) :
    b ∈ s.agenda.waiters r ∨ b = (s.facts.routine, env.block) ∧ (env.published.find? r).isSome := by
  induction h with
  | refl => exact Or.inl hb
  | tail hmoves hmove ih =>
      cases hmove with
      | state => exact ih hb
      | facts => exact ih hb
      | await hlisted =>
          rcases Agenda.mem_waiters_await.1 hb with hb | ⟨rfl, rfl⟩
          · exact ih hb
          · exact Or.inr ⟨by rw [routine hmoves], hlisted⟩

/-- Blocks that wait keep waiting. -/
theorem waiters_mono (h : Moves env s s') {r : RoutineId} {b : BlockRef}
    (hb : b ∈ s.agenda.waiters r) : b ∈ s'.agenda.waiters r := by
  induction h with
  | refl => exact hb
  | tail _ hmove ih =>
      cases hmove with
      | state => exact ih
      | facts => exact ih
      | await => exact Agenda.mem_waiters_await.2 (Or.inl ih)

/-- A visit is held back only for a routine of the unit. -/
theorem pending_listed (h : Moves env s s') {r : RoutineId} (hr : s'.pending? = some r) :
    s.pending? = some r ∨ (env.published.find? r).isSome := by
  induction h with
  | refl => exact Or.inl hr
  | tail _ hmove ih =>
      cases hmove with
      | state => exact ih hr
      | facts => exact ih hr
      | await hlisted hpending =>
          rcases hpending with hpending | hpending
          · exact ih (hpending ▸ hr)
          · rw [Option.some.inj (hr.symm.trans hpending)]
            exact Or.inr hlisted

theorem agrees (h : Moves env s s') {p : OrderedMap RoutineId Summary}
    (ha : env.Agrees p s'.agenda) : env.Agrees p s.agenda :=
  fun callee => ⟨(ha callee).1, fun hb => (ha callee).2 (h.waiters_mono hb)⟩

end Moves

namespace Visit

variable {α β : Type} {env : Setting} {p : OrderedMap RoutineId Summary} {s : Scene}

theorem run_bind_ok {x : Visit α} {f : α → Visit β} {a : α} {s' : Scene}
    (h : x.run s = .ok (a, s')) : (x >>= f).run s = (f a).run s' := by
  rw [StateT.run_bind, h]
  rfl

/-- A sequence that succeeds does so step by step. -/
theorem exists_of_run_bind {x : Visit α} {f : α → Visit β} {r : β × Scene}
    (h : (x >>= f).run s = .ok r) : ∃ a s', x.run s = .ok (a, s') ∧ (f a).run s' = .ok r := by
  rw [StateT.run_bind] at h
  cases hx : x.run s with
  | error fault =>
      rw [hx] at h
      cases h
  | ok p =>
      rw [hx] at h
      exact ⟨p.1, p.2, rfl, h⟩

/-- From scene `s` the first computation succeeds, moves as a visit does and keeps the scene fit; so
does the second one, in the same way, if the published results agree where the block waits. -/
def Runs (env : Setting) (p : OrderedMap RoutineId Summary) (x x' : Visit α) (s : Scene)
    (Q : α → Scene → Prop) : Prop :=
  ∃ a s', x.run s = .ok (a, s') ∧ Moves env s s' ∧ s'.Fits env.body ∧ Q a s' ∧
    (env.Agrees p s'.agenda → x'.run s = .ok (a, s'))

namespace Runs

variable {P Q : α → Scene → Prop} {R : β → Scene → Prop} {x x' : Visit α} {f f' : α → Visit β}

theorem mono (h : Runs env p x x' s P)
    (hpq : ∀ a s', Moves env s s' → s'.Fits env.body → P a s' → Q a s') : Runs env p x x' s Q := by
  obtain ⟨a, s', hx, hm, hs, hp, hx'⟩ := h
  exact ⟨a, s', hx, hm, hs, hpq a s' hm hs hp, hx'⟩

/-- What each of two accounts says of a computation holds together. -/
theorem and (hp : Runs env p x x' s P) (hq : Runs env p x x' s Q) :
    Runs env p x x' s fun a s' => P a s' ∧ Q a s' := by
  obtain ⟨a, s', hx, hm, hs, ha, hx'⟩ := hp
  obtain ⟨b, s'', hy, -, -, hb, -⟩ := hq
  cases hx.symm.trans hy
  exact ⟨a, s', hx, hm, hs, ⟨ha, hb⟩, hx'⟩

/-- What follows from the outcome of a computation. -/
theorem of_run (h : Runs env p x x' s P)
    (hq : ∀ a s', x.run s = .ok (a, s') → Moves env s s' → Q a s') : Runs env p x x' s Q := by
  obtain ⟨a, s', hx, hm, hs, -, hx'⟩ := h
  exact ⟨a, s', hx, hm, hs, hq a s' hx hm, hx'⟩

/-- A computation of one move that reads no results. -/
theorem move {a : α} {s' : Scene} (hx : x.run s = .ok (a, s')) (hm : Move env s s')
    (hs : s'.Fits env.body) (hq : Q a s') : Runs env p x x s Q :=
  ⟨a, s', hx, .single hm, hs, hq, fun _ => hx⟩

theorem pure {a : α} (hs : s.Fits env.body) (hq : Q a s) :
    Runs env p (Pure.pure a) (Pure.pure a) s Q :=
  ⟨a, s, rfl, .refl, hs, hq, fun _ => rfl⟩

/-- A sequence runs if its parts run. -/
theorem bind (hx : Runs env p x x' s P)
    (hf : ∀ a s', Moves env s s' → s'.Fits env.body → P a s' → Runs env p (f a) (f' a) s' R) :
    Runs env p (x >>= f) (x' >>= f') s R := by
  obtain ⟨a, s₁, hrun, hm, hs, hp, hreplay⟩ := hx
  obtain ⟨b, s₂, hrun', hm', hs', hr, hreplay'⟩ := hf a s₁ hm hs hp
  refine ⟨b, s₂, ?_, hm.trans hm', hs', hr, fun ha => ?_⟩
  · rw [run_bind_ok hrun, hrun']
  · rw [run_bind_ok (hreplay (Moves.agrees hm' ha)), hreplay' ha]

/-- A computation that only reads the scene. -/
theorem read {a : α} (hx : x.run s = .ok (a, s)) (hf : Runs env p (f a) (f' a) s R) :
    Runs env p (x >>= f) (x >>= f') s R := by
  obtain ⟨b, s', hrun, hm, hs, hr, hreplay⟩ := hf
  refine ⟨b, s', ?_, hm, hs, hr, fun ha => ?_⟩
  · rw [run_bind_ok hx, hrun]
  · rw [run_bind_ok hx, hreplay ha]

/-- A computation that may fail elsewhere, but succeeds here. -/
theorem lift {y : Except Fault α} {a : α} (hy : y = .ok a)
    (hf : Runs env p (f a) (f' a) s R) : Runs env p (liftM y >>= f) (liftM y >>= f') s R :=
  read (by rw [hy]; rfl) hf

theorem ite {c : Prop} [Decidable c] {y y' : Visit α} (hx : c → Runs env p x x' s Q)
    (hy : ¬c → Runs env p y y' s Q) :
    Runs env p (if c then x else y) (if c then x' else y') s Q := by
  by_cases h : c
  · rw [if_pos h, if_pos h]
    exact hx h
  · rw [if_neg h, if_neg h]
    exact hy h

/-- A loop keeps what each of its turns keeps. -/
theorem foldlM {γ : Type} {I : β → Scene → Prop} {g g' : β → γ → Visit β} {l : List γ}
    (hstep : ∀ c ∈ l, ∀ b s, s.Fits env.body → I b s → Runs env p (g b c) (g' b c) s I) {b : β}
    (hs : s.Fits env.body) (hb : I b s) : Runs env p (l.foldlM g b) (l.foldlM g' b) s I := by
  induction l generalizing b s with
  | nil => exact pure hs hb
  | cons c rest ih =>
      rw [List.foldlM_cons, List.foldlM_cons]
      refine bind (hstep c (List.mem_cons_self ..) b s hs hb) fun b' s' _ hs' hb' => ?_
      exact ih (fun x hx => hstep x (List.mem_cons_of_mem c hx)) hs' hb'

/-- A loop runs if each of its rounds does and keeps the invariant. -/
theorem forM_keeps {γ : Type} {I : Scene → Prop} {g g' : γ → Visit Unit} {l : List γ}
    (hstep : ∀ c ∈ l, ∀ s', Moves env s s' → s'.Fits env.body → I s' →
      Runs env p (g c) (g' c) s' fun _ => I)
    (hs : s.Fits env.body) (hI : I s) : Runs env p (l.forM g) (l.forM g') s fun _ => I := by
  induction l generalizing s with
  | nil => exact pure hs hI
  | cons c rest ih =>
      change Runs env p (g c >>= fun _ => rest.forM g) (g' c >>= fun _ => rest.forM g') s _
      refine bind (hstep c (List.mem_cons_self ..) s .refl hs hI) fun _ s' h hs' hI' => ?_
      exact ih (fun x hx s'' h' => hstep x (List.mem_cons_of_mem c hx) s'' (h.trans h')) hs' hI'

theorem forM {γ : Type} {g g' : γ → Visit Unit} {l : List γ}
    (hstep : ∀ c ∈ l, ∀ s', Moves env s s' → s'.Fits env.body →
      Runs env p (g c) (g' c) s' fun _ _ => True)
    (hs : s.Fits env.body) : Runs env p (l.forM g) (l.forM g') s fun _ _ => True :=
  forM_keeps (fun c hc s' h hs' _ => hstep c hc s' h hs') hs trivial

theorem mapM {γ : Type} {g g' : γ → Visit β} {l : List γ}
    (hstep : ∀ c ∈ l, ∀ s : Scene, s.Fits env.body → Runs env p (g c) (g' c) s fun _ _ => True)
    (hs : s.Fits env.body) : Runs env p (l.mapM g) (l.mapM g') s fun _ _ => True := by
  induction l generalizing s with
  | nil => exact pure hs trivial
  | cons c rest ih =>
      rw [List.mapM_cons, List.mapM_cons]
      refine bind (hstep c (List.mem_cons_self ..) s hs) fun b s' _ hs' _ => ?_
      refine bind (ih (fun x hx => hstep x (List.mem_cons_of_mem c hx)) hs')
        fun bs s'' _ hs'' _ => ?_
      exact pure hs'' trivial

theorem optionForM {γ : Type} {g g' : γ → Visit Unit} {o : Option γ}
    (hstep : ∀ c ∈ o, Runs env p (g c) (g' c) s fun _ _ => True) (hs : s.Fits env.body) :
    Runs env p (o.forM g) (o.forM g') s fun _ _ => True := by
  cases o with
  | none => exact pure hs trivial
  | some c => exact hstep c rfl

end Runs

/-! ### Primitive operations -/

/-- An update of the state runs if its function gives a state that fits. -/
theorem updateState_runs {g : State → Except Fault State} {st : State} (hs : s.Fits env.body)
    (hg : g s.state = .ok st) (hst : st.Fits env.body.vars.length s.facts.table) :
    Runs env p (updateState g) (updateState g) s fun _ _ => True := by
  have hrun : (updateState g).run s = .ok ((), { s with state := st }) := by
    change (liftM (g s.state) >>= setState : Visit Unit).run s = _
    rw [hg]
    rfl
  exact Runs.move hrun (.state s st) ⟨hs.facts, hst⟩ trivial

theorem state_of_updateState {g : State → Except Fault State} {s' : Scene} {u : Unit}
    (h : (updateState g).run s = .ok (u, s')) :
    ∃ st, g s.state = .ok st ∧ s' = { s with state := st } := by
  change (liftM (g s.state) >>= setState : Visit Unit).run s = _ at h
  cases hg : g s.state with
  | error fault =>
      rw [hg] at h
      cases h
  | ok st =>
      rw [hg] at h
      cases h
      exact ⟨st, rfl, rfl⟩

/-- Changing one slot. -/
theorem updateSlot_runs {v : VarId} {g : Slot → Slot} (hs : s.Fits env.body)
    (hv : v < env.body.vars.length)
    (hg : ∀ x : Slot, x.Fits s.facts.table.size → (g x).Fits s.facts.table.size) :
    Runs env p (updateState (·.update v g)) (updateState (·.update v g)) s fun _ _ => True := by
  obtain ⟨st, hst, hfit⟩ := hs.state.update hv hg
  exact updateState_runs hs hst hfit

theorem assign_runs {v : VarId} {m : Mask} (hs : s.Fits env.body) (hv : v < env.body.vars.length)
    (hm : s.Holds m) : Runs env p (assign v m) (assign v m) s fun _ _ => True :=
  updateSlot_runs hs hv fun x _ => Slot.Fits.assign x hm

theorem share_runs {v : VarId} (hs : s.Fits env.body) (hv : v < env.body.vars.length) :
    Runs env p (share v) (share v) s fun _ _ => True :=
  updateSlot_runs hs hv fun x _ => Slot.Fits.share x

theorem forgetAll_runs (b : Bool) (hs : s.Fits env.body) :
    Runs env p (forgetAll b) (forgetAll b) s fun _ _ => True :=
  Runs.move rfl (.state s _) ⟨hs.facts, hs.state.forgetAll b⟩ trivial

theorem joinState_runs {st : State} (hs : s.Fits env.body)
    (hst : st.Fits env.body.vars.length s.facts.table) :
    Runs env p (joinState st) (joinState st) s fun _ _ => True := by
  obtain ⟨j, hj, hfit⟩ := hs.state.join hst
  exact updateState_runs hs hj hfit

/-- Putting a state in place hands out one that fits. -/
theorem swapState_runs {st : State} (hs : s.Fits env.body)
    (hst : st.Fits env.body.vars.length s.facts.table) :
    Runs env p (swapState st) (swapState st) s
      fun old s' => old.Fits env.body.vars.length s'.facts.table :=
  Runs.move rfl (.state s st) ⟨hs.facts, hst⟩ hs.state

theorem slot_run {v : VarId} (hs : s.Fits env.body) (hv : v < env.body.vars.length) :
    ∃ x, (slot v).run s = .ok (x, s) ∧ x.Fits s.facts.table.size := by
  obtain ⟨x, hx, hfit⟩ := hs.state.slot hv
  refine ⟨x, ?_, hfit⟩
  change (liftM (s.state.slot v) : Visit Slot).run s = _
  rw [hx]
  rfl

/-- Reading a slot changes nothing. -/
theorem scene_of_slot {v : VarId} {x : Slot} {s' : Scene} (h : (slot v).run s = .ok (x, s')) :
    s.state.slot v = .ok x ∧ s' = s := by
  change (liftM (s.state.slot v) : Visit Slot).run s = _ at h
  cases hx : s.state.slot v with
  | error fault =>
      rw [hx] at h
      cases h
  | ok found =>
      rw [hx] at h
      cases h
      exact ⟨rfl, rfl⟩

theorem varMask_run {v : VarId} (hs : s.Fits env.body) (hv : v < env.body.vars.length) :
    ∃ m, (varMask v).run s = .ok (m, s) ∧ s.Holds m := by
  obtain ⟨x, hx, hfit⟩ := slot_run hs hv
  refine ⟨x.mask, ?_, hfit.mask⟩
  rw [varMask, run_bind_ok hx]
  rfl

theorem varMask_runs {v : VarId} (hs : s.Fits env.body) (hv : v < env.body.vars.length) :
    Runs env p (varMask v) (varMask v) s fun m s' => s'.Holds m := by
  obtain ⟨m, hm, hfit⟩ := varMask_run hs hv
  exact ⟨m, s, hm, .refl, hs, hfit, fun _ => hm⟩

theorem updateFacts_runs {g : Facts → Facts} (hs : s.Fits env.body)
    (hstep : s.facts.Step (g s.facts))
    (hg : (g s.facts).Fits env.body) :
    Runs env p (updateFacts g) (updateFacts g) s fun _ _ => True :=
  Runs.move rfl (.facts s hstep) ⟨hg, hs.state.grow hstep.table_grows⟩ trivial

theorem record_runs {m : Mask} (e : ExprId) (hs : s.Fits env.body) (hm : s.Holds m) :
    Runs env p (record e m) (record e m) s fun _ _ => True :=
  updateFacts_runs hs (.record s.facts e m) (hs.facts.record e hm)

theorem onTable_run {y : Typing α} {a : α} {t : KindTable} (hy : y.run s.facts.table = .ok (a, t)) :
    (onTable y).run s = .ok (a, { s with facts := { s.facts with table := t } }) := by
  have hfacts : s.facts.onTable y = .ok (a, { s.facts with table := t }) := by
    rw [Facts.onTable, hy]
    rfl
  change (liftM (s.facts.onTable y) >>= fun r : α × Facts =>
    set { s with facts := r.2 } >>= fun _ => Pure.pure r.1 : Visit α).run s = _
  rw [hfacts]
  rfl

theorem onTable_run_error {y : Typing α} {fault : Fault}
    (hy : y.run s.facts.table = .error fault) : (onTable y).run s = .error fault := by
  have hfacts : s.facts.onTable y = .error fault := by
    rw [Facts.onTable, hy]
    rfl
  change (liftM (s.facts.onTable y) >>= fun r : α × Facts =>
    set { s with facts := r.2 } >>= fun _ => Pure.pure r.1 : Visit α).run s = _
  rw [hfacts]
  rfl

/-- Work on the kinds leaves everything but the table alone. -/
theorem onTable_eq_ok {y : Typing α} {s' : Scene} {a : α} (h : (onTable y).run s = .ok (a, s')) :
    ∃ t, y.run s.facts.table = .ok (a, t) ∧
      s' = { s with facts := { s.facts with table := t } } := by
  cases hrun : y.run s.facts.table with
  | error fault =>
      rw [onTable_run_error hrun] at h
      cases h
  | ok p =>
      rw [onTable_run hrun] at h
      cases h
      exact ⟨p.2, rfl, rfl⟩

/-- A computation on the kind table. -/
theorem onTable_runs {y : Typing α} {P : α → KindTable → Prop} (hs : s.Fits env.body)
    (hy : Typing.Runs y s.facts.table P) :
    Runs env p (onTable y) (onTable y) s fun a s' => P a s'.facts.table := by
  obtain ⟨a, t, hrun, hw, hg, hp⟩ := hy
  exact Runs.move (onTable_run hrun) (.facts s (.table s.facts hg))
    ⟨hs.facts.grow hw hg, hs.state.grow hg⟩ hp

end Visit

open Visit

variable {env : Setting} {p : OrderedMap RoutineId Summary} {s : Scene}

theorem Setting.expr_run {e : ExprId} {x : Expr} (hx : env.body.exprs[e]? = some x) :
    (env.expr e).run s = .ok (x, s) := by
  rw [Setting.expr, hx]
  rfl

theorem Setting.exists_expr {e : ExprId} (he : e < env.body.exprs.size) :
    ∃ x, env.body.exprs[e]? = some x :=
  ⟨_, Array.getElem?_eq_getElem he⟩

/-- A variable that an expression names exists. -/
theorem Setting.varOf?_run {e : ExprId} (hb : env.body.WellFormed) (he : e < env.body.exprs.size)
    (s : Scene) :
    ∃ v?, (env.varOf? e).run s = .ok (v?, s) ∧ ∀ v, v? = some v → v < env.body.vars.length := by
  obtain ⟨x, hx⟩ := Setting.exists_expr he
  rw [Setting.varOf?, run_bind_ok (Setting.expr_run hx)]
  cases x with
  | var v =>
      refine ⟨some v, rfl, fun w hw => ?_⟩
      cases hw
      exact hb.exprVars hx v (List.mem_singleton.2 rfl)
  | _ => exact ⟨none, rfl, fun w hw => nomatch hw⟩

end FlowTyping
