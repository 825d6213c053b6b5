import FlowTyping.Proofs.Kind.Context
import FlowTyping.Proofs.Visit.CompareBlock
import FlowTyping.Proofs.Visit.Quiet

/-!
# A visit to a routine on its own

`Visit.Mirrors` compares a part of a visit within a unit with the same part for the routine alone:
there the kind table has another number, the agenda knows only the blocks of the routine, and no
other routine has published anything. Both do the same, provided that the block waits for no routine
but its own: a call reads the result of another routine only once its block is noted as waiting for
it. As a comparison of two visits it is an instance of `Setting.Comparison`.

Main statement: `visitBlock_mirrors`.
-/

namespace FlowTyping

/-- The same state, of a table with another number. -/
def State.inContext (s : State) (c : ContextId) : State :=
  { s with context := c }

/-- The same facts, with another number for the table. -/
def Facts.inContext (f : Facts) (c : ContextId) : Facts :=
  { f with table := f.table.inContext c }

/-- The same outcome, with states of a table with another number. -/
def Outcome.inContext (o : Outcome) (c : ContextId) : Outcome :=
  ⟨o.exits.map fun e => (e.1, e.2.inContext c), o.thrown?.map (·.inContext c)⟩

namespace Setting

/-- The block under visit waits for no routine but its own. -/
def Secluded (env : Setting) (a : Agenda) : Prop :=
  ∀ callee, env.ref ∈ a.waiters callee → callee = env.body.routine

/-- The published results are those of the routine under visit and of no other. -/
structure Isolates (env : Setting) (p : OrderedMap RoutineId Summary) : Prop where
  own : p.find? env.body.routine = env.published.find? env.body.routine
  others : ∀ r, r ≠ env.body.routine → p.find? r = none

end Setting

/-- The second agenda is what one routine sees of the first. -/
structure Agenda.Shows (a : Agenda) (r : RoutineId) (b : Agenda) : Prop where
  queue : b.queue = a.queue.filter fun ref => decide (ref.1 = r)
  waiters : b.waiters r = a.waiters r

/-- The scene with another number for the table and another agenda. -/
def Scene.alone (s : Scene) (c : ContextId) (a : Agenda) : Scene :=
  ⟨s.state.inContext c, s.facts.inContext c, a, s.pending?⟩

namespace Visit

variable {α α' β β' : Type} {env : Setting} {c : ContextId}

/-- What a part of a visit did, which yields `a` and goes from `s` to `s'`, the other part does for
the routine alone. -/
structure MirrorsRun (env : Setting) (c : ContextId) (R : α → α' → Prop) (y : Visit α') (s : Scene)
    (a : α) (s' : Scene) : Prop where
  routine : s'.facts.routine = s.facts.routine
  waiters : ∀ callee, env.ref ∈ s.agenda.waiters callee → env.ref ∈ s'.agenda.waiters callee
  pending : env.Secluded s'.agenda → s'.pending? = s.pending?
  related : ∃ a', R a a'
  alone : env.Secluded s'.agenda → ∀ b, s.agenda.Shows env.body.routine b →
    ∃ a' b', y.run (s.alone c b) = .ok (a', s'.alone c b') ∧ R a a' ∧
      s'.agenda.Shows env.body.routine b'

/-- Whatever a part of a visit does, the other part does for the routine alone, and what they yield
is related. -/
def Mirrors (env : Setting) (c : ContextId) (R : α → α' → Prop) (x : Visit α)
    (y : Visit α') : Prop :=
  ∀ s a s', s.facts.routine = env.body.routine → x.run s = .ok (a, s') → MirrorsRun env c R y s a s'

namespace Mirrors

variable {R : α → α' → Prop} {S : β → β' → Prop} {x : Visit α} {y : Visit α'} {k : α → Visit β}
  {k' : α' → Visit β'}

/-- A part that leaves the agenda alone. -/
theorem of_agenda_eq (h : ∀ s a s', x.run s = .ok (a, s') →
    (s'.facts.routine = s.facts.routine ∧ s'.agenda = s.agenda ∧ s'.pending? = s.pending?) ∧
      ∃ a', R a a' ∧ ∀ b, y.run (s.alone c b) = .ok (a', s'.alone c b)) : Mirrors env c R x y := by
  intro s a s' _ hrun
  obtain ⟨⟨hroutine, hagenda, hpending⟩, a', ha', halone⟩ := h s a s' hrun
  refine ⟨hroutine, ?_, fun _ => hpending, ⟨a', ha'⟩, fun _ b hb => ?_⟩
  · intro callee hcallee
    rwa [hagenda]
  · exact ⟨a', b, halone b, ha', hagenda ▸ hb⟩

theorem pure {a : α} {a' : α'} (h : R a a') : Mirrors env c R (pure a) (pure a') := by
  apply of_agenda_eq
  intro s b s' hrun
  cases hrun
  exact ⟨⟨rfl, rfl, rfl⟩, a', h, fun _ => rfl⟩

theorem throw (fault : Fault) : Mirrors env c R (throw fault) y := by
  intro s a s' _ hrun
  cases hrun

theorem lift {z : Except Fault α} {z' : Except Fault α'}
    (h : ∀ a, z = .ok a → ∃ a', z' = .ok a' ∧ R a a') :
    Mirrors env c R (liftM z : Visit α) (liftM z') := by
  apply of_agenda_eq
  intro s a s' hrun
  cases z with
  | error fault => cases hrun
  | ok b =>
      cases hrun
      obtain ⟨a', rfl, ha'⟩ := h a rfl
      exact ⟨⟨rfl, rfl, rfl⟩, a', ha', fun _ => rfl⟩

theorem bind (hx : Mirrors env c R x y) (hk : ∀ a a', R a a' → Mirrors env c S (k a) (k' a')) :
    Mirrors env c S (x >>= k) (y >>= k') := by
  intro s b s' hs hrun
  obtain ⟨a, s₁, hfirst, hrest⟩ := exists_of_run_bind hrun
  have h₁ := hx s a s₁ hs hfirst
  obtain ⟨a₀, ha₀⟩ := h₁.related
  have h₂ := hk a a₀ ha₀ s₁ b s' (h₁.routine.trans hs) hrest
  have hbefore : env.Secluded s'.agenda → env.Secluded s₁.agenda :=
    fun h callee hcallee => h callee (h₂.waiters callee hcallee)
  refine ⟨h₂.routine.trans h₁.routine, fun callee h => h₂.waiters callee (h₁.waiters callee h),
    fun h => (h₂.pending h).trans (h₁.pending (hbefore h)), h₂.related, fun h b₀ hb₀ => ?_⟩
  obtain ⟨a', b₁, hrun₁, ha', hb₁⟩ := h₁.alone (hbefore h) b₀ hb₀
  have h₂' := hk a a' ha' s₁ b s' (h₁.routine.trans hs) hrest
  obtain ⟨b', b₂, hrun₂, hb', hb₂⟩ := h₂'.alone h b₁ hb₁
  exact ⟨b', b₂, (run_bind_ok hrun₁).trans hrun₂, hb', hb₂⟩

theorem mono {S : α → α' → Prop} (hx : Mirrors env c R x y) (hRS : ∀ a a', R a a' → S a a') :
    Mirrors env c S x y := by
  intro s a s' hs hrun
  have h := hx s a s' hs hrun
  refine ⟨h.routine, h.waiters, h.pending, h.related.imp (hRS a), fun hsecluded b hb => ?_⟩
  obtain ⟨a', b', hrun', ha', hb'⟩ := h.alone hsecluded b hb
  exact ⟨a', b', hrun', hRS a a' ha', hb'⟩

end Mirrors

/-! ### The scene -/

theorem getState_mirrors : Mirrors env c
      (fun st st' => st' = st.inContext c) getState getState := by
  apply Mirrors.of_agenda_eq
  intro s a s' hrun
  cases hrun
  exact ⟨⟨rfl, rfl, rfl⟩, _, rfl, fun _ => rfl⟩

theorem setState_mirrors (st : State) :
    Mirrors env c Eq (setState st) (setState (st.inContext c)) := by
  apply Mirrors.of_agenda_eq
  intro s a s' hrun
  cases hrun
  exact ⟨⟨rfl, rfl, rfl⟩, (), rfl, fun _ => rfl⟩

theorem update_inContext (v : VarId) (h : Slot → Slot) (st st' : State)
    (hst : st.update v h = .ok st') : (st.inContext c).update v h = .ok (st'.inContext c) := by
  rw [State.update] at hst
  split at hst
  · rename_i hlt
    cases hst
    exact if_pos hlt
  · cases hst

theorem join_inContext (other st st' : State) (hst : st.join other = .ok st') :
    (st.inContext c).join (other.inContext c) = .ok (st'.inContext c) := by
  obtain ⟨-, hlength, rfl⟩ := State.join_eq_ok_iff.1 hst
  exact State.join_of_compatible rfl hlength

/-- A change to one variable does not look at the number of the table. -/
theorem updateVar_mirrors (v : VarId) (h : Slot → Slot) :
    Mirrors env c Eq (updateState (·.update v h)) (updateState (·.update v h)) := by
  apply Mirrors.bind getState_mirrors
  rintro st _ rfl
  apply Mirrors.bind
  · exact .lift fun st' hst' => ⟨_, update_inContext v h st st' hst', rfl⟩
  · rintro st' _ rfl
    exact setState_mirrors st'

/-- Additions to the facts that do not look at the table. -/
theorem updateFacts_mirrors {h : Facts → Facts} (hroutine : ∀ f : Facts, (h f).routine = f.routine)
    (hh : ∀ f : Facts, h (f.inContext c) = (h f).inContext c) :
    Mirrors env c Eq (updateFacts h) (updateFacts h) := by
  apply Mirrors.of_agenda_eq
  intro s a s' hrun
  cases hrun
  refine ⟨⟨hroutine _, rfl, rfl⟩, (), rfl, fun b => ?_⟩
  change Except.ok ((), Scene.mk _ (h (s.facts.inContext c)) _ _) = _
  rw [hh]
  rfl

theorem getFacts_mirrors : Mirrors env c (fun f f' => f' = f.inContext c) getFacts getFacts := by
  apply Mirrors.of_agenda_eq
  intro s a s' hrun
  cases hrun
  exact ⟨⟨rfl, rfl, rfl⟩, _, rfl, fun _ => rfl⟩

theorem getTable_mirrors : Mirrors env c (fun t t' => t' = t.inContext c) getTable getTable := by
  apply Mirrors.of_agenda_eq
  intro s a s' hrun
  cases hrun
  exact ⟨⟨rfl, rfl, rfl⟩, _, rfl, fun _ => rfl⟩

theorem onTable_mirrors {z : Typing α} (hz : Typing.IsBlind z) :
    Mirrors env c Eq (onTable z) (onTable z) := by
  apply Mirrors.of_agenda_eq
  intro s a s' hrun
  obtain ⟨t, htable, rfl⟩ := onTable_eq_ok hrun
  exact ⟨⟨rfl, rfl, rfl⟩, a, rfl, fun b => onTable_run (hz c _ _ _ htable)⟩

end Visit

open Visit

/-- Nothing that a visit asks the table depends on the number of the table. -/
theorem Setting.Asks.blind {env : Setting} {α : Type} {z : Typing α} (h : env.Asks z) :
    Typing.IsBlind z := by
  cases h with
  | hintMask hint => exact KindTable.hintMask_blind hint
  | hintMask? hint? => exact KindTable.hintMask?_blind hint?
  | arrayOf elem => exact KindTable.arrayOf_blind elem
  | anyArray => exact KindTable.anyArray_blind
  | instanceOf cls late => exact KindTable.instanceOf_blind cls late
  | binaryResult op left right bounded => exact Operator.binaryResult_blind op left right bounded
  | unaryResult op operand => exact Operator.unaryResult_blind op operand
  | storeInMask container value => exact storeInMask_blind container value
  | testedMask test current holds => exact testedMask_blind test current holds
  | instanceMask cls current holds => exact instanceMask_blind _ cls current holds
  | resolve candidates types scope? => exact Overload.resolve_blind _ _ _ _
  | builtinResult? name => exact builtinResult?_blind name
  | exceptionMask classes => exact exceptionMask_blind classes

/-! ### Results of routines -/

section

variable {env : Setting} {c : ContextId} {p : OrderedMap RoutineId Summary}

/-- A routine that calls itself is not pending for itself. -/
theorem noteWaiting_run_own {callee : RoutineId} {s : Scene} (hs : s.facts.routine = callee) :
    (noteWaiting env callee).run s =
      .ok ((), { s with agenda := (s.agenda.await callee (callee, env.block)).2 }) := by
  subst hs
  have hpending (unstable : Bool) :
      (if unstable && s.facts.routine != s.facts.routine && s.pending?.isNone
        then some s.facts.routine else s.pending?) = s.pending? := by simp
  exact congrArg (fun pending? => Except.ok ((), Scene.mk s.state s.facts
    (s.agenda.await s.facts.routine (s.facts.routine, env.block)).2 pending?)) (hpending _)

theorem noteWaiting_mirrors {callee : RoutineId} (hcallee : callee = env.body.routine) :
    Mirrors env c Eq (noteWaiting env callee) (noteWaiting (env.against p) callee) := by
  intro s a s' hs hrun
  rw [noteWaiting_run_own (hs.trans hcallee.symm)] at hrun
  cases hrun
  refine ⟨rfl, fun r hr => Agenda.mem_waiters_await.2 (.inl hr), fun _ => rfl, ⟨(), rfl⟩,
    fun _ b hb => ?_⟩
  rw [← hcallee] at hb ⊢
  refine ⟨(), (b.await callee (callee, env.block)).2, ?_, rfl, ⟨hb.queue, ?_⟩⟩
  · exact noteWaiting_run_own (hs.trans hcallee.symm)
  · rw [Agenda.waiters_await, Agenda.waiters_await, if_pos rfl, if_pos rfl, hb.waiters]

theorem eq_of_noteWaiting {callee : RoutineId} {u : Unit} {s s' : Scene}
    (hrun : (noteWaiting env callee).run s = .ok (u, s')) :
    s'.facts = s.facts ∧ s'.agenda = (s.agenda.await callee (s.facts.routine, env.block)).2 := by
  cases hrun
  exact ⟨rfl, rfl⟩

/-- Once the result of another routine is read, the block waits for it. -/
theorem readOther_mirrors {callee : RoutineId} (hcallee : callee ≠ env.body.routine)
    (summary : Summary) (y : Visit Mask) :
    Mirrors env c Eq (do noteWaiting env callee; onTable (KindTable.adopt summary)) y := by
  intro s a s' hs hrun
  obtain ⟨u, s₁, hnote, hrest⟩ := exists_of_run_bind hrun
  obtain ⟨hfacts, hagenda⟩ := eq_of_noteWaiting hnote
  have hs₁ : s₁.facts.routine = env.body.routine := hfacts ▸ hs
  have hadopt := onTable_mirrors (c := c) (KindTable.adopt_blind summary) s₁ a s' hs₁ hrest
  have hwaits : env.ref ∈ s'.agenda.waiters callee := by
    apply hadopt.waiters
    rw [hagenda, hs]
    exact Agenda.mem_waiters_await.2 (.inr ⟨rfl, rfl⟩)
  have hnot : ¬ env.Secluded s'.agenda := fun hsecluded => hcallee (hsecluded callee hwaits)
  refine ⟨hadopt.routine.trans (congrArg Facts.routine hfacts), fun r hr => ?_,
    fun h => absurd h hnot, ⟨a, rfl⟩, fun h => absurd h hnot⟩
  apply hadopt.waiters
  rw [hagenda]
  exact Agenda.mem_waiters_await.2 (.inl hr)

/-- The result of the own routine is read as it is alone; that of another one is not read. -/
theorem routineResult_mirrors (hp : env.Isolates p) (r : RoutineDecl) :
    Mirrors env c Eq (routineResult env r) (routineResult (env.against p) r) := by
  cases hreturns : r.returns? with
  | some hint =>
      rw [routineResult, routineResult, hreturns]
      exact onTable_mirrors (KindTable.hintMask_blind hint)
  | none =>
      cases hpublished : env.published.find? r.id with
      | none =>
          have hnone : (env.against p).published.find? r.id = none := by
            by_cases hown : r.id = env.body.routine
            · rw [hown] at hpublished ⊢
              exact hp.own.trans hpublished
            · exact hp.others _ hown
          rw [routineResult, routineResult, hreturns, hpublished, hnone]
          exact .pure rfl
      | some summary =>
          rw [routineResult_eq hreturns hpublished]
          by_cases hown : r.id = env.body.routine
          · have hsome : (env.against p).published.find? r.id = some summary := by
              rw [hown] at hpublished ⊢
              exact hp.own.trans hpublished
            rw [routineResult_eq hreturns hsome]
            exact .bind (noteWaiting_mirrors hown) fun _ _ _ =>
              onTable_mirrors (KindTable.adopt_blind _)
          · exact readOther_mirrors hown summary _


end

/-! ### Whole visits -/

/-- Mirroring a visit for the routine alone, as a comparison. -/
def mirroring {env : Setting} {p : OrderedMap RoutineId Summary} (hp : env.Isolates p)
    (c : ContextId) : env.Comparison p where
  Relates := Mirrors env c
  States st st' := st' = st.inContext c
  Tables t t' := t' = t.inContext c
  pure := .pure
  throw fault := .throw fault
  bind := .bind
  getState := getState_mirrors
  setState hst := hst ▸ setState_mirrors _
  slot v := by
    apply Mirrors.bind getState_mirrors
    rintro st _ rfl
    exact .lift fun a ha => ⟨a, ha, rfl⟩
  change hh := by
    obtain ⟨v, f, rfl⟩ := hh.exists_update
    exact updateVar_mirrors v f
  forgetAll share := by
    apply Mirrors.of_agenda_eq
    intro s a s' hrun
    cases hrun
    exact ⟨⟨rfl, rfl, rfl⟩, (), rfl, fun _ => rfl⟩
  join hs ht := by
    subst hs ht
    exact .lift fun j hj => ⟨_, join_inContext _ _ j hj, rfl⟩
  kind := getFacts_mirrors.mono fun f f' hf => by rw [hf]; rfl
  record e m := updateFacts_mirrors (fun _ => rfl) fun _ => rfl
  note hh := updateFacts_mirrors hh.routine fun f => by cases hh <;> rfl
  getTable := getTable_mirrors
  self ht := by rw [ht]; rfl
  elementMask ht m := .lift fun a ha => ⟨a, ht ▸ ha, rfl⟩
  classes ht m := .lift fun a ha => ⟨a, ht ▸ ha, rfl⟩
  stepResult ht m increment bounded := .lift fun a ha => ⟨a, ht ▸ ha, rfl⟩
  onTable hz := onTable_mirrors hz.blind
  routineResult := routineResult_mirrors hp

/-- A visit to a block does the same for the routine alone, if the block waits for no other
routine. -/
theorem visitBlock_mirrors {env : Setting} {p : OrderedMap RoutineId Summary} (hp : env.Isolates p)
    (c : ContextId) (block : Block) :
    Mirrors env c (Outcome.Related fun st st' => st' = st.inContext c) (visitBlock env block)
      (visitBlock (env.against p) block) := by
  let C := mirroring hp c
  have hmasks : Mirrors env c (fun f f' => ∀ e, f.exprMask e = f'.exprMask e) getFacts getFacts :=
    getFacts_mirrors.mono fun f f' hf e => by rw [hf]; rfl
  have hunset (x : VarId) :
      Mirrors env c Eq (updateState (·.unset x)) (updateState (·.unset x)) :=
    updateVar_mirrors x _
  have hv : C.Visitors (visitor env) (visitor (env.against p)) :=
    C.visitor_agrees fun _ id hbelow => C.orders_of_masks (hbelow.below id) hmasks id
  exact C.visitBlock_relates hv (fun _ _ x _ => hunset x) fun _ _ _ _ _ _ _ => hmasks

end FlowTyping
