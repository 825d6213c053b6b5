import FlowTyping.Proofs.Visit.Block
import FlowTyping.Proofs.Visit.CompareBlock

/-!
# Visits on another agenda

A visit uses the agenda only to note which routines its block waits for. `Visit.CarriesOver` says of
a part of a visit that what it does on one agenda it does on every other, where it notes the block
for the same routines. As a comparison of two visits it is an instance of `Setting.Comparison`.

Main statements: `visitBlock_carriesOver`, and `Setting.FindsNothing.elsewhere`, by which a visit
that finds nothing new on one agenda finds nothing new on another one where the block waits already.
-/

namespace FlowTyping

/-- Two agendas before and after a block was noted as waiting, in both for the same routines. -/
def Agenda.NotedAlike (ref : BlockRef) (a a' b b' : Agenda) : Prop :=
  ∀ r, a'.waiters r = a.waiters r ∧ b'.waiters r = b.waiters r ∨
    a'.waiters r = addBlock ref (a.waiters r) ∧ b'.waiters r = addBlock ref (b.waiters r)

namespace Agenda.NotedAlike

variable {ref : BlockRef} {a a' a'' b b' b'' : Agenda}

theorem refl (ref : BlockRef) (a b : Agenda) : NotedAlike ref a a b b :=
  fun _ => .inl ⟨rfl, rfl⟩

/-- To note a block twice is to note it once. -/
theorem trans (h : NotedAlike ref a a' b b') (h' : NotedAlike ref a' a'' b' b'') :
    NotedAlike ref a a'' b b'' := by
  have hagain (refs : List BlockRef) : addBlock ref (addBlock ref refs) = addBlock ref refs :=
    if_pos (mem_addBlock.2 (.inr rfl))
  intro r
  rcases h r with ⟨ha, hb⟩ | ⟨ha, hb⟩
  · rw [← ha, ← hb]
    exact h' r
  · right
    rcases h' r with ⟨ha', hb'⟩ | ⟨ha', hb'⟩
    · exact ⟨ha'.trans ha, hb'.trans hb⟩
    · rw [ha', hb', ha, hb, hagain, hagain]
      exact ⟨rfl, rfl⟩

theorem await (ref : BlockRef) (callee : RoutineId) (a b : Agenda) :
    NotedAlike ref a (a.await callee ref).2 b (b.await callee ref).2 := by
  intro r
  rw [waiters_await, waiters_await]
  by_cases h : callee = r
  · exact .inr ⟨if_pos h, if_pos h⟩
  · exact .inl ⟨if_neg h, if_neg h⟩

/-- Agendas with the same waiting blocks stay so. -/
theorem waiters_eq (h : NotedAlike ref a a' b b') {r : RoutineId} (hr : b.waiters r = a.waiters r) :
    b'.waiters r = a'.waiters r := by
  rcases h r with ⟨ha, hb⟩ | ⟨ha, hb⟩
  · rw [ha, hb, hr]
  · rw [ha, hb, hr]

/-- A block that waits already is not noted again. -/
theorem waiters_eq_of_waits (h : NotedAlike ref a a' b b') {r : RoutineId}
    (hr : ref ∈ a'.waiters r → ref ∈ b.waiters r) : b'.waiters r = b.waiters r := by
  rcases h r with ⟨-, hb⟩ | ⟨ha, hb⟩
  · exact hb
  · rw [hb]
    apply if_pos
    apply hr
    rw [ha]
    exact mem_addBlock.2 (.inr rfl)

end Agenda.NotedAlike

/-- The scene on another agenda, with another pending routine. -/
def Scene.onAgenda (s : Scene) (a : Agenda) (pending? : Option RoutineId) : Scene :=
  ⟨s.state, s.facts, a, pending?⟩

namespace Visit

variable {α α' β β' : Type} {env : Setting}

/-- What the first part of a visit does on one agenda the second does on every agenda, and both note
the block as waiting for the same routines. -/
def CarriesOver (env : Setting) (R : α → α' → Prop) (x : Visit α) (y : Visit α') : Prop :=
  ∀ s a s', s.facts.routine = env.body.routine → x.run s = .ok (a, s') →
    s'.facts.routine = env.body.routine ∧
      ∀ b pending?, ∃ a' b' pending?',
        y.run (s.onAgenda b pending?) = .ok (a', s'.onAgenda b' pending?') ∧ R a a' ∧
          Agenda.NotedAlike env.ref s.agenda s'.agenda b b'

namespace CarriesOver

variable {R : α → α' → Prop} {S : β → β' → Prop} {x : Visit α} {y : Visit α'} {k : α → Visit β}
  {k' : α' → Visit β'}

/-- A part that has nothing to do with the agenda. -/
theorem of_agenda_eq (h : ∀ s a s', x.run s = .ok (a, s') →
    s'.facts.routine = s.facts.routine ∧ s'.agenda = s.agenda ∧ ∃ a', R a a' ∧
      ∀ b pending?, y.run (s.onAgenda b pending?) = .ok (a', s'.onAgenda b pending?)) :
    CarriesOver env R x y := by
  intro s a s' hs hrun
  obtain ⟨hroutine, hagenda, a', ha', hy⟩ := h s a s' hrun
  refine ⟨hroutine.trans hs, fun b pending? => ⟨a', b, pending?, hy b pending?, ha', ?_⟩⟩
  rw [hagenda]
  exact .refl _ _ _

theorem pure {a : α} {a' : α'} (h : R a a') : CarriesOver env R (pure a) (pure a') := by
  apply of_agenda_eq
  intro s b s' hrun
  cases hrun
  exact ⟨rfl, rfl, a', h, fun _ _ => rfl⟩

theorem throw (fault : Fault) : CarriesOver env R (throw fault) y := by
  intro s a s' _ hrun
  cases hrun

theorem lift (z : Except Fault α) : CarriesOver env Eq (liftM z) (liftM z) := by
  apply of_agenda_eq
  intro s a s' hrun
  cases z with
  | error fault => cases hrun
  | ok b =>
      cases hrun
      exact ⟨rfl, rfl, a, rfl, fun _ _ => rfl⟩

theorem bind (hx : CarriesOver env R x y)
    (hk : ∀ a a', R a a' → CarriesOver env S (k a) (k' a')) :
    CarriesOver env S (x >>= k) (y >>= k') := by
  intro s c s' hs hrun
  obtain ⟨a, s₁, hfirst, hrest⟩ := exists_of_run_bind hrun
  obtain ⟨hs₁, hothers⟩ := hx s a s₁ hs hfirst
  constructor
  · obtain ⟨a', -, -, -, ha', -⟩ := hothers s.agenda none
    exact (hk a a' ha' s₁ c s' hs₁ hrest).1
  · intro b pending?
    obtain ⟨a', b₁, pending₁?, hrun₁, ha', hnoted⟩ := hothers b pending?
    obtain ⟨c', b₂, pending₂?, hrun₂, hc', hnoted'⟩ :=
      (hk a a' ha' s₁ c s' hs₁ hrest).2 b₁ pending₁?
    exact ⟨c', b₂, pending₂?, (run_bind_ok hrun₁).trans hrun₂, hc', hnoted.trans hnoted'⟩

end CarriesOver

/-! ### The scene -/

theorem getState_carriesOver : CarriesOver env Eq getState getState := by
  apply CarriesOver.of_agenda_eq
  intro s a s' hrun
  cases hrun
  exact ⟨rfl, rfl, _, rfl, fun _ _ => rfl⟩

theorem setState_carriesOver (st : State) : CarriesOver env Eq (setState st) (setState st) := by
  apply CarriesOver.of_agenda_eq
  intro s a s' hrun
  cases hrun
  exact ⟨rfl, rfl, (), rfl, fun _ _ => rfl⟩

theorem updateState_carriesOver (h : State → Except Fault State) :
    CarriesOver env Eq (updateState h) (updateState h) := by
  apply CarriesOver.bind getState_carriesOver
  rintro st _ rfl
  apply CarriesOver.bind (.lift (h st))
  rintro st' _ rfl
  exact setState_carriesOver st'

theorem forgetAll_carriesOver (share : Bool) :
    CarriesOver env Eq (forgetAll share) (forgetAll share) := by
  apply CarriesOver.of_agenda_eq
  intro s a s' hrun
  cases hrun
  exact ⟨rfl, rfl, (), rfl, fun _ _ => rfl⟩

theorem getFacts_carriesOver {R : Facts → Facts → Prop} (hR : ∀ f, R f f) :
    CarriesOver env R getFacts getFacts := by
  apply CarriesOver.of_agenda_eq
  intro s a s' hrun
  cases hrun
  exact ⟨rfl, rfl, _, hR _, fun _ _ => rfl⟩

theorem getTable_carriesOver : CarriesOver env Eq getTable getTable := by
  apply CarriesOver.of_agenda_eq
  intro s a s' hrun
  cases hrun
  exact ⟨rfl, rfl, _, rfl, fun _ _ => rfl⟩

theorem updateFacts_carriesOver {h : Facts → Facts}
    (hroutine : ∀ f : Facts, (h f).routine = f.routine) :
    CarriesOver env Eq (updateFacts h) (updateFacts h) := by
  apply CarriesOver.of_agenda_eq
  intro s a s' hrun
  cases hrun
  exact ⟨hroutine _, rfl, (), rfl, fun _ _ => rfl⟩

theorem onTable_carriesOver (z : Typing α) : CarriesOver env Eq (onTable z) (onTable z) := by
  apply CarriesOver.of_agenda_eq
  intro s a s' hrun
  obtain ⟨t, htable, rfl⟩ := onTable_eq_ok hrun
  exact ⟨rfl, rfl, a, rfl, fun _ _ => onTable_run htable⟩

end Visit

open Visit

section

variable {env : Setting}

theorem noteWaiting_carriesOver (callee : RoutineId) :
    CarriesOver env Eq (noteWaiting env callee) (noteWaiting env callee) := by
  intro s a s' hs hrun
  cases hrun
  have href : (s.facts.routine, env.block) = env.ref := congrArg (·, env.block) hs
  refine ⟨hs, fun b pending? => ⟨(), _, _, rfl, rfl, ?_⟩⟩
  rw [← href]
  exact .await _ callee s.agenda b

theorem routineResult_carriesOver (r : RoutineDecl) :
    CarriesOver env Eq (routineResult env r) (routineResult env r) := by
  apply routineResult_cases (P := fun x => CarriesOver env Eq x x)
  · exact fun hint => onTable_carriesOver _
  · exact .pure rfl
  · exact fun summary => .bind (noteWaiting_carriesOver r.id) fun _ _ _ => onTable_carriesOver _

end

/-- Visits on different agendas, as a comparison. -/
def carrying (env : Setting) : env.Comparison env.published where
  Relates := CarriesOver env
  States := Eq
  Tables := Eq
  pure := .pure
  throw fault := .throw fault
  bind := .bind
  getState := getState_carriesOver
  setState hst := hst ▸ setState_carriesOver _
  slot _ := .bind getState_carriesOver fun _ _ hst => hst ▸ .lift _
  change _ := updateState_carriesOver _
  forgetAll := forgetAll_carriesOver
  join hs ht := hs ▸ ht ▸ .lift _
  kind := getFacts_carriesOver fun _ => rfl
  record _ _ := updateFacts_carriesOver fun _ => rfl
  note hh := updateFacts_carriesOver hh.routine
  getTable := getTable_carriesOver
  self := KindTable.self?_congr
  elementMask ht _ := ht ▸ .lift _
  classes ht _ := ht ▸ .lift _
  stepResult ht _ _ _ := ht ▸ .lift _
  onTable _ := onTable_carriesOver _
  routineResult := routineResult_carriesOver

/-- What a visit to a block does on one agenda it does on every agenda. -/
theorem visitBlock_carriesOver (env : Setting) (block : Block) :
    CarriesOver env (Outcome.Related Eq) (visitBlock env block) (visitBlock env block) := by
  let C := carrying env
  have hmasks : CarriesOver env (fun f f' => ∀ e, f.exprMask e = f'.exprMask e) getFacts getFacts :=
    getFacts_carriesOver fun _ _ => rfl
  have hv : C.Visitors (visitor env) (visitor env) :=
    C.visitor_agrees fun _ id hbelow => C.orders_of_masks (hbelow.below id) hmasks id
  exact C.visitBlock_relates hv (fun _ _ _ _ => updateState_carriesOver _)
    fun _ _ _ _ _ _ _ => hmasks

/-! ### Visits that find nothing new -/

/-- A visit to the block from the given facts finds nothing new: the facts stay as they are, and the
block waits for no further routine. -/
def Setting.FindsNothing (env : Setting) (block : Block) (entry : State) (facts : Facts)
    (a : Agenda) : Prop :=
  ∃ outcome scene, (visitBlock env block).run ⟨entry, facts, a, none⟩ = .ok (outcome, scene) ∧
    scene.facts = facts ∧ ∀ r, env.ref ∈ scene.agenda.waiters r → env.ref ∈ a.waiters r

deriving instance DecidableEq for Name, Kind, KindTable, OrderedMap, Facts

attribute [local instance] BlockRef.lawfulBEq

instance (env : Setting) (block : Block) (entry : State) (facts : Facts) (a : Agenda) :
    Decidable (env.FindsNothing block entry facts a) :=
  decidable_of_iff
    (((visitBlock env block).run ⟨entry, facts, a, none⟩).toOption.any fun found =>
      decide (found.2.facts = facts ∧ ∀ r ∈ found.2.agenda.dependents.keys,
        env.ref ∈ found.2.agenda.waiters r → env.ref ∈ a.waiters r))
    (by
      rw [any_toOption_iff]
      constructor
      · rintro ⟨⟨outcome, scene⟩, hrun, hfound⟩
        obtain ⟨hfacts, hnone⟩ := of_decide_eq_true hfound
        exact ⟨outcome, scene, hrun, hfacts,
          fun r hr => hnone r (Agenda.mem_keys_of_mem_waiters hr) hr⟩
      · rintro ⟨outcome, scene, hrun, hfacts, hnone⟩
        exact ⟨(outcome, scene), hrun, decide_eq_true ⟨hfacts, fun r _ => hnone r⟩⟩)

namespace Setting.FindsNothing

variable {env : Setting} {block : Block} {entry : State} {facts : Facts} {a b : Agenda}

/-- Nor does a visit on another agenda, if the block waits there already. -/
theorem elsewhere (h : env.FindsNothing block entry facts a)
    (hroutine : facts.routine = env.body.routine)
    (hwaits : ∀ r, env.ref ∈ a.waiters r → env.ref ∈ b.waiters r) :
    ∃ outcome scene, (visitBlock env block).run ⟨entry, facts, b, none⟩ = .ok (outcome, scene) ∧
      scene.facts = facts ∧ ∀ r, scene.agenda.waiters r = b.waiters r := by
  obtain ⟨outcome, scene, hrun, hfacts, hnone⟩ := h
  obtain ⟨-, hothers⟩ := visitBlock_carriesOver env block _ _ _ hroutine hrun
  obtain ⟨outcome', b', pending?, hrun', -, hnoted⟩ := hothers b none
  refine ⟨outcome', _, hrun', hfacts, fun r => ?_⟩
  apply hnoted.waiters_eq_of_waits
  intro hr
  exact hwaits r (hnone r hr)

theorem mono (h : env.FindsNothing block entry facts a)
    (hroutine : facts.routine = env.body.routine)
    (hwaits : ∀ r, env.ref ∈ a.waiters r → env.ref ∈ b.waiters r) :
    env.FindsNothing block entry facts b := by
  obtain ⟨outcome, scene, hrun, hfacts, hsame⟩ := h.elsewhere hroutine hwaits
  exact ⟨outcome, scene, hrun, hfacts, fun r hr => hsame r ▸ hr⟩

/-- Nor does a visit against other published results, if they agree wherever the block waits. -/
theorem against (h : env.FindsNothing block entry facts a) (hbody : env.body.WellFormed)
    {i : BlockId} (hblock : env.body.blocks[i]? = some block)
    (hfits : (⟨entry, facts, a, none⟩ : Scene).Fits env.body) {p : OrderedMap RoutineId Summary}
    (hp : env.Agrees p a) : (env.against p).FindsNothing block entry facts a := by
  obtain ⟨outcome, scene, hrun, hfacts, hnone⟩ := h
  have hruns : Runs env p (visitBlock env block) (visitBlock (env.against p) block) _ _ :=
    visitBlock_runs hbody hblock hfits
  obtain ⟨outcome', scene', hrun', -, -, -, hreplay⟩ := hruns
  cases hrun.symm.trans hrun'
  refine ⟨outcome, scene, hreplay fun callee => ?_, hfacts, hnone⟩
  exact ⟨(hp callee).1, fun hr => (hp callee).2 (hnone callee hr)⟩

end Setting.FindsNothing

end FlowTyping
