import FlowTyping.Proofs.Visit.CompareBlock
import FlowTyping.Proofs.Visit.Quiet

/-!
# Invariants of a visit

A property of states is lasting if no change to a state ends it, but for the removal of a variable,
and if it holds where two states meet that have it. `Visit.Preserves` says of every run of a
computation that it keeps such a property. As a comparison with nothing at all it is an instance of
`Setting.Comparison`.

Main statement: `visitBlock_preserves`. All states that a visit to a block hands out have the
property, if the variables that the block removes are none of its concern.
-/

namespace FlowTyping

/-- Whatever happens to a state with the property, short of the removal of a variable, leaves it
with the property. -/
structure State.Lasting (I : State → Prop) : Prop where
  change : ∀ {h : State → Except Fault State} {s s' : State}, State.Change h → I s →
    h s = .ok s' → I s'
  forgetAll : ∀ {s : State} (b : Bool), I s → I (s.forgetAll b)
  join : ∀ {s s' j : State}, I s → I s' → s.join s' = .ok j → I j

namespace Visit

variable {α α' β β' : Type} {I : State → Prop}

/-- Every run that starts in a state with the property ends in one, and yields a value as
described. -/
def Preserves (I : State → Prop) (x : Visit α) (Q : α → Prop) : Prop :=
  ∀ s a s', I s.state → x.run s = .ok (a, s') → I s'.state ∧ Q a

namespace Preserves

variable {x : Visit α} {P Q : α → Prop} {R : β → Prop} {f : α → Visit β}

theorem pure {a : α} (h : Q a) : Preserves I (pure a) Q := by
  intro s b s' hs hrun
  cases hrun
  exact ⟨hs, h⟩

theorem throw (fault : Fault) : Preserves I (throw fault : Visit α) Q := by
  intro s a s' _ hrun
  cases hrun

/-- A sequence preserves what its parts preserve. -/
theorem bind (hx : Preserves I x P) (hf : ∀ a, P a → Preserves I (f a) R) :
    Preserves I (x >>= f) R := by
  intro s b s' hs hrun
  obtain ⟨a, s₁, hfirst, hrest⟩ := exists_of_run_bind hrun
  obtain ⟨hs₁, ha⟩ := hx s a s₁ hs hfirst
  exact hf a ha s₁ b s' hs₁ hrest

theorem mono (hx : Preserves I x P) (hPQ : ∀ a, P a → Q a) : Preserves I x Q := by
  intro s a s' hs hrun
  obtain ⟨hs', ha⟩ := hx s a s' hs hrun
  exact ⟨hs', hPQ a ha⟩

/-- A part that leaves the variables alone yields something equal to what it yields. -/
theorem of_state_eq (h : ∀ s a s', x.run s = .ok (a, s') → s'.state = s.state) :
    Preserves I x fun a => ∃ b, a = b := by
  intro s a s' hs hrun
  rw [h s a s' hrun]
  exact ⟨hs, a, rfl⟩

theorem lift (z : Except Fault α) : Preserves I (liftM z) fun a => z = .ok a := by
  intro s a s' hs hrun
  cases z with
  | error fault => cases hrun
  | ok b =>
      cases hrun
      exact ⟨hs, rfl⟩

end Preserves

theorem getState_preserves : Preserves I getState I := by
  intro s a s' hs hrun
  cases hrun
  exact ⟨hs, hs⟩

theorem setState_preserves {st : State} (hst : I st) :
    Preserves I (setState st) fun a => ∃ b, a = b := by
  intro s a s' _ hrun
  cases hrun
  exact ⟨hst, (), rfl⟩

/-- An update preserves what its function preserves. -/
theorem updateState_preserves {g : State → Except Fault State}
    (hg : ∀ {st st' : State}, I st → g st = .ok st' → I st') :
    Preserves I (updateState g) fun a => ∃ b, a = b :=
  .bind getState_preserves fun _ hst => .bind (.lift _) fun _ h => setState_preserves (hg hst h)

theorem onTable_preserves (z : Typing α) : Preserves I (onTable z) fun a => ∃ b, a = b := by
  apply Preserves.of_state_eq
  intro s a s' hrun
  obtain ⟨t, -, rfl⟩ := onTable_eq_ok hrun
  rfl

end Visit

open Visit

variable {I : State → Prop}

/-- Keeping a lasting property, as a comparison: the other side does not matter. -/
def preservation (hI : State.Lasting I) (env : Setting) : env.Comparison env.published where
  Relates R x _ := Preserves I x fun a => ∃ b, R a b
  States s _ := I s
  Tables := Eq
  pure h := .pure ⟨_, h⟩
  throw := .throw
  bind hx hf := .bind hx fun a ⟨b, hab⟩ => hf a b hab
  getState := getState_preserves.mono fun st hst => ⟨st, hst⟩
  setState := setState_preserves
  slot v := .bind getState_preserves fun _ _ => (Preserves.lift _).mono fun a _ => ⟨a, rfl⟩
  change hh := updateState_preserves (hI.change hh)
  forgetAll share := by
    intro s a s' hs hrun
    cases hrun
    exact ⟨hI.forgetAll share hs, (), rfl⟩
  join hs ht := (Preserves.lift _).mono fun j hj => ⟨j, hI.join hs ht hj⟩
  kind := by
    intro s a s' hs hrun
    cases hrun
    exact ⟨hs, _, rfl⟩
  record e m := by
    apply Preserves.of_state_eq
    intro s a s' hrun
    cases hrun
    rfl
  note _ := by
    apply Preserves.of_state_eq
    intro s a s' hrun
    cases hrun
    rfl
  getTable := by
    apply Preserves.of_state_eq
    intro s a s' hrun
    cases hrun
    rfl
  self := KindTable.self?_congr
  elementMask _ m := (Preserves.lift _).mono fun a _ => ⟨a, rfl⟩
  classes _ m := (Preserves.lift _).mono fun a _ => ⟨a, rfl⟩
  stepResult _ m increment bounded := (Preserves.lift _).mono fun a _ => ⟨a, rfl⟩
  onTable _ := onTable_preserves _
  routineResult r := by
    apply routineResult_cases (P := fun x => Preserves I x fun a => ∃ b, a = b)
    · exact fun hint => onTable_preserves _
    · exact .pure ⟨_, rfl⟩
    · intro summary
      apply Preserves.bind (Preserves.of_state_eq _) fun _ _ => onTable_preserves _
      intro s a s' hrun
      cases hrun
      rfl

/-- All states that the visit to a block hands out have the property. -/
structure Outcome.All (I : State → Prop) (o : Outcome) : Prop where
  exits : ∀ e ∈ o.exits, I e.2
  thrown : ∀ st ∈ o.thrown?, I st

/-- A visit to a block keeps every lasting property that does not depend on a variable that the
block removes. -/
theorem visitBlock_preserves {env : Setting} {block : Block} (hI : State.Lasting I)
    (hremove : ∀ a ∈ block.actions, ∀ x, a.Removes env.body x →
      ∀ st st', I st → st.unset x = .ok st' → I st') :
    Preserves I (visitBlock env block) (Outcome.All I) := by
  let C := preservation hI env
  have hmasks : C.Relates (fun f f' => ∀ e, f.exprMask e = f'.exprMask e) getFacts getFacts := by
    intro s a s' hs hrun
    cases hrun
    exact ⟨hs, _, fun _ => rfl⟩
  have hv : C.Visitors (visitor env) (visitor env) :=
    C.visitor_agrees fun _ id hbelow => C.orders_of_masks (hbelow.below id) hmasks id
  have hblock : Preserves I (visitBlock env block) fun o => ∃ o',
    Outcome.Related (fun s _ => I s) o o' :=
    C.visitBlock_relates hv
      (fun a ha x hx => updateState_preserves (hremove a ha x hx _ _)) fun _ _ _ _ _ _ _ => hmasks
  apply hblock.mono
  rintro ⟨exits, thrown?⟩ ⟨o', hexits, hthrown⟩
  have hall := hexits.imp fun e e' h => And.intro h.2 h.1
  refine ⟨((List.forall₂_and_left _ _).1 hall).1, ?_⟩
  intro st hst
  cases hst
  cases o'
  cases hthrown with
  | some hstate => exact hstate

end FlowTyping
