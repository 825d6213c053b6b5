import FlowTyping.Proofs.Visit.CompareExpr
import Mathlib.Data.List.Forall2

/-!
# Comparing visits to blocks

Main statement: `Setting.Comparison.visitBlock_relates`. If the visits to expressions go together,
so do the visits to a block, and all the states that they hand out.
-/

namespace FlowTyping

open Visit

/-- The action removes the variable, and not just something that is found in it. -/
def Action.Removes (b : Body) (x : VarId) (a : Action) : Prop :=
  ∃ es, a = .unset es ∧ ∃ e ∈ es, b.exprs[e]? = some (.var x)

/-- Two outcomes go to the same blocks, in states that are related. -/
structure Outcome.Related (S : State → State → Prop) (o o' : Outcome) : Prop where
  exits : List.Forall₂ (fun e e' => e.1 = e'.1 ∧ S e.2 e'.2) o.exits o'.exits
  thrown : Option.Rel S o.thrown? o'.thrown?

/-- States that are related by a function: the second outcome is the image of the first. -/
theorem Outcome.Related.eq_map {f : State → State} {o o' : Outcome}
    (h : o.Related (fun st st' => st' = f st) o') :
    o' = ⟨o.exits.map fun e => (e.1, f e.2), o.thrown?.map f⟩ := by
  obtain ⟨exits, thrown?⟩ := o
  obtain ⟨exits', thrown?'⟩ := o'
  obtain ⟨hexits, hthrown⟩ := h
  have hsame := hexits.imp fun e e' he =>
    show (fun e : BlockId × State => (e.1, f e.2)) e = e' from Prod.ext he.1 he.2.symm
  rw [← List.forall₂_map_left_iff, List.forall₂_eq_eq_eq] at hsame
  cases hsame
  cases hthrown with
  | none => rfl
  | some hst =>
      cases hst
      rfl

theorem Outcome.Related.eq {o o' : Outcome} (h : o.Related Eq o') : o = o' := by
  obtain ⟨exits, thrown?⟩ := o
  obtain ⟨exits', thrown?'⟩ := o'
  obtain ⟨hexits, hthrown⟩ := h
  have hsame := hexits.imp fun e e' he => show e = e' from Prod.ext he.1 he.2
  rw [List.forall₂_eq_eq_eq] at hsame
  cases hsame
  cases hthrown with
  | none => rfl
  | some hst =>
      cases hst
      rfl

namespace Setting.Comparison

variable {env : Setting} {p : OrderedMap RoutineId Summary} (C : env.Comparison p)

/-- Exits to the same blocks, in states that go together. -/
abbrev Exits : List (BlockId × State) → List (BlockId × State) → Prop :=
  List.Forall₂ fun e e' => e.1 = e'.1 ∧ C.States e.2 e'.2

theorem noteThrow_relates (watched : Bool) {thrown? thrown?' : Option State}
    (hthrown : Option.Rel C.States thrown? thrown?') :
    C.Relates (Option.Rel C.States) (noteThrow watched thrown?) (noteThrow watched thrown?') := by
  apply C.ite (C.pure hthrown)
  apply C.bind C.getState
  intro now now' hnow
  cases hthrown with
  | none => exact C.pure (.some hnow)
  | some hthrown => exact C.bind (C.join hthrown hnow) fun _ _ hjoined => C.pure (.some hjoined)

theorem exitTo_relates (targets : List BlockId) :
    C.Relates C.Exits (exitTo targets) (exitTo targets) := by
  apply C.bind C.getState
  intro st st' hst
  apply C.pure
  induction targets with
  | nil => exact .nil
  | cons target rest ih => exact .cons ⟨rfl, hst⟩ ih

theorem settle_relates (watched : Bool) {thrown? thrown?' : Option State}
    (hthrown : Option.Rel C.States thrown? thrown?') {x y : Visit (List (BlockId × State))}
    (hx : C.Relates C.Exits x y) :
    C.Relates (Outcome.Related C.States) (settle watched thrown? x)
      (settle watched thrown?' y) := by
  apply C.bind hx
  intro exits exits' hexits
  exact C.bind (C.noteThrow_relates watched hthrown) fun _ _ hthrown => C.pure ⟨hexits, hthrown⟩

variable (hv : C.Visitors (visitor env) (visitor (env.against p)))

include hv

theorem visitUnset_agrees {e : ExprId}
    (hremove : ∀ x, env.body.exprs[e]? = some (.var x) →
      C.Agrees (updateState (·.unset x)) (updateState (·.unset x))) :
    C.Agrees (visitUnset env e) (visitUnset (env.against p) e) := by
  apply C.expr_bind e
  intro x hx
  split
  · exact C.seq (hremove _ hx) fun _ => C.record e .null
  · exact C.seq (C.optionForM hv.read _) fun _ => C.skip (hv.value _ .peek)
  · exact C.skip (hv.value e .peek)

theorem visitAction_agrees {a : Action}
    (hremove : ∀ x, a.Removes env.body x →
      C.Agrees (updateState (·.unset x)) (updateState (·.unset x))) :
    C.Agrees (visitAction env a) (visitAction (env.against p) a) := by
  cases a with
  | eval e => exact hv.read e
  | echo es => exact hv.readAll es
  | unset es =>
      apply C.forM
      intro e he
      exact C.visitUnset_agrees hv fun x hx => hremove x ⟨es, rfl, e, he, hx⟩
  | bindGlobals vars => exact C.forM fun x _ => C.share_agrees x
  | bindStatics vars =>
      apply C.forM
      intro x _
      exact C.seq (C.optionForM hv.read x.init?) fun _ => C.share_agrees x.var
  | bindException x? classes =>
      cases x? with
      | none => exact C.pure rfl
      | some x => exact C.seq (C.onTable (.exceptionMask classes)) fun m => C.assign_agrees x m

theorem visitActions_relates (watched : Bool) {actions : List Action}
    (hremove : ∀ a ∈ actions, ∀ x, a.Removes env.body x →
      C.Agrees (updateState (·.unset x)) (updateState (·.unset x)))
    {thrown? thrown?' : Option State} (hthrown : Option.Rel C.States thrown? thrown?') :
    C.Relates (Option.Rel C.States) (visitActions env watched thrown? actions)
      (visitActions (env.against p) watched thrown?' actions) := by
  induction actions generalizing thrown? thrown?' with
  | nil => exact C.pure hthrown
  | cons a rest ih =>
      obtain ⟨hfirst, hrest⟩ := List.forall_mem_cons.1 hremove
      apply C.seq (C.visitAction_agrees hv hfirst)
      intro _
      apply C.bind (C.noteThrow_relates watched hthrown)
      intro now? now?' hnow
      exact ih hrest hnow

theorem visitBranchEdge_relates (watched : Bool) {thrown? thrown?' : Option State}
    (hthrown : Option.Rel C.States thrown? thrown?') (cond : ExprId) (ifTrue ifFalse : BlockId) :
    C.Relates (Outcome.Related C.States) (visitBranchEdge env watched thrown? cond ifTrue ifFalse)
      (visitBranchEdge (env.against p) watched thrown?' cond ifTrue ifFalse) := by
  apply C.bind C.getState
  intro before before' hbefore
  apply C.seq (hv.condition cond .holds)
  intro _
  apply C.bind (C.swapState_relates hbefore)
  intro trueState trueState' htrue
  apply C.bind (C.noteThrow_relates watched hthrown)
  intro thrown? thrown?' hthrown
  apply C.seq (hv.condition cond .fails)
  intro _
  apply C.bind C.getState
  intro falseState falseState' hfalse
  apply C.bind (C.noteThrow_relates watched hthrown)
  intro thrown? thrown?' hthrown
  exact C.pure ⟨.cons ⟨rfl, htrue⟩ (.cons ⟨rfl, hfalse⟩ .nil), hthrown⟩

theorem visitAdvance_relates
    (hmasks : C.Relates (fun f f' => ∀ e, f.exprMask e = f'.exprMask e) getFacts getFacts)
    (collection : ExprId) (key? : Option ExprId) (value : ExprId) (byRef : Bool)
    (body stop : BlockId) :
    C.Relates C.Exits (visitAdvance env collection key? value byRef body stop)
      (visitAdvance (env.against p) collection key? value byRef body stop) := by
  apply C.bind (C.exitTo_relates [stop])
  intro done done' hdone
  apply C.bind C.getTable
  intro t t' ht
  apply C.bind hmasks
  intro f f' hsame
  rw [hsame collection]
  apply C.seq (C.elementMask ht _)
  intro elem
  apply C.seq
  · apply C.optionForM
    intro key
    exact C.skip (hv.value key _)
  · intro _
    apply C.seq (hv.value value _)
    intro _
    apply C.bind (C.exitTo_relates [body])
    intro entered entered' hentered
    exact C.pure (List.rel_append hdone hentered)

theorem visitEdge_relates (watched : Bool) {thrown? thrown?' : Option State}
    (hthrown : Option.Rel C.States thrown? thrown?') (edge : Edge)
    (hmasks : ∀ collection key? value byRef body stop,
      edge = .advance collection key? value byRef body stop →
        C.Relates (fun f f' => ∀ e, f.exprMask e = f'.exprMask e) getFacts getFacts) :
    C.Relates (Outcome.Related C.States) (visitEdge env watched thrown? edge)
      (visitEdge (env.against p) watched thrown?' edge) := by
  cases edge with
  | branch cond ifTrue ifFalse =>
      exact C.visitBranchEdge_relates hv watched hthrown cond ifTrue ifFalse
  | goto target | leave target | protect body catches finally? stop =>
      exact C.settle_relates watched hthrown (C.exitTo_relates _)
  | switch value arms stop =>
      apply C.settle_relates watched hthrown
      apply C.seq (hv.read value)
      intro _
      exact C.seq (hv.readAll _) fun _ => C.exitTo_relates _
  | iterate collection byRef advance =>
      apply C.settle_relates watched hthrown
      apply C.expr_bind collection
      intro x _
      exact C.seq (hv.value collection _) fun _ => C.exitTo_relates _
  | advance collection key? value byRef body stop =>
      apply C.settle_relates watched hthrown
      exact C.visitAdvance_relates hv (hmasks _ _ _ _ _ _ rfl) collection key? value byRef body stop
  | ret value? =>
      apply C.settle_relates watched hthrown
      have hreturn (m : Mask) : C.Relates C.Exits (do updateFacts (·.addReturn m); return [])
          (do updateFacts (·.addReturn m); return []) :=
        C.seq (C.note (.returned m)) fun _ => C.pure .nil
      cases value? with
      | none => exact C.seq (C.pure rfl) hreturn
      | some e => exact C.seq (hv.value e .read) hreturn
  | raise value =>
      apply C.settle_relates watched hthrown
      exact C.seq (hv.read value) fun _ => C.pure .nil
  | exit value? =>
      apply C.settle_relates watched hthrown
      exact C.seq (C.optionForM hv.read value?) fun _ => C.pure .nil

/-- Visits to a block go together, if the removal of variables does and, for a block that goes on
with a collection, if the recorded masks are read alike. -/
theorem visitBlock_relates {block : Block}
    (hremove : ∀ a ∈ block.actions, ∀ x, a.Removes env.body x →
      C.Agrees (updateState (·.unset x)) (updateState (·.unset x)))
    (hmasks : ∀ collection key? value byRef body stop,
      block.edge = .advance collection key? value byRef body stop →
        C.Relates (fun f f' => ∀ e, f.exprMask e = f'.exprMask e) getFacts getFacts) :
    C.Relates (Outcome.Related C.States) (visitBlock env block)
      (visitBlock (env.against p) block) := by
  apply C.bind (C.noteThrow_relates _ .none)
  intro thrown? thrown?' hthrown
  apply C.bind (C.visitActions_relates hv _ hremove hthrown)
  intro thrown? thrown?' hthrown
  exact C.visitEdge_relates hv _ hthrown block.edge hmasks

end Setting.Comparison

end FlowTyping
