import FlowTyping.Proofs.Kind.Grow
import FlowTyping.Proofs.Visit.Keep
import FlowTyping.Visit.Block

/-!
# Parts of a visit that bind no call

`Visit.Quiet` says of every run of a computation that it forgets nothing and changes the target of
no call. Nothing is asked of the scene that it starts from.
-/

namespace FlowTyping

namespace Scene

variable {s s' s'' : Scene}

/-- The scene is one of a routine with the body. -/
structure Of (s : Scene) (b : Body) : Prop where
  routine : s.facts.routine = b.routine
  size : s.facts.exprMasks.size = b.exprs.size

/-- What is known in one scene is known in the other. -/
structure Keeps (s s' : Scene) : Prop where
  facts : s.facts.Keeps s'.facts
  routine : s'.facts.routine = s.facts.routine
  size : s'.facts.exprMasks.size = s.facts.exprMasks.size
  waiters : ∀ r ref, ref ∈ s.agenda.waiters r → ref ∈ s'.agenda.waiters r

namespace Keeps

theorem refl (s : Scene) : s.Keeps s :=
  ⟨.refl _, rfl, rfl, fun _ _ h => h⟩

theorem trans (h : s.Keeps s') (h' : s'.Keeps s'') : s.Keeps s'' where
  facts := h.facts.trans h'.facts
  routine := h'.routine.trans h.routine
  size := h'.size.trans h.size
  waiters r ref href := h'.waiters r ref (h.waiters r ref href)

theorem of {b : Body} (h : s.Keeps s') (hs : s.Of b) : s'.Of b :=
  ⟨h.routine.trans hs.routine, h.size.trans hs.size⟩

end Keeps

end Scene

namespace Visit

variable {α β γ : Type}

/-- No run of the computation forgets anything or changes the target of a call. -/
def Quiet (x : Visit α) : Prop :=
  ∀ s a s', x.run s = .ok (a, s') → s.Keeps s' ∧ s'.facts.callTargets = s.facts.callTargets

namespace Quiet

variable {x y : Visit α} {f : α → Visit β}

theorem pure (a : α) : Quiet (pure a) := by
  intro s b s' h
  cases h
  exact ⟨.refl s, rfl⟩

theorem throw (fault : Fault) : Quiet (throw fault : Visit α) := by
  intro s b s' h
  cases h

theorem get : Quiet (get : Visit Scene) := by
  intro s a s' h
  cases h
  exact ⟨.refl s, rfl⟩

theorem lift (y : Except Fault α) : Quiet (liftM y) := by
  intro s a s' h
  cases y with
  | error fault => cases h
  | ok b =>
      cases h
      exact ⟨.refl s, rfl⟩

/-- A sequence of quiet parts is quiet. -/
theorem bind (hx : Quiet x) (hf : ∀ a, Quiet (f a)) : Quiet (x >>= f) := by
  intro s b s' h
  obtain ⟨a, s₁, hrun, h⟩ := exists_of_run_bind h
  obtain ⟨hkeeps, hsame⟩ := hx s a s₁ hrun
  obtain ⟨hkeeps', hsame'⟩ := hf a s₁ b s' h
  exact ⟨hkeeps.trans hkeeps', hsame'.trans hsame⟩

theorem ite {c : Prop} [Decidable c] (hx : Quiet x) (hy : Quiet y) :
    Quiet (if c then x else y) := by
  split
  · exact hx
  · exact hy

theorem foldlM {g : β → γ → Visit β} (hg : ∀ b c, Quiet (g b c)) (l : List γ) (b : β) :
    Quiet (l.foldlM g b) := by
  induction l generalizing b with
  | nil => exact pure b
  | cons c rest ih =>
      rw [List.foldlM_cons]
      exact bind (hg b c) ih

theorem forM {g : γ → Visit Unit} (hg : ∀ c, Quiet (g c)) (l : List γ) : Quiet (l.forM g) := by
  induction l with
  | nil => exact pure ()
  | cons c rest ih => exact bind (hg c) fun _ => ih

theorem mapM {g : γ → Visit β} (hg : ∀ c, Quiet (g c)) (l : List γ) : Quiet (l.mapM g) := by
  induction l with
  | nil => exact pure []
  | cons c rest ih =>
      rw [List.mapM_cons]
      exact bind (hg c) fun b => bind ih fun bs => pure (b :: bs)

end Quiet

theorem setState_quiet (st : State) : Quiet (setState st) := by
  intro s a s' h
  cases h
  exact ⟨⟨.refl _, rfl, rfl, fun _ _ h => h⟩, rfl⟩

theorem getState_quiet : Quiet getState :=
  .bind .get fun _ => .pure _

theorem updateState_quiet (g : State → Except Fault State) : Quiet (updateState g) :=
  .bind getState_quiet fun _ => .bind (.lift _) fun _ => setState_quiet _

theorem swapState_quiet (st : State) : Quiet (swapState st) :=
  .bind getState_quiet fun _ => .bind (setState_quiet st) fun _ => .pure _

theorem slot_quiet (x : VarId) : Quiet (slot x) :=
  .bind getState_quiet fun _ => .lift _

theorem varMask_quiet (x : VarId) : Quiet (varMask x) :=
  .bind (slot_quiet x) fun _ => .pure _

theorem forgetAll_quiet (b : Bool) : Quiet (forgetAll b) := by
  intro s a s' h
  cases h
  exact ⟨⟨.refl _, rfl, rfl, fun _ _ h => h⟩, rfl⟩

theorem getFacts_quiet : Quiet getFacts :=
  .bind .get fun _ => .pure _

theorem getTable_quiet : Quiet getTable :=
  .bind .get fun _ => .pure _

theorem selfClass?_quiet : Quiet selfClass? :=
  .bind getTable_quiet fun _ => .pure _

/-- Additions to the facts that concern no call target. -/
theorem updateFacts_quiet {g : Facts → Facts} (hstep : ∀ f : Facts, f.Step (g f))
    (hsize : ∀ f : Facts, (g f).exprMasks.size = f.exprMasks.size)
    (htargets : ∀ f : Facts, (g f).callTargets = f.callTargets) : Quiet (updateFacts g) := by
  intro s a s' h
  cases h
  exact ⟨⟨(hstep _).keeps, (hstep _).routine, hsize _, fun _ _ h => h⟩, htargets _⟩

theorem record_quiet (e : ExprId) (m : Mask) : Quiet (record e m) :=
  updateFacts_quiet (fun f => .record f e m) (fun _ => Array.size_modify) fun _ => rfl

/-- Work that only adds kinds is quiet. -/
theorem onTable_quiet {y : Typing α} (hy : Typing.Adds y) : Quiet (onTable y) := by
  intro s a s' h
  obtain ⟨t, hrun, rfl⟩ := onTable_eq_ok h
  exact ⟨⟨.onTable _ (hy _ _ _ hrun), rfl, rfl, fun _ _ h => h⟩, rfl⟩

end Visit

open Visit

theorem Setting.expr_eq_ok {env : Setting} {e : ExprId} {x : Expr} {s s' : Scene}
    (h : (env.expr e).run s = .ok (x, s')) : env.body.exprs[e]? = some x ∧ s = s' := by
  cases hx : env.body.exprs[e]? with
  | none =>
      rw [Setting.expr, hx] at h
      cases h
  | some y =>
      cases h.symm.trans (Setting.expr_run hx)
      exact ⟨rfl, rfl⟩

theorem Setting.expr_quiet (env : Setting) (e : ExprId) : Quiet (env.expr e) := by
  rw [Setting.expr]
  split
  · exact .pure _
  · exact .throw _

theorem Setting.varOf?_quiet (env : Setting) (e : ExprId) : Quiet (env.varOf? e) := by
  apply Quiet.bind (env.expr_quiet e)
  intro x
  split
  · exact .pure _
  · exact .pure _

/-! ### Places -/

theorem share_quiet (x : VarId) : Quiet (share x) :=
  updateState_quiet _

theorem joinState_quiet (st : State) : Quiet (joinState st) :=
  updateState_quiet _

theorem markDynamicLocals_quiet : Quiet (updateFacts (·.markDynamicLocals)) :=
  updateFacts_quiet (fun f => .dynamicLocals f) (fun _ => rfl) fun _ => rfl

theorem visitVar_quiet (id : ExprId) (x : VarId) (access : Access) :
    Quiet (visitVar id x access) := by
  have hread (access : Access) : Quiet (do
      let s ← slot x
      if s.assigned then return s.mask
      if (← getFacts).kind = .globalCode then
        assign x .top
        return .top
      if access = .read then updateFacts (·.markUnassignedRead id)
      return s.mask ∪ .null : Visit Mask) := by
    apply Quiet.bind (slot_quiet x)
    intro sl
    apply Quiet.ite (.pure _)
    apply Quiet.bind getFacts_quiet
    intro f
    apply Quiet.ite
    · exact .bind (updateState_quiet _) fun _ => .pure _
    · apply Quiet.ite
      · apply Quiet.bind _ fun _ => .pure _
        exact updateFacts_quiet (fun f => .unassignedRead f id) (fun _ => rfl) fun _ => rfl
      · exact .pure _
  cases access with
  | write m => exact .bind (updateState_quiet _) fun _ => varMask_quiet x
  | share => exact .bind (share_quiet x) fun _ => varMask_quiet x
  | read => exact hread .read
  | peek => exact hread .peek

theorem fieldMask_quiet (env : Setting) (cls : Name) (field : String) :
    Quiet (fieldMask env cls field) := by
  rw [fieldMask]
  split
  · exact onTable_quiet (KindTable.hintMask_adds _)
  · exact .pure _

theorem objectFieldMask_quiet (env : Setting) (object : Mask) (field : String) :
    Quiet (objectFieldMask env object field) := by
  apply Quiet.ite (.pure _)
  apply Quiet.bind getTable_quiet
  intro t
  apply Quiet.bind (.lift _)
  intro classes
  apply Quiet.ite (.pure _)
  apply Quiet.foldlM
  intro acc cls
  exact .bind (fieldMask_quiet env cls field) fun _ => .pure _

theorem isBoundedCounter_quiet (env : Setting) (counter : ExprId) :
    Quiet (isBoundedCounter env counter) := by
  apply Quiet.bind (env.varOf?_quiet counter)
  intro x?
  cases x? with
  | none => exact .pure _
  | some x => exact .bind (slot_quiet x) fun _ => .pure _

theorem isBoundedStep_quiet (env : Setting) (counter step : ExprId) :
    Quiet (isBoundedStep env counter step) := by
  apply Quiet.bind (env.expr_quiet step)
  intro x
  split
  · exact isBoundedCounter_quiet env counter
  · exact .pure _

theorem peekWithin_quiet (env : Setting) (depth : Nat) (e : ExprId) :
    Quiet (peekWithin env depth e) := by
  induction depth generalizing e with
  | zero => exact .throw _
  | succ depth ih =>
      apply Quiet.bind (env.expr_quiet e)
      intro x
      split
      · exact varMask_quiet _
      · exact .ite (.bind (ih _) fun _ => .bind getTable_quiet fun _ => .lift _) (.throw _)
      · exact .pure _

theorem peek_quiet (env : Setting) (e : ExprId) : Quiet (peek env e) :=
  peekWithin_quiet env _ e

theorem visitClosure_quiet (captures : List Capture) : Quiet (visitClosure captures) := by
  apply Quiet.bind
  · apply Quiet.forM
    intro c
    exact .ite (share_quiet c.var) (.pure _)
  · intro _
    exact onTable_quiet (KindTable.instanceOf_adds _ _)

/-! ### Narrowing -/

theorem narrowTo_quiet (x : VarId) (m : Mask) : Quiet (narrowTo x m) :=
  .ite (.pure _) (updateState_quiet _)

theorem assumeNotNull_quiet (x : VarId) : Quiet (assumeNotNull x) :=
  .bind (varMask_quiet x) fun _ => .bind (narrowTo_quiet x _) fun _ => updateState_quiet _

/-- What is done with the variable that an expression names, if it names one. -/
theorem varOf?_bind_quiet (env : Setting) (e : ExprId) {f : VarId → Visit Unit}
    (hf : ∀ x, Quiet (f x)) :
    Quiet (do
      match ← env.varOf? e with
      | some x => f x
      | none => return ()) := by
  apply Quiet.bind (env.varOf?_quiet e)
  intro x?
  cases x? with
  | none => exact .pure ()
  | some x => exact hf x

theorem narrowTested_quiet (env : Setting) (test : KindTest) (arg : Argument) (holds : Bool) :
    Quiet (narrowTested env test arg holds) := by
  apply Quiet.ite (.pure _)
  apply Quiet.bind (env.varOf?_quiet arg.value)
  intro x?
  cases x? with
  | none => exact .pure _
  | some x =>
      apply Quiet.bind (varMask_quiet x)
      intro current
      apply Quiet.bind (onTable_quiet (testedMask_adds test current holds))
      intro m
      exact .ite (.bind (updateState_quiet _) fun _ => narrowTo_quiet x m) (narrowTo_quiet x m)

theorem isNullLiteral_quiet (env : Setting) (e : ExprId) : Quiet (isNullLiteral env e) := by
  apply Quiet.bind (env.expr_quiet e)
  intro x
  split <;> exact .pure _

theorem comparedWithNull?_quiet (env : Setting) (left right : ExprId) :
    Quiet (comparedWithNull? env left right) := by
  apply Quiet.bind (isNullLiteral_quiet env right)
  intro isRight
  apply Quiet.ite (env.varOf?_quiet left)
  apply Quiet.bind (isNullLiteral_quiet env left)
  intro isLeft
  exact .ite (env.varOf?_quiet right) (.pure _)

theorem noteUpperBound_quiet (env : Setting) (counter bound : ExprId) :
    Quiet (noteUpperBound env counter bound) := by
  apply Quiet.bind (env.varOf?_quiet counter)
  intro x?
  cases x? with
  | none => exact .pure _
  | some x =>
      apply Quiet.bind (varMask_quiet x)
      intro m
      apply Quiet.bind getFacts_quiet
      intro f
      exact .ite (updateState_quiet _) (.pure _)

theorem narrowByNull_quiet (x : VarId) (isNull? : Option Bool) :
    Quiet (match isNull? with
      | some true => narrowTo x .null
      | some false => assumeNotNull x
      | none => return ()) := by
  split
  · exact narrowTo_quiet x .null
  · exact assumeNotNull_quiet x
  · exact .pure _

theorem narrowCompared_quiet (env : Setting) (op : BinaryOp) (left right : ExprId) (holds : Bool) :
    Quiet (narrowCompared env op left right holds) := by
  cases op with
  | identical | notIdentical | equal | notEqual =>
      apply Quiet.bind (comparedWithNull?_quiet env left right)
      intro x?
      cases x? with
      | none => exact .pure _
      | some x => exact narrowByNull_quiet x _
  | less => exact .ite (noteUpperBound_quiet env left right) (.pure _)
  | greater => exact .ite (noteUpperBound_quiet env right left) (.pure _)
  | _ => exact .pure _

theorem narrowIsset_quiet (env : Setting) (operands : List ExprId) (holds : Bool) :
    Quiet (narrowIsset env operands holds) := by
  apply Quiet.ite
  · apply Quiet.forM
    intro e
    exact varOf?_bind_quiet env e assumeNotNull_quiet
  · split
    · apply varOf?_bind_quiet
      intro x
      exact .bind (varMask_quiet x) fun _ => .ite (narrowTo_quiet x .null) (.pure _)
    · exact .pure _

theorem staticClass?_quiet (env : Setting) (cls : ClassRef) : Quiet (staticClass? env cls) := by
  cases cls with
  | named cls => exact .pure _
  | selfClass => exact selfClass?_quiet
  | parent => exact .bind selfClass?_quiet fun _ => .pure _
  | lateStatic => exact selfClass?_quiet
  | dynamic e => exact .pure _

/-- Narrowing changes the target of no call. -/
theorem narrow_quiet (env : Setting) (e : ExprId) (holds : Bool) : Quiet (narrow env e holds) := by
  apply Quiet.bind (env.expr_quiet e)
  intro x
  split
  · exact .ite (assumeNotNull_quiet _) (.pure _)
  · apply Quiet.ite _ (.pure _)
    apply varOf?_bind_quiet
    intro x
    exact .bind (varMask_quiet x) fun _ => narrowTo_quiet x _
  · rename_i operand cls
    apply Quiet.bind (env.varOf?_quiet operand)
    intro x?
    cases x? with
    | none => exact .pure _
    | some x =>
        apply Quiet.bind (staticClass?_quiet env cls)
        intro cls?
        cases cls? with
        | none => exact .pure _
        | some cls =>
            apply Quiet.bind (varMask_quiet x)
            intro current
            apply Quiet.bind (onTable_quiet (instanceMask_adds env.decls cls current holds))
            intro m
            exact narrowTo_quiet x m
  · exact narrowIsset_quiet env _ holds
  · exact .ite (varOf?_bind_quiet env _ assumeNotNull_quiet) (.pure _)
  · exact narrowCompared_quiet env _ _ _ holds
  · split
    · exact narrowTested_quiet env _ _ holds
    · exact .pure _
  · exact .pure _

/-! ### Calls and the end of a block -/

theorem reportNoPlace_quiet (arg : Argument) (callee : RoutineId) (p : ParamDecl) :
    Quiet (reportNoPlace arg callee p) :=
  updateFacts_quiet (fun f => .report f _) (fun _ => rfl) fun _ => rfl

theorem bindCall_quiet (env : Setting) (candidates : List RoutineId) (types : List ArgumentType) :
    Quiet (bindCall env candidates types) :=
  .bind selfClass?_quiet fun _ => onTable_quiet (Overload.resolve_adds _ _ _ _)

theorem useLocals_quiet (name : Name) : Quiet (useLocals name) := by
  rw [useLocals]
  split
  · exact .bind (forgetAll_quiet _) fun _ => markDynamicLocals_quiet
  · exact .pure _

theorem noteThrow_quiet (watched : Bool) (thrown? : Option State) :
    Quiet (noteThrow watched thrown?) := by
  apply Quiet.ite (.pure _)
  apply Quiet.bind getState_quiet
  intro now
  cases thrown? with
  | none => exact .pure _
  | some thrown => exact .bind (.lift _) fun _ => .pure _

theorem exitTo_quiet (targets : List BlockId) : Quiet (exitTo targets) :=
  .bind getState_quiet fun _ => .pure _

end FlowTyping
