import FlowTyping.Proofs.Visit.Rebind

/-!
# Visits to calls bind them

A visit to a call notes the target and yields a mask that accounts for every routine of the target;
once the mask is recorded, the call is bound. Main statements: `visitCall_calls` and
`visitStaticCall_calls`; calls on objects are in `FlowTyping.Proofs.Visit.Dispatch`.
-/

namespace FlowTyping

open Visit

/-- The target of a call that is made under a binding. -/
def Binding.target : Binding → CallTarget
  | .resolved r => .resolved r
  | .ambiguous rs => .ambiguous rs
  | .missing => .dynamic

variable {env : Setting} {v : Visitor} {s s' : Scene} {id : ExprId}

/-! ### What a call yields -/

/-- A block that reads the result of a routine waits for it, and the result goes into the mask. -/
theorem routineResult_accounts {r : RoutineDecl} {m : Mask}
    (h : (routineResult env r).run s = .ok (m, s')) :
    s.Keeps s' ∧ s'.facts.callTargets = s.facts.callTargets ∧
      (r.returns? = none → ∀ x, s'.Accounts env (x ∪ m) r) := by
  rw [routineResult] at h
  cases hreturns : r.returns? with
  | some hint =>
      simp only [hreturns] at h
      obtain ⟨hkeeps, hsame⟩ := onTable_quiet (KindTable.hintMask_adds hint) s m s' h
      exact ⟨hkeeps, hsame, fun hnone => nomatch hnone⟩
  | none =>
      simp only [hreturns] at h
      cases hfind : env.published.find? r.id with
      | none =>
          simp only [hfind] at h
          cases h
          refine ⟨.refl s, rfl, fun _ x summary hsummary => ?_⟩
          cases hfind.symm.trans hsummary
      | some summary =>
          simp only [hfind] at h
          obtain ⟨scene, s₁, hget, h⟩ := exists_of_run_bind h
          cases hget
          obtain ⟨u, s₁, hset, h⟩ := exists_of_run_bind h
          obtain ⟨hkeeps, hsame⟩ := onTable_quiet (KindTable.adopt_adds summary) s₁ m s' h
          cases hset
          have hawait : s.Keeps { s with
              agenda := (s.agenda.await r.id (s.facts.routine, env.block)).2 } :=
            ⟨.refl _, rfl, rfl, fun _ _ href => Agenda.mem_waiters_await.2 (Or.inl href)⟩
          refine ⟨hawait.trans ⟨hkeeps.facts, hkeeps.routine, hkeeps.size, hkeeps.waiters⟩, hsame,
            fun _ x summary' hsummary' => ?_⟩
          cases hfind.symm.trans hsummary'
          constructor
          · apply hkeeps.waiters
            rw [hkeeps.routine]
            exact Agenda.mem_waiters_await.2 (Or.inr ⟨rfl, rfl⟩)
          · refine ⟨m, Mask.union_absorb x m, fun final hfinal => ?_⟩
            obtain ⟨t, hadopt, rfl⟩ := onTable_eq_ok h
            exact KindTable.settles_of_adopt hadopt hfinal

/-- Adding up the results of some routines accounts for all of them. -/
theorem foldlM_routineResult_accounts {rs : List RoutineDecl} {acc m : Mask}
    (h : (rs.foldlM (fun acc r => do return acc ∪ (← routineResult env r)) acc).run s =
      .ok (m, s')) :
    s.Keeps s' ∧ s'.facts.callTargets = s.facts.callTargets ∧ acc.Below m ∧
      ∀ r ∈ rs, r.returns? = none → s'.Accounts env m r := by
  induction rs generalizing s acc with
  | nil =>
      cases h
      exact ⟨.refl _, rfl, .refl _, fun r hr => nomatch hr⟩
  | cons r rs ih =>
      rw [List.foldlM_cons] at h
      obtain ⟨acc', s₁, hstep, h⟩ := exists_of_run_bind h
      obtain ⟨m₁, s₂, hresult, hstep⟩ := exists_of_run_bind hstep
      cases hstep
      obtain ⟨hkeeps, hsame, haccounts⟩ := routineResult_accounts hresult
      obtain ⟨hkeeps', hsame', hbelow, hrest⟩ := ih h
      refine ⟨hkeeps.trans hkeeps', hsame'.trans hsame, (Mask.Below.union acc m₁).trans hbelow,
        fun r' hr' hreturns => ?_⟩
      rcases List.mem_cons.1 hr' with rfl | hr'
      · exact (haccounts hreturns acc).mono hkeeps' hbelow
      · exact hrest r' hr' hreturns

/-- The mask of a call under a binding answers for the target, whatever it is joined to. -/
theorem bindingResult_answers {binding : Binding} {m : Mask}
    (h : (bindingResult env binding).run s = .ok (m, s')) :
    s.Keeps s' ∧ s'.facts.callTargets = s.facts.callTargets ∧
      (∀ x, s'.Answers env binding.target (x ∪ m)) ∧ (binding = .missing → m = .top) := by
  cases binding with
  | missing =>
      cases h
      exact ⟨.refl s, rfl, fun x f hf => absurd hf List.not_mem_nil, fun _ => rfl⟩
  | resolved callee =>
      rw [bindingResult] at h
      cases hr : env.decls.routine? callee with
      | none =>
          simp only [hr] at h
          cases h
          refine ⟨.refl s, rfl, fun x f hf r hr' => ?_, fun hmissing => nomatch hmissing⟩
          cases List.mem_singleton.1 hf
          cases hr.symm.trans hr'
      | some r =>
          simp only [hr] at h
          obtain ⟨hkeeps, hsame, haccounts⟩ := routineResult_accounts h
          refine ⟨hkeeps, hsame, fun x f hf r' hr' hreturns => ?_, fun hmissing => nomatch hmissing⟩
          cases List.mem_singleton.1 hf
          cases hr.symm.trans hr'
          exact haccounts hreturns x
  | ambiguous callees =>
      obtain ⟨hkeeps, hsame, -, haccounts⟩ := foldlM_routineResult_accounts h
      refine ⟨hkeeps, hsame, fun x f hf r hr hreturns => ?_, fun hmissing => nomatch hmissing⟩
      exact (haccounts r (List.mem_filterMap.2 ⟨f, hf, hr⟩) hreturns).mono (.refl s')
        (.union_right x m)

/-! ### Arguments -/

/-- An argument that is visited only once the parameter it goes to is known. -/
def Setting.defers (env : Setting) (arg : Argument) : Bool :=
  !arg.unpack && (env.body.exprs[arg.value]?).any Expr.isPlace

/-- The arguments that are visited before the call is bound. -/
def Setting.early (env : Setting) (arg : Argument) : List ExprId :=
  if env.defers arg then [] else [arg.value]

/-- The arguments that are visited after the call is bound. -/
def Setting.late (env : Setting) (arg : Argument) : List ExprId :=
  if env.defers arg then [arg.value] else []

/-- Each argument is visited before the callee is known or after. -/
theorem mem_early_or_late {args : List Argument} {e : ExprId} :
    e ∈ args.flatMap env.early ++ args.flatMap env.late ↔ e ∈ args.map Argument.value := by
  simp only [List.mem_append, List.mem_flatMap, List.mem_map, Setting.early, Setting.late]
  constructor
  · rintro (⟨arg, harg, he⟩ | ⟨arg, harg, he⟩)
    · split at he
      · cases he
      · exact ⟨arg, harg, (List.mem_singleton.1 he).symm⟩
    · split at he
      · exact ⟨arg, harg, (List.mem_singleton.1 he).symm⟩
      · cases he
  · rintro ⟨arg, harg, rfl⟩
    by_cases hdefers : env.defers arg = true
    · exact Or.inr ⟨arg, harg, by simp [hdefers]⟩
    · exact Or.inl ⟨arg, harg, by simp [hdefers]⟩

/-- Which of the two can be told from the argument. -/
theorem isDeferred_eq_ok {arg : Argument} {b : Bool}
    (h : (isDeferred env arg).run s = .ok (b, s')) : b = env.defers arg ∧ s' = s := by
  rw [isDeferred] at h
  cases hunpack : arg.unpack with
  | true =>
      simp only [hunpack, if_true] at h
      cases h
      exact ⟨by simp [Setting.defers, hunpack], rfl⟩
  | false =>
      simp only [hunpack] at h
      obtain ⟨x, s₁, hexpr, h⟩ := exists_of_run_bind h
      obtain ⟨hx, rfl⟩ := Setting.expr_eq_ok hexpr
      cases h
      exact ⟨by simp [Setting.defers, hunpack, hx], rfl⟩

/-- What follows if it is known whether an argument is visited later. -/
theorem Visit.Binds.isDeferred_bind {α : Type} {arg : Argument} {es : List ExprId}
    {f : Bool → Visit α} {Q : α → Scene → Prop} (h : Binds env es (f (env.defers arg)) s Q) :
    Binds env es (isDeferred env arg >>= f) s Q := by
  intro a s' hrun
  obtain ⟨b, s₁, hdeferred, hrest⟩ := exists_of_run_bind hrun
  obtain ⟨rfl, rfl⟩ := isDeferred_eq_ok hdeferred
  exact h a s' hrest

/-- Going through the arguments in two turns. -/
theorem Visit.Binds.arguments {α : Type} {args : List Argument} {x : Visit α} {Q : α → Scene → Prop}
    (h : Binds env (args.flatMap env.early ++ args.flatMap env.late) x s Q) :
    Binds env (args.map Argument.value) x s Q :=
  h.congr fun _ => mem_early_or_late

section Arguments

variable (hv : v.Binding env) (hs : s.Of env.body)

include hv hs

theorem passArgument_binds (r : RoutineDecl) (position : Nat) (arg : Argument) :
    Binds env (env.late arg) (passArgument env v r position arg) s fun _ _ => True := by
  apply Binds.isDeferred_bind
  cases hdefers : env.defers arg with
  | true =>
      simp only [Setting.late, hdefers, ↓reduceIte]
      split
      · apply Binds.quiet_bind hs (onTable_quiet (KindTable.hintMask?_adds _))
        intro m s' hs'
        exact .bind_quiet (hv.value _ _ hs') fun _ => .pure _
      · exact hv.read _ hs
  | false =>
      simp only [Setting.late, hdefers, Bool.false_eq_true, ↓reduceIte]
      split
      · exact .of_quiet env (reportNoPlace_quiet _ _ _) s
      · exact .of_quiet env (.pure _) s

theorem passToAny_binds (rs : List RoutineDecl) (position : Nat) (arg : Argument) :
    Binds env (env.late arg) (passToAny env v rs position arg) s fun _ _ => True := by
  apply Binds.isDeferred_bind
  cases hdefers : env.defers arg with
  | true =>
      simp only [Setting.late, hdefers, ↓reduceIte]
      refine Binds.ite (fun _ => hv.read _ hs) fun _ => ?_
      apply Binds.quiet_bind hs
      · apply Quiet.foldlM
        intro acc p
        exact .bind (onTable_quiet (KindTable.hintMask?_adds _)) fun _ => .pure _
      · intro m s' hs'
        exact .bind_quiet (hv.value _ _ hs') fun _ => .pure _
  | false =>
      simp only [Setting.late, hdefers, Bool.false_eq_true, ↓reduceIte]
      apply Binds.of_quiet
      apply Quiet.ite (.pure _)
      exact .forM (fun p => reportNoPlace_quiet _ _ _) _

theorem passToUnknown_binds (arg : Argument) :
    Binds env (env.late arg) (passToUnknown env v arg) s fun _ _ => True := by
  apply Binds.isDeferred_bind
  cases hdefers : env.defers arg with
  | true =>
      simp only [Setting.late, hdefers, ↓reduceIte]
      exact .bind_quiet (hv.value _ _ hs) fun _ => .pure _
  | false =>
      simp only [Setting.late, hdefers, Bool.false_eq_true, ↓reduceIte]
      exact .of_quiet env (.pure _) s

theorem argumentTypes_binds (args : List Argument) :
    Binds env (args.flatMap env.early) (argumentTypes env v args) s fun _ _ => True := by
  apply Binds.mapM _ _ hs
  intro arg _ s' hs'
  apply Binds.isDeferred_bind
  cases hdefers : env.defers arg with
  | true =>
      simp only [Setting.early, hdefers, ↓reduceIte]
      exact .of_quiet env (.bind (peek_quiet env _) fun _ => .pure _) s'
  | false =>
      simp only [Setting.early, hdefers, Bool.false_eq_true, ↓reduceIte]
      exact .bind_quiet (hv.value _ _ hs') fun _ => .pure _

end Arguments

/-! ### Binding a call -/

/-- A call was made under a binding: its target is noted, and the mask that it yields answers for
the target, whatever it is joined to. The mask is still to be recorded. -/
structure Applies (env : Setting) (id : ExprId) (used : Binding) (m : Mask)
    (s s' : Scene) : Prop where
  keeps : s.Keeps s'
  target : s'.facts.callTargets.find? id = some used.target
  others : ∀ e, e ≠ id → s'.facts.callTargets.find? e = s.facts.callTargets.find? e
  answers : ∀ x, s'.Answers env used.target (x ∪ m)

theorem Applies.trans {used : Binding} {m : Mask} {s'' : Scene} (h : Applies env id used m s s')
    (hkeeps : s'.Keeps s'') (hsame : s''.facts.callTargets = s'.facts.callTargets) :
    Applies env id used m s s'' where
  keeps := h.keeps.trans hkeeps
  target := by rw [hsame, h.target]
  others e he := by rw [hsame, h.others e he]
  answers x := (h.answers x).mono hkeeps (.refl _)

/-- Noting the target, and then reading the results of the routines. -/
theorem applies_of_bindingResult {used : Binding} {m : Mask}
    (h : (bindingResult env used).run
      { s with facts := s.facts.setCallTarget id used.target } = .ok (m, s')) :
    Applies env id used m s s' := by
  obtain ⟨hkeeps, hsame, hanswers, -⟩ := bindingResult_answers h
  have hnoted : s.Keeps { s with facts := s.facts.setCallTarget id used.target } :=
    ⟨(Facts.Step.callTarget s.facts id used.target).keeps, rfl, rfl, fun _ _ href => href⟩
  refine ⟨hnoted.trans hkeeps, ?_, fun e he => ?_, hanswers⟩
  · rw [hsame, Facts.setCallTarget, OrderedMap.find?_insert, if_pos rfl]
  · rw [hsame, Facts.setCallTarget, OrderedMap.find?_insert, if_neg (Ne.symm he)]

namespace Visit

/-- Every run from the scene goes through some expressions and then makes a call under a binding, of
which `Q` holds. -/
def Calls (env : Setting) (id : ExprId) (es : List ExprId) (x : Visit Mask) (s : Scene)
    (Q : Binding → Mask → Scene → Prop) : Prop :=
  ∀ m s', x.run s = .ok (m, s') → ∃ used s₁, Rebinds env (env.body.Parts es) s s₁ ∧
    Applies env id used m s₁ s' ∧ Q used m s'

namespace Calls

variable {α : Type} {es fs : List ExprId} {x : Visit Mask} {y : Visit α} {f : α → Visit Mask}
  {P : α → Scene → Prop} {Q R : Binding → Mask → Scene → Prop}

theorem mono (h : Calls env id es x s Q)
    (hqr : ∀ used m s', s.Keeps s' → Q used m s' → R used m s') : Calls env id es x s R := by
  intro m s' hrun
  obtain ⟨used, s₁, hbinds, happlies, hq⟩ := h m s' hrun
  exact ⟨used, s₁, hbinds, happlies, hqr used m s' (hbinds.keeps.trans happlies.keeps) hq⟩

theorem congr (h : Calls env id es x s Q) (hes : ∀ e, e ∈ es ↔ e ∈ fs) : Calls env id fs x s Q := by
  intro m s' hrun
  obtain ⟨used, s₁, hbinds, hrest⟩ := h m s' hrun
  refine ⟨used, s₁, hbinds.congr fun e => ?_, hrest⟩
  simp only [Body.Parts, hes]

theorem arguments {args : List Argument}
    (h : Calls env id (args.flatMap env.early ++ args.flatMap env.late) x s Q) :
    Calls env id (args.map Argument.value) x s Q :=
  h.congr fun _ => mem_early_or_late

theorem bind (hs : s.Of env.body) (hy : Binds env es y s P)
    (hf : ∀ a s', s.Keeps s' → s'.Of env.body → P a s' → Calls env id fs (f a) s' Q) :
    Calls env id (es ++ fs) (y >>= f) s Q := by
  intro m s' hrun
  obtain ⟨a, s₁, hfirst, hrest⟩ := exists_of_run_bind hrun
  obtain ⟨hbinds, hp⟩ := hy a s₁ hfirst
  obtain ⟨used, s₂, hbinds', happlies, hq⟩ :=
    hf a s₁ hbinds.keeps (hbinds.keeps.of hs) hp m s' hrest
  exact ⟨used, s₂, (hbinds.trans hbinds').congr fun e => Body.parts_append.symm, happlies, hq⟩

theorem quiet_bind (hs : s.Of env.body) (hy : Quiet y)
    (hf : ∀ a s', s.Keeps s' → s'.Of env.body → Calls env id es (f a) s' Q) :
    Calls env id es (y >>= f) s Q :=
  bind hs (.of_quiet env hy s) fun a s' hkeeps hs' _ => hf a s' hkeeps hs'

end Calls

end Visit

/-- A call to something unknown is recorded as dynamic. -/
theorem passAllToUnknown_eq_ok (hv : v.Binding env) (hs : s.Of env.body) {args : List Argument}
    {used : Binding} (h : (passAllToUnknown env v id args).run s = .ok (used, s')) :
    used = .missing ∧ ∃ s₁, Rebinds env (env.body.Parts (args.flatMap env.late)) s s₁ ∧
      s' = { s₁ with facts := s₁.facts.setCallTarget id .dynamic } := by
  obtain ⟨u, s₁, hloop, h⟩ := exists_of_run_bind h
  have hbinds : Binds env (args.flatMap env.late) (args.forM (passToUnknown env v)) s
      fun _ _ => True :=
    .forM _ (fun arg _ s hs => passToUnknown_binds hv hs arg) hs
  obtain ⟨u, s₂, hset, h⟩ := exists_of_run_bind h
  cases hset
  cases h
  exact ⟨rfl, s₁, (hbinds _ s₁ hloop).1, rfl⟩

/-- Passing the arguments goes through those that were left, and notes the target last. -/
theorem passArguments_eq_ok (hv : v.Binding env) (hs : s.Of env.body) {args : List Argument}
    {binding used : Binding} (h : (passArguments env v id binding args).run s = .ok (used, s')) :
    (used = binding ∨ used = .missing) ∧
      ∃ s₁, Rebinds env (env.body.Parts (args.flatMap env.late)) s s₁ ∧
        s' = { s₁ with facts := s₁.facts.setCallTarget id used.target } := by
  have hunknown (h : (passAllToUnknown env v id args).run s = .ok (used, s')) :
      (used = binding ∨ used = .missing) ∧
        ∃ s₁, Rebinds env (env.body.Parts (args.flatMap env.late)) s s₁ ∧
          s' = { s₁ with facts := s₁.facts.setCallTarget id used.target } := by
    obtain ⟨rfl, hrest⟩ := passAllToUnknown_eq_ok hv hs h
    exact ⟨Or.inr rfl, hrest⟩
  have hlate (e : ExprId) : e ∈ args.zipIdx.flatMap (fun arg => env.late arg.1) ↔
      e ∈ args.flatMap env.late := by
    rw [← List.flatMap_map, List.zipIdx_map_fst]
  cases binding with
  | missing => exact hunknown h
  | resolved callee =>
      rw [passArguments] at h
      cases hr : env.decls.routine? callee with
      | none =>
          simp only [hr] at h
          exact hunknown h
      | some r =>
          simp only [hr] at h
          obtain ⟨u, s₁, hloop, h⟩ := exists_of_run_bind h
          have hbinds : Binds env (args.zipIdx.flatMap fun arg => env.late arg.1)
              (args.zipIdx.forM fun arg => passArgument env v r arg.2 arg.1) s fun _ _ => True :=
            .forM _ (fun arg _ s hs => passArgument_binds hv hs r arg.2 arg.1) hs
          obtain ⟨u, s₂, hset, h⟩ := exists_of_run_bind h
          cases hset
          cases h
          exact ⟨Or.inl rfl, s₁, (hbinds.congr hlate _ s₁ hloop).1, rfl⟩
  | ambiguous callees =>
      obtain ⟨u, s₁, hloop, h⟩ := exists_of_run_bind h
      have hbinds : Binds env (args.zipIdx.flatMap fun arg => env.late arg.1)
          (args.zipIdx.forM fun arg =>
            passToAny env v (callees.filterMap env.decls.routine?) arg.2 arg.1) s fun _ _ => True :=
        .forM _ (fun arg _ s hs => passToAny_binds hv hs _ arg.2 arg.1) hs
      obtain ⟨u, s₂, hset, h⟩ := exists_of_run_bind h
      cases hset
      cases h
      exact ⟨Or.inl rfl, s₁, (hbinds.congr hlate _ s₁ hloop).1, rfl⟩

theorem resolveClass_binds (hv : v.Binding env) (hs : s.Of env.body) (cls : ClassRef) :
    Binds env cls.expr?.toList (resolveClass env v cls) s fun _ _ => True := by
  have hparent : Quiet (parentClass? env) := .bind selfClass?_quiet fun _ => .pure _
  cases cls with
  | named cls => exact .of_quiet env (.pure _) s
  | selfClass => exact .of_quiet env (.bind selfClass?_quiet fun _ => .pure _) s
  | parent => exact .of_quiet env (.bind hparent fun _ => .pure _) s
  | lateStatic =>
      have hmark : Quiet (updateFacts (·.markLateStaticBinding)) :=
        updateFacts_quiet (fun f => .lateStatic f) (fun _ => rfl) fun _ => rfl
      exact .of_quiet env (.bind hmark fun _ => .bind selfClass?_quiet fun _ => .pure _) s
  | dynamic e => exact .bind_quiet (hv.read e hs) fun _ => .pure _

section Calls

variable (hv : v.Binding env) (hs : s.Of env.body)

include hv hs

/-- The binding that is used is the one that was found, or else anything may be returned. -/
theorem applyBinding_calls (binding : Binding) (args : List Argument) :
    Calls env id (args.flatMap env.late) (applyBinding env v id binding args) s
      fun used m _ => (used = binding ∨ used = .missing) ∧ (used = .missing → m = .top) := by
  intro m s' hrun
  obtain ⟨used, s₁, hpass, hresult⟩ := exists_of_run_bind hrun
  obtain ⟨hused, s₂, hbinds, rfl⟩ := passArguments_eq_ok hv hs hpass
  obtain ⟨-, -, -, htop⟩ := bindingResult_answers hresult
  exact ⟨used, s₂, hbinds, applies_of_bindingResult hresult, hused, htop⟩

theorem visitUnknownCall_calls (args : List Argument) :
    Calls env id (args.map Argument.value) (visitUnknownCall env v id args) s
      fun used m _ => used = .missing ∧ m = .top := by
  apply Calls.arguments
  apply Calls.bind hs (argumentTypes_binds hv hs args)
  intro _ s' _ hs' _
  apply (applyBinding_calls hv hs' .missing args).mono
  rintro used m _ _ ⟨hused, htop⟩
  have hmissing : used = .missing := hused.elim (fun h => h) fun h => h
  exact ⟨hmissing, htop hmissing⟩

theorem visitKnownCall_calls (candidates : List RoutineId) (args : List Argument) :
    Calls env id (args.map Argument.value) (visitKnownCall env v id candidates args) s
      fun _ _ _ => True := by
  apply Calls.arguments
  apply Calls.bind hs (argumentTypes_binds hv hs args)
  intro types s' _ hs' _
  apply Calls.quiet_bind hs' (bindCall_quiet env candidates types)
  intro binding s'' _ hs''
  exact (applyBinding_calls hv hs'' binding args).mono fun _ _ _ _ _ => trivial

theorem visitUndeclaredCall_calls (name : Name) (args : List Argument) :
    Calls env id (args.map Argument.value) (visitUndeclaredCall env v id name args) s
      fun _ _ _ => True := by
  apply Calls.quiet_bind hs (onTable_quiet (builtinResult?_adds name))
  intro m? s' _ hs'
  cases m? with
  | none => exact (visitUnknownCall_calls hv hs' args).mono fun _ _ _ _ _ => trivial
  | some m =>
      intro m' s'' hrun
      obtain ⟨u, s₁, hread, hrest⟩ := exists_of_run_bind hrun
      obtain ⟨u, s₂, hset, hrest⟩ := exists_of_run_bind hrest
      cases hset
      cases hrest
      refine ⟨.missing, s₁, (hv.readAll _ hs' _ s₁ hread).1, ?_, trivial⟩
      -- A function that is known by its name alone has no routines to answer for.
      have hnone : (bindingResult env .missing).run
          { s₁ with facts := s₁.facts.setCallTarget id .dynamic } = .ok (.top, _) := rfl
      have happlies : Applies env id .missing .top s₁ _ := applies_of_bindingResult hnone
      exact ⟨happlies.keeps, happlies.target, happlies.others, fun x f hf =>
        absurd hf List.not_mem_nil⟩

/-- A call by name visits its arguments and binds its target. -/
theorem visitCall_calls (name : Name) (args : List Argument) :
    Calls env id (args.map Argument.value) (visitCall env v id name args) s fun _ _ _ => True := by
  have huse {x : Visit Mask} (hx : Calls env id (args.map Argument.value) x s fun _ _ _ => True) :
      Calls env id (args.map Argument.value) (x >>= fun m => useLocals name >>= fun _ => pure m) s
        fun _ _ _ => True := by
    intro m s' hrun
    obtain ⟨m', s₁, hcall, hrest⟩ := exists_of_run_bind hrun
    obtain ⟨u, s₂, huse, hrest⟩ := exists_of_run_bind hrest
    cases hrest
    obtain ⟨used, s₀, hbinds, happlies, -⟩ := hx m s₁ hcall
    obtain ⟨hkeeps, hsame⟩ := useLocals_quiet name s₁ u s' huse
    exact ⟨used, s₀, hbinds, happlies.trans hkeeps hsame, trivial⟩
  rw [visitCall]
  split
  · exact huse (visitUndeclaredCall_calls hv hs name args)
  · exact huse (visitKnownCall_calls hv hs _ args)

/-- A static call visits its class, too. -/
theorem visitStaticCall_calls (cls : ClassRef) (method : String) (args : List Argument) :
    Calls env id (args.map Argument.value ++ cls.expr?.toList)
      (visitStaticCall env v id cls method args) s fun _ _ _ => True := by
  have hcalls : Calls env id (cls.expr?.toList ++ args.map Argument.value)
      (visitStaticCall env v id cls method args) s fun _ _ _ => True := by
    apply Calls.bind hs (resolveClass_binds hv hs cls)
    intro resolved s' _ hs' _
    split
    · exact (visitUnknownCall_calls hv hs' args).mono fun _ _ _ _ _ => trivial
    · exact visitKnownCall_calls hv hs' _ args
  exact hcalls.congr fun e => by rw [List.mem_append, List.mem_append, or_comm]

end Calls

/-! ### New objects -/

section New

variable (hid : ¬env.body.IsCall id)

include hid

/-- The targets of other expressions than calls are of no account. -/
theorem Rebinds.setCallTarget {E : ExprId → Prop} (h : Rebinds env E s s') (target : CallTarget) :
    Rebinds env E s { s' with facts := s'.facts.setCallTarget id target } := by
  have hkeeps : s'.Keeps { s' with facts := s'.facts.setCallTarget id target } :=
    ⟨(Facts.Step.callTarget s'.facts id target).keeps, rfl, rfl, fun _ _ href => href⟩
  have hother {e : ExprId} (he : env.body.IsCall e) :
      (s'.facts.setCallTarget id target).callTargets.find? e = s'.facts.callTargets.find? e := by
    rw [Facts.setCallTarget, OrderedMap.find?_insert, if_neg]
    rintro rfl
    exact hid he
  refine ⟨h.keeps.trans hkeeps, fun e he => (h.bound e he).mono hkeeps hother, fun e hcall he => ?_⟩
  exact (hother hcall).trans (h.others e hcall he)

/-- A call that is made binds the calls it goes through. -/
theorem Visit.Calls.binds {es : List ExprId} {x : Visit Mask} {Q : Binding → Mask → Scene → Prop}
    (h : Calls env id es x s Q) : Binds env es x s fun _ _ => True := by
  intro m s' hrun
  obtain ⟨used, s₁, hbinds, happlies, -⟩ := h m s' hrun
  have hother {e : ExprId} (he : env.body.IsCall e) :
      s'.facts.callTargets.find? e = s₁.facts.callTargets.find? e := by
    apply happlies.others
    rintro rfl
    exact hid he
  refine ⟨⟨hbinds.keeps.trans happlies.keeps, fun e he => ?_, fun e hcall he => ?_⟩, trivial⟩
  · exact (hbinds.bound e he).mono happlies.keeps hother
  · exact (hother hcall).trans (hbinds.others e hcall he)

variable (hv : v.Binding env) (hs : s.Of env.body)

include hv hs

theorem visitConstructor_binds (cls : Name) (args : List Argument) :
    Binds env (args.map Argument.value) (visitConstructor env v id cls args) s fun _ _ => True := by
  rw [visitConstructor]
  split
  · exact hv.readAll _ hs
  · rename_i r _
    apply Binds.arguments
    apply Binds.bind hs (argumentTypes_binds hv hs args)
    intro types s₁ _ hs₁ _
    apply Binds.quiet_bind hs₁ (bindCall_quiet env [r] types)
    intro binding s₂ hs₂ _ s' hrun
    obtain ⟨used, s₃, hpass, hrun⟩ := exists_of_run_bind hrun
    cases hrun
    obtain ⟨-, s₄, hrebinds, rfl⟩ := passArguments_eq_ok hv hs₂ hpass
    exact ⟨hrebinds.setCallTarget hid used.target, trivial⟩

theorem visitNew_binds (cls : ClassRef) (args : List Argument) :
    Binds env (args.map Argument.value ++ cls.expr?.toList) (visitNew env v id cls args) s
      fun _ _ => True := by
  have hbinds : Binds env (cls.expr?.toList ++ args.map Argument.value)
      (visitNew env v id cls args) s fun _ _ => True := by
    apply Binds.bind hs (resolveClass_binds hv hs cls)
    intro resolved s₁ _ hs₁ _
    cases resolved with
    | none =>
        exact .bind_quiet ((visitUnknownCall_calls hv hs₁ args).binds hid) fun _ => .pure _
    | some found =>
        apply Binds.bind_quiet (visitConstructor_binds hid hv hs₁ found.1 args)
        intro _
        exact onTable_quiet (KindTable.instanceOf_adds found.1 found.2)
  exact hbinds.congr fun e => by rw [List.mem_append, List.mem_append, or_comm]

end New

end FlowTyping
