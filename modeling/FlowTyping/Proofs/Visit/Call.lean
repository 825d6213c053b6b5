import FlowTyping.Proofs.Visit.Place

/-!
# Visits to calls

Calls succeed in every scene that fits. They are the only place where a visit reads published
results, and `routineResult_runs` says that it waits for every routine whose result it reads.
-/

namespace FlowTyping

open Visit

variable {env : Setting} {p : OrderedMap RoutineId Summary} {v v' : Visitor} {limit : ExprId}
  {s : Scene}

/-- A block that reads the result of a routine waits for it. -/
theorem routineResult_runs (r : RoutineDecl) (hs : s.Fits env.body) :
    Yields env p (routineResult env r) (routineResult (env.against p) r) s := by
  cases hreturns : r.returns? with
  | some hint =>
      simp only [routineResult, hreturns]
      exact onTable_runs hs (KindTable.hintMask_runs hint hs.facts.table)
  | none =>
      cases hfind : env.published.find? r.id with
      | none =>
          refine ⟨.top, s, ?_, .refl, hs, Mask.Fits.top, fun ha => ?_⟩
          · simp only [routineResult, hreturns, hfind]
            rfl
          · have hsome := (ha r.id).1
            rw [hfind, Option.isSome_none, eq_comm, Option.isSome_eq_false_iff,
              Option.isNone_iff_eq_none] at hsome
            simp only [routineResult, hreturns, Setting.against, hsome]
            rfl
      | some summary =>
          let s₁ : Scene := { s with
            agenda := (s.agenda.await r.id (s.facts.routine, env.block)).2
            pending? :=
              if (s.agenda.await r.id (s.facts.routine, env.block)).1 && r.id != s.facts.routine &&
                s.pending?.isNone then some r.id else s.pending? }
          have hmove : Move env s s₁ := by
            refine .await s (by rw [hfind]; rfl) ?_
            split
            · exact Or.inr rfl
            · exact Or.inl rfl
          have hs₁ : s₁.Fits env.body := ⟨hs.facts, hs.state⟩
          have hadopt : Yields env p (onTable (KindTable.adopt summary)) _ s₁ :=
            onTable_runs hs₁ (KindTable.adopt_runs summary hs₁.facts.table)
          obtain ⟨m, s₂, hrun, hmoves, hs₂, hm, -⟩ := hadopt
          refine ⟨m, s₂, ?_, hmoves.head hmove, hs₂, hm, fun ha => ?_⟩
          · simp only [routineResult, hreturns, hfind]
            exact hrun
          · -- The block now waits for the routine, so the other results list the same summary.
            have hwaits : env.ref ∈ s₁.agenda.waiters r.id := by
              refine Agenda.mem_waiters_await.2 (Or.inr ⟨?_, rfl⟩)
              rw [hs.facts.routine]
              rfl
            have hsame := (ha r.id).2 (hmoves.waiters_mono hwaits)
            simp only [routineResult, hreturns, Setting.against, ← hsame, hfind]
            exact hrun

theorem bindingResult_runs (binding : Binding) (hs : s.Fits env.body) :
    Yields env p (bindingResult env binding) (bindingResult (env.against p) binding) s := by
  cases binding with
  | missing => exact Runs.pure hs Mask.Fits.top
  | resolved callee =>
      cases hr : env.decls.routine? callee with
      | none =>
          have hr' : (env.against p).decls.routine? callee = none := hr
          simp only [bindingResult, hr, hr']
          exact Runs.pure hs Mask.Fits.top
      | some r =>
          have hr' : (env.against p).decls.routine? callee = some r := hr
          simp only [bindingResult, hr, hr']
          exact routineResult_runs r hs
  | ambiguous callees =>
      refine Runs.foldlM (I := fun m s' => s'.Holds m) (fun r _ acc s' hs' hacc => ?_) hs
        Mask.Fits.empty
      exact Runs.bind (routineResult_runs r hs') fun _ _ h hs'' hm =>
        Runs.pure hs'' ((h.holds hacc).union hm)

theorem bindCall_runs (candidates : List RoutineId) (types : List ArgumentType)
    (hs : s.Fits env.body) :
    Succeeds env p (bindCall env candidates types) (bindCall (env.against p) candidates types) s :=
  Runs.read rfl (onTable_runs hs (Overload.resolve_runs _ _ _ _ hs.facts.table))

/-- A call target is noted. -/
theorem setCallTarget_runs (id : ExprId) (target : CallTarget) (hs : s.Fits env.body) :
    Succeeds env p (updateFacts (·.setCallTarget id target))
      (updateFacts (·.setCallTarget id target)) s :=
  updateFacts_runs hs (.callTarget s.facts id target) { hs.facts with }

theorem reportNoPlace_runs (arg : Argument) (callee : RoutineId) (param : ParamDecl)
    (hs : s.Fits env.body) :
    Succeeds env p (reportNoPlace arg callee param) (reportNoPlace arg callee param) s :=
  updateFacts_runs hs (.report s.facts _) { hs.facts with }

theorem useLocals_runs (name : Name) (hs : s.Fits env.body) :
    Succeeds env p (useLocals name) (useLocals name) s := by
  rw [useLocals]
  cases LocalsUse.ofFunction? name with
  | none => exact Runs.pure hs trivial
  | some use =>
      exact Runs.bind (forgetAll_runs _ hs) fun _ s' _ hs' _ =>
        updateFacts_runs hs' (.dynamicLocals s'.facts) { hs'.facts with }

theorem isDeferred_run {arg : Argument} (harg : arg.value < env.body.exprs.size) (s : Scene) :
    ∃ b, (isDeferred env arg).run s = .ok (b, s) := by
  obtain ⟨x, hx⟩ := Setting.exists_expr harg
  cases hunpack : arg.unpack with
  | true => exact ⟨false, by rw [isDeferred, hunpack]; rfl⟩
  | false =>
      refine ⟨x.isPlace, ?_⟩
      rw [isDeferred, hunpack, if_neg Bool.false_ne_true, run_bind_ok (Setting.expr_run hx)]
      rfl

section Arguments

variable (hb : env.body.WellFormed) (hv : v.Safe env p v' limit)
  (hlimit : limit ≤ env.body.exprs.size)

include hv hlimit

theorem passArgument_runs (r : RoutineDecl) (position : Nat) {arg : Argument}
    (harg : arg.value < limit) (hs : s.Fits env.body) :
    Succeeds env p (passArgument env v r position arg)
      (passArgument (env.against p) v' r position arg) s := by
  obtain ⟨deferred, hdeferred⟩ := isDeferred_run (Nat.lt_of_lt_of_le harg hlimit) s
  refine Runs.read hdeferred ?_
  cases (r.paramAt? position).filter ParamDecl.byRef with
  | none => exact Runs.ite (fun _ => hv.read harg hs) fun _ => Runs.pure hs trivial
  | some param =>
      refine Runs.ite (fun _ => ?_) fun _ => reportNoPlace_runs arg r.id param hs
      refine Runs.bind (onTable_runs hs (KindTable.hintMask?_runs param.hint? hs.facts.table))
        fun m s' _ hs' hm => ?_
      exact Runs.bind (hv.value harg hs' hm) fun _ _ _ hs'' _ => Runs.pure hs'' trivial

theorem passToAny_runs (rs : List RoutineDecl) (position : Nat) {arg : Argument}
    (harg : arg.value < limit) (hs : s.Fits env.body) :
    Succeeds env p (passToAny env v rs position arg)
      (passToAny (env.against p) v' rs position arg) s := by
  obtain ⟨deferred, hdeferred⟩ := isDeferred_run (Nat.lt_of_lt_of_le harg hlimit) s
  refine Runs.read hdeferred (Runs.ite (fun _ => Runs.ite (fun _ => hv.read harg hs) fun _ => ?_)
    fun _ => Runs.ite (fun _ => Runs.pure hs trivial) fun _ => ?_)
  · refine Runs.bind (Runs.foldlM (I := fun m s' => s'.Holds m)
      (fun param _ acc s' hs' hacc => ?_) hs Mask.Fits.empty) fun m s' _ hs' hm => ?_
    · refine Runs.bind (onTable_runs hs' (KindTable.hintMask?_runs param.2.hint? hs'.facts.table))
        fun _ _ h hs'' hm => ?_
      exact Runs.pure hs'' ((h.holds hacc).union hm)
    · exact Runs.bind (hv.value harg hs' hm) fun _ _ _ hs'' _ => Runs.pure hs'' trivial
  · exact Runs.forM (fun param _ s' _ hs' => reportNoPlace_runs arg param.1 param.2 hs') hs

theorem passToUnknown_runs {arg : Argument} (harg : arg.value < limit) (hs : s.Fits env.body) :
    Succeeds env p (passToUnknown env v arg) (passToUnknown (env.against p) v' arg) s := by
  obtain ⟨deferred, hdeferred⟩ := isDeferred_run (Nat.lt_of_lt_of_le harg hlimit) s
  refine Runs.read hdeferred (Runs.ite (fun _ => ?_) fun _ => Runs.pure hs trivial)
  exact Runs.bind (hv.value harg hs trivial) fun _ _ _ hs' _ => Runs.pure hs' trivial

variable {args : List Argument} (hargs : ∀ arg ∈ args, arg.value < limit)

include hargs

theorem passAllToUnknown_runs (id : ExprId) (hs : s.Fits env.body) :
    Succeeds env p (passAllToUnknown env v id args)
      (passAllToUnknown (env.against p) v' id args) s := by
  refine Runs.bind (Runs.forM (fun arg harg s' _ hs' => ?_) hs) fun _ s' _ hs' _ => ?_
  · exact passToUnknown_runs hv hlimit (hargs arg harg) hs'
  · exact Runs.bind (setCallTarget_runs id _ hs') fun _ _ _ hs'' _ => Runs.pure hs'' trivial

theorem passArguments_runs (id : ExprId) (binding : Binding) (hs : s.Fits env.body) :
    Succeeds env p (passArguments env v id binding args)
      (passArguments (env.against p) v' id binding args) s := by
  have hvalue {arg : Argument × Nat} (h : arg ∈ args.zipIdx) : arg.1.value < limit :=
    hargs arg.1 (List.fst_mem_of_mem_zipIdx h)
  cases binding with
  | missing => exact passAllToUnknown_runs hv hlimit hargs id hs
  | ambiguous callees =>
      refine Runs.bind (Runs.forM (fun arg harg s' _ hs' => ?_) hs) fun _ s' _ hs' _ => ?_
      · exact passToAny_runs hv hlimit _ arg.2 (hvalue harg) hs'
      · exact Runs.bind (setCallTarget_runs id _ hs') fun _ _ _ hs'' _ => Runs.pure hs'' trivial
  | resolved callee =>
      cases hr : env.decls.routine? callee with
      | none =>
          have hr' : (env.against p).decls.routine? callee = none := hr
          simp only [passArguments, hr, hr']
          exact passAllToUnknown_runs hv hlimit hargs id hs
      | some r =>
          have hr' : (env.against p).decls.routine? callee = some r := hr
          simp only [passArguments, hr, hr']
          refine Runs.bind (Runs.forM (fun arg harg s' _ hs' => ?_) hs) fun _ s' _ hs' _ => ?_
          · exact passArgument_runs hv hlimit r arg.2 (hvalue harg) hs'
          · exact Runs.bind (setCallTarget_runs id _ hs') fun _ _ _ hs'' _ => Runs.pure hs'' trivial

theorem applyBinding_runs (id : ExprId) (binding : Binding) (hs : s.Fits env.body) :
    Yields env p (applyBinding env v id binding args)
      (applyBinding (env.against p) v' id binding args) s :=
  Runs.bind (passArguments_runs hv hlimit hargs id binding hs) fun used _ _ hs' _ =>
    bindingResult_runs used hs'

include hb

theorem argumentTypes_runs (hs : s.Fits env.body) :
    Succeeds env p (argumentTypes env v args) (argumentTypes (env.against p) v' args) s := by
  refine Runs.mapM (fun arg harg s' hs' => ?_) hs
  have hsize := Nat.lt_of_lt_of_le (hargs arg harg) hlimit
  obtain ⟨deferred, hdeferred⟩ := isDeferred_run hsize s'
  refine Runs.read hdeferred (Runs.ite (fun _ => ?_) fun _ => ?_)
  · exact Runs.bind (peek_runs hb hsize hs') fun _ _ _ hs'' _ => Runs.pure hs'' trivial
  · exact Runs.bind (hv.value (hargs arg harg) hs' trivial)
      fun _ _ _ hs'' _ => Runs.pure hs'' trivial

theorem visitUnknownCall_runs (id : ExprId) (hs : s.Fits env.body) :
    Yields env p (visitUnknownCall env v id args) (visitUnknownCall (env.against p) v' id args) s :=
  Runs.bind (argumentTypes_runs hb hv hlimit hargs hs) fun _ _ _ hs' _ =>
    applyBinding_runs hv hlimit hargs id .missing hs'

theorem visitKnownCall_runs (id : ExprId) (candidates : List RoutineId) (hs : s.Fits env.body) :
    Yields env p (visitKnownCall env v id candidates args)
      (visitKnownCall (env.against p) v' id candidates args) s := by
  refine Runs.bind (argumentTypes_runs hb hv hlimit hargs hs) fun types _ _ hs' _ => ?_
  refine Runs.bind (bindCall_runs candidates types hs') fun binding _ _ hs'' _ => ?_
  exact applyBinding_runs hv hlimit hargs id binding hs''

theorem visitUndeclaredCall_runs (id : ExprId) (name : Name) (hs : s.Fits env.body) :
    Yields env p (visitUndeclaredCall env v id name args)
      (visitUndeclaredCall (env.against p) v' id name args) s := by
  refine Runs.bind (onTable_runs hs (builtinResult?_runs name hs.facts.table))
    fun m? s₁ _ hs₁ hm => ?_
  cases m? with
  | none => exact visitUnknownCall_runs hb hv hlimit hargs id hs₁
  | some m =>
      refine Runs.bind (hv.readArguments hargs hs₁) fun _ s₂ h₂ hs₂ _ => ?_
      refine Runs.bind (setCallTarget_runs id _ hs₂) fun _ s₃ h₃ hs₃ _ => ?_
      exact Runs.pure hs₃ (h₃.holds (h₂.holds (hm m rfl)))

theorem visitCall_runs (id : ExprId) (name : Name) (hs : s.Fits env.body) :
    Yields env p (visitCall env v id name args) (visitCall (env.against p) v' id name args) s := by
  have huse {s' : Scene} {m : Mask} (hs' : s'.Fits env.body) (hm : s'.Holds m) :
      Yields env p (useLocals name >>= fun _ => pure m) (useLocals name >>= fun _ => pure m) s' :=
    Runs.bind (useLocals_runs name hs') fun _ _ h hs'' _ => Runs.pure hs'' (h.holds hm)
  refine Runs.ite (fun _ => ?_) fun _ => ?_
  · exact Runs.bind (visitUndeclaredCall_runs hb hv hlimit hargs id name hs)
      fun _ _ _ hs' hm => huse hs' hm
  · exact Runs.bind (visitKnownCall_runs hb hv hlimit hargs id _ hs) fun _ _ _ hs' hm => huse hs' hm

theorem visitMethodCall_runs (id : ExprId) {receiver : ExprId} (method : String)
    (hreceiver : receiver < limit) (hs : s.Fits env.body) :
    Yields env p (visitMethodCall env v id receiver method args)
      (visitMethodCall (env.against p) v' id receiver method args) s := by
  refine Runs.bind (hv.value hreceiver hs trivial) fun object s₁ _ hs₁ hm => ?_
  obtain ⟨classes, hclasses⟩ := KindTable.classes_ok hm
  refine Runs.ite (fun _ => Runs.read rfl ?_) fun _ => Runs.read rfl (Runs.lift hclasses ?_)
  -- With any object no class is known; otherwise the call is on each class.
  all_goals
    refine Runs.ite (fun _ => visitUnknownCall_runs hb hv hlimit hargs id hs₁) fun _ => ?_
    refine Runs.bind (argumentTypes_runs hb hv hlimit hargs hs₁) fun types s₂ _ hs₂ _ => ?_
    refine Runs.bind (Runs.mapM (fun m _ s' hs' => bindCall_runs _ types hs') hs₂)
      fun bindings s₃ _ hs₃ _ => ?_
    exact applyBinding_runs hv hlimit hargs id _ hs₃

theorem visitStaticCall_runs (id : ExprId) {cls : ClassRef} (method : String)
    (hcls : ∀ e ∈ cls.expr?, e < limit) (hs : s.Fits env.body) :
    Yields env p (visitStaticCall env v id cls method args)
      (visitStaticCall (env.against p) v' id cls method args) s := by
  refine Runs.bind (resolveClass_runs hv hcls hs) fun resolved s' _ hs' _ => ?_
  have hdecls : (env.against p).decls = env.decls := rfl
  rw [hdecls]
  cases resolved.bind fun c => env.decls.method? c.1 method with
  | none => exact visitUnknownCall_runs hb hv hlimit hargs id hs'
  | some r => exact visitKnownCall_runs hb hv hlimit hargs id [r] hs'

theorem visitConstructor_runs (id : ExprId) (cls : Name) (hs : s.Fits env.body) :
    Succeeds env p (visitConstructor env v id cls args)
      (visitConstructor (env.against p) v' id cls args) s := by
  have hdecls : (env.against p).decls = env.decls := rfl
  rw [visitConstructor, visitConstructor, hdecls]
  cases env.decls.method? cls "__construct" with
  | none => exact hv.readArguments hargs hs
  | some r =>
      refine Runs.bind (argumentTypes_runs hb hv hlimit hargs hs) fun types _ _ hs' _ => ?_
      refine Runs.bind (bindCall_runs [r] types hs') fun binding _ _ hs'' _ => ?_
      exact Runs.bind (passArguments_runs hv hlimit hargs id binding hs'') fun _ _ _ hs₃ _ =>
        Runs.pure hs₃ trivial

theorem visitNew_runs (id : ExprId) {cls : ClassRef} (hcls : ∀ e ∈ cls.expr?, e < limit)
    (hs : s.Fits env.body) :
    Yields env p (visitNew env v id cls args) (visitNew (env.against p) v' id cls args) s := by
  refine Runs.bind (resolveClass_runs hv hcls hs) fun resolved s' _ hs' _ => ?_
  match resolved with
  | none =>
      exact Runs.bind (visitUnknownCall_runs hb hv hlimit hargs id hs') fun _ _ _ hs'' _ =>
        Runs.pure hs'' Mask.Fits.top
  | some (cls, late) =>
      refine Runs.bind (visitConstructor_runs hb hv hlimit hargs id cls hs') fun _ _ _ hs'' _ => ?_
      exact onTable_runs hs'' (KindTable.instanceOf_runs hs''.facts.table cls late)

end Arguments

end FlowTyping
