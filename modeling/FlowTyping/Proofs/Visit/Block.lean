import FlowTyping.Proofs.Visit.Expr

/-!
# Visits to blocks

Main statement: `visitBlock_runs`. In a scene that fits, a visit to a block of a well-formed body
succeeds, and the states it sends on fit and go to blocks that the block mentions.
-/

namespace FlowTyping

open Visit

variable {env : Setting} {p : OrderedMap RoutineId Summary} {s : Scene}

/-- A state that fits a scene. -/
abbrev Scene.Takes (s : Scene) (b : Body) (st : State) : Prop :=
  st.Fits b.vars.length s.facts.table

/-- The exits lead to some blocks, and all states fit the scene. -/
structure Outcome.Fits (o : Outcome) (targets : List BlockId) (b : Body) (s : Scene) : Prop where
  targets : ∀ e ∈ o.exits, e.1 ∈ targets
  exits : ∀ e ∈ o.exits, s.Takes b e.2
  thrown : ∀ st ∈ o.thrown?, s.Takes b st

theorem noteThrow_runs (watched : Bool) {thrown? : Option State} (hs : s.Fits env.body)
    (ht : ∀ st ∈ thrown?, s.Takes env.body st) :
    Runs env p (noteThrow watched thrown?) (noteThrow watched thrown?) s
      fun r s' => ∀ st ∈ r, s'.Takes env.body st := by
  refine Runs.ite (fun _ => Runs.pure hs ht) fun _ => Runs.read rfl ?_
  cases thrown? with
  | none => exact Runs.pure hs fun st hst => Option.some.inj hst ▸ hs.state
  | some thrown =>
      obtain ⟨j, hj, hfit⟩ := (ht thrown rfl).join hs.state
      exact Runs.lift hj (Runs.pure hs fun st hst => Option.some.inj hst ▸ hfit)

/-- States that fitted a scene fit it after further moves. -/
theorem Moves.takes {s s' : Scene} (h : Moves env s s') {states : Option State}
    (ht : ∀ st ∈ states, s.Takes env.body st) : ∀ st ∈ states, s'.Takes env.body st :=
  fun st hst => (ht st hst).grow h.table

section Actions

variable (hb : env.body.WellFormed)

include hb

theorem visitUnset_runs {e : ExprId} (he : e < env.body.exprs.size) (hs : s.Fits env.body) :
    Succeeds env p (visitUnset env e) (visitUnset (env.against p) e) s := by
  have hv : (visitor env).Safe env p (visitor (env.against p)) _ := visitor_safe hb
  obtain ⟨x, hx⟩ := Setting.exists_expr he
  have hc : ∀ c ∈ x.children, c < env.body.exprs.size := fun c hc =>
    Nat.lt_trans (hb.children hx c hc) he
  refine Runs.read (Setting.expr_run hx) ?_
  split
  · rename_i x
    have hvar := hb.exprVars hx x (List.mem_singleton.2 rfl)
    refine Runs.bind (updateSlot_runs hs hvar fun _ _ => Slot.Fits.unset) fun _ _ _ hs' _ => ?_
    exact record_runs e hs' (hs'.holds_bit (by decide))
  · rename_i array index?
    have hindex : ∀ e ∈ index?, e < env.body.exprs.size := fun e he =>
      hc e (by simp [Expr.children, Option.mem_def.1 he])
    refine Runs.bind (hv.readOption hindex hs) fun _ _ _ hs' _ => ?_
    exact Runs.bind (hv.value (hc array (by simp [Expr.children])) hs' trivial) fun _ _ _ hs'' _ =>
      Runs.pure hs'' trivial
  · exact Runs.bind (hv.value he hs trivial) fun _ _ _ hs' _ => Runs.pure hs' trivial

theorem visitAction_runs {a : Action} (hexprs : ∀ e ∈ a.exprs, e < env.body.exprs.size)
    (hvars : ∀ x ∈ a.vars, x < env.body.vars.length) (hs : s.Fits env.body) :
    Succeeds env p (visitAction env a) (visitAction (env.against p) a) s := by
  have hv : (visitor env).Safe env p (visitor (env.against p)) _ := visitor_safe hb
  cases a with
  | eval e => exact hv.read (hexprs e (List.mem_singleton.2 rfl)) hs
  | echo es => exact hv.readAll hexprs hs
  | unset es => exact Runs.forM (fun e he _ _ hs' => visitUnset_runs hb (hexprs e he) hs') hs
  | bindGlobals vars => exact Runs.forM (fun x hx _ _ hs' => share_runs hs' (hvars x hx)) hs
  | bindStatics vars =>
      refine Runs.forM (fun x hx s' _ hs' => ?_) hs
      have hinit : ∀ e ∈ x.init?, e < env.body.exprs.size := fun e he =>
        hexprs e (List.mem_filterMap.2 ⟨x, hx, he⟩)
      exact Runs.bind (hv.readOption hinit hs') fun _ _ _ hs'' _ =>
        share_runs hs'' (hvars x.var (List.mem_map_of_mem hx))
  | bindException x? classes =>
      cases x? with
      | none => exact Runs.pure hs trivial
      | some x =>
          refine Runs.bind (onTable_runs hs (exceptionMask_runs classes hs.facts.table))
            fun m _ _ hs' hm => ?_
          exact assign_runs hs' (hvars x (List.mem_singleton.2 rfl)) hm

theorem visitActions_runs (watched : Bool) {thrown? : Option State} {actions : List Action}
    (hexprs : ∀ e ∈ actions.flatMap Action.exprs, e < env.body.exprs.size)
    (hvars : ∀ x ∈ actions.flatMap Action.vars, x < env.body.vars.length) (hs : s.Fits env.body)
    (ht : ∀ st ∈ thrown?, s.Takes env.body st) :
    Runs env p (visitActions env watched thrown? actions)
      (visitActions (env.against p) watched thrown? actions) s
      fun r s' => ∀ st ∈ r, s'.Takes env.body st := by
  induction actions generalizing thrown? s with
  | nil => exact Runs.pure hs ht
  | cons a rest ih =>
      rw [List.flatMap_cons, List.forall_mem_append] at hexprs hvars
      refine Runs.bind (visitAction_runs hb hexprs.1 hvars.1 hs) fun _ s₁ h₁ hs₁ _ => ?_
      refine Runs.bind (noteThrow_runs watched hs₁ (h₁.takes ht)) fun thrown? s₂ _ hs₂ ht₂ => ?_
      exact ih hexprs.2 hvars.2 hs₂ ht₂

end Actions

/-! ### Edges -/

/-- Exits that lead to some blocks, in states that fit. -/
abbrev ExitsTo (env : Setting) (p : OrderedMap RoutineId Summary) (targets : List BlockId)
    (x x' : Visit (List (BlockId × State))) (s : Scene) : Prop :=
  Runs env p x x' s fun exits s' => ∀ e ∈ exits, e.1 ∈ targets ∧ s'.Takes env.body e.2

theorem exitTo_runs {targets targets' : List BlockId} (hsub : ∀ t ∈ targets, t ∈ targets')
    (hs : s.Fits env.body) : ExitsTo env p targets' (exitTo targets) (exitTo targets) s := by
  refine Runs.read rfl (Runs.pure hs fun e he => ?_)
  obtain ⟨t, ht, rfl⟩ := List.mem_map.1 he
  exact ⟨hsub t ht, hs.state⟩

theorem settle_runs {targets : List BlockId} (watched : Bool) {thrown? : Option State}
    {x x' : Visit (List (BlockId × State))} (ht : ∀ st ∈ thrown?, s.Takes env.body st)
    (hx : ExitsTo env p targets x x' s) :
    Runs env p (settle watched thrown? x) (settle watched thrown? x') s
      fun o s' => o.Fits targets env.body s' := by
  refine Runs.bind hx fun exits s₁ h₁ hs₁ hexits => ?_
  refine Runs.bind (noteThrow_runs watched hs₁ (h₁.takes ht)) fun thrown? s₂ h₂ hs₂ ht₂ => ?_
  exact Runs.pure hs₂ ⟨fun e he => (hexits e he).1, fun e he => (hexits e he).2.grow h₂.table, ht₂⟩

section Edges

variable (hb : env.body.WellFormed)

include hb

theorem visitBranchEdge_runs (watched : Bool) {thrown? : Option State} {cond : ExprId}
    (ifTrue ifFalse : BlockId) (hc : cond < env.body.exprs.size) (hs : s.Fits env.body)
    (ht : ∀ st ∈ thrown?, s.Takes env.body st) :
    Runs env p (visitBranchEdge env watched thrown? cond ifTrue ifFalse)
      (visitBranchEdge (env.against p) watched thrown? cond ifTrue ifFalse) s
      fun o s' => o.Fits [ifTrue, ifFalse] env.body s' := by
  have hv : (visitor env).Safe env p (visitor (env.against p)) _ := visitor_safe hb
  refine Runs.read rfl (Runs.bind (hv.condition hc hs) fun _ s₁ h₁ hs₁ _ => ?_)
  refine Runs.bind (swapState_runs hs₁ (hs.state.grow h₁.table)) fun trueState s₂ h₂ hs₂ htrue => ?_
  refine Runs.bind (noteThrow_runs watched hs₂ ((h₁.trans h₂).takes ht))
    fun thrown? s₃ h₃ hs₃ ht₃ => ?_
  refine Runs.bind (hv.condition hc hs₃) fun _ s₄ h₄ hs₄ _ => Runs.read rfl ?_
  refine Runs.bind (noteThrow_runs watched hs₄ (h₄.takes ht₃)) fun thrown? s₅ h₅ hs₅ ht₅ => ?_
  refine Runs.pure hs₅ ⟨?_, ?_, ht₅⟩
  · simp
  · simp only [List.forall_mem_cons, List.not_mem_nil, false_implies, implies_true, and_true]
    exact ⟨htrue.grow ((h₃.trans h₄).trans h₅).table, hs₄.state.grow h₅.table⟩

theorem visitAdvance_runs {collection value : ExprId} {key? : Option ExprId} (byRef : Bool)
    (body stop : BlockId) (hkey : ∀ e ∈ key?, e < env.body.exprs.size)
    (hvalue : value < env.body.exprs.size) (hs : s.Fits env.body) :
    ExitsTo env p [body, stop] (visitAdvance env collection key? value byRef body stop)
      (visitAdvance (env.against p) collection key? value byRef body stop) s := by
  have hv : (visitor env).Safe env p (visitor (env.against p)) _ := visitor_safe hb
  have hexit (target : BlockId) (hmem : target ∈ [body, stop]) {s' : Scene}
      (hs' : s'.Fits env.body) :
      ExitsTo env p [body, stop] (exitTo [target]) (exitTo [target]) s' :=
    exitTo_runs (fun t ht => List.mem_singleton.1 ht ▸ hmem) hs'
  refine Runs.bind (hexit stop (by simp) hs) fun done s₀ h₀ hs₀ hdone => ?_
  obtain ⟨elem, helem, hfit⟩ := elementMask_runs hs₀ (hs₀.facts.exprMask collection)
  refine Runs.read rfl (Runs.read rfl (Runs.lift helem ?_))
  have hkeys : Succeeds env p
      (key?.forM fun key => do let _ ← (visitor env).value key (.write (.long ∪ .string)))
      (key?.forM fun key => do
        let _ ← (visitor (env.against p)).value key (.write (.long ∪ .string))) s₀ := by
    refine Runs.optionForM (fun key hmem => ?_) hs₀
    have hm : s₀.Holds (.long ∪ .string) :=
      (hs₀.holds_bit (by decide)).union (hs₀.holds_bit (by decide))
    exact Runs.bind (hv.value (hkey key hmem) hs₀ hm) fun _ _ _ hs' _ => Runs.pure hs' trivial
  refine Runs.bind hkeys fun _ s₁ h₁ hs₁ _ => ?_
  have haccess : (if byRef then Access.share else .write elem).Fits s₁.facts.table.size := by
    split
    · trivial
    · exact h₁.holds hfit
  refine Runs.bind (hv.value hvalue hs₁ haccess) fun _ s₂ h₂ hs₂ _ => ?_
  refine Runs.bind (hexit body (by simp) hs₂) fun entered s₃ h₃ hs₃ hentered => ?_
  refine Runs.pure hs₃ fun e he => ?_
  rcases List.mem_append.1 he with he | he
  · exact ⟨(hdone e he).1, (hdone e he).2.grow ((h₁.trans h₂).trans h₃).table⟩
  · exact hentered e he

theorem visitEdge_runs (watched : Bool) {thrown? : Option State} {edge : Edge}
    (hexprs : ∀ e ∈ edge.exprs, e < env.body.exprs.size) (hs : s.Fits env.body)
    (ht : ∀ st ∈ thrown?, s.Takes env.body st) :
    Runs env p (visitEdge env watched thrown? edge)
      (visitEdge (env.against p) watched thrown? edge) s
      fun o s' => o.Fits edge.successors env.body s' := by
  have hv : (visitor env).Safe env p (visitor (env.against p)) _ := visitor_safe hb
  have hnone {s' : Scene} (hs' : s'.Fits env.body) : ExitsTo env p [] (pure []) (pure []) s' :=
    Runs.pure hs' fun e he => nomatch he
  cases edge with
  | goto target => exact settle_runs watched ht (exitTo_runs (fun _ h => h) hs)
  | leave target => exact settle_runs watched ht (exitTo_runs (fun _ h => h) hs)
  | branch cond ifTrue ifFalse =>
      exact visitBranchEdge_runs hb watched ifTrue ifFalse (hexprs cond (List.mem_singleton.2 rfl))
        hs ht
  | switch value arms stop =>
      have hexprs' := List.forall_mem_cons.1 hexprs
      refine settle_runs watched ht (Runs.bind (hv.read hexprs'.1 hs) fun _ s₁ _ hs₁ _ => ?_)
      exact Runs.bind (hv.readAll hexprs'.2 hs₁) fun _ _ _ hs₂ _ => exitTo_runs (fun _ h => h) hs₂
  | protect body catches finally? stop =>
      exact settle_runs watched ht (exitTo_runs (fun _ h => h) hs)
  | iterate collection byRef advance =>
      have hcollection := hexprs collection (List.mem_singleton.2 rfl)
      obtain ⟨x, hx⟩ := Setting.exists_expr hcollection
      refine settle_runs watched ht (Runs.read (Setting.expr_run hx) ?_)
      have haccess : (if byRef && x.isPlace then Access.share else .read).Fits
          s.facts.table.size := by
        split <;> trivial
      exact Runs.bind (hv.value hcollection hs haccess) fun _ _ _ hs' _ =>
        exitTo_runs (fun _ h => h) hs'
  | advance collection key? value byRef body stop =>
      have hkey : ∀ e ∈ key?, e < env.body.exprs.size := fun e he =>
        hexprs e (by simp [Edge.exprs, Option.mem_def.1 he])
      have hvalue := hexprs value (by simp [Edge.exprs])
      exact settle_runs watched ht (visitAdvance_runs hb byRef body stop hkey hvalue hs)
  | ret value? =>
      have hmask : Yields env p (returnMask env value?) (returnMask (env.against p) value?) s := by
        cases value? with
        | none => exact Runs.pure hs ((hs.holds_bit (by decide)).withVoid true)
        | some e => exact hv.value (hexprs e (List.mem_singleton.2 rfl)) hs trivial
      refine settle_runs watched ht (Runs.bind hmask fun m s₁ _ hs₁ hm => ?_)
      exact Runs.bind (updateFacts_runs hs₁ (.addReturn s₁.facts m) (hs₁.facts.addReturn hm))
        fun _ _ _ hs₂ _ => hnone hs₂
  | raise value =>
      exact settle_runs watched ht (Runs.bind (hv.read (hexprs value (List.mem_singleton.2 rfl)) hs)
        fun _ _ _ hs' _ => hnone hs')
  | exit value? =>
      refine settle_runs watched ht (Runs.bind (hv.readOption (fun e he => ?_) hs)
        fun _ _ _ hs' _ => hnone hs')
      exact hexprs e (by simp [Edge.exprs, Option.mem_def.1 he])

/-- A visit to a block succeeds and sends on states that fit. It does the same against other
published results that agree wherever the block waits afterwards. -/
theorem visitBlock_runs {i : BlockId} {block : Block} (hblock : env.body.blocks[i]? = some block)
    (hs : s.Fits env.body) :
    Runs env p (visitBlock env block) (visitBlock (env.against p) block) s
      fun o s' => o.Fits block.edge.successors env.body s' := by
  have hexprs := List.forall_mem_append.1 (hb.blockExprs hblock)
  refine Runs.bind (noteThrow_runs _ hs fun st hst => nomatch hst) fun thrown? s₁ _ hs₁ ht₁ => ?_
  refine Runs.bind (visitActions_runs hb _ hexprs.1 (hb.blockVars hblock) hs₁ ht₁)
    fun thrown? s₂ _ hs₂ ht₂ => ?_
  exact visitEdge_runs hb _ hexprs.2 hs₂ ht₂

end Edges

end FlowTyping
