import FlowTyping.Proofs.Soundness.Form

/-!
# Visits describe what running does

Main statement: `visit_describes_eval`. If an expression runs from a store that the state describes,
then visiting it succeeds, the mask found describes the value, and the state afterwards describes
the store afterwards. Visiting it as a condition says the same about the paths with its outcome.
-/

namespace FlowTyping

open Visit

variable {rt : Runtime} {env : Setting} {s : Scene} {σ σ' : Store} {x : VarId} {u : Value}
  {e : ExprId} {form : Expr} {σ₁ σ₂ : Store} {w r : Value} {left right target value : ExprId}

/-- A condition that is visited by way of its operands. -/
def Expr.isConnective : Expr → Bool
  | .logical _ _ _ => true
  | .unary .not _ => true
  | _ => false

theorem Access.fits_of_isRead {access : Access} (h : access.isRead = true) (n : Nat) :
    access.Fits n := by
  cases access with
  | write | share => cases h
  | read | peek => trivial

theorem visitor_below_safe (hb : env.body.WellFormed) (he : e < env.body.exprs.size) :
    ((visitor env).below e).Safe env env.published ((visitor env).below e) e :=
  (visitor_safe hb).below (Nat.le_of_lt he)

/-- A visit to a value records what its form yields. -/
theorem visitValue_tells {access : Access} {P : Mask → Scene → Prop} (hb : env.body.WellFormed)
    (hform : env.body.exprs[e]? = some form) (ha : access.isRead = true) (hs : s.Fits env.body)
    (hvisit : Ends env (visitForm env ((visitor env).below e) e access form) s P)
    (htells : ∀ m s', P m s' → s'.Tells rt m u σ') :
    Ends env ((visitor env).value e access) s fun m s' =>
      (s'.Holds m ∧ s'.Tells rt m u σ' ∧ s'.Records rt e u) ∧ ∃ s₁, P m s₁ ∧ Moves env s₁ s' := by
  have he : e < env.body.exprs.size := (Array.getElem?_eq_some_iff.1 hform).1
  have hfits : Ends env (visitForm env ((visitor env).below e) e access form) s
      fun m s' => s'.Holds m :=
    visitForm_runs hb (visitor_below_safe hb he) (Nat.le_of_lt he) hform hs
      (Access.fits_of_isRead ha _)
  rw [visitor_value he]
  refine Runs.read (Setting.expr_run hform) (Runs.bind (hfits.and hvisit)
    fun m s₁ _ hs₁ ⟨hm, hp⟩ => ?_)
  refine Runs.bind (record_tells hs₁ he hm (htells m s₁ hp)) fun _ s₂ h₂ hs₂ ⟨ht, hrec⟩ => ?_
  exact Runs.pure hs₂ ⟨⟨h₂.holds hm, ht, hrec⟩, s₁, hp, h₂⟩

theorem Branch.eq_of_allows {branch : Branch} {outcome : Bool} (h : branch.Allows outcome)
    (hbranch : branch ≠ .either) : (branch == .holds) = outcome := by
  cases branch with
  | either => exact absurd rfl hbranch
  | holds => exact h.symm
  | fails => exact h.symm

/-- A form is visited soundly if it is as a value and under the outcome that it has. -/
theorem sound_of_condition (hb : env.body.WellFormed) (hform : env.body.exprs[e]? = some form)
    (hvisit : ∀ {access s}, access.isRead = true → s.Fits env.body → s.Describes rt σ →
      Ends env (visitForm env ((visitor env).below e) e access form) s
        fun m s' => s'.Tells rt m u σ')
    (hcondition : ∀ {branch s}, branch ≠ .either → branch.Allows u.truthy → s.Fits env.body →
      s.Describes rt σ → Ends env (visitCondition env ((visitor env).below e) e branch) s
        fun m s' => s'.Holds m ∧ s'.Tells rt m u σ') : (visitor env).Sound env rt e σ u σ' := by
  have he : e < env.body.exprs.size := (Array.getElem?_eq_some_iff.1 hform).1
  have hvalue {access : Access} {s : Scene} (ha : access.isRead = true) (hs : s.Fits env.body)
      (hσ : s.Describes rt σ) :
      Ends env ((visitor env).value e access) s fun m s' =>
        s'.Holds m ∧ s'.Tells rt m u σ' ∧ s'.Records rt e u :=
    (visitValue_tells hb hform ha hs (hvisit ha hs hσ) fun _ _ ht => ht).mono fun _ _ _ _ h => h.1
  constructor
  · intro access s ha hs hσ
    exact hvalue ha hs hσ
  · intro branch s hallows hs hσ
    rw [visitor_condition he]
    by_cases hbranch : branch = .either
    · refine Runs.ite (fun _ => ?_) fun h => absurd hbranch h
      rw [← visitor_value he]
      exact (hvalue rfl hs hσ).mono fun _ _ _ _ h => ⟨h.1, h.2.1⟩
    · exact hcondition hbranch hallows hs hσ

/-- A form that is visited as a value and then narrowed. -/
theorem sound_of_form {P : Mask → Scene → Prop} (hb : env.body.WellFormed)
    (hform : env.body.exprs[e]? = some form) (hplain : form.isConnective = false)
    (hvisit : ∀ {access s}, access.isRead = true → s.Fits env.body → s.Describes rt σ →
      Ends env (visitForm env ((visitor env).below e) e access form) s P)
    (htells : ∀ m s', P m s' → s'.Tells rt m u σ')
    (hnarrow : ∀ m s₁ s', P m s₁ → Moves env s₁ s' → s'.Fits env.body → s'.Describes rt σ' →
      Ends env (narrow env e u.truthy) s' fun _ s'' => s''.Describes rt σ') :
    (visitor env).Sound env rt e σ u σ' := by
  have he : e < env.body.exprs.size := (Array.getElem?_eq_some_iff.1 hform).1
  apply sound_of_condition hb hform
  · intro access s ha hs hσ
    exact (hvisit ha hs hσ).mono fun m s' _ _ hp => htells m s' hp
  · intro branch s hbranch hallows hs hσ
    have hvalue : Ends env ((visitor env).value e .read) s _ :=
      visitValue_tells hb hform rfl hs (hvisit rfl hs hσ) htells
    rw [visitor_value he] at hvalue
    refine Runs.ite (fun h => absurd h hbranch) fun _ => Runs.read (Setting.expr_run hform) ?_
    split
    · cases hplain
    · cases hplain
    · refine Runs.bind hvalue fun m s₁ _ hs₁ ⟨⟨hm, ht, _⟩, s₀, hp, h₀⟩ => ?_
      rw [Branch.eq_of_allows hallows hbranch]
      refine Runs.bind (hnarrow m s₀ s₁ hp h₀ hs₁ ht.describes) fun _ s₂ h₂ hs₂ hσ₂ => ?_
      exact Runs.pure hs₂ ⟨h₂.holds hm, h₂.covers ht.covers, hσ₂⟩

/-- A form whose value tells all that narrowing needs. -/
theorem sound_of_tells (hb : env.body.WellFormed) (hform : env.body.exprs[e]? = some form)
    (hplain : form.isConnective = false)
    (hvisit : ∀ {access s}, access.isRead = true → s.Fits env.body → s.Describes rt σ →
      Ends env (visitForm env ((visitor env).below e) e access form) s
        fun m s' => s'.Tells rt m u σ')
    (hnarrow : ∀ {s}, s.Fits env.body → s.Describes rt σ' →
      Ends env (narrow env e u.truthy) s fun _ s' => s'.Describes rt σ') :
    (visitor env).Sound env rt e σ u σ' :=
  sound_of_form hb hform hplain hvisit (fun _ _ ht => ht) fun _ _ _ _ _ hs hσ => hnarrow hs hσ

/-! ### Leaves -/

/-- The mask of a literal describes it. -/
theorem Literal.mask_covers (hs : s.Fits env.body) (l : Literal) :
    s.Covers rt l.mask (.ofLiteral l) := by
  have ht := hs.facts.table
  cases l with
  | null => exact .bit ht (k := .null) rfl rfl
  | bool => exact .bit ht (k := .bool) rfl rfl
  | long => exact .bit ht (k := .long) rfl rfl
  | double => exact .bit ht (k := .double) rfl rfl
  | string => exact .bit ht (k := .string) rfl rfl

/-- The mask of a constant describes its value. -/
theorem constantMask_covers {name : Name} (hs : s.Fits env.body)
    (hu : constantValue? name = some u) : s.Covers rt (constantMask name) u := by
  have ht := hs.facts.table
  rw [constantValue?] at hu
  split at hu
  · rename_i hname
    cases hu
    simp only [constantMask, hname]
    exact .bit ht (k := .bool) rfl rfl
  · rename_i hname
    cases hu
    simp only [constantMask, hname]
    exact .bit ht (k := .bool) rfl rfl
  · rename_i hname
    cases hu
    simp only [constantMask, hname]
    exact .bit ht (k := .null) rfl rfl
  · cases hu

section Sound

variable (hb : env.body.WellFormed) (hkind : env.body.kind ≠ .globalCode)

include hb

theorem sound_literal {l : Literal} (h : env.body.exprs[e]? = some (.literal l)) :
    (visitor env).Sound env rt e σ (.ofLiteral l) σ := by
  apply sound_of_tells hb h rfl
  · intro access s _ hs hσ
    exact Runs.pure hs ⟨Literal.mask_covers hs l, hσ⟩
  · intro s hs hσ
    exact Runs.read (Setting.expr_run h) (Runs.pure hs hσ)

theorem sound_constant {name : Name} (h : env.body.exprs[e]? = some (.constant name))
    (hu : constantValue? name = some u) : (visitor env).Sound env rt e σ u σ := by
  apply sound_of_tells hb h rfl
  · intro access s _ hs hσ
    exact Runs.pure hs ⟨constantMask_covers hs hu, hσ⟩
  · intro s hs hσ
    exact Runs.read (Setting.expr_run h) (Runs.pure hs hσ)

include hkind

/-- A variable is described by its slot. -/
theorem sound_var (h : env.body.exprs[e]? = some (.var x)) :
    (visitor env).Sound env rt e σ (σ.read x) σ := by
  have hx := hb.exprVars h x (List.mem_singleton.2 rfl)
  apply sound_of_tells hb h rfl
  · intro access s ha hs hσ
    exact visitVar_tells hkind e hx ha hs hσ
  · intro s hs hσ
    refine Runs.read (Setting.expr_run h) (Runs.ite (fun htrue => ?_) fun _ => Runs.pure hs hσ)
    exact assumeNotNull_describes hs hx hσ (Value.isNull_of_truthy htrue)

/-! ### Writing -/

omit hkind in
/-- An assignment is described by the mask of its value. -/
theorem sound_assign (h : env.body.exprs[e]? = some (.assign target value))
    (hx : env.body.exprs[target]? = some (.var x)) (hu : Eval rt env.body σ value u σ₁)
    (hvalue : (visitor env).Sound env rt value σ u σ₁) :
    (visitor env).Sound env rt e σ u (σ₁.set x u) := by
  have he : e < env.body.exprs.size := (Array.getElem?_eq_some_iff.1 h).1
  have hv : value < e := hb.children h value (by simp [Expr.children])
  have ht : target < e := hb.children h target (by simp [Expr.children])
  apply sound_of_tells hb h rfl
  · intro access s _ hs hσ
    exact visitAssign_tells hb hx (Nat.lt_trans hv he) hu (hvalue.below hv)
      ((visitor_writes hb hx).below ht) hs hσ
  · intro s hs hσ
    have hvar := hb.exprVars hx x (List.mem_singleton.2 rfl)
    have hset : σ₁.set x u x = some u := if_pos rfl
    obtain ⟨m, hm, hfit, hcovers⟩ := varMask_covers hs hvar hσ
    refine Runs.read (Setting.expr_run h) (Runs.ite (fun htrue => ?_) fun _ => Runs.pure hs hσ)
    refine Runs.read (Setting.varOf?_of_var hx s) (Runs.read hm ?_)
    apply narrowTo_describes hs hvar hfit.withoutNull hσ
    intro v hv
    cases hset.symm.trans hv
    exact (hcovers u hset).withoutNull hs.facts.table (Value.isNull_of_truthy htrue)

/-- A compound assignment is described by the mask of the sum. -/
theorem sound_compound (h : env.body.exprs[e]? = some (.compound .add target value))
    (hx : env.body.exprs[target]? = some (.var x)) (hw : Eval rt env.body σ value w σ₁)
    (hsum : (σ.read x).add rt w = some r) (hvalue : (visitor env).Sound env rt value σ w σ₁) :
    (visitor env).Sound env rt e σ r (σ₁.set x r) := by
  have he : e < env.body.exprs.size := (Array.getElem?_eq_some_iff.1 h).1
  have hv : value < e := hb.children h value (by simp [Expr.children])
  have ht : target < e := hb.children h target (by simp [Expr.children])
  apply sound_of_tells hb h rfl
  · intro access s _ hs hσ
    exact visitCompound_tells hb hx (Nat.lt_trans hv he) hw hsum ((sound_var hb hkind hx).below ht)
      (hvalue.below hv) ((visitor_writes hb hx).below ht) hs hσ
  · intro s hs hσ
    exact Runs.read (Setting.expr_run h) (Runs.pure hs hσ)

/-- A step is described by the masks before and after it. -/
theorem sound_incDec {increment yieldsNew : Bool}
    (h : env.body.exprs[e]? = some (.incDec target increment yieldsNew))
    (hx : env.body.exprs[target]? = some (.var x)) (hr : (σ.read x).step rt increment = r) :
    (visitor env).Sound env rt e σ (if yieldsNew then r else σ.read x) (σ.set x r) := by
  have ht : target < e := hb.children h target (List.mem_singleton.2 rfl)
  apply sound_of_tells hb h rfl
  · intro access s _ hs hσ
    exact visitIncDec_tells hb hx hr ((sound_var hb hkind hx).below ht)
      ((visitor_writes hb hx).below ht) hs hσ
  · intro s hs hσ
    exact Runs.read (Setting.expr_run h) (Runs.pure hs hσ)

/-! ### Tests -/

omit hkind in
/-- A binary operation is described by the mask of its result. -/
theorem sound_binary {op : BinaryOp} (h : env.body.exprs[e]? = some (.binary op left right))
    (hops : env.body.Operands left right op) (hu : Eval rt env.body σ left u σ₁)
    (hw : Eval rt env.body σ₁ right w σ₂) (happly : op.value? rt u w = some r)
    (hleft : (visitor env).Sound env rt left σ u σ₁)
    (hright : (visitor env).Sound env rt right σ₁ w σ₂) : (visitor env).Sound env rt e σ r σ₂ := by
  have he : e < env.body.exprs.size := (Array.getElem?_eq_some_iff.1 h).1
  have hl : left < e := hb.children h left (by simp [Expr.children])
  have hr : right < e := hb.children h right (by simp [Expr.children])
  have hl' := Nat.lt_trans hl he
  have hr' := Nat.lt_trans hr he
  apply sound_of_form hb h rfl
  · intro access s _ hs hσ
    exact visitBinary_tells hb hl' hr' hu hw happly (hleft.below hl) (hright.below hr) hs hσ
  · intro m s' hfound
    exact hfound.1
  · -- The comparison reads what was recorded for its operands during the visit.
    intro m s₁ s' hfound hmoves hs hσ
    refine Runs.read (Setting.expr_run h) ?_
    exact narrowCompared_describes hb hl' hr' hs hσ hops hu hw happly (hmoves.records hfound.2.1)
      (hmoves.records hfound.2.2)

theorem sound_isset {operands : List ExprId} {holds : Bool}
    (h : env.body.exprs[e]? = some (.isset operands))
    (hvars : ∀ c ∈ operands, ∃ x, env.body.exprs[c]? = some (.var x))
    (hholds : holds = true ↔ ∀ c ∈ operands, ∀ x, env.body.exprs[c]? = some (.var x) →
      (σ.read x).isNull = false) : (visitor env).Sound env rt e σ (.bool holds) σ := by
  apply sound_of_tells hb h rfl
  · intro access s _ hs hσ
    have hoperands : Ends env (operands.forM fun c => do
        let _ ← ((visitor env).below e).value c .peek) s fun _ s' => s'.Describes rt σ := by
      apply Runs.forM_keeps _ hs hσ
      intro c hc s' _ hs' hσ'
      obtain ⟨x, hx⟩ := hvars c hc
      have hoperand : (visitor env).Sound env rt c σ (σ.read x) σ := sound_var hb hkind hx
      exact Runs.bind ((hoperand.below (hb.children h c hc)).value rfl hs' hσ') fun _ _ _ hs₁ ht =>
        Runs.pure hs₁ ht.2.1.describes
    exact Runs.bind hoperands fun _ s' _ hs' hσ' =>
      Runs.pure hs' ⟨hs'.covers_bool holds, hσ'⟩
  · intro s hs hσ
    exact Runs.read (Setting.expr_run h) (narrowIsset_describes hb hs hσ hvars hholds)

theorem sound_isBlank {operand : ExprId} (h : env.body.exprs[e]? = some (.isBlank operand))
    (hx : env.body.exprs[operand]? = some (.var x)) :
    (visitor env).Sound env rt e σ (.bool !(σ.read x).truthy) σ := by
  have ho : operand < e := hb.children h operand (List.mem_singleton.2 rfl)
  have hvar := hb.exprVars hx x (List.mem_singleton.2 rfl)
  apply sound_of_tells hb h rfl
  · intro access s _ hs hσ
    exact Runs.bind (((sound_var hb hkind hx).below ho).value rfl hs hσ)
      fun _ s' _ hs' ht => Runs.pure hs' ⟨hs'.covers_bool _, ht.2.1.describes⟩
  · intro s hs hσ
    refine Runs.read (Setting.expr_run h) (Runs.ite (fun hfalse => ?_) fun _ => Runs.pure hs hσ)
    refine Runs.read (Setting.varOf?_of_var hx s) (assumeNotNull_describes hs hvar hσ ?_)
    apply Value.isNull_of_truthy
    simpa [Value.truthy] using hfalse

/-! ### Connectives -/

omit hkind

theorem sound_not {operand : ExprId} (h : env.body.exprs[e]? = some (.unary .not operand))
    (hoperand : (visitor env).Sound env rt operand σ u σ₁) :
    (visitor env).Sound env rt e σ (.bool !u.truthy) σ₁ := by
  have he : e < env.body.exprs.size := (Array.getElem?_eq_some_iff.1 h).1
  have ho := hoperand.below (hb.children h operand (List.mem_singleton.2 rfl))
  apply sound_of_condition hb h
  · intro access s _ hs hσ
    refine Runs.bind (ho.value rfl hs hσ) fun m s₁ _ hs₁ hfound => ?_
    exact onTable_tells hs₁ (Typing.Runs.pure hs₁.facts.table (hs₁.covers_bool _))
      hfound.2.1.describes
  · intro branch s hbranch hallows hs hσ
    refine Runs.ite (fun h => absurd h hbranch) fun _ => Runs.read (Setting.expr_run h) ?_
    refine Runs.bind (ho.condition (Branch.allows_flip.2 hallows) hs hσ)
      fun _ s₁ _ hs₁ hfound => ?_
    have hbool : s₁.Holds .bool := hs₁.holds_bit (by decide)
    exact Runs.bind (record_tells hs₁ he hbool ⟨hs₁.covers_bool _, hfound.2.describes⟩)
      fun _ s₂ h₂ hs₂ ht => Runs.pure hs₂ ⟨h₂.holds hbool, ht.1⟩

/-- A condition with two operands is visited soundly if it is under every outcome. -/
theorem sound_logical {op : LogicalOp} (h : env.body.exprs[e]? = some (.logical op left right))
    (hvisit : ∀ {branch s}, branch.Allows u.truthy → s.Fits env.body → s.Describes rt σ →
      Ends env (visitLogical ((visitor env).below e) op left right branch) s
        fun m s' => s'.Tells rt m u σ') : (visitor env).Sound env rt e σ u σ' := by
  have he : e < env.body.exprs.size := (Array.getElem?_eq_some_iff.1 h).1
  apply sound_of_condition hb h
  · intro access s _ hs hσ
    exact hvisit trivial hs hσ
  · intro branch s hbranch hallows hs hσ
    have hl : left < e := hb.children h left (by simp [Expr.children])
    have hr : right < e := hb.children h right (by simp [Expr.children])
    have hfits := visitLogical_runs (visitor_below_safe hb he) op branch hl hr hs
    refine Runs.ite (fun h => absurd h hbranch) fun _ => Runs.read (Setting.expr_run h) ?_
    refine Runs.bind (hfits.and (hvisit hallows hs hσ)) fun m s₁ _ hs₁ hfound => ?_
    exact Runs.bind (record_tells hs₁ he hfound.1 hfound.2) fun _ s₂ h₂ hs₂ ht =>
      Runs.pure hs₂ ⟨h₂.holds hfound.1, ht.1⟩

/-- A logical operation that its left side settles. -/
theorem sound_settled {op : LogicalOp} (h : env.body.exprs[e]? = some (.logical op left right))
    (hop : u.truthy = op.settledBy) (hleft : (visitor env).Sound env rt left σ u σ₁) :
    (visitor env).Sound env rt e σ (.bool u.truthy) σ₁ := by
  have hl : left < e := hb.children h left (by simp [Expr.children])
  have hr : right < e := hb.children h right (by simp [Expr.children])
  have hsafe := visitor_below_safe hb (Array.getElem?_eq_some_iff.1 h).1
  apply sound_logical hb h
  intro branch s hallows hs hσ
  exact visitLogical_settled hsafe hl hr hop hallows (hleft.below hl) hs hσ

/-- A logical operation that its right side decides. -/
theorem sound_unsettled {op : LogicalOp} (h : env.body.exprs[e]? = some (.logical op left right))
    (hop : u.truthy = !op.settledBy) (hleft : (visitor env).Sound env rt left σ u σ₁)
    (hright : (visitor env).Sound env rt right σ₁ w σ₂) :
    (visitor env).Sound env rt e σ (.bool w.truthy) σ₂ := by
  have hl : left < e := hb.children h left (by simp [Expr.children])
  have hr : right < e := hb.children h right (by simp [Expr.children])
  have hsafe := visitor_below_safe hb (Array.getElem?_eq_some_iff.1 h).1
  apply sound_logical hb h
  intro branch s hallows hs hσ
  exact visitLogical_unsettled hsafe hl hop hallows (hleft.below hl) (hright.below hr) hs hσ

/-! ### Choices -/

section Ternary

variable {cond ifFalse : ExprId} {ifTrue? : Option ExprId}
  (h : env.body.exprs[e]? = some (.ternary cond ifTrue? ifFalse))
  (hcond : (visitor env).Sound env rt cond σ u σ₁)

include h hcond

theorem sound_ternary_holds (htrue : u.truthy = true)
    (hthen : ∀ c ∈ ifTrue?, (visitor env).Sound env rt c σ₁ r σ₂)
    (hself : ifTrue? = none → r = u ∧ σ₂ = σ₁) : (visitor env).Sound env rt e σ r σ₂ := by
  have hc : cond < e := hb.children h cond (by simp [Expr.children])
  have hf : ifFalse < e := hb.children h ifFalse (by simp [Expr.children])
  have hsafe := visitor_below_safe hb (Array.getElem?_eq_some_iff.1 h).1
  apply sound_of_tells hb h rfl
  · intro access s _ hs hσ
    apply visitTernary_holds hsafe hc (hcond.below hc) hs hσ hf htrue _ hself
    intro c hmem
    exact (hthen c hmem).below (hb.children h c (by simp [Expr.children, Option.mem_def.1 hmem]))
  · intro s hs hσ
    exact Runs.read (Setting.expr_run h) (Runs.pure hs hσ)

theorem sound_ternary_fails (hfalse : u.truthy = false)
    (helse : (visitor env).Sound env rt ifFalse σ₁ r σ₂) : (visitor env).Sound env rt e σ r σ₂ := by
  have hc : cond < e := hb.children h cond (by simp [Expr.children])
  have hf : ifFalse < e := hb.children h ifFalse (by simp [Expr.children])
  have hsafe := visitor_below_safe hb (Array.getElem?_eq_some_iff.1 h).1
  apply sound_of_tells hb h rfl
  · intro access s _ hs hσ
    apply visitTernary_fails hsafe hc (hcond.below hc) hs hσ _ hfalse (helse.below hf)
    intro c hmem
    exact hb.children h c (by simp [Expr.children, Option.mem_def.1 hmem])
  · intro s hs hσ
    exact Runs.read (Setting.expr_run h) (Runs.pure hs hσ)

end Ternary

/-- A coalescing operation whose left side is not null. -/
theorem sound_present (h : env.body.exprs[e]? = some (.coalesce left right))
    (hsome : u.isNull = false) (hleft : (visitor env).Sound env rt left σ u σ₁) :
    (visitor env).Sound env rt e σ u σ₁ := by
  have hl : left < e := hb.children h left (by simp [Expr.children])
  have hr : right < e := hb.children h right (by simp [Expr.children])
  have hsafe := visitor_below_safe hb (Array.getElem?_eq_some_iff.1 h).1
  apply sound_of_tells hb h rfl
  · intro access s _ hs hσ
    exact visitCoalesce_present (hleft.below hl) hs hσ hsafe hr hsome
  · intro s hs hσ
    exact Runs.read (Setting.expr_run h) (Runs.pure hs hσ)

/-- A coalescing operation that gives the value of its right side. -/
theorem sound_absent (h : env.body.exprs[e]? = some (.coalesce left right))
    (hleft : (visitor env).Sound env rt left σ u σ₁)
    (hright : (visitor env).Sound env rt right σ₁ r σ₂) : (visitor env).Sound env rt e σ r σ₂ := by
  have hl : left < e := hb.children h left (by simp [Expr.children])
  have hr : right < e := hb.children h right (by simp [Expr.children])
  apply sound_of_tells hb h rfl
  · intro access s _ hs hσ
    exact visitCoalesce_absent (hleft.below hl) hs hσ (hright.below hr)
  · intro s hs hσ
    exact Runs.read (Setting.expr_run h) (Runs.pure hs hσ)

end Sound

/-! ### Expressions -/

/-- Every expression that runs is visited soundly. -/
theorem visitor_sound (hb : env.body.WellFormed) (hkind : env.body.kind ≠ .globalCode)
    (h : Eval rt env.body σ e u σ') : (visitor env).Sound env rt e σ u σ' := by
  induction h with
  | literal h => exact sound_literal hb h
  | constant h hv => exact sound_constant hb h hv
  | var h => exact sound_var hb hkind h
  | assign h hx hv ih => exact sound_assign hb h hx hv ih
  | compound h hx hw hv ih => exact sound_compound hb hkind h hx hw hv ih
  | incDec h hx hv => exact sound_incDec hb hkind h hx hv
  | binary h hops hu hw hv ihu ihw => exact sound_binary hb h hops hu hw hv ihu ihw
  | isset h hvars hr => exact sound_isset hb hkind h hvars hr
  | isBlank h hx => exact sound_isBlank hb hkind h hx
  | not h _ ih => exact sound_not hb h ih
  | settled h _ hop ih => exact sound_settled hb h hop ih
  | unsettled h _ hop _ ihu ihw => exact sound_unsettled hb h hop ihu ihw
  | ifTrue h _ htrue _ ihu ihv =>
      refine sound_ternary_holds hb h ihu htrue (fun c hc => ?_) fun hnone => nomatch hnone
      cases hc
      exact ihv
  | itself h _ htrue ih =>
      exact sound_ternary_holds hb h ih htrue (fun c hc => nomatch hc) fun _ => ⟨rfl, rfl⟩
  | ifFalse h _ hfalse _ ihu ihv => exact sound_ternary_fails hb h ihu hfalse ihv
  | present h _ hsome ih => exact sound_present hb h hsome ih
  | absent h _ _ _ ihu ihv => exact sound_absent hb h ihu ihv

/-- If an expression runs from a store that the state describes, a visit to it succeeds, with a mask
that describes the value and a state that describes the store afterwards; and so does a visit under
the outcome that it has as a condition. -/
theorem visit_describes_eval (hb : env.body.WellFormed) (hkind : env.body.kind ≠ .globalCode)
    (hs : s.Fits env.body) (hσ : s.state.Describes rt s.facts.table σ)
    (h : Eval rt env.body σ e u σ') :
    (∀ access, access.isRead = true → ∃ m s', ((visitor env).value e access).run s = .ok (m, s') ∧
        m.Describes rt s'.facts.table u ∧ s'.state.Describes rt s'.facts.table σ') ∧
      ∀ branch, branch.Allows u.truthy → ∃ m s',
        ((visitor env).condition e branch).run s = .ok (m, s') ∧
          m.Describes rt s'.facts.table u ∧ s'.state.Describes rt s'.facts.table σ' := by
  have hsound := visitor_sound hb hkind h
  constructor
  · intro access ha
    obtain ⟨m, s', hrun, -, -, ⟨-, ht, -⟩, -⟩ := hsound.value ha hs hσ
    exact ⟨m, s', hrun, ht.covers, ht.describes⟩
  · intro branch hallows
    obtain ⟨m, s', hrun, -, -, ⟨-, ht⟩, -⟩ := hsound.condition hallows hs hσ
    exact ⟨m, s', hrun, ht.covers, ht.describes⟩

/-! ### An example

The condition `$i < $n && ++$i`, where `$n` is the largest `long` and `$i` the one before. -/

namespace Counting

/-- No text reads as a number, and no class extends another one. -/
def runtime : Runtime :=
  ⟨fun _ => none, fun _ text => .inl text, fun _ _ => false, fun cls parent => cls.key = parent.key⟩

/-- The condition is the last expression. -/
def body : Body :=
  ⟨0, .function, [⟨"i", .localVar⟩, ⟨"n", .localVar⟩],
    #[.var 0, .var 1, .binary .less 0 1, .incDec 0 true true, .logical .and 2 3],
    #[⟨0, [], .ret none, []⟩], 0⟩

/-- The body on its own, without declarations. -/
def setting : Setting :=
  ⟨body, ⟨#[], .empty, .empty⟩, .empty, 0⟩

/-- Both variables hold a `long`. -/
def scene : Scene :=
  ⟨⟨0, [Slot.unset.assign .long, Slot.unset.assign .long]⟩,
    .new body (.new 0 60 none), .empty, none⟩

/-- `$i` is about to reach `$n`, which is the largest `long`. -/
def store : Store
  | 0 => some (.long (Int64.maxValue - 1))
  | 1 => some (.long Int64.maxValue)
  | _ => none

theorem scene_fits : scene.Fits body := by
  have hlong : (Slot.unset.assign .long).Fits scene.facts.table.size :=
    .assign _ (.bit (by decide))
  refine ⟨Facts.fits_new body (.new 0 60 none), rfl, rfl, ?_⟩
  exact List.forall_mem_cons.2 ⟨hlong, List.forall_mem_singleton.2 hlong⟩

theorem scene_describes : scene.Describes runtime store := by
  have hlong (n : Int64) : Mask.long.Describes runtime scene.facts.table (.long n) :=
    .bit (.new 0 60 none) (k := .long) rfl rfl
  intro x slot hslot
  match x with
  | 0 =>
      cases hslot
      exact .assign _ (hlong _)
  | 1 =>
      cases hslot
      exact .assign _ (hlong _)
  | x + 2 => cases hslot

/-- The comparison holds, and counting up gives the largest `long`. -/
theorem eval_condition :
    Eval runtime body store 4 (.bool true) (store.set 0 (.long Int64.maxValue)) := by
  have hless : Eval runtime body store 2 (.bool true) store :=
    .binary rfl ⟨Or.inl ⟨0, rfl⟩, Or.inl ⟨1, rfl⟩⟩ (.var rfl) (.var rfl) rfl
  have hcount : Eval runtime body store 3 (if true then .long Int64.maxValue else store.read 0)
      (store.set 0 (.long Int64.maxValue)) := .incDec rfl rfl rfl
  exact .unsettled rfl hless rfl hcount

end Counting

/-- A counter that goes up to the greatest `long`. -/
theorem visit_describes_eval_counting :
    Eval Counting.runtime Counting.body Counting.store 4 (.bool true)
        (Counting.store.set 0 (.long Int64.maxValue)) ∧
      ∃ m s', ((visitor Counting.setting).condition 4 .holds).run Counting.scene = .ok (m, s') ∧
        m.Describes Counting.runtime s'.facts.table (.bool true) ∧
          s'.state.Describes Counting.runtime s'.facts.table
            (Counting.store.set 0 (.long Int64.maxValue)) := by
  have hb : Counting.setting.body.WellFormed := Body.malformed?_eq_none_iff.1 (by decide +kernel)
  refine ⟨Counting.eval_condition, ?_⟩
  exact (visit_describes_eval hb (by decide) Counting.scene_fits Counting.scene_describes
    Counting.eval_condition).2 .holds rfl

end FlowTyping
