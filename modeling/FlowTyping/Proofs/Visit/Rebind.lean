import FlowTyping.Proofs.Kind.Settled
import FlowTyping.Proofs.Visit.Quiet

/-!
# What a visit binds

`Rebinds` says what a part of a visit does to the calls of a routine: it binds the calls in some
expressions anew and leaves the others alone. A call is `Bound` when the mask recorded for it
accounts for every routine that it may go to. `Visit.Binds` says of every run of a part of a visit
which expressions it goes through; nothing is asked of the scene but that it is one of the routine.
-/

namespace FlowTyping

/-- The routines that a call may go to. -/
def CallTarget.routines : CallTarget → List RoutineId
  | .resolved r => [r]
  | .ambiguous rs => rs
  | .dynamic => []

/-- A call to a function or a method. -/
def Expr.isCall : Expr → Bool
  | .call _ _ => true
  | .methodCall _ _ _ => true
  | .staticCall _ _ _ => true
  | _ => false

namespace Body

variable {b : Body}

/-- `b.Part e x`: expression `e` is `x` or has it among its sub-expressions. -/
inductive Part (b : Body) : ExprId → ExprId → Prop
  | self (e : ExprId) : Part b e e
  | child {e c x : ExprId} {expr : Expr} (he : b.exprs[e]? = some expr) (hc : c ∈ expr.children)
      (hx : Part b c x) : Part b e x

/-- The parts of some expressions. -/
def Parts (b : Body) (es : List ExprId) (x : ExprId) : Prop :=
  ∃ e ∈ es, b.Part e x

theorem parts_append {es fs : List ExprId} {x : ExprId} :
    b.Parts (es ++ fs) x ↔ b.Parts es x ∨ b.Parts fs x := by
  constructor
  · rintro ⟨e, he, hx⟩
    rcases List.mem_append.1 he with he | he
    · exact Or.inl ⟨e, he, hx⟩
    · exact Or.inr ⟨e, he, hx⟩
  · rintro (⟨e, he, hx⟩ | ⟨e, he, hx⟩)
    · exact ⟨e, List.mem_append_left _ he, hx⟩
    · exact ⟨e, List.mem_append_right _ he, hx⟩

theorem not_parts_nil {x : ExprId} : ¬b.Parts [] x := by
  rintro ⟨e, he, -⟩
  cases he

/-- An expression consists of itself and the parts of its sub-expressions. -/
theorem parts_singleton {e x : ExprId} {expr : Expr} (he : b.exprs[e]? = some expr) :
    b.Parts [e] x ↔ b.Parts expr.children x ∨ x = e := by
  constructor
  · rintro ⟨e', he', hx⟩
    cases List.mem_singleton.1 he'
    cases hx with
    | self => exact Or.inr rfl
    | child hexpr hc hx =>
        cases he.symm.trans hexpr
        exact Or.inl ⟨_, hc, hx⟩
  · rintro (⟨c, hc, hx⟩ | rfl)
    · exact ⟨e, List.mem_singleton.2 rfl, .child he hc hx⟩
    · exact ⟨x, List.mem_singleton.2 rfl, .self x⟩

/-- The expression is a call to a function or a method. -/
def IsCall (b : Body) (e : ExprId) : Prop :=
  ∃ x, b.exprs[e]? = some x ∧ x.isCall = true

end Body

/-- A method called on an object goes to what the classes of the object have as the method, unless
it is known at run time only and may return anything. -/
def Dispatches (d : Declarations) (t : KindTable) (object : Mask) (method : String)
    (target : CallTarget) (m : Mask) : Prop :=
  target = .dynamic ∧ m ∪ .top = m ∨
    ∃ classes, object.any = false ∧ t.classes object = .ok classes ∧ classes ≠ [] ∧
      ∀ g, g ∈ target.routines ↔ ∃ cls ∈ classes, ∃ f r, d.method? cls method = some f ∧
        d.routine? f = some r ∧ r.id = g

/-- Where a call goes stays right as the table and the mask grow. -/
theorem Dispatches.mono {d : Declarations} {t t' : KindTable} {object : Mask} {method : String}
    {target : CallTarget} {m m' : Mask} (h : Dispatches d t object method target m)
    (ht : t.Grows t') (hm : m.Below m') : Dispatches d t' object method target m' := by
  rcases h with ⟨htarget, htop⟩ | ⟨classes, hany, hclasses, hrest⟩
  · exact Or.inl ⟨htarget, hm _ htop⟩
  · exact Or.inr ⟨classes, hany, KindTable.classes_grow ht hclasses, hrest⟩

/-! ### Scenes -/

namespace Scene

variable {env : Setting} {s s' s'' : Scene}

/-- A mask accounts for what a routine returns, and the block waits for that. -/
def Accounts (env : Setting) (s : Scene) (m : Mask) (r : RoutineDecl) : Prop :=
  ∀ summary, env.published.find? r.id = some summary →
    (s.facts.routine, env.block) ∈ s.agenda.waiters r.id ∧ ∃ part, m ∪ part = m ∧
      ∀ final : Summary, (summary == final) = true →
        Typing.Settles (KindTable.adopt final) s.facts.table part

/-- A mask accounts for all routines of a target, declared result types apart. -/
def Answers (env : Setting) (s : Scene) (target : CallTarget) (m : Mask) : Prop :=
  ∀ f ∈ target.routines, ∀ r, env.decls.routine? f = some r → r.returns? = none → s.Accounts env m r

/-- A mask is right for a call with a target. -/
structure Serves (env : Setting) (s : Scene) (x : Expr) (target : CallTarget)
    (m : Mask) : Prop where
  answers : s.Answers env target m
  dispatches : ∀ receiver method args, x = .methodCall receiver method args →
    ∃ object, s.facts.exprMask receiver ∪ object = s.facts.exprMask receiver ∧
      Dispatches env.decls s.facts.table object method target m

/-- If the expression is a call, it has a target, and the mask recorded for it is right. -/
def Bound (env : Setting) (s : Scene) (e : ExprId) : Prop :=
  ∀ x, env.body.exprs[e]? = some x → x.isCall = true →
    ∃ target, s.facts.callTargets.find? e = some target ∧
      s.Serves env x target (s.facts.exprMask e)

theorem Accounts.mono {m m' : Mask} {r : RoutineDecl} (h : s.Accounts env m r) (hs : s.Keeps s')
    (hm : m.Below m') : s'.Accounts env m' r := by
  intro summary hsummary
  obtain ⟨hwaits, part, hpart, hsettles⟩ := h summary hsummary
  rw [hs.routine]
  refine ⟨hs.waiters _ _ hwaits, part, hm part hpart, fun final hfinal => ?_⟩
  exact (hsettles final hfinal).grow hs.facts.table

theorem Answers.mono {target : CallTarget} {m m' : Mask} (h : s.Answers env target m)
    (hs : s.Keeps s') (hm : m.Below m') : s'.Answers env target m' := by
  intro f hf r hr hreturns
  exact (h f hf r hr hreturns).mono hs hm

theorem Serves.mono {x : Expr} {target : CallTarget} {m m' : Mask} (h : s.Serves env x target m)
    (hs : s.Keeps s') (hm : m.Below m') : s'.Serves env x target m' where
  answers := h.answers.mono hs hm
  dispatches receiver method args hx := by
    obtain ⟨object, hobject, hdispatches⟩ := h.dispatches receiver method args hx
    exact ⟨object, hs.facts.exprMask receiver object hobject, hdispatches.mono hs.facts.table hm⟩

/-- A call stays bound as long as its target is not changed. -/
theorem Bound.mono {e : ExprId} (h : s.Bound env e) (hs : s.Keeps s')
    (htarget : env.body.IsCall e →
      s'.facts.callTargets.find? e = s.facts.callTargets.find? e) : s'.Bound env e := by
  intro x hx hcall
  obtain ⟨target, hfound, hserves⟩ := h x hx hcall
  exact ⟨target, (htarget ⟨x, hx, hcall⟩).trans hfound, hserves.mono hs (hs.facts.exprMask e)⟩

end Scene

/-- Between two scenes the calls in some set were bound, and the others left alone. -/
structure Rebinds (env : Setting) (E : ExprId → Prop) (s s' : Scene) : Prop where
  keeps : s.Keeps s'
  bound : ∀ e, E e → s'.Bound env e
  others : ∀ e, env.body.IsCall e → ¬E e →
    s'.facts.callTargets.find? e = s.facts.callTargets.find? e

namespace Rebinds

variable {env : Setting} {E F : ExprId → Prop} {s s' s'' : Scene}

/-- Calls that were bound first stay bound, or are bound again. -/
theorem trans (h : Rebinds env E s s') (h' : Rebinds env F s' s'') :
    Rebinds env (fun e => E e ∨ F e) s s'' := by
  refine ⟨h.keeps.trans h'.keeps, fun e he => ?_, fun e hcall he => ?_⟩
  · by_cases hF : F e
    · exact h'.bound e hF
    · exact (h.bound e (he.resolve_right hF)).mono h'.keeps fun hcall => h'.others e hcall hF
  · rw [not_or] at he
    rw [h'.others e hcall he.2, h.others e hcall he.1]

theorem congr (h : Rebinds env E s s') (hEF : ∀ e, E e ↔ F e) : Rebinds env F s s' where
  keeps := h.keeps
  bound e he := h.bound e ((hEF e).2 he)
  others e hcall he := h.others e hcall (mt (hEF e).1 he)

end Rebinds

/-! ### Parts of a visit that go through expressions -/

namespace Visit

variable {α β γ : Type} {env : Setting} {es fs : List ExprId} {s : Scene}

/-- Every run from the scene binds just the calls in some expressions. -/
def Binds (env : Setting) (es : List ExprId) (x : Visit α) (s : Scene)
    (Q : α → Scene → Prop) : Prop :=
  ∀ a s', x.run s = .ok (a, s') → Rebinds env (env.body.Parts es) s s' ∧ Q a s'

namespace Binds

variable {x y : Visit α} {f : α → Visit β} {P Q : α → Scene → Prop} {R : β → Scene → Prop}

theorem mono (h : Binds env es x s P) (hpq : ∀ a s', s.Keeps s' → P a s' → Q a s') :
    Binds env es x s Q := by
  intro a s' hrun
  obtain ⟨hbinds, hp⟩ := h a s' hrun
  exact ⟨hbinds, hpq a s' hbinds.keeps hp⟩

theorem any (h : Binds env es x s P) : Binds env es x s fun _ _ => True :=
  h.mono fun _ _ _ _ => trivial

/-- Only which expressions are listed counts. -/
theorem congr (h : Binds env es x s P) (hes : ∀ e, e ∈ es ↔ e ∈ fs) : Binds env fs x s P := by
  intro a s' hrun
  obtain ⟨hbinds, hp⟩ := h a s' hrun
  refine ⟨hbinds.congr fun e => ?_, hp⟩
  simp only [Body.Parts, hes]

/-- What is quiet binds no call. -/
theorem of_quiet (env : Setting) (h : Quiet x) (s : Scene) : Binds env [] x s fun _ _ => True := by
  intro a s' hrun
  obtain ⟨hkeeps, hsame⟩ := h s a s' hrun
  refine ⟨⟨hkeeps, fun e he => absurd he Body.not_parts_nil, fun e _ _ => ?_⟩, trivial⟩
  rw [hsame]

/-- What a computation that binds nothing yields. -/
theorem of_run (env : Setting) (h : Quiet x) (hq : ∀ a s', x.run s = .ok (a, s') → Q a s') :
    Binds env [] x s Q := by
  intro a s' hrun
  exact ⟨(of_quiet env h s a s' hrun).1, hq a s' hrun⟩

/-- What is known of the run itself. -/
theorem with_run (h : Binds env es x s Q) :
    Binds env es x s fun a s' => x.run s = .ok (a, s') ∧ Q a s' := by
  intro a s' hrun
  obtain ⟨hbinds, hq⟩ := h a s' hrun
  exact ⟨hbinds, hrun, hq⟩

theorem throw (fault : Fault) (s : Scene) : Binds env es (throw fault : Visit α) s Q := by
  intro a s' hrun
  cases hrun

/-- A sequence binds the calls of its parts. -/
theorem bind (hs : s.Of env.body) (hx : Binds env es x s P)
    (hf : ∀ a s', s.Keeps s' → s'.Of env.body → P a s' → Binds env fs (f a) s' R) :
    Binds env (es ++ fs) (x >>= f) s R := by
  intro b s' hrun
  obtain ⟨a, s₁, hrun₁, hrun⟩ := exists_of_run_bind hrun
  obtain ⟨hbinds, hp⟩ := hx a s₁ hrun₁
  obtain ⟨hbinds', hr⟩ := hf a s₁ hbinds.keeps (hbinds.keeps.of hs) hp b s' hrun
  exact ⟨(hbinds.trans hbinds').congr fun e => Body.parts_append.symm, hr⟩

theorem bind_quiet (hx : Binds env es x s P) (hf : ∀ a, Quiet (f a)) :
    Binds env es (x >>= f) s fun _ _ => True := by
  intro b s' hrun
  obtain ⟨a, s₁, hrun₁, hrun⟩ := exists_of_run_bind hrun
  obtain ⟨hbinds, -⟩ := hx a s₁ hrun₁
  obtain ⟨hbinds', -⟩ := of_quiet env (hf a) s₁ b s' hrun
  refine ⟨(hbinds.trans hbinds').congr fun e => ?_, trivial⟩
  exact or_iff_left Body.not_parts_nil

theorem quiet_bind (hs : s.Of env.body) (hx : Quiet x)
    (hf : ∀ a s', s'.Of env.body → Binds env es (f a) s' R) : Binds env es (x >>= f) s R :=
  bind hs (of_quiet env hx s) fun a s' _ hs' _ => hf a s' hs'

theorem ite {c : Prop} [Decidable c] (hx : c → Binds env es x s Q) (hy : ¬c → Binds env es y s Q) :
    Binds env es (if c then x else y) s Q := by
  split
  · rename_i h
    exact hx h
  · rename_i h
    exact hy h

/-- Looking up an expression. -/
theorem expr_bind {e : ExprId} {f : Expr → Visit β}
    (h : ∀ x, env.body.exprs[e]? = some x → Binds env es (f x) s R) :
    Binds env es (env.expr e >>= f) s R := by
  intro b s' hrun
  obtain ⟨x, s₁, hexpr, hrest⟩ := exists_of_run_bind hrun
  obtain ⟨hx, rfl⟩ := Setting.expr_eq_ok hexpr
  exact h x hx b s' hrest

/-- A loop goes through what its turns go through. -/
theorem foldlM (roots : γ → List ExprId) {g : β → γ → Visit β} {l : List γ}
    (hstep : ∀ c ∈ l, ∀ b s, s.Of env.body → Binds env (roots c) (g b c) s fun _ _ => True) (b : β)
    (hs : s.Of env.body) : Binds env (l.flatMap roots) (l.foldlM g b) s fun _ _ => True := by
  induction l generalizing b s with
  | nil => exact of_quiet env (.pure b) s
  | cons c rest ih =>
      rw [List.foldlM_cons, List.flatMap_cons]
      apply bind hs (hstep c (List.mem_cons_self ..) b s hs)
      intro b' s' _ hs' _
      exact ih (fun c' hc' => hstep c' (List.mem_cons_of_mem c hc')) b' hs'

theorem forM (roots : γ → List ExprId) {g : γ → Visit Unit} {l : List γ}
    (hstep : ∀ c ∈ l, ∀ s, s.Of env.body → Binds env (roots c) (g c) s fun _ _ => True)
    (hs : s.Of env.body) : Binds env (l.flatMap roots) (l.forM g) s fun _ _ => True := by
  induction l generalizing s with
  | nil => exact of_quiet env (.pure ()) s
  | cons c rest ih =>
      rw [List.flatMap_cons]
      apply bind hs (hstep c (List.mem_cons_self ..) s hs)
      intro _ s' _ hs' _
      exact ih (fun c' hc' => hstep c' (List.mem_cons_of_mem c hc')) hs'

theorem mapM (roots : γ → List ExprId) {g : γ → Visit β} {l : List γ}
    (hstep : ∀ c ∈ l, ∀ s, s.Of env.body → Binds env (roots c) (g c) s fun _ _ => True)
    (hs : s.Of env.body) : Binds env (l.flatMap roots) (l.mapM g) s fun _ _ => True := by
  induction l generalizing s with
  | nil => exact of_quiet env (.pure []) s
  | cons c rest ih =>
      rw [List.mapM_cons, List.flatMap_cons]
      apply bind hs (hstep c (List.mem_cons_self ..) s hs)
      intro b s' _ hs' _
      apply bind_quiet (ih (fun c' hc' => hstep c' (List.mem_cons_of_mem c hc')) hs')
      intro bs
      exact .pure (b :: bs)

theorem optionForM (roots : γ → List ExprId) {g : γ → Visit Unit} {o : Option γ}
    (hstep : ∀ c ∈ o, Binds env (roots c) (g c) s fun _ _ => True) :
    Binds env (o.toList.flatMap roots) (o.forM g) s fun _ _ => True := by
  cases o with
  | none => exact of_quiet env (.pure ()) s
  | some c =>
      rw [Option.toList_some, List.flatMap_singleton]
      exact hstep c rfl

end Binds

end Visit

open Visit

/-- A visitor that goes through the expressions it is given, and records the masks that it
yields. -/
structure Visitor.Binding (env : Setting) (v : Visitor) : Prop where
  value : ∀ {s : Scene} (e : ExprId) (access : Access), s.Of env.body →
    Binds env [e] (v.value e access) s
      fun m s' => s'.facts.exprMask e ∪ m = s'.facts.exprMask e
  condition : ∀ {s : Scene} (e : ExprId) (branch : Branch), s.Of env.body →
    Binds env [e] (v.condition e branch) s fun _ _ => True

namespace Visitor.Binding

variable {env : Setting} {v : Visitor} {s : Scene}

theorem read (h : v.Binding env) (e : ExprId) (hs : s.Of env.body) :
    Binds env [e] (v.read e) s fun _ _ => True :=
  .bind_quiet (h.value e .read hs) fun _ => .pure _

theorem readAll (h : v.Binding env) (es : List ExprId) (hs : s.Of env.body) :
    Binds env es (v.readAll es) s fun _ _ => True := by
  have hloop : Binds env (es.flatMap fun e => [e]) (v.readAll es) s fun _ _ => True :=
    .forM _ (fun e _ s hs => h.read e hs) hs
  rwa [List.flatMap_singleton'] at hloop

theorem readOption (h : v.Binding env) (e? : Option ExprId) (hs : s.Of env.body) :
    Binds env e?.toList (e?.forM v.read) s fun _ _ => True := by
  have hread : Binds env (e?.toList.flatMap fun e => [e]) (e?.forM v.read) s fun _ _ => True :=
    .optionForM _ fun e _ => h.read e hs
  rwa [List.flatMap_singleton'] at hread

end Visitor.Binding

end FlowTyping
