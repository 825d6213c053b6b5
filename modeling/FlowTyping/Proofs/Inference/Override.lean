import FlowTyping.Proofs.Inference.Callee

/-!
# Method calls and overriding methods

A call on an object is bound to the methods of the classes that the mask of the object lists. That
the mask may also stand for subclasses plays no part. Main statements:
`method_call_covers_listed_classes` says what the mask of a method call covers, and
`override_uncovered` is a call that leaves out an overriding method.
-/

namespace FlowTyping

open Visit

variable {d : Declarations} {o : Options} {bodies : List Body} {cancelled : Bool} {r : InferResult}
  {result : RoutineResult} {e receiver : ExprId} {method : String} {args : List Argument}
  {target : CallTarget}

/-- Every visit to a method call binds it to what the classes of the object have as the method. -/
theorem visitor_dispatches {env : Setting} {s s₁ s' : Scene} {access : Access} {object m : Mask}
    (he : env.body.exprs[e]? = some (.methodCall receiver method args)) (hs : s.Of env.body)
    (hobject : ((visitor env).value receiver .read).run s = .ok (object, s₁))
    (hcall : ((visitor env).value e access).run s = .ok (m, s')) :
    ∃ used, s'.facts.callTargets.find? e = some used ∧
      Dispatches env.decls s'.facts.table object method used m := by
  rw [visitor_value (Array.getElem?_eq_some_iff.1 he).1] at hcall
  obtain ⟨x, s₂, hexpr, hcall⟩ := exists_of_run_bind hcall
  obtain ⟨hx, rfl⟩ := Setting.expr_eq_ok hexpr
  cases he.symm.trans hx
  obtain ⟨m', s₂, hform, hcall⟩ := exists_of_run_bind hcall
  obtain ⟨u, s₃, hrecord, hcall⟩ := exists_of_run_bind hcall
  cases hrecord
  cases hcall
  obtain ⟨used, s₃, -, happlies, object', s₄, hobject', -, hdispatches⟩ :=
    visitMethodCall_calls ((visitor_binding env).below e) hs receiver method args m s₂ hform
  have hvalue : ((visitor env).below e).value receiver .read =
      if receiver < e then (visitor env).value receiver .read
      else throw (.unorderedExpr e receiver) := rfl
  rw [hvalue] at hobject'
  split at hobject'
  · cases hobject.symm.trans hobject'
    exact ⟨used.target, happlies.target, hdispatches⟩
  · cases hobject'

/-- A mask covers what the method of a class returns in the end, unless the method declares that or
has no body in the unit. -/
def InferResult.CoversMethod (r : InferResult) (d : Declarations)
    (result : RoutineResult) (m : Mask) (cls : Name) (method : String) : Prop :=
  ∀ g decl callee, d.method? cls method = some g → d.routine? g = some decl → decl.id = g →
    decl.returns? = none → r.routine? g = some callee → result.Covers m callee

/-- Every visit to a method call binds it to just the methods of the classes that the mask of the
object lists, or else it yields any value. In a converged result the mask of the call is any, or
covers what these methods return in the end. -/
theorem method_call_covers_listed_classes (h : infer d o bodies cancelled = .ok r)
    (hconverged : r.converged = true) {b : Body} (hb : b ∈ bodies)
    (hresult : r.routine? b.routine = some result)
    (he : b.exprs[e]? = some (.methodCall receiver method args))
    (htarget : result.callTarget? e = some target) :
    (∀ env : Setting, env.body = b → env.decls = d → ∀ s : Scene, s.Of b →
      ∀ access object s₁ m s', ((visitor env).value receiver .read).run s = .ok (object, s₁) →
        ((visitor env).value e access).run s = .ok (m, s') →
        ∃ used, s'.facts.callTargets.find? e = some used ∧
          Dispatches d s'.facts.table object method used m) ∧
      ∃ object, result.exprMask receiver ∪ object = result.exprMask receiver ∧
        Dispatches d result.table object method target (result.exprMask e) ∧
        ∀ classes, result.table.classes object = .ok classes → ∀ cls ∈ classes,
          (result.exprMask e).any = true ∨
            r.CoversMethod d result (result.exprMask e) cls method := by
  constructor
  · rintro env rfl rfl s hs access object s₁ m s' hobject hcall
    exact visitor_dispatches he hs hobject hcall
  · obtain ⟨v, haccords, hserves⟩ := exists_serving_visit h hconverged hb hresult he rfl htarget
    obtain ⟨object, hobject, hdispatches⟩ := hserves.dispatches receiver method args rfl
    have hfinal : Dispatches d result.table object method target (result.exprMask e) :=
      hdispatches.mono haccords.table (haccords.exprMask e)
    refine ⟨object, haccords.exprMask receiver object hobject, hfinal, ?_⟩
    intro classes hclasses cls hcls
    rcases hfinal with ⟨-, htop⟩ | ⟨classes', -, hclasses', -, hmem⟩
    · left
      rw [← htop, Mask.any_union, Bool.or_eq_true]
      exact Or.inr rfl
    · right
      intro g decl callee hmethod hdecl hid hreturns hcallee
      cases hclasses.symm.trans hclasses'
      have hg : g ∈ target.routines := (hmem g).2 ⟨cls, hcls, g, decl, hmethod, hdecl, hid⟩
      subst hid
      exact haccords.covers (hserves.answers decl.id hg decl hdecl hreturns)
        (haccords.exprMask e) hcallee

/-! ### A template method

Class `A` has a method `t` that calls `m` on its own object. Class `B` derives from `A` and
overrides `m`. -/

namespace Sample

/-- A public method without parameters. -/
def publicMethod (id : RoutineId) (cls name : String) : RoutineDecl :=
  ⟨id, ⟨name⟩, some ⟨cls⟩, [], none, .isPublic, false⟩

/-- Class `A` has the methods `m` and `t`, and its subclass `B` overrides `m`. -/
def hierarchy : Declarations :=
  ⟨#[publicMethod 0 "A" "m", publicMethod 1 "A" "t", publicMethod 2 "B" "m"], .empty,
    ⟨[("a", ⟨⟨"A"⟩, none, [], .empty, ⟨[("m", 0), ("t", 1)]⟩⟩),
      ("b", ⟨⟨"B"⟩, some ⟨"A"⟩, [], .empty, ⟨[("m", 2)]⟩⟩)]⟩⟩

/-- Returns a number. -/
def overridden : Body :=
  ⟨0, .method false, [], #[.literal (.long 1)], #[⟨0, [], .ret (some 0), []⟩], 0⟩

/-- Calls `m` on its own object and returns what comes back. -/
def template : Body :=
  ⟨1, .method false, [⟨"this", .thisObject⟩], #[.var 0, .methodCall 0 "m" []],
    #[⟨0, [], .ret (some 1), []⟩], 0⟩

/-- Returns a text. -/
def overriding : Body :=
  ⟨2, .method false, [], #[.literal (.string "s")], #[⟨0, [], .ret (some 0), []⟩], 0⟩

/-- The bodies of the three methods. -/
def family : List Body :=
  [overridden, template, overriding]

end Sample

/-- The call in the template method, whose object is of class `A` or of a subclass. -/
theorem method_call_covers_listed_classes_template :
    ∃ r result, infer Sample.hierarchy Sample.options Sample.family false = .ok r ∧
      r.converged = true ∧ r.routine? 1 = some result ∧
      result.callTarget? 1 = some (.resolved 0) ∧
      ∃ object, result.exprMask 0 ∪ object = result.exprMask 0 ∧
        Dispatches Sample.hierarchy result.table object "m" (.resolved 0) (result.exprMask 1) ∧
        ∀ classes, result.table.classes object = .ok classes → ∀ cls ∈ classes,
          (result.exprMask 1).any = true ∨
            r.CoversMethod Sample.hierarchy result (result.exprMask 1) cls "m" := by
  have hcheck : (infer Sample.hierarchy Sample.options Sample.family false).toOption.any
      (fun r => r.converged && (r.routine? 1).any fun result =>
        decide (result.callTarget? 1 = some (.resolved 0))) = true := by decide +kernel
  obtain ⟨r, hr, hcheck⟩ := any_toOption_iff.1 hcheck
  obtain ⟨hconverged, hcheck⟩ := Bool.and_eq_true_iff.1 hcheck
  obtain ⟨result, hresult, htarget⟩ := (Option.any_eq_true _ _).1 hcheck
  have htarget := of_decide_eq_true htarget
  have hmem : Sample.template ∈ Sample.family := List.mem_cons_of_mem _ (List.mem_cons_self ..)
  obtain ⟨-, hcovers⟩ :=
    method_call_covers_listed_classes hr hconverged hmem hresult rfl htarget
  exact ⟨r, result, hr, hconverged, hresult, htarget, hcovers⟩

/-- The object of the template method is of class `A` or of a subclass. The subclass `B` overrides
the method that is called on it with one that returns a text, but the call is recorded as yielding
numbers only. -/
theorem override_uncovered :
    ∃ r result callee classes summary part t,
      infer Sample.hierarchy Sample.options Sample.family false = .ok r ∧ r.converged = true ∧
      r.routine? Sample.template.routine = some result ∧
      Sample.template.exprs[1]? = some (.methodCall 0 "m" []) ∧
      (result.exprMask 0).subclasses = true ∧
      result.table.classes (result.exprMask 0) = .ok classes ∧ classes.map Name.text = ["A"] ∧
      (Sample.hierarchy.class? ⟨"B"⟩).isSome ∧ Sample.hierarchy.isSubclass ⟨"B"⟩ ⟨"A"⟩ = true ∧
      Sample.hierarchy.method? ⟨"B"⟩ "m" = some 2 ∧
      Sample.hierarchy.routine? 2 = some (Sample.publicMethod 2 "B" "m") ∧
      (Overload.resolve Sample.hierarchy [Sample.publicMethod 2 "B" "m"] [] (some ⟨"A"⟩)).run
        result.table = .ok (.resolved 2, result.table) ∧
      r.routine? 2 = some callee ∧ callee.summary = .ok summary ∧
      (KindTable.adopt summary).run result.table = .ok (part, t) ∧
      (result.exprMask 1).any = false ∧ (result.exprMask 1).contains part = false := by
  have hcheck : (infer Sample.hierarchy Sample.options Sample.family false).toOption.any
      (fun r => r.converged && (r.routine? 1).any fun result => (r.routine? 2).any fun callee =>
        (result.table.classes (result.exprMask 0)).toOption.any fun classes =>
          callee.summary.toOption.any fun summary =>
            ((KindTable.adopt summary).run result.table).toOption.any fun p =>
              (result.exprMask 0).subclasses && (decide (classes.map Name.text = ["A"]) &&
                (!(result.exprMask 1).any && !(result.exprMask 1).contains p.1))) = true := by
    decide +kernel
  obtain ⟨r, hr, hcheck⟩ := any_toOption_iff.1 hcheck
  obtain ⟨hconverged, hcheck⟩ := Bool.and_eq_true_iff.1 hcheck
  obtain ⟨result, hresult, hcheck⟩ := (Option.any_eq_true _ _).1 hcheck
  obtain ⟨callee, hcallee, hcheck⟩ := (Option.any_eq_true _ _).1 hcheck
  obtain ⟨classes, hclasses, hcheck⟩ := any_toOption_iff.1 hcheck
  obtain ⟨summary, hsummary, hcheck⟩ := any_toOption_iff.1 hcheck
  obtain ⟨⟨part, t⟩, hadopt, hcheck⟩ := any_toOption_iff.1 hcheck
  simp only [Bool.and_eq_true, Bool.not_eq_true', decide_eq_true_eq] at hcheck
  obtain ⟨hsubclasses, hlisted, hany, huncovered⟩ := hcheck
  have hresolve (t : KindTable) : (Overload.resolve Sample.hierarchy
      [Sample.publicMethod 2 "B" "m"] [] (some ⟨"A"⟩)).run t = .ok (.resolved 2, t) := rfl
  exact ⟨r, result, callee, classes, summary, part, t, hr, hconverged, hresult, rfl, hsubclasses,
    hclasses, hlisted, rfl, by decide +kernel, by decide +kernel, rfl, hresolve _, hcallee,
    hsummary, hadopt, hany, huncovered⟩

end FlowTyping
