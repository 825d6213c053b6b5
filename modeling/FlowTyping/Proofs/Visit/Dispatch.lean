import FlowTyping.Proofs.Overload.Resolve
import FlowTyping.Proofs.Visit.Target
import Mathlib.Data.List.Forall2

/-!
# Calls on objects

A method that is called on an object is looked up in every class that the mask of the object lists,
and each of the methods found is bound by itself. Main statement: `visitMethodCall_calls`.
-/

namespace FlowTyping

open Visit

variable {env : Setting} {v : Visitor} {s s' : Scene} {id : ExprId}

/-! ### One class -/

namespace Overload

variable {d : Declarations} {scope? : Option Name} {args : List ArgumentType} {t t' : KindTable}

/-- Resolution among one candidate finds it or nothing. -/
theorem resolve_singleton {r : RoutineDecl} {binding : Binding}
    (h : (resolve d [r] args scope?).run t = .ok (binding, t')) :
    binding = .missing ∨ binding = .resolved r.id := by
  rw [resolve] at h
  split at h
  · cases h
    exact Or.inl rfl
  · obtain ⟨scored, t₁, hscored, h⟩ := Typing.exists_of_run_bind h
    cases h
    have hleft : (cheapest (scored.filter fun s => s.1.worst != .incompatible)).Sublist [r] := by
      apply (cheapest_sublist _).trans
      apply (List.filter_sublist.map Prod.snd).trans
      rw [map_snd_scored hscored]
      exact applicable_sublist _ _
    rcases List.sublist_singleton.1 hleft with hnone | hone
    · rw [hnone]
      exact Or.inl rfl
    · rw [hone]
      exact Or.inr rfl

end Overload

/-- `Meets env m? binding`: calls of the method `m?` that were bound go to it. -/
def Meets (env : Setting) (m? : Option RoutineId) (binding : Binding) : Prop :=
  binding = .missing ∨
    ∃ f r, m? = some f ∧ env.decls.routine? f = some r ∧ binding = .resolved r.id

/-- Binding the method of a class finds that method or nothing. -/
theorem bindCall_eq_ok {m? : Option RoutineId} {types : List ArgumentType} {binding : Binding}
    (h : (bindCall env m?.toList types).run s = .ok (binding, s')) : Meets env m? binding := by
  obtain ⟨scope?, s₁, -, h⟩ := exists_of_run_bind h
  obtain ⟨t, hrun, -⟩ := onTable_eq_ok h
  cases m? with
  | none =>
      cases hrun
      exact Or.inl rfl
  | some f =>
      cases hr : env.decls.routine? f with
      | none =>
          rw [Option.toList_some, List.filterMap_cons_none hr] at hrun
          cases hrun
          exact Or.inl rfl
      | some r =>
          rw [Option.toList_some, List.filterMap_cons_some hr] at hrun
          rcases Overload.resolve_singleton hrun with hmissing | hresolved
          · exact Or.inl hmissing
          · exact Or.inr ⟨f, r, rfl, hr, hresolved⟩

theorem mapM_bindCall_eq_ok {methods : List (Option RoutineId)} {types : List ArgumentType}
    {bindings : List Binding}
    (h : (methods.mapM fun m => bindCall env m.toList types).run s = .ok (bindings, s')) :
    List.Forall₂ (Meets env) methods bindings := by
  induction methods generalizing s bindings with
  | nil =>
      cases h
      exact .nil
  | cons m? rest ih =>
      rw [List.mapM_cons] at h
      obtain ⟨binding, s₁, hfirst, h⟩ := exists_of_run_bind h
      obtain ⟨others, s₂, hothers, h⟩ := exists_of_run_bind h
      cases h
      exact .cons (bindCall_eq_ok hfirst) (ih hothers)

/-! ### Several classes -/

theorem mem_addRoutine {rs : List RoutineId} {r g : RoutineId} :
    g ∈ addRoutine rs r ↔ g ∈ rs ∨ g = r := by
  rw [addRoutine]
  split
  · rename_i hr
    constructor
    · exact Or.inl
    · rintro (hg | rfl)
      · exact hg
      · exact hr
  · rw [List.mem_append, List.mem_singleton]

theorem mem_foldl_addRoutine {acc rs : List RoutineId} {g : RoutineId} :
    g ∈ rs.foldl addRoutine acc ↔ g ∈ acc ∨ g ∈ rs := by
  induction rs generalizing acc with
  | nil => simp
  | cons r rs ih => rw [List.foldl_cons, ih, mem_addRoutine, List.mem_cons, or_assoc]

theorem mem_reachable? {bindings : List Binding} {acc rs : List RoutineId}
    (h : reachable? acc bindings = some rs) :
    .missing ∉ bindings ∧
      ∀ g, g ∈ rs ↔ g ∈ acc ∨ ∃ binding ∈ bindings, g ∈ binding.target.routines := by
  induction bindings generalizing acc with
  | nil =>
      cases h
      simp
  | cons binding rest ih =>
      cases binding with
      | missing => cases h
      | resolved r =>
          obtain ⟨hmissing, hmem⟩ := ih h
          refine ⟨by simp [hmissing], fun g => ?_⟩
          rw [hmem, mem_addRoutine, or_assoc]
          simp [Binding.target, CallTarget.routines]
      | ambiguous cs =>
          obtain ⟨hmissing, hmem⟩ := ih h
          refine ⟨by simp [hmissing], fun g => ?_⟩
          rw [hmem, mem_foldl_addRoutine, or_assoc]
          simp [Binding.target, CallTarget.routines]

/-- A call on several classes goes to the methods of all of them. -/
theorem mem_combine (bindings : List Binding) :
    combine bindings = .missing ∨ .missing ∉ bindings ∧
      ∀ g, g ∈ (combine bindings).target.routines ↔
        ∃ binding ∈ bindings, g ∈ binding.target.routines := by
  cases hreach : reachable? [] bindings with
  | none => exact Or.inl (by rw [combine, hreach])
  | some rs =>
      obtain ⟨hmissing, hmem⟩ := mem_reachable? hreach
      simp only [List.not_mem_nil, false_or] at hmem
      cases rs with
      | nil => exact Or.inl (by rw [combine, hreach])
      | cons r rest =>
          right
          refine ⟨hmissing, fun g => ?_⟩
          rw [← hmem, combine, hreach]
          cases rest with
          | nil => rfl
          | cons r' rest => rfl

/-- The bindings of the methods of some classes go to just these methods, if none is missing. -/
theorem mem_target_of_meets {methods : List (Option RoutineId)} {bindings : List Binding}
    (h : List.Forall₂ (Meets env) methods bindings) (hmissing : .missing ∉ bindings)
    (g : RoutineId) :
    (∃ binding ∈ bindings, g ∈ binding.target.routines) ↔
      ∃ m? ∈ methods, ∃ f r, m? = some f ∧ env.decls.routine? f = some r ∧ r.id = g := by
  induction h with
  | nil => simp
  | cons hmeets _ ih =>
      rw [List.mem_cons, not_or] at hmissing
      obtain ⟨f, r, rfl, hr, rfl⟩ := hmeets.resolve_left (Ne.symm hmissing.1)
      rw [List.exists_mem_cons_iff, List.exists_mem_cons_iff, ih hmissing.2]
      apply or_congr _ Iff.rfl
      constructor
      · intro hg
        exact ⟨f, r, rfl, hr, (List.mem_singleton.1 hg).symm⟩
      · rintro ⟨f', r', hf, hr', rfl⟩
        cases hf
        cases hr.symm.trans hr'
        exact List.mem_singleton.2 rfl

/-- The methods of some classes are called, whatever class the object is of. -/
theorem callMethods_calls (hv : v.Binding env) (hs : s.Of env.body) (args : List Argument)
    (methods : List (Option RoutineId)) :
    Calls env id (args.map Argument.value)
      (do
        let types ← argumentTypes env v args
        let bindings ← methods.mapM fun m => bindCall env m.toList types
        applyBinding env v id (combine bindings) args) s
      fun used m _ => used = .missing ∧ m = .top ∨ ∀ g, g ∈ used.target.routines ↔
        ∃ m? ∈ methods, ∃ f r, m? = some f ∧ env.decls.routine? f = some r ∧ r.id = g := by
  apply Calls.arguments
  apply Calls.bind hs (argumentTypes_binds hv hs args)
  intro types s₁ _ hs₁ _
  apply Calls.bind hs₁ (.of_run env (.mapM (fun m => bindCall_quiet env _ types) methods)
    fun bindings s' => mapM_bindCall_eq_ok)
  intro bindings s₂ _ hs₂ hmeets
  apply (applyBinding_calls hv hs₂ (combine bindings) args).mono
  rintro used m _ _ ⟨hused, htop⟩
  rcases hused with rfl | rfl
  · rcases mem_combine bindings with hmissing | ⟨hmissing, hmem⟩
    · exact Or.inl ⟨hmissing, htop hmissing⟩
    · right
      intro g
      rw [hmem, mem_target_of_meets hmeets hmissing]
  · exact Or.inl ⟨rfl, htop rfl⟩

/-- A call on an object goes to what the classes in the mask of the object have as the method. -/
theorem visitMethodCall_calls (hv : v.Binding env) (hs : s.Of env.body) (receiver : ExprId)
    (method : String) (args : List Argument) :
    Calls env id (receiver :: args.map Argument.value)
      (visitMethodCall env v id receiver method args) s
      fun used m s' => ∃ object s₁, (v.value receiver .read).run s = .ok (object, s₁) ∧
        s'.facts.exprMask receiver ∪ object = s'.facts.exprMask receiver ∧
        Dispatches env.decls s'.facts.table object method used.target m := by
  apply Calls.bind hs (.with_run (hv.value receiver .read hs))
  intro object s₁ _ hs₁ ⟨hrun₁, hrecorded⟩
  have hunknown : Calls env id (args.map Argument.value) (visitUnknownCall env v id args) s₁
      fun used m s' => ∃ object s₁, (v.value receiver .read).run s = .ok (object, s₁) ∧
        s'.facts.exprMask receiver ∪ object = s'.facts.exprMask receiver ∧
        Dispatches env.decls s'.facts.table object method used.target m := by
    apply (visitUnknownCall_calls hv hs₁ args).mono
    rintro used m s' hkeeps ⟨rfl, rfl⟩
    exact ⟨object, s₁, hrun₁, hkeeps.facts.exprMask receiver object hrecorded,
      Or.inl ⟨rfl, rfl⟩⟩
  split
  · exact hunknown
  · rename_i hany
    intro m s' hrun
    obtain ⟨t, s₂, hget, hrun⟩ := exists_of_run_bind hrun
    cases hget
    obtain ⟨classes, s₂, hlift, hrun⟩ := exists_of_run_bind hrun
    cases hclasses : s₁.facts.table.classes object with
    | error fault =>
        rw [hclasses] at hlift
        cases hlift
    | ok found =>
        rw [hclasses] at hlift
        cases hlift
        dsimp only at hrun
        split at hrun
        · exact hunknown m s' hrun
        · rename_i hfound
          apply (callMethods_calls hv hs₁ args _).mono _ m s' hrun
          rintro used m s' hkeeps hused
          refine ⟨object, s₁, hrun₁, hkeeps.facts.exprMask receiver object hrecorded, ?_⟩
          rcases hused with ⟨rfl, rfl⟩ | hmem
          · exact Or.inl ⟨rfl, rfl⟩
          · right
            refine ⟨classes, Bool.eq_false_iff.2 hany,
              KindTable.classes_grow hkeeps.facts.table hclasses, ?_, ?_⟩
            · rintro rfl
              exact hfound rfl
            · intro g
              rw [hmem]
              simp only [List.mem_map, exists_exists_and_eq_and]

end FlowTyping
