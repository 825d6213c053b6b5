import FlowTyping.Proofs.Visit.CompareExpr
import FlowTyping.Proofs.Visit.Through

/-!
# Masks that a visit does not look at

Two scenes may differ in what is recorded for some expressions and in nothing else. `Visit.Parallel`
compares two parts of a visit that start from such scenes: they end in such scenes, or both with the
same fault. A part that is parallel to itself is `Visit.Steady`. Both are instances of
`Setting.Comparison`.

Main statement: `visitor_steady`. No visit depends on what is recorded for connectives, that is for
conjunctions, disjunctions and negations. A recorded mask is read only for an operand of a
comparison that has just been visited, and for a connective the visit has then recorded that it may
yield a `bool`.
-/

namespace FlowTyping

/-- The scene with other masks recorded for the expressions. -/
def Scene.withMasks (s : Scene) (masks : Array Mask) : Scene :=
  { s with facts := { s.facts with exprMasks := masks } }

/-- Two scenes differ at most in what is recorded for some expressions. -/
structure Scene.AgreesOff (X : ExprId → Prop) (s s' : Scene) : Prop where
  rest : s' = s.withMasks s'.facts.exprMasks
  size : s'.facts.exprMasks.size = s.facts.exprMasks.size
  masks : ∀ e, ¬X e → s'.facts.exprMask e = s.facts.exprMask e

/-- A change that does not look at the recorded masks does not touch them. -/
theorem Scene.exprMasks_of_change {k : Scene → Scene}
    (hk : ∀ s masks, k (s.withMasks masks) = (k s).withMasks masks) (s : Scene) :
    (k s).facts.exprMasks = s.facts.exprMasks :=
  calc (k s).facts.exprMasks = (k (s.withMasks s.facts.exprMasks)).facts.exprMasks := rfl
    _ = s.facts.exprMasks := by rw [hk]; rfl

namespace Scene.AgreesOff

variable {X : ExprId → Prop} {s s' t t' : Scene}

theorem refl (X : ExprId → Prop) (s : Scene) : s.AgreesOff X s :=
  ⟨rfl, rfl, fun _ _ => rfl⟩

/-- Changes elsewhere leave what is recorded as different as it was. -/
theorem change {k : Scene → Scene} (hk : ∀ s masks, k (s.withMasks masks) = (k s).withMasks masks)
    (h : s.AgreesOff X s') : (k s).AgreesOff X (k s') := by
  have hmasks := exprMasks_of_change hk
  refine ⟨?_, ?_, fun e he => ?_⟩
  · rw [hmasks, ← hk, ← h.rest]
  · rw [hmasks, hmasks, h.size]
  · rw [Facts.exprMask, Facts.exprMask, hmasks, hmasks]
    exact h.masks e he

/-- The same mask is recorded in both. -/
theorem record (h : s.AgreesOff X s') (e : ExprId) (m : Mask) :
    { s with facts := s.facts.record e m }.AgreesOff X
      { s' with facts := s'.facts.record e m } := by
  refine ⟨?_, ?_, fun e' he' => ?_⟩
  · exact congrArg (fun t : Scene => { t with facts := t.facts.record e m }) h.rest
  · exact (Array.size_modify ..).trans (h.size.trans (Array.size_modify ..).symm)
  · rw [Facts.exprMask_record, Facts.exprMask_record, h.size, h.masks e' he']

/-- What is recorded in one of them for an expression that counts for nothing. -/
theorem record_left (h : s.AgreesOff X s') {e : ExprId} (he : X e) (m : Mask) :
    { s with facts := s.facts.record e m }.AgreesOff X s' := by
  refine ⟨h.rest, h.size.trans (Array.size_modify ..).symm, fun e' he' => ?_⟩
  have hne : ¬(e = e' ∧ e < s.facts.exprMasks.size) := fun hsame => he' (hsame.1 ▸ he)
  rw [Facts.exprMask_record, if_neg hne, h.masks e' he']

theorem record_right (h : s.AgreesOff X s') {e : ExprId} (he : X e) (m : Mask) :
    s.AgreesOff X { s' with facts := s'.facts.record e m } := by
  refine ⟨?_, (Array.size_modify ..).trans h.size, fun e' he' => ?_⟩
  · exact congrArg (fun t : Scene => { t with facts := t.facts.record e m }) h.rest
  · have hne : ¬(e = e' ∧ e < s'.facts.exprMasks.size) := fun hsame => he' (hsame.1 ▸ he)
    rw [Facts.exprMask_record, if_neg hne, h.masks e' he']

end Scene.AgreesOff

namespace Visit

variable {X : ExprId → Prop} {b : Body} {α α' β β' : Type}

/-- Two runs that fail in the same way, or end in scenes that differ at most in what is recorded for
some expressions. -/
inductive Outcomes (X : ExprId → Prop) (b : Body) (R : α → α' → Prop) :
    Except Fault (α × Scene) → Except Fault (α' × Scene) → Prop
  | fault (f : Fault) : Outcomes X b R (.error f) (.error f)
  | done {a : α} {a' : α'} {s s' : Scene} (hR : R a a') (hs : s.Of b) (h : s.AgreesOff X s') :
      Outcomes X b R (.ok (a, s)) (.ok (a', s'))

/-- What two parts of a visit do differs at most in what is recorded for some expressions. -/
def Parallel (X : ExprId → Prop) (b : Body) (R : α → α' → Prop) (x : Visit α)
    (y : Visit α') : Prop :=
  ∀ s s' : Scene, s.Of b → s.AgreesOff X s' → Outcomes X b R (x.run s) (y.run s')

/-- A part of a visit does not depend on what is recorded for some expressions. -/
def Steady (X : ExprId → Prop) (b : Body) (x : Visit α) : Prop :=
  Parallel X b Eq x x

/-- Runs side by side stay so if their parts do. -/
theorem Outcomes.bind {R : α → α' → Prop} {R' : β → β' → Prop} {x : Visit α} {y : Visit α'}
    {f : α → Visit β} {g : α' → Visit β'} {s s' : Scene} (h : Outcomes X b R (x.run s) (y.run s'))
    (hf : ∀ a a' t t', x.run s = .ok (a, t) → y.run s' = .ok (a', t') → R a a' → t.Of b →
      t.AgreesOff X t' → Outcomes X b R' ((f a).run t) ((g a').run t')) :
    Outcomes X b R' ((x >>= f).run s) ((y >>= g).run s') := by
  rw [StateT.run_bind, StateT.run_bind]
  generalize hx : x.run s = r at h
  generalize hy : y.run s' = r' at h
  cases h with
  | fault f => exact .fault f
  | done hR ht htt' => exact hf _ _ _ _ hx hy hR ht htt'

namespace Parallel

variable {R : α → α' → Prop} {R' : β → β' → Prop} {x : Visit α} {y : Visit α'}

theorem pure {a : α} {a' : α'} (h : R a a') : Parallel X b R (pure a) (pure a') :=
  fun _ _ hs hss' => .done h hs hss'

theorem bind {f : α → Visit β} {g : α' → Visit β'} (hx : Parallel X b R x y)
    (hf : ∀ a a', R a a' → Parallel X b R' (f a) (g a')) : Parallel X b R' (x >>= f) (y >>= g) := by
  intro s s' hs hss'
  apply (hx s s' hs hss').bind
  intro a a' t t' _ _ hR ht htt'
  exact hf a a' hR t t' ht htt'

theorem mono {S : α → α' → Prop} (h : Parallel X b R x y) (hRS : ∀ a a', R a a' → S a a') :
    Parallel X b S x y := by
  intro s s' hs hss'
  have houtcomes := h s s' hs hss'
  generalize x.run s = r at houtcomes ⊢
  generalize y.run s' = r' at houtcomes ⊢
  cases houtcomes with
  | fault f => exact .fault f
  | done hR ht htt' => exact .done (hRS _ _ hR) ht htt'

end Parallel

namespace Steady

variable {x y : Visit α} {f : α → Visit β}

theorem pure (a : α) : Steady X b (pure a) :=
  Parallel.pure rfl

theorem throw (fault : Fault) : Steady X b (throw fault : Visit α) :=
  fun _ _ _ _ => .fault fault

theorem bind (hx : Steady X b x) (hf : ∀ a, Steady X b (f a)) : Steady X b (x >>= f) := by
  apply Parallel.bind hx
  rintro a _ rfl
  exact hf a

theorem lift (z : Except Fault α) : Steady X b (liftM z) := by
  cases z with
  | error fault => exact throw fault
  | ok a => exact pure a

/-- A part of a visit that reads and changes other things than the recorded masks. -/
theorem of_run (val : Scene → α) (k : Scene → Scene) (hrun : ∀ s, x.run s = .ok (val s, k s))
    (hval : ∀ s masks, val (s.withMasks masks) = val s)
    (hk : ∀ s masks, k (s.withMasks masks) = (k s).withMasks masks)
    (hroutine : ∀ s, (k s).facts.routine = s.facts.routine) : Steady X b x := by
  intro s s' hs hss'
  have hval' : val s = val s' := by rw [hss'.rest, hval]
  have hmasks := congrArg Array.size (Scene.exprMasks_of_change hk s)
  rw [hrun, hrun]
  exact .done hval' ⟨(hroutine s).trans hs.routine, hmasks.trans hs.size⟩ (hss'.change hk)

end Steady

/-! ### The scene -/

theorem getState_steady : Steady X b getState :=
  .of_run (·.state) id (fun _ => rfl) (fun _ _ => rfl) (fun _ _ => rfl) fun _ => rfl

theorem setState_steady (st : State) : Steady X b (setState st) :=
  .of_run (fun _ => ()) (fun s => { s with state := st }) (fun _ => rfl) (fun _ _ => rfl)
    (fun _ _ => rfl) fun _ => rfl

theorem updateState_steady (h : State → Except Fault State) : Steady X b (updateState h) :=
  .bind getState_steady fun st => .bind (.lift (h st)) setState_steady

theorem swapState_steady (st : State) : Steady X b (swapState st) :=
  .bind getState_steady fun old => .bind (setState_steady st) fun _ => .pure old

theorem forgetAll_steady (share : Bool) : Steady X b (forgetAll share) :=
  .of_run (fun _ => ()) (fun s => { s with state := s.state.forgetAll share }) (fun _ => rfl)
    (fun _ _ => rfl) (fun _ _ => rfl) fun _ => rfl

/-- Additions to the facts other than recorded masks. -/
theorem updateFacts_steady {h : Facts → Facts} (hroutine : ∀ f : Facts, (h f).routine = f.routine)
    (hh : ∀ (f : Facts) masks, h { f with exprMasks := masks } = { h f with exprMasks := masks }) :
    Steady X b (updateFacts h) := by
  apply Steady.of_run (fun _ => ()) (fun s => { s with facts := h s.facts }) (fun _ => rfl)
    (fun _ _ => rfl)
  · intro s masks
    exact congrArg (fun f => { s with facts := f }) (hh s.facts masks)
  · intro s
    exact hroutine s.facts

theorem getTable_steady : Steady X b getTable :=
  .of_run (·.facts.table) id (fun _ => rfl) (fun _ _ => rfl) (fun _ _ => rfl) fun _ => rfl

theorem onTable_steady (z : Typing α) : Steady X b (onTable z) := by
  intro s s' hs hss'
  have htable : s'.facts.table = s.facts.table := by rw [hss'.rest]; rfl
  cases hz : z.run s.facts.table with
  | error fault =>
      rw [onTable_run_error hz, onTable_run_error (htable ▸ hz)]
      exact .fault fault
  | ok r =>
      rw [onTable_run hz, onTable_run (htable ▸ hz)]
      exact .done rfl ⟨hs.routine, hs.size⟩
        (hss'.change (k := fun s => { s with facts := { s.facts with table := r.2 } })
        fun _ _ => rfl)

theorem record_steady (e : ExprId) (m : Mask) : Steady X b (record e m) :=
  fun _ _ hs hss' => .done rfl ⟨hs.routine, (Array.size_modify ..).trans hs.size⟩ (hss'.record e m)

end Visit

open Visit

section

variable {X : ExprId → Prop} {b : Body}

theorem noteWaiting_steady (env : Setting) (callee : RoutineId) :
    Steady X b (noteWaiting env callee) :=
  .of_run (fun _ => ()) (fun s => { s with
      agenda := (s.agenda.await callee (s.facts.routine, env.block)).2
      pending? :=
        if (s.agenda.await callee (s.facts.routine, env.block)).1 && callee != s.facts.routine
            && s.pending?.isNone then some callee else s.pending? })
    (fun _ => rfl) (fun _ _ => rfl) (fun _ _ => rfl) fun _ => rfl

/-! ### Whole visits -/

/-- The kind of the routine is read from the facts, and nothing that is recorded. -/
theorem getFacts_parallel : Parallel X b (fun f f' => f.kind = f'.kind) getFacts getFacts := by
  intro s s' hs hss'
  have hkind : s.facts.kind = s'.facts.kind := by rw [hss'.rest]; rfl
  exact .done hkind hs hss'

/-- Notes do not look at the recorded masks. -/
theorem Facts.Note.withMasks {h : Facts → Facts} (hh : Facts.Note h) (f : Facts)
    (masks : Array Mask) : h { f with exprMasks := masks } = { h f with exprMasks := masks } := by
  cases hh <;> rfl

theorem join_steady {s s' t t' : State} (hs : s = s') (ht : t = t') :
    Parallel X b Eq (liftM (s.join t)) (liftM (s'.join t')) := by
  subst hs ht
  exact Steady.lift _

theorem routineResult_steady (env : Setting) (r : RoutineDecl) :
    Steady X b (routineResult env r) := by
  apply routineResult_cases (P := Steady X b)
  · exact fun hint => onTable_steady _
  · exact .pure _
  · exact fun summary => .bind (noteWaiting_steady env r.id) fun _ => onTable_steady _

/-- Visits from scenes that differ in what is recorded for some expressions, as a comparison. -/
def steadiness (X : ExprId → Prop) (env : Setting) : env.Comparison env.published where
  Relates := Parallel X env.body
  States := Eq
  Tables := Eq
  pure := .pure
  throw fault := fun _ _ _ _ => .fault fault
  bind := .bind
  getState := getState_steady
  setState hst := hst ▸ setState_steady _
  slot v := Steady.bind getState_steady fun st => .lift (st.slot v)
  change _ := updateState_steady _
  forgetAll := forgetAll_steady
  join := join_steady
  kind := getFacts_parallel
  record := record_steady
  note hh := updateFacts_steady hh.routine hh.withMasks
  getTable := getTable_steady
  self := KindTable.self?_congr
  elementMask ht _ := ht ▸ Steady.lift _
  classes ht _ := ht ▸ Steady.lift _
  stepResult ht _ _ _ := ht ▸ Steady.lift _
  onTable _ := onTable_steady _
  routineResult := routineResult_steady env

end

/-! ### Connectives -/

/-- The expression is a conjunction, a disjunction or a negation. -/
inductive Body.IsConnective (b : Body) (e : ExprId) : Prop
  | logical {op : LogicalOp} {left right : ExprId} (h : b.exprs[e]? = some (.logical op left right))
  | not {operand : ExprId} (h : b.exprs[e]? = some (.unary .not operand))

/-- A mask that holds `bool` does not stand for a `long` alone. -/
theorem Mask.isLongOnly_of_bool {m : Mask} (h : m ∪ .bool = m) : m.isLongOnly = false := by
  rw [isLongOnly, beq_eq_false_iff_ne]
  intro hshape
  have hany : m.any = false := congrArg any hshape
  have hbool : m.has 1 = false := congrArg (has · 1) hshape
  have hunion := has_union m .bool 1
  rw [h, hbool, hany] at hunion
  cases hunion

section

variable {X : ExprId → Prop} {env : Setting} {v : Visitor} {s s' : Scene} {e : ExprId} {m : Mask}

theorem visitLogical_bool {op : LogicalOp} {left right : ExprId} {branch : Branch}
    (h : (visitLogical v op left right branch).run s = .ok (m, s')) : m = .bool := by
  by_cases hbranch : branch = if op = .and then .holds else .fails
  · rw [visitLogical, if_pos hbranch] at h
    obtain ⟨_, s₁, -, h⟩ := exists_of_run_bind h
    obtain ⟨_, s₂, -, h⟩ := exists_of_run_bind h
    cases h
    rfl
  · rw [visitLogical_eq v op left right hbranch] at h
    obtain ⟨_, s₁, -, h⟩ := exists_of_run_bind h
    cases h
    rfl

/-- The value of a connective is a `bool`. -/
theorem visitValue_connective (he : env.body.IsConnective e) {access : Access}
    (h : (visitValue env v e access).run s = .ok (m, s')) : m = .bool := by
  obtain ⟨x, s₁, hexpr, h⟩ := exists_of_run_bind h
  obtain ⟨hx, rfl⟩ := Setting.expr_eq_ok hexpr
  obtain ⟨m', s₂, hform, h⟩ := exists_of_run_bind h
  obtain ⟨_, s₃, -, h⟩ := exists_of_run_bind h
  cases h
  cases he with
  | logical hlogical =>
      cases hx.symm.trans hlogical
      exact visitLogical_bool hform
  | not hnot =>
      cases hx.symm.trans hnot
      obtain ⟨_, s₄, -, hresult⟩ := exists_of_run_bind hform
      obtain ⟨t, hrun, -⟩ := onTable_eq_ok hresult
      cases hrun
      rfl

/-- A visitor finds that connectives yield a `bool`. -/
def Visitor.Decides (env : Setting) (v : Visitor) : Prop :=
  ∀ {e : ExprId} {access : Access} {s s' : Scene} {m : Mask}, env.body.IsConnective e →
    (v.value e access).run s = .ok (m, s') → m = .bool

theorem Visitor.Decides.below (hv : v.Decides env) (parent : ExprId) :
    (v.below parent).Decides env := by
  intro e access s s' m he h
  rw [Visitor.below] at h
  dsimp only at h
  split at h
  · exact hv he h
  · cases h

/-- The visitor below a limit finds a `bool` for each connective. -/
theorem visitorBelow_decides (env : Setting) (limit : Nat) :
    (visitorBelow env limit).Decides env := by
  intro e access s s' m he h
  cases limit with
  | zero => cases h
  | succ limit => exact visitValue_connective he h

/-- Once a comparison is visited, its operands that are connectives are recorded as more than a
`long`. -/
theorem isLongOnly_of_visitValue (hv : v.Binding env) (hdecides : v.Decides env)
    (hs : s.Of env.body) {op : BinaryOp} {left right : ExprId}
    (hx : env.body.exprs[e]? = some (.binary op left right))
    (h : (visitValue env v e .read).run s = .ok (m, s')) {x : ExprId} (hmem : x ∈ [left, right])
    (hconnective : env.body.IsConnective x) : (s'.facts.exprMask x).isLongOnly = false := by
  apply Mask.isLongOnly_of_bool
  rw [visitValue, run_bind_ok (Setting.expr_run hx)] at h
  obtain ⟨m', s₃, hform, h⟩ := exists_of_run_bind h
  obtain ⟨leftMask, s₁, hleft, hform⟩ := exists_of_run_bind hform
  obtain ⟨rightMask, s₂, hright, hform⟩ := exists_of_run_bind hform
  obtain ⟨hbinds₁, hrecorded₁⟩ := hv.value left .read hs leftMask s₁ hleft
  obtain ⟨hbinds₂, hrecorded₂⟩ := hv.value right .read (hbinds₁.keeps.of hs) rightMask s₂ hright
  have hkeeps₃ := (binaryResult_quiet env op left right leftMask rightMask s₂ m' s₃ hform).1
  have hrecord : Quiet (do record e m'; return m' : Visit Mask) :=
    .bind (record_quiet e m') fun _ => .pure m'
  have hkeeps := hkeeps₃.trans (hrecord s₃ m s' h).1
  simp only [List.mem_cons, List.not_mem_nil, or_false] at hmem
  rcases hmem with rfl | rfl
  · rw [hdecides hconnective hleft] at hrecorded₁
    exact (hbinds₂.keeps.trans hkeeps).facts.exprMask x _ hrecorded₁
  · rw [hdecides hconnective hright] at hrecorded₂
    exact hkeeps.facts.exprMask x _ hrecorded₂

theorem Setting.scene_of_varOf? {x? : Option VarId} (h : (env.varOf? e).run s = .ok (x?, s')) :
    s' = s := by
  obtain ⟨x, s₁, hx, h⟩ := exists_of_run_bind h
  obtain ⟨-, rfl⟩ := Setting.expr_eq_ok hx
  cases x <;> (cases h; rfl)

theorem scene_of_varMask {x : VarId} (h : (varMask x).run s = .ok (m, s')) : s' = s := by
  obtain ⟨sl, s₁, hslot, h⟩ := exists_of_run_bind h
  cases h
  exact (scene_of_slot hslot).2

/-- The one place where a recorded mask is read: whether a bound is a `long`. -/
theorem noteUpperBound_outcomes (hs : s.Of env.body) (hss' : s.AgreesOff X s') (counter : ExprId)
    {bound : ExprId}
    (hlong : (s.facts.exprMask bound).isLongOnly = (s'.facts.exprMask bound).isLongOnly) :
    Outcomes X env.body Eq ((noteUpperBound env counter bound).run s)
      ((noteUpperBound env counter bound).run s') := by
  have hvar : Steady X env.body (env.varOf? counter) := (steadiness X env).varOf?_agrees counter
  apply (hvar s s' hs hss').bind
  rintro x? _ t t' hrun hrun' rfl ht htt'
  obtain rfl := Setting.scene_of_varOf? hrun
  obtain rfl := Setting.scene_of_varOf? hrun'
  cases x? with
  | none => exact .done rfl ht htt'
  | some x =>
      have hmask : Steady X env.body (varMask x) := (steadiness X env).varMask_agrees x
      apply (hmask t t' ht htt').bind
      rintro m _ u u' hmask hmask' rfl hu huu'
      obtain rfl := scene_of_varMask hmask
      obtain rfl := scene_of_varMask hmask'
      have hfacts (w : Scene) : getFacts.run w = .ok (w.facts, w) := rfl
      rw [run_bind_ok (hfacts u), run_bind_ok (hfacts u'), hlong]
      split
      · exact updateState_steady _ u u' hu huu'
      · exact .done rfl hu huu'

/-- Once a comparison has been visited, what narrowing reads of its operands does not depend on what
was recorded for connectives before. -/
theorem orders_steady (hX : ∀ x, X x → env.body.IsConnective x)
    (hv : (steadiness X env).Visitors v v) (hbinding : v.Binding env) (hdecides : v.Decides env)
    (e : ExprId) : (steadiness X env).Orders v v e := by
  intro op left right hx hop holds s s' hs hss'
  have hs' : s'.Of env.body := by
    rw [hss'.rest]
    exact ⟨hs.routine, hss'.size.trans hs.size⟩
  have hvalue : Steady X env.body (visitValue env v e .read) :=
    (steadiness X env).visitValue_agrees hv e .read
  apply (hvalue s s' hs hss').bind
  rintro m _ t t' hrun hrun' rfl ht htt'
  have hlong (x : ExprId) (hmem : x ∈ [left, right]) :
      (t.facts.exprMask x).isLongOnly = (t'.facts.exprMask x).isLongOnly := by
    by_cases hconnective : X x
    · rw [isLongOnly_of_visitValue hbinding hdecides hs hx hrun hmem (hX x hconnective),
        isLongOnly_of_visitValue hbinding hdecides hs' hx hrun' hmem (hX x hconnective)]
    · rw [htt'.masks x hconnective]
  have hnarrow : narrow env e holds = narrowCompared env op left right holds := by
    rw [narrow, Setting.expr, hx, pure_bind]
  have houtcomes : Outcomes X env.body Eq ((narrowCompared env op left right holds).run t)
      ((narrowCompared env op left right holds).run t') := by
    cases holds with
    | false => rcases hop with rfl | rfl <;> exact .done rfl ht htt'
    | true =>
        rcases hop with rfl | rfl
        · exact noteUpperBound_outcomes ht htt' left (hlong right (by simp))
        · exact noteUpperBound_outcomes ht htt' right (hlong left (by simp))
  rw [← hnarrow] at houtcomes
  apply houtcomes.bind
  intro _ _ u u' _ _ _ hu huu'
  exact .done rfl hu huu'

/-- No visit depends on what is recorded for connectives. -/
theorem visitor_steady (hX : ∀ x, X x → env.body.IsConnective x) :
    (steadiness X env).Visitors (visitor env) (visitor env) := by
  apply (steadiness X env).visitor_agrees
  intro limit e hbelow
  exact orders_steady hX (hbelow.below e) ((visitorBelow_binding env limit).below e)
    (Visitor.Decides.below (visitorBelow_decides env limit) e) e

end

end FlowTyping
