import FlowTyping.Proofs.Visit.Steady

/-!
# Negation normal forms of conditions

A condition is made of conjunctions, disjunctions and negations over other expressions, its leaves.
In its negation normal form only leaves are negated. A visit to a condition under an assumed outcome
goes through the leaves in the same order and under the same assumptions as a visit to the normal
form, so that both leave the same scene behind but for what is recorded for the connectives
themselves. Main statement: `condition_same_as_normal`.
-/

namespace FlowTyping

/-- A condition with its leaves. -/
inductive Condition where
  | leaf (e : ExprId)
  | not (c : Condition)
  | logical (op : LogicalOp) (left right : Condition)
  deriving DecidableEq, Repr, Inhabited

/-- The operator that De Morgan's laws put in place of another. -/
def LogicalOp.dual : LogicalOp → LogicalOp
  | .and => .or
  | .or => .and

/-- The outcome of the left operand on which the right one is evaluated. -/
def LogicalOp.goesOn (op : LogicalOp) : Branch :=
  if op = .and then .holds else .fails

/-- The outcome of a condition, given that of its negation if `negated`. -/
def Branch.turn (branch : Branch) (negated : Bool) : Branch :=
  if negated then branch.flip else branch

theorem Branch.turn_ne_either {branch : Branch} {negated : Bool} (h : branch ≠ .either) :
    branch.turn negated ≠ .either := by
  cases branch <;> cases negated <;> trivial

namespace Condition

/-- The outcome of a condition, given those of its leaves. -/
def eval (outcome : ExprId → Bool) : Condition → Bool
  | leaf e => outcome e
  | not c => !c.eval outcome
  | logical .and left right => left.eval outcome && right.eval outcome
  | logical .or left right => left.eval outcome || right.eval outcome

/-- The leaves, from left to right. -/
def leaves : Condition → List ExprId
  | leaf e => [e]
  | not c => c.leaves
  | logical _ left right => left.leaves ++ right.leaves

/-- Only leaves are negated. -/
def IsNormal : Condition → Prop
  | leaf _ => True
  | not (leaf _) => True
  | not _ => False
  | logical _ left right => left.IsNormal ∧ right.IsNormal

/-- The normal form of a condition, or of its negation. -/
def normalize (negated : Bool) : Condition → Condition
  | leaf e => if negated then not (leaf e) else leaf e
  | not c => c.normalize !negated
  | logical op left right =>
    logical (if negated then op.dual else op) (left.normalize negated) (right.normalize negated)

/-- The negation normal form. -/
def normal (c : Condition) : Condition :=
  c.normalize false

/-- In normal form negations stand in front of leaves only. -/
theorem isNormal_normalize (c : Condition) (negated : Bool) : (c.normalize negated).IsNormal := by
  induction c generalizing negated with
  | leaf e => cases negated <;> trivial
  | not c ih => exact ih !negated
  | logical op left right ihl ihr => exact ⟨ihl negated, ihr negated⟩

/-- The normal form has the outcome of the condition, or of its negation. -/
theorem eval_normalize (outcome : ExprId → Bool) (c : Condition) (negated : Bool) :
    (c.normalize negated).eval outcome = (negated ^^ c.eval outcome) := by
  induction c generalizing negated with
  | leaf e => cases negated <;> simp [normalize, eval]
  | not c ih => simp [normalize, eval, ih]
  | logical op left right ihl ihr =>
      cases op <;> cases negated <;> simp [normalize, eval, LogicalOp.dual, ihl, ihr]

/-- It has the same leaves, in the same order. -/
theorem leaves_normalize (c : Condition) (negated : Bool) :
    (c.normalize negated).leaves = c.leaves := by
  induction c generalizing negated with
  | leaf e => cases negated <;> rfl
  | not c ih => exact ih !negated
  | logical op left right ihl ihr => simp only [normalize, leaves, ihl, ihr]

/-- The condition is written at an expression of the body, with some connectives. -/
inductive WrittenAt (b : Body) : Condition → ExprId → List ExprId → Prop
  | leaf (e : ExprId) : WrittenAt b (leaf e) e []
  | not {c : Condition} {e operand : ExprId} {es : List ExprId}
      (he : b.exprs[e]? = some (.unary .not operand)) (hlt : operand < e)
      (hc : WrittenAt b c operand es) : WrittenAt b (not c) e (e :: es)
  | logical {op : LogicalOp} {c d : Condition} {e left right : ExprId} {es fs : List ExprId}
      (he : b.exprs[e]? = some (.logical op left right)) (hleft : left < e) (hright : right < e)
      (hc : WrittenAt b c left es) (hd : WrittenAt b d right fs) :
      WrittenAt b (logical op c d) e (e :: (es ++ fs))

theorem WrittenAt.isConnective {b : Body} {c : Condition} {e x : ExprId} {es : List ExprId}
    (h : c.WrittenAt b e es) (hx : x ∈ es) : b.IsConnective x := by
  induction h with
  | leaf e => cases hx
  | not he _ _ ih =>
      rcases List.mem_cons.1 hx with rfl | hx
      · exact .not he
      · exact ih hx
  | logical he _ _ _ _ ihc ihd =>
      rcases List.mem_cons.1 hx with rfl | hx
      · exact .logical he
      · exact (List.mem_append.1 hx).elim ihc ihd

end Condition

/-! ### Parts of a visit with the same effect -/

namespace Visit

variable {X : ExprId → Prop} {b : Body} {α α' β β' : Type} {x : Visit α} {y : Visit α'}

/-- Two parts of a visit that may yield different values but leave the same behind. -/
def Alike (X : ExprId → Prop) (b : Body) (x : Visit α) (y : Visit α') : Prop :=
  Parallel X b (fun _ _ => True) x y

namespace Alike

theorem of_steady (h : Steady X b x) : Alike X b x x :=
  Parallel.mono h fun _ _ _ => trivial

theorem bind {f : α → Visit β} {g : α' → Visit β'} (hx : Alike X b x y)
    (hf : ∀ a a', Alike X b (f a) (g a')) : Alike X b (x >>= f) (y >>= g) :=
  Parallel.bind hx fun a a' _ => hf a a'

/-- The first part also records something that counts for nothing. -/
theorem record_left (h : Alike X b x y) {e : ExprId} (he : X e) (m : α → Mask) :
    Alike X b (x >>= fun a => record e (m a) >>= fun _ => pure (m a)) y := by
  intro s s' hs hss'
  have houtcomes := h s s' hs hss'
  rw [StateT.run_bind]
  generalize x.run s = r at houtcomes ⊢
  generalize y.run s' = r' at houtcomes ⊢
  cases houtcomes with
  | fault f => exact .fault f
  | done _ ht htt' =>
      exact .done trivial ⟨ht.routine, (Array.size_modify ..).trans ht.size⟩ (htt'.record_left he _)

theorem record_right (h : Alike X b x y) {e : ExprId} (he : X e) (m : α' → Mask) :
    Alike X b x (y >>= fun a => record e (m a) >>= fun _ => pure (m a)) := by
  intro s s' hs hss'
  have houtcomes := h s s' hs hss'
  rw [StateT.run_bind]
  generalize x.run s = r at houtcomes ⊢
  generalize y.run s' = r' at houtcomes ⊢
  cases houtcomes with
  | fault f => exact .fault f
  | done _ ht htt' => exact .done trivial ht (htt'.record_right he _)

end Alike

end Visit

open Visit

section

variable {X : ExprId → Prop} {b : Body} {env : Setting} {v : Visitor}

/-- The visitor is given earlier positions only. -/
theorem visitLogical_below {e left right : ExprId} (hleft : left < e) (hright : right < e)
    (op : LogicalOp) (branch : Branch) :
    visitLogical (v.below e) op left right branch = visitLogical v op left right branch := by
  simp only [visitLogical, Visitor.below_condition hleft, Visitor.below_condition hright]

/-- A negation visits its operand for the other outcome. -/
theorem visitor_condition_not {e operand : ExprId}
    (he : env.body.exprs[e]? = some (.unary .not operand)) (hlt : operand < e) {branch : Branch}
    (hbranch : branch ≠ .either) :
    (visitor env).condition e branch = (do
      let _ ← (visitor env).condition operand branch.flip
      record e .bool
      return .bool) := by
  have hsize := (Array.getElem?_eq_some_iff.1 he).1
  rw [visitor_condition hsize, visitCondition, if_neg hbranch, Setting.expr, he, pure_bind]
  simp only [Visitor.below_condition hlt]

theorem visitor_condition_logical {e left right : ExprId} {op : LogicalOp}
    (he : env.body.exprs[e]? = some (.logical op left right)) (hleft : left < e)
    (hright : right < e) {branch : Branch} (hbranch : branch ≠ .either) :
    (visitor env).condition e branch = (do
      let m ← visitLogical (visitor env) op left right branch
      record e m
      return m) := by
  have hsize := (Array.getElem?_eq_some_iff.1 he).1
  rw [visitor_condition hsize, visitCondition, if_neg hbranch, Setting.expr, he, pure_bind]
  simp only [visitLogical_below hleft hright]

/-- Where a logical operation goes on, its sides are visited in turn. -/
theorem visitLogical_of_goesOn {op : LogicalOp} {left right : ExprId} {branch : Branch}
    (h : branch = op.goesOn) :
    visitLogical v op left right branch = (do
      let _ ← v.condition left op.goesOn
      let _ ← v.condition right branch
      return .bool) :=
  if_pos h

/-- Two paths that split and join. -/
theorem both_alike {α α' β β' : Type} {x : Visit α} {x' : Visit α'} {y : Visit β} {y' : Visit β'}
    (hx : Alike X b x x') (hy : Alike X b y y') : Alike X b (both x y) (both x' y') := by
  apply Parallel.bind getState_steady
  rintro before _ rfl
  apply Alike.bind hx
  intro _ _
  apply Parallel.bind (swapState_steady before)
  rintro after _ rfl
  apply Alike.bind hy
  intro _ _
  exact .bind (.of_steady (updateState_steady _)) fun _ _ => Parallel.pure trivial

/-- Two connectives whose operands have the same effect, either under the same outcomes or under
opposite ones. In the second case De Morgan's laws turn one operator into the other. -/
theorem visitLogical_alike (negated : Bool) (op : LogicalOp) {left right left' right' : ExprId}
    (hleft : ∀ branch, branch ≠ .either →
      Alike X b (v.condition left (branch.turn negated)) (v.condition left' branch))
    (hright : ∀ branch, branch ≠ .either →
      Alike X b (v.condition right (branch.turn negated)) (v.condition right' branch))
    {branch : Branch} (hbranch : branch ≠ .either) :
    Alike X b (visitLogical v op left right (branch.turn negated))
      (visitLogical v (if negated then op.dual else op) left' right' branch) := by
  generalize hop : (if negated then op.dual else op) = op'
  have hgoesOn : op.goesOn = op'.goesOn.turn negated := by
    subst hop
    cases negated <;> cases op <;> rfl
  have hflip : op.goesOn.flip = op'.goesOn.flip.turn negated := by
    subst hop
    cases negated <;> cases op <;> rfl
  have hknown : op'.goesOn ≠ .either ∧ op'.goesOn.flip ≠ .either := by
    cases op' <;> decide
  have hsame : branch.turn negated = op.goesOn ↔ branch = op'.goesOn := by
    rw [hgoesOn]
    cases negated <;> cases branch <;> cases op' <;> decide
  have hfirst := hleft op'.goesOn hknown.1
  rw [← hgoesOn] at hfirst
  by_cases h : branch = op'.goesOn
  · rw [visitLogical_of_goesOn (hsame.2 h), visitLogical_of_goesOn h]
    exact hfirst.bind fun _ _ => (hright branch hbranch).bind fun _ _ => Parallel.pure trivial
  · have hskipped := hleft op'.goesOn.flip hknown.2
    rw [← hflip] at hskipped
    rw [visitLogical_eq v op left right (mt hsame.1 h), visitLogical_eq v op' left' right' h]
    have hevaluated := hfirst.bind fun _ _ => hright branch hbranch
    exact (both_alike hevaluated hskipped).bind fun _ _ => Parallel.pure trivial

/-- A condition, or its negation under the opposite outcome, and its normal form. -/
theorem visitor_condition_alike (hX : ∀ x, X x → env.body.IsConnective x) (c : Condition)
    (negated : Bool) {e e' : ExprId} {es es' : List ExprId} (he : c.WrittenAt env.body e es)
    (he' : (c.normalize negated).WrittenAt env.body e' es') (hes : ∀ x ∈ es, X x)
    (hes' : ∀ x ∈ es', X x) {branch : Branch} (hbranch : branch ≠ .either) :
    Alike X env.body ((visitor env).condition e (branch.turn negated))
      ((visitor env).condition e' branch) := by
  -- Passing a negation turns both the outcome that is assumed and the sign of the normal form.
  induction c generalizing negated e e' es es' branch with
  | leaf x =>
      cases he with
      | leaf x =>
          have hleaf (branch : Branch) : Alike X env.body ((visitor env).condition x branch)
              ((visitor env).condition x branch) :=
              .of_steady ((visitor_steady hX).condition x branch)
          cases negated with
          | false =>
              cases he' with
              | leaf x => exact hleaf branch
          | true =>
              cases he' with
              | not hnot hlt hoperand =>
                  cases hoperand with
                  | leaf x =>
                      rw [visitor_condition_not hnot hlt hbranch]
                      exact (hleaf branch.flip).record_right
                        (hes' e' (List.mem_cons_self ..)) fun _ => .bool
  | not c ih =>
      cases he with
      | not hnot hlt hc =>
          rw [visitor_condition_not hnot hlt (Branch.turn_ne_either hbranch)]
          have hflip : (branch.turn negated).flip = branch.turn !negated := by
            cases branch <;> cases negated <;> rfl
          rw [hflip]
          have hoperand := ih (!negated) hc he'
            (fun x hx => hes x (List.mem_cons_of_mem e hx)) hes' hbranch
          exact hoperand.record_left (hes e (List.mem_cons_self ..)) fun _ => .bool
  | logical op c d ihc ihd =>
      cases he with
      | logical hlogical hleft hright hc hd =>
          cases he' with
          | logical hlogical' hleft' hright' hc' hd' =>
              rw [visitor_condition_logical hlogical hleft hright (Branch.turn_ne_either hbranch),
                visitor_condition_logical hlogical' hleft' hright' hbranch]
              simp only [List.forall_mem_cons, List.forall_mem_append] at hes hes'
              have hoperands := visitLogical_alike negated op
                (fun _ => ihc negated hc hc' hes.2.1 hes'.2.1)
                (fun _ => ihd negated hd hd' hes.2.2 hes'.2.2) hbranch
              exact (hoperands.record_left hes.1 fun m => m).record_right hes'.1 fun m => m

end

/-- A condition may be put in negation normal form, which has the same leaves and the same outcome.
From any scene of the routine and under either outcome, the visits to both fail in the same way, or
end in scenes that are the same but for what is recorded for the connectives of the two: the state
of the variables, the kind table, the agenda, the pending routine, and everything found out about
the leaves and their parts. -/
theorem condition_same_as_normal (env : Setting) {c : Condition} {e e' : ExprId}
    {es es' : List ExprId} (he : c.WrittenAt env.body e es)
    (he' : c.normal.WrittenAt env.body e' es') {s : Scene} (hs : s.Of env.body) {branch : Branch}
    (hbranch : branch ≠ .either) :
    c.normal.IsNormal ∧ c.normal.leaves = c.leaves ∧
      (∀ outcome, c.normal.eval outcome = c.eval outcome) ∧
      (∀ fault, ((visitor env).condition e branch).run s = .error fault ↔
        ((visitor env).condition e' branch).run s = .error fault) ∧
      ∀ m t, ((visitor env).condition e branch).run s = .ok (m, t) →
        ∃ m' t', ((visitor env).condition e' branch).run s = .ok (m', t') ∧
          t.AgreesOff (fun x => x ∈ es ∨ x ∈ es') t' := by
  have heval (outcome : ExprId → Bool) : c.normal.eval outcome = c.eval outcome := by
    rw [Condition.normal, Condition.eval_normalize, Bool.false_xor]
  have hX (x : ExprId) (hx : x ∈ es ∨ x ∈ es') : env.body.IsConnective x :=
    hx.elim he.isConnective he'.isConnective
  have houtcomes := visitor_condition_alike hX c false he he' (fun x hx => .inl hx)
    (fun x hx => .inr hx) hbranch s s hs (.refl _ s)
  rw [Branch.turn, if_neg Bool.false_ne_true] at houtcomes
  refine ⟨c.isNormal_normalize false, c.leaves_normalize false, heval, ?_⟩
  generalize ((visitor env).condition e branch).run s = r at houtcomes ⊢
  generalize ((visitor env).condition e' branch).run s = r' at houtcomes ⊢
  cases houtcomes with
  | fault f =>
      refine ⟨fun _ => Iff.rfl, fun m t h => ?_⟩
      cases h
  | done _ _ hagrees =>
      refine ⟨fun fault => ⟨fun h => ?_, fun h => ?_⟩, fun m t h => ?_⟩
      · cases h
      · cases h
      · cases h
        exact ⟨_, _, rfl, hagrees⟩

namespace Sample

/-- Holds `!(isset($x) && !($y = 1))` at position 7 and `!isset($x) || ($y = 1)` at position 9. -/
def tests : Body :=
  ⟨0, .function, [⟨"x", .localVar⟩, ⟨"y", .localVar⟩],
    #[.var 0, .isset [0], .var 1, .literal (.long 1), .assign 2 3, .unary .not 4, .logical .and 1 5,
      .unary .not 6, .unary .not 1, .logical .or 8 4],
    #[⟨0, [], .ret none, []⟩], 0⟩

/-- The first of them. -/
def test : Condition :=
  .not (.logical .and (.leaf 1) (.not (.leaf 4)))

/-- The body on its own, without declarations. -/
def testsSetting : Setting :=
  ⟨tests, .empty, .empty, 0⟩

/-- The variable `x` holds `null` or a `long`. -/
def testsScene : Scene :=
  ⟨⟨0, [⟨.null ∪ .long, true, false, false⟩, .unset]⟩, .new tests (.new 0 60 none), .empty, none⟩

end Sample

/-- Both visits succeed, and only the connectives tell them apart. -/
theorem condition_same_as_normal_test :
    ∃ m t m' t',
      ((visitor Sample.testsSetting).condition 7 .holds).run Sample.testsScene = .ok (m, t) ∧
      ((visitor Sample.testsSetting).condition 9 .holds).run Sample.testsScene = .ok (m', t') ∧
      t.AgreesOff (fun x => x ∈ [7, 6, 5] ∨ x ∈ [9, 8]) t' := by
  have hwritten : Sample.test.WrittenAt Sample.tests 7 [7, 6, 5] :=
    .not rfl (by decide)
      (.logical rfl (by decide) (by decide) (.leaf 1) (.not rfl (by decide) (.leaf 4)))
  have hnormal : Sample.test.normal.WrittenAt Sample.tests 9 [9, 8] :=
    .logical rfl (by decide) (by decide) (.not rfl (by decide) (.leaf 1)) (.leaf 4)
  have hscene : Sample.testsScene.Of Sample.tests := ⟨rfl, rfl⟩
  have hbranch : Branch.holds ≠ .either := by decide
  obtain ⟨-, -, -, -, hsame⟩ :=
    condition_same_as_normal Sample.testsSetting hwritten hnormal hscene hbranch
  have hok : (((visitor Sample.testsSetting).condition 7 .holds).run
      Sample.testsScene).toOption.isSome = true := rfl
  cases hrun : ((visitor Sample.testsSetting).condition 7 .holds).run Sample.testsScene with
  | error fault =>
      rw [hrun] at hok
      cases hok
  | ok r =>
      obtain ⟨m', t', hrun', hagrees⟩ := hsame r.1 r.2 hrun
      exact ⟨r.1, r.2, m', t', rfl, hrun', hagrees⟩

end FlowTyping
