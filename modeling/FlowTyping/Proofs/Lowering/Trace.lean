import FlowTyping.Body.Lowering

/-!
# Traces

What a run does, told as a sequence of events: once for structured statements, whose behaviours are
composed from those of their parts, and once for blocks, along paths that end where control leaves
the routine. Choices that depend on values are left open.
-/

namespace FlowTyping

/-- What a run does next. -/
inductive Event where
  | act (action : Action)
  | test (cond : ExprId) (outcome : Bool)
  /-- A `switch` goes to one of its cases, or past all of them. -/
  | dispatch (value : ExprId) (labels : List (Option ExprId)) (case? : Option Nat)
  | iterate (collection : ExprId) (byRef : Bool)
  | advance (collection : ExprId) (key? : Option ExprId) (value : ExprId) (byRef more : Bool)
  deriving Repr, Inhabited

/-- The events of a run, first to last. -/
abbrev Trace := List Event

/-- How a whole run ends. -/
inductive Ending where
  | ret (value? : Option ExprId)
  | raise (value : ExprId)
  | exit (value? : Option ExprId)
  deriving DecidableEq, Repr, Inhabited

/-- How a statement ends. -/
inductive Completion where
  | normal
  | brk
  | cont
  | stop (ending : Ending)
  deriving DecidableEq, Repr, Inhabited

namespace Completion

/-- How a `switch` ends when one of its cases does. -/
def ofCase : Completion → Completion
  | .stop ending => .stop ending
  | _ => .normal

/-- How a whole run ends when its last statement does. -/
def ending : Completion → Ending
  | .stop ending => ending
  | _ => .ret none

end Completion

/-- The traces that something may have, each with how it ends. -/
abbrev Behaviour := Trace → Completion → Prop

/-- How a loop decides on another round. -/
inductive Head where
  | test (cond : ExprId)
  | always
  | advance (collection : ExprId) (key? : Option ExprId) (value : ExprId) (byRef : Bool)

namespace Head

/-- The head of a `for` loop, which goes on for ever if it has no condition. -/
def ofCond? : Option ExprId → Head
  | some cond => .test cond
  | none => .always

/-- What is seen when there is another round. -/
def onRound : Head → Trace
  | .test cond => [.test cond true]
  | .always => []
  | .advance collection key? value byRef => [.advance collection key? value byRef true]

/-- What is seen when there is none, unless there always is one. -/
def onStop? : Head → Option Trace
  | .test cond => some [.test cond false]
  | .always => none
  | .advance collection key? value byRef => some [.advance collection key? value byRef false]

end Head

namespace Behaviour

/-- One trace, with one end. -/
def Just (t : Trace) (c : Completion) : Behaviour :=
  fun t' c' => t' = t ∧ c' = c

/-- One thing after the other, unless the first one does not end normally. -/
inductive Seq (A B : Behaviour) : Behaviour
  | next {t t' : Trace} {c : Completion} : A t .normal → B t' c → Seq A B (t ++ t') c
  | early {t : Trace} {c : Completion} : A t c → c ≠ .normal → Seq A B t c

/-- One of two. -/
def Either (A B : Behaviour) : Behaviour :=
  fun t c => A t c ∨ B t c

/-- A loop from the start of a round on. What follows the body of a round comes before the head. -/
inductive Rounds (head : Head) (body : Behaviour) (step : Trace) : Behaviour
  | brk {t : Trace} : body t .brk → Rounds head body step t .normal
  | stop {t : Trace} {e : Ending} : body t (.stop e) → Rounds head body step t (.stop e)
  | last {t t' : Trace} {c : Completion} : body t c → c = .normal ∨ c = .cont →
      head.onStop? = some t' → Rounds head body step (t ++ step ++ t') .normal
  | again {t t' : Trace} {c c' : Completion} : body t c → c = .normal ∨ c = .cont →
      Rounds head body step t' c' → Rounds head body step (t ++ step ++ head.onRound ++ t') c'

/-- A loop from its head on. -/
inductive Loop (head : Head) (body : Behaviour) (step : Trace) : Behaviour
  | skip {t : Trace} : head.onStop? = some t → Loop head body step t .normal
  | start {t : Trace} {c : Completion} : Rounds head body step t c →
      Loop head body step (head.onRound ++ t) c

/-- A `switch` with one behaviour from each case on. It may go past the cases if none is the
default. -/
inductive Switch (value : ExprId) (labels : List (Option ExprId)) (cases : List Behaviour) :
    Behaviour
  | case {i : Nat} {A : Behaviour} {t : Trace} {c : Completion} : cases[i]? = some A → A t c →
      Switch value labels cases (.dispatch value labels (some i) :: t) c.ofCase
  | past : none ∉ labels → Switch value labels cases [.dispatch value labels none] .normal

end Behaviour

open Behaviour

mutual

/-- What a statement outside any protected region does. -/
def Stmt.Does : Stmt → Behaviour
  | .act action => Just [.act action] .normal
  | .ifElse cond thenBody elseBody =>
    Either (Seq (Just [.test cond true] .normal) (DoesAll thenBody))
      (Seq (Just [.test cond false] .normal) (DoesAll elseBody))
  | .whileLoop cond body => Loop (.test cond) (DoesAll body) []
  | .doLoop body cond => Rounds (.test cond) (DoesAll body) []
  | .forLoop init cond? step body =>
    Seq (Just (init.map fun e => .act (.eval e)) .normal)
      (Loop (.ofCond? cond?) (DoesAll body) (step.map fun e => .act (.eval e)))
  | .foreach collection key? value byRef body =>
    Seq (Just [.iterate collection byRef] .normal)
      (Loop (.advance collection key? value byRef) (DoesAll body) [])
  | .switch value cases => Switch value (cases.map Case.label?) (DoesFrom cases)
  | .protect _ _ _ => fun _ _ => False
  | .ret value? => Just [] (.stop (.ret value?))
  | .raise value => Just [] (.stop (.raise value))
  | .exit value? => Just [] (.stop (.exit value?))
  | .brk => Just [] .brk
  | .cont => Just [] .cont

/-- What a list of statements does: one after the other, up to the first that jumps. -/
def Stmt.DoesAll : List Stmt → Behaviour
  | [] => Just [] .normal
  | s :: rest => Seq s.Does (DoesAll rest)

/-- What a list of cases does from each of them on: the body of a case runs on into the next. -/
def Stmt.DoesFrom : List (Case Stmt) → List Behaviour
  | [] => []
  | ⟨_, body⟩ :: cases =>
    Seq (DoesAll body) ((DoesFrom cases).headD (Just [] .normal)) :: DoesFrom cases

end

mutual

/-- There is no protected region in a statement. -/
def Stmt.unprotected : Stmt → Bool
  | .ifElse _ thenBody elseBody => allUnprotected thenBody && allUnprotected elseBody
  | .whileLoop _ body => allUnprotected body
  | .doLoop body _ => allUnprotected body
  | .forLoop _ _ _ body => allUnprotected body
  | .foreach _ _ _ _ body => allUnprotected body
  | .switch _ cases => casesUnprotected cases
  | .protect _ _ _ => false
  | _ => true

/-- No statement in a list has a protected region. -/
def Stmt.allUnprotected : List Stmt → Bool
  | [] => true
  | s :: rest => s.unprotected && allUnprotected rest

/-- No arm of a `switch` has a protected region. -/
def Stmt.casesUnprotected : List (Case Stmt) → Bool
  | [] => true
  | ⟨_, body⟩ :: cases => allUnprotected body && casesUnprotected cases

end

/-- The complete traces of a list of statements. One that does not stop before its end, or that
breaks out of no loop, returns without a value. -/
def Stmt.Runs (stmts : List Stmt) (t : Trace) (e : Ending) : Prop :=
  ∃ c, DoesAll stmts t c ∧ c.ending = e

namespace Edge

/-- Where an edge may lead, and what is seen of it. -/
inductive Leads : Edge → Trace → BlockId → Prop
  | goto (b : BlockId) : Leads (.goto b) [] b
  | leave (b : BlockId) : Leads (.leave b) [] b
  | ifTrue (cond : ExprId) (b b' : BlockId) : Leads (.branch cond b b') [.test cond true] b
  | ifFalse (cond : ExprId) (b b' : BlockId) : Leads (.branch cond b b') [.test cond false] b'
  | arm (value : ExprId) {arms : List Arm} (stop : BlockId) {i : Nat} {arm : Arm} :
      arms[i]? = some arm →
      Leads (.switch value arms stop) [.dispatch value (arms.map Arm.label?) (some i)] arm.body
  | past (value : ExprId) {arms : List Arm} (stop : BlockId) : hasDefault arms = false →
      Leads (.switch value arms stop) [.dispatch value (arms.map Arm.label?) none] stop
  | protect (b : BlockId) (catches : List BlockId) (finally? : Option BlockId) (stop : BlockId) :
      Leads (.protect b catches finally? stop) [] b
  | iterate (collection : ExprId) (byRef : Bool) (b : BlockId) :
      Leads (.iterate collection byRef b) [.iterate collection byRef] b
  | more (collection : ExprId) (key? : Option ExprId) (value : ExprId) (byRef : Bool)
      (b stop : BlockId) : Leads (.advance collection key? value byRef b stop)
        [.advance collection key? value byRef true] b
  | done (collection : ExprId) (key? : Option ExprId) (value : ExprId) (byRef : Bool)
      (b stop : BlockId) : Leads (.advance collection key? value byRef b stop)
        [.advance collection key? value byRef false] stop

/-- How a run ends at an edge that leads nowhere. -/
def ending? : Edge → Option Ending
  | .ret value? => some (.ret value?)
  | .raise value => some (.raise value)
  | .exit value? => some (.exit value?)
  | _ => none

/-- An edge leads to its successors and nowhere else. -/
theorem exists_leads_iff {edge : Edge} {b : BlockId} :
    (∃ t, edge.Leads t b) ↔ b ∈ edge.successors := by
  constructor
  · rintro ⟨t, h⟩
    cases h with
    | arm value stop harm =>
        exact List.mem_append_left _ (List.mem_map_of_mem (List.mem_of_getElem? harm))
    | past value stop hno =>
        apply List.mem_append_right
        simp [hno]
    | _ => simp [successors]
  · intro h
    cases edge with
    | switch value arms stop =>
        rcases List.mem_append.1 h with h | h
        · obtain ⟨arm, harm, rfl⟩ := List.mem_map.1 h
          obtain ⟨i, hi⟩ := List.mem_iff_getElem?.1 harm
          exact ⟨_, .arm value stop hi⟩
        · cases hdefault : hasDefault arms with
          | true => simp [hdefault] at h
          | false =>
              obtain rfl : b = stop := by simpa [hdefault] using h
              exact ⟨_, .past value b hdefault⟩
    | branch cond b₁ b₂ =>
        obtain rfl | rfl : b = b₁ ∨ b = b₂ := by simpa [successors] using h
        · exact ⟨_, .ifTrue cond b b₂⟩
        · exact ⟨_, .ifFalse cond b₁ b⟩
    | advance collection key? value byRef b₁ b₂ =>
        obtain rfl | rfl : b = b₁ ∨ b = b₂ := by simpa [successors] using h
        · exact ⟨_, .more collection key? value byRef b b₂⟩
        · exact ⟨_, .done collection key? value byRef b₁ b⟩
    | goto b' | leave b' | protect b' _ _ _ | iterate _ _ b' =>
        obtain rfl := List.mem_singleton.1 h
        exact ⟨_, by constructor⟩
    | ret | raise | exit => cases h

end Edge

/-- A path from a block to an end of the run, with its trace. -/
inductive Path (blocks : Array Block) : BlockId → Trace → Ending → Prop
  | stop {b : BlockId} {block : Block} {e : Ending} : blocks[b]? = some block →
      block.edge.ending? = some e → Path blocks b (block.actions.map .act) e
  | step {b b' : BlockId} {block : Block} {t t' : Trace} {e : Ending} : blocks[b]? = some block →
      block.edge.Leads t b' → Path blocks b' t' e →
      Path blocks b (block.actions.map .act ++ t ++ t') e

end FlowTyping
