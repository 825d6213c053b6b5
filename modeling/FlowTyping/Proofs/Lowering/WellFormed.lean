import FlowTyping.Body.Builder
import FlowTyping.Proofs.Body
import FlowTyping.Proofs.Lowering.Script

/-!
# Built bodies are well formed

Main statement: `build_wellFormed`. Whatever statements a body is built from, dead code and stray
jumps included, the check finds nothing wrong with it, if only the statements mention expressions
and variables that exist. A lowering is sound at every stroke: what its drafts mention exists at
that time.
-/

namespace FlowTyping

open Lowering

/-! ### What statements mention -/

namespace Stmt

/-- The expressions that a statement itself evaluates. -/
def exprs : Stmt → List ExprId
  | .act action => action.exprs
  | .ifElse cond _ _ => [cond]
  | .whileLoop cond _ => [cond]
  | .doLoop _ cond => [cond]
  | .forLoop init cond? step _ => init ++ cond?.toList ++ step
  | .foreach collection key? value _ _ => collection :: value :: key?.toList
  | .switch value cases => value :: cases.filterMap Case.label?
  | .ret value? => value?.toList
  | .raise value => [value]
  | .exit value? => value?.toList
  | .protect _ _ _ | .brk | .cont => []

/-- The variables that a statement itself binds. -/
def vars : Stmt → List VarId
  | .act action => action.vars
  | .protect _ catches _ => catches.filterMap Catch.var?
  | _ => []

/-- A statement itself mentions only some expressions and variables. -/
structure InRange (E : ExprId → Prop) (V : VarId → Prop) (s : Stmt) : Prop where
  exprs : ∀ e ∈ s.exprs, E e
  vars : ∀ v ∈ s.vars, V v

instance (E : ExprId → Prop) (V : VarId → Prop) [DecidablePred E] [DecidablePred V] (s : Stmt) :
    Decidable (s.InRange E V) :=
  decidable_of_iff ((∀ e ∈ s.exprs, E e) ∧ ∀ v ∈ s.vars, V v)
    ⟨fun h => ⟨h.1, h.2⟩, fun h => ⟨h.1, h.2⟩⟩

end Stmt

-- The expressions and variables that exist, and how many blocks there are.
variable {E : ExprId → Prop} {V : VarId → Prop} {m n : Nat}

/-! ### Sound drafts -/

/-- An action mentions only expressions and variables that exist. -/
structure Action.InRange (E : ExprId → Prop) (V : VarId → Prop) (a : Action) : Prop where
  exprs : ∀ e ∈ a.exprs, E e
  vars : ∀ v ∈ a.vars, V v

/-- An edge mentions only expressions that exist, and leads to one of the first blocks. -/
structure Edge.InRange (E : ExprId → Prop) (n : Nat) (edge : Edge) : Prop where
  targets : ∀ b ∈ edge.mentions, b < n
  exprs : ∀ e ∈ edge.exprs, E e

/-- A draft mentions only expressions, variables and blocks that exist. -/
structure Draft.Sound (E : ExprId → Prop) (V : VarId → Prop) (n : Nat) (d : Draft) : Prop where
  actions : ∀ a ∈ d.actions, a.InRange E V
  edge : ∀ edge, d.edge? = some edge → edge.InRange E n
  handlers : ∀ b ∈ d.handlers, b < n

/-- The targets of jumps and the handlers are among the first blocks. -/
structure Scope.Sound (n : Nat) (scope : Scope) : Prop where
  jumps : ∀ jumps, scope.jumps? = some jumps → jumps.onBreak < n ∧ jumps.onContinue < n
  handlers : ∀ b ∈ scope.handlers, b < n

/-- All that the drafts mention exists, and so does the current block. -/
structure Lowering.Sound (E : ExprId → Prop) (V : VarId → Prop) (s : Lowering) : Prop where
  current : s.current < s.drafts.size
  drafts : ∀ (b : BlockId) (d : Draft), s.drafts[b]? = some d → d.Sound E V s.drafts.size

theorem Draft.Sound.blank {handlers : List BlockId} (h : ∀ b ∈ handlers, b < n) :
    Draft.Sound E V n ⟨[], none, handlers⟩ where
  actions := List.forall_mem_nil _
  edge := by simp
  handlers := h

theorem Scope.sound_outermost : Scope.Sound n ⟨none, []⟩ where
  jumps := by simp
  handlers := List.forall_mem_nil _

theorem Edge.InRange.mono {edge : Edge} (h : edge.InRange E m) (hle : m ≤ n) : edge.InRange E n :=
  ⟨fun b hb => Nat.lt_of_lt_of_le (h.targets b hb) hle, h.exprs⟩

theorem Draft.Sound.mono {d : Draft} (h : d.Sound E V m) (hle : m ≤ n) : d.Sound E V n :=
  ⟨h.actions, fun edge hedge => (h.edge edge hedge).mono hle,
    fun b hb => Nat.lt_of_lt_of_le (h.handlers b hb) hle⟩

theorem Scope.Sound.mono {scope : Scope} (h : scope.Sound m) (hle : m ≤ n) : scope.Sound n where
  jumps jumps hjumps := by
    obtain ⟨hbreak, hcontinue⟩ := h.jumps jumps hjumps
    exact ⟨Nat.lt_of_lt_of_le hbreak hle, Nat.lt_of_lt_of_le hcontinue hle⟩
  handlers b hb := Nat.lt_of_lt_of_le (h.handlers b hb) hle

/-- The scope of a loop is sound if the blocks that it jumps to exist. -/
theorem Scope.Sound.inLoop {scope : Scope} (h : scope.Sound n) {onBreak onContinue : Nat}
    (hbreak : onBreak < n) (hcontinue : onContinue < n) :
    (scope.inLoop onBreak onContinue).Sound n := by
  refine ⟨fun jumps hjumps => ?_, h.handlers⟩
  cases hjumps
  exact ⟨hbreak, hcontinue⟩

/-- The scope of a region is sound if its catches and its finally block exist. -/
theorem Scope.Sound.inRegion {scope : Scope} (h : scope.Sound n) {catches : List BlockId}
    {finally? : Option BlockId} (hcatches : ∀ b ∈ catches, b < n)
    (hfinally : ∀ b ∈ finally?, b < n) : (scope.inRegion catches finally?).Sound n := by
  refine ⟨h.jumps, fun b hb => ?_⟩
  rcases List.mem_append.1 hb with hb | hb
  · exact hcatches b hb
  · exact hfinally b (Option.mem_toList.1 hb)

theorem Scope.Sound.inCatch {scope : Scope} (h : scope.Sound n) {finally? : Option BlockId}
    (hfinally : ∀ b ∈ finally?, b < n) : (scope.inCatch finally?).Sound n := by
  refine ⟨h.jumps, fun b hb => ?_⟩
  rcases List.mem_append.1 hb with hb | hb
  · exact h.handlers b hb
  · exact hfinally b (Option.mem_toList.1 hb)

namespace Lowering.Sound

variable {s : Lowering}

/-- A new block mentions its handlers only. -/
theorem opened (h : s.Sound E V) {handlers : List BlockId} (hhandlers : ∀ b ∈ handlers, b < n)
    (hn : n ≤ s.drafts.size) : (s.opened handlers).Sound E V := by
  have hle : s.drafts.size ≤ (s.opened handlers).drafts.size := by
    rw [size_opened]
    exact Nat.le_succ _
  refine ⟨Nat.lt_of_lt_of_le h.current hle, fun b d hd => ?_⟩
  rcases Nat.lt_or_ge b s.drafts.size with hlt | hge
  · rw [opened_of_lt handlers hlt] at hd
    exact (h.drafts b d hd).mono hle
  · have hnew : d = ⟨[], none, handlers⟩ := by
      have hlt := (Array.getElem?_eq_some_iff.1 hd).1
      rw [size_opened] at hlt
      obtain rfl : b = s.drafts.size := Nat.le_antisymm (Nat.le_of_lt_succ hlt) hge
      rw [Lowering.opened, Array.getElem?_push_size] at hd
      exact (Option.some.inj hd).symm
    subst hnew
    exact .blank fun b hb => Nat.lt_of_lt_of_le (Nat.lt_of_lt_of_le (hhandlers b hb) hn) hle

/-- A change that keeps drafts sound keeps the lowering sound. -/
theorem edited (h : s.Sound E V) (b : BlockId) {f : Draft → Draft}
    (hf : ∀ d : Draft, d.Sound E V s.drafts.size → (f d).Sound E V s.drafts.size) :
    (s.edited b f).Sound E V := by
  refine ⟨?_, fun b' d hd => ?_⟩
  · rw [size_edited]
    exact h.current
  · rw [size_edited]
    by_cases hb : b' = b
    · subst hb
      cases hold : s.drafts[b']? with
      | none => simp [Lowering.edited, Array.getElem?_modify, hold] at hd
      | some old =>
          rw [edited_self f hold] at hd
          cases hd
          exact hf old (h.drafts b' old hold)
    · rw [edited_of_ne f hb] at hd
      exact h.drafts b' d hd

/-- A block may be closed with an edge that mentions only what exists. -/
theorem closed (h : s.Sound E V) (b : BlockId) {edge : Edge}
    (hedge : edge.InRange E s.drafts.size) : (s.closed b edge).Sound E V := by
  refine h.edited b fun d hd => ⟨hd.actions, fun edge' hedge' => ?_, hd.handlers⟩
  cases hold : d.edge? with
  | none =>
      rw [hold] at hedge'
      cases hedge'
      exact hedge
  | some old =>
      rw [hold] at hedge'
      cases hedge'
      exact hd.edge _ hold

end Lowering.Sound

/-! ### Sound scripts -/

namespace Stroke

/-- What a stroke mentions exists where there are `m` blocks. -/
def InRange (E : ExprId → Prop) (V : VarId → Prop) (m : Nat) : Stroke → Prop
  | .fresh handlers => ∀ b ∈ handlers, b < m
  | .enter b => b < m
  | .close _ edge => edge.InRange E m
  | .finish edge => edge.InRange E m
  | .emit a => a.InRange E V
  | .guard _ handlers => ∀ b ∈ handlers, b < m
  | .body scope stmts => scope.Sound m ∧ ∀ s ∈ nestedAll stmts, s.InRange E V

theorem InRange.mono {k : Stroke} (h : k.InRange E V m) (hle : m ≤ n) : k.InRange E V n := by
  cases k with
  | fresh handlers => exact fun b hb => Nat.lt_of_lt_of_le (h b hb) hle
  | enter b => exact Nat.lt_of_lt_of_le h hle
  | close b edge => exact Edge.InRange.mono h hle
  | finish edge => exact Edge.InRange.mono h hle
  | emit a => exact h
  | guard b handlers => exact fun b hb => Nat.lt_of_lt_of_le (h b hb) hle
  | body scope stmts => exact ⟨h.1.mono hle, h.2⟩

/-- What exists at some time exists later. -/
theorem Passes.mono {ks : List Stroke} (h : Passes (InRange E V) m ks) (hle : m ≤ n) :
    Passes (InRange E V) n ks := by
  induction ks generalizing m n with
  | nil => trivial
  | cons k rest ih => exact ⟨h.1.mono hle, ih h.2 (Nat.add_le_add_right hle _)⟩

/-- A stroke in range keeps a lowering sound, if what it lowers does. -/
theorem InRange.play {k : Stroke} {s : Lowering} (hk : k.InRange E V m) (hm : m ≤ s.drafts.size)
    (hs : s.Sound E V)
    (hbody : ∀ scope stmts, k = .body scope stmts → scope.Sound s.drafts.size →
      (∀ s ∈ nestedAll stmts, s.InRange E V) → ((lowerAll scope stmts).run s).2.Sound E V) :
    (k.play s).Sound E V := by
  cases k with
  | fresh handlers => exact hs.opened hk hm
  | enter b => exact ⟨Nat.lt_of_lt_of_le hk hm, hs.drafts⟩
  | close b edge => exact hs.closed b (Edge.InRange.mono hk hm)
  | finish edge => exact hs.closed s.current (Edge.InRange.mono hk hm)
  | emit a =>
      refine hs.edited s.current fun d hd => ⟨fun a' ha' => ?_, hd.edge, hd.handlers⟩
      rcases List.mem_append.1 ha' with hold | hnew
      · exact hd.actions a' hold
      · rw [List.mem_singleton.1 hnew]
        exact hk
  | guard b handlers =>
      refine hs.edited b fun d hd => ⟨hd.actions, hd.edge, fun b' hb' => ?_⟩
      exact Nat.lt_of_lt_of_le (hk b' hb') hm
  | body scope stmts => exact hbody scope stmts rfl (hk.1.mono hm) hk.2

theorem InRange.enter {b : Nat} (h : b < m) : (Stroke.enter b).InRange E V m :=
  h

theorem InRange.body {scope : Scope} {stmts : List Stmt} (hscope : scope.Sound n) (hle : n ≤ m)
    (hstmts : ∀ s ∈ nestedAll stmts, s.InRange E V) : (Stroke.body scope stmts).InRange E V m :=
  ⟨hscope.mono hle, hstmts⟩

variable {handlers : List BlockId} {exprs : List ExprId} {count : Nat} {ks : List Stroke}

theorem countP_gain_opens : (opens handlers count).countP (fun k => k.gain = 1) = count := by
  simp [opens, List.countP_replicate, gain]

theorem countP_gain_emits : (emits exprs).countP (fun k => k.gain = 1) = 0 := by
  simp [emits, List.countP_map, gain]

/-- After some blocks were opened, strokes may mention them. -/
theorem passes_opens_append (h : ∀ b ∈ handlers, b < n) (hle : n ≤ m)
    (h' : Passes (InRange E V) (m + count) ks) :
    Passes (InRange E V) m (opens handlers count ++ ks) := by
  refine passes_append (passes_opens fun m' hm' b hb => ?_) (by rwa [countP_gain_opens])
  exact Nat.lt_of_lt_of_le (h b hb) (Nat.le_trans hle hm')

theorem passes_emits_append (h : ∀ e ∈ exprs, E e) (h' : Passes (InRange E V) m ks) :
    Passes (InRange E V) m (emits exprs ++ ks) := by
  refine passes_append (passes_emits fun e he => ⟨fun e' he' => ?_, List.forall_mem_nil _⟩) ?_
  · rw [List.mem_singleton.1 he']
    exact h e he
  · rwa [countP_gain_emits]

/-- A jump mentions its target. -/
theorem passes_leaves {target? : Option BlockId} (h : ∀ b ∈ handlers, b < n)
    (htarget : ∀ b ∈ target?, b < n) : Passes (InRange E V) n (leaves handlers n target?) := by
  cases target? with
  | none => exact ⟨h, .enter (Nat.lt_succ_self n), trivial⟩
  | some target =>
      refine ⟨⟨fun b hb => ?_, List.forall_mem_nil _⟩, h, .enter (Nat.lt_succ_self n), trivial⟩
      rw [List.mem_singleton.1 hb]
      exact htarget target rfl

end Stroke

theorem Edge.InRange.goto {target : Nat} (h : target < n) : (Edge.goto target).InRange E n := by
  refine ⟨fun b hb => ?_, List.forall_mem_nil _⟩
  rwa [List.mem_singleton.1 hb]

theorem Edge.InRange.branch {cond : ExprId} {ifTrue ifFalse : Nat} (hcond : E cond)
    (htrue : ifTrue < n) (hfalse : ifFalse < n) :
    (Edge.branch cond ifTrue ifFalse).InRange E n := by
  constructor
  · simp [Edge.mentions, Edge.successors, htrue, hfalse]
  · simp [Edge.exprs, hcond]

/-- A `switch` mentions its value, its labels and its arms. -/
theorem Edge.InRange.switch {value : ExprId} {stop : Nat} {arms : List Arm} (hvalue : E value)
    (hstop : stop < n) (hbody : ∀ arm ∈ arms, arm.body < n)
    (hlabel : ∀ arm ∈ arms, ∀ e, arm.label? = some e → E e) :
    (Edge.switch value arms stop).InRange E n := by
  constructor
  · intro b hb
    rcases List.mem_append.1 hb with hsuccessor | hlast
    · rcases List.mem_append.1 hsuccessor with hcase | hdefault
      · obtain ⟨arm, harm, rfl⟩ := List.mem_map.1 hcase
        exact hbody arm harm
      · split at hdefault
        · cases hdefault
        · rwa [List.mem_singleton.1 hdefault]
    · rwa [List.mem_singleton.1 hlast]
  · intro e he
    rcases List.mem_cons.1 he with rfl | he
    · exact hvalue
    · obtain ⟨arm, harm, hsome⟩ := List.mem_filterMap.1 he
      exact hlabel arm harm e hsome

theorem Edge.InRange.protect {body stop : Nat} {catches : List BlockId} {finally? : Option BlockId}
    (hbody : body < n) (hcatches : ∀ b ∈ catches, b < n) (hfinally : ∀ b ∈ finally?, b < n)
    (hstop : stop < n) : (Edge.protect body catches finally? stop).InRange E n := by
  refine ⟨fun b hb => ?_, List.forall_mem_nil _⟩
  simp only [Edge.mentions, Edge.successors, List.mem_append, List.mem_singleton,
    Option.mem_toList] at hb
  rcases hb with rfl | (hb | hb) | rfl
  · exact hbody
  · exact hcatches b hb
  · exact hfinally b hb
  · exact hstop

namespace Stroke

variable {scope : Scope} {b stop : Nat}

/-- The script of the catches mentions only what exists. -/
theorem passes_clauses {after : Nat} {cs : List (Catch Stmt)} (hscope : scope.Sound m)
    (hafter : after < m) (hblocks : b + cs.length ≤ m) (hvars : ∀ c ∈ cs, ∀ v ∈ c.var?, V v)
    (hbodies : ∀ c ∈ cs, ∀ s ∈ nestedAll c.body, s.InRange E V) :
    Passes (InRange E V) m (catches scope after b cs) := by
  refine passes_catches (fun _ _ _ => hscope.handlers) (fun b' _ hlt => .enter (by omega))
    (fun c hc => ⟨List.forall_mem_nil _, fun v hv => ?_⟩)
    (fun c hc => .body hscope (Nat.le_refl m) (hbodies c hc)) (.goto hafter)
  exact hvars c hc v (Option.mem_toList.1 hv)

theorem passes_finals {finally? : Option (List Stmt)} (hscope : scope.Sound m) (hb : b < m)
    (hstop : stop < m) (hbody : ∀ stmts ∈ finally?, ∀ s ∈ nestedAll stmts, s.InRange E V) :
    Passes (InRange E V) m (finals scope stop b finally? ++ [.enter stop]) := by
  cases finally? with
  | none => exact ⟨hstop, trivial⟩
  | some stmts =>
      exact ⟨hb, .body hscope (Nat.le_refl m) (hbody stmts rfl), .goto hstop, .enter hstop, trivial⟩

/-- The script of the arms mentions only what exists. -/
theorem passes_arms {cs : List (Case Stmt)} (hscope : scope.Sound m) (hstop : stop < m)
    (hblocks : b + cs.length ≤ m) (hbodies : ∀ c ∈ cs, ∀ s ∈ nestedAll c.body, s.InRange E V) :
    Passes (InRange E V) m (cases scope stop b cs ++ [.enter stop]) := by
  have hend : Passes (InRange E V) m [.enter stop] := ⟨hstop, trivial⟩
  refine passes_append (passes_cases (fun b' _ hlt => .enter (by omega))
    (fun c hc => .body hscope (Nat.le_refl m) (hbodies c hc)) fun t ht => .goto (by omega)) ?_
  exact hend.mono (Nat.le_add_right ..)

end Stroke

namespace Stmt

variable {scope : Scope}

/-- The arms of a `switch` lead to the blocks that were opened for its cases. -/
theorem of_mem_arms {cases : List (Case Stmt)} {arm : Arm}
    (h : arm ∈ cases.zipWith (fun c b => ⟨c.label?, b⟩) (List.range' n cases.length)) :
    arm.body < n + cases.length ∧ ∃ c ∈ cases, arm.label? = c.label? := by
  obtain ⟨i, hi⟩ := List.mem_iff_getElem?.1 h
  obtain ⟨c, b, hc, hb, rfl⟩ := List.getElem?_zipWith_eq_some.1 hi
  exact ⟨(List.mem_range'_1.1 (List.mem_of_getElem? hb)).2, c, List.mem_of_getElem? hc, rfl⟩

/-- The script of a `switch` mentions only what exists. -/
theorem passes_switch {value : ExprId} {cases : List (Case Stmt)} (hscope : scope.Sound n)
    (hvalue : E value) (hlabels : ∀ c ∈ cases, ∀ e ∈ c.label?, E e)
    (hbodies : ∀ c ∈ cases, ∀ s ∈ nestedAll c.body, s.InRange E V) :
    Stroke.Passes (Stroke.InRange E V) n ((switch value cases).script scope n) := by
  let stop := n + cases.length
  have hscope' : scope.Sound (stop + 1) := hscope.mono (by omega)
  have hstop : stop < stop + 1 := Nat.lt_succ_self stop
  let arms : List Arm := cases.zipWith (fun c b => ⟨c.label?, b⟩) (List.range' n cases.length)
  have hedge : (Edge.switch value arms stop).InRange E (stop + 1) := by
    refine .switch hvalue hstop (fun arm harm => ?_) fun arm harm e he => ?_
    · exact Nat.lt_succ_of_lt (of_mem_arms harm).1
    · obtain ⟨-, c, hc, hlabel⟩ := of_mem_arms harm
      exact hlabels c hc e (hlabel ▸ he)
  have harms := Stroke.passes_arms (hscope'.inLoop hstop hstop) hstop (Nat.le_succ stop) hbodies
  simp only [script, List.append_assoc]
  exact Stroke.passes_opens_append hscope.handlers (Nat.le_refl n)
    ⟨(hscope.mono (Nat.le_add_right ..)).handlers, hedge, harms⟩

/-- The blocks of a protected region are there before its body is lowered. -/
theorem passes_protect {body : List Stmt} {catches : List (Catch Stmt)}
    {finally? : Option (List Stmt)} (hscope : scope.Sound n)
    (hvars : ∀ c ∈ catches, ∀ v ∈ c.var?, V v) (hbody : ∀ s ∈ nestedAll body, s.InRange E V)
    (hcatches : ∀ c ∈ catches, ∀ s ∈ nestedAll c.body, s.InRange E V)
    (hfinally : ∀ stmts ∈ finally?, ∀ s ∈ nestedAll stmts, s.InRange E V) :
    Stroke.Passes (Stroke.InRange E V) n ((protect body catches finally?).script scope n) := by
  let region := Region.numbered n catches finally?
  have hle : n + catches.length ≤ region.stop := Region.le_stop_numbered
  have hcatch : ∀ b ∈ region.catches, b < region.stop := fun b hb =>
    Nat.lt_of_lt_of_le (Region.mem_catches_numbered.1 hb).2 hle
  have hfinal : ∀ b ∈ region.finally?, b < region.stop := fun b hb =>
    Region.lt_stop_of_mem_finally? hb
  have hafter : region.finally?.getD region.stop < region.stop + 2 := by
    cases h : region.finally? with
    | none => exact Nat.lt_add_of_pos_right Nat.two_pos
    | some b => exact Nat.lt_add_right 2 (hfinal b h)
  have hscope' : scope.Sound region.stop := hscope.mono (Nat.le_trans (Nat.le_add_right ..) hle)
  have hinner : (scope.inRegion region.catches region.finally?).Sound region.stop :=
    hscope'.inRegion hcatch hfinal
  have hedge : (Edge.protect (region.stop + 1) region.catches region.finally? region.stop).InRange E
      (region.stop + 2) :=
    .protect (by omega) (fun b hb => Nat.lt_add_right 2 (hcatch b hb))
      (fun b hb => Nat.lt_add_right 2 (hfinal b hb)) (by omega)
  have hclauses := Stroke.passes_clauses
    ((hscope'.inCatch hfinal).mono (Nat.le_add_right _ 2)) hafter
    (Nat.le_add_right_of_le hle) hvars hcatches
  have hend := Stroke.passes_finals (hscope'.mono (Nat.le_add_right _ 2)) (by omega)
    (Nat.lt_add_of_pos_right Nat.two_pos) hfinally (b := n + catches.length)
  have hrest := Stroke.passes_append hclauses (hend.mono (Nat.le_add_right ..))
  simp only [script, Stroke.inside, List.append_assoc]
  exact Stroke.passes_opens_append hscope.handlers (Nat.le_refl n)
    (Stroke.passes_opens_append hscope.handlers (Nat.le_add_right ..)
      ⟨hscope'.handlers, (hinner.mono (Nat.le_succ _)).handlers, hedge,
        .enter (Nat.lt_succ_self _), .body hinner (Nat.le_add_right _ 2) hbody,
        .goto hafter, hrest⟩)

end Stmt

/-- A statement in range has a script in range. -/
theorem Stmt.InRange.script {stmt : Stmt} {scope : Scope} (h : stmt.InRange E V)
    (hscope : scope.Sound n) (hbodies : ∀ body ∈ stmt.bodies, ∀ s ∈ nestedAll body, s.InRange E V) :
    Stroke.Passes (Stroke.InRange E V) n (stmt.script scope n) := by
  obtain ⟨hexprs, hvars⟩ := h
  cases stmt with
  | act action => exact ⟨⟨hexprs, hvars⟩, trivial⟩
  | ifElse cond thenBody elseBody =>
      have hcond : E cond := hexprs cond (List.mem_singleton_self cond)
      refine Stroke.passes_opens_append hscope.handlers (Nat.le_refl n)
        ⟨.branch hcond (by omega) (by omega),
          .enter (by omega), .body hscope (by omega) (hbodies _ ?_), .goto (by omega),
          .enter (by omega), .body hscope (by omega) (hbodies _ ?_), .goto (by omega),
          .enter (by omega), trivial⟩
      all_goals simp [bodies]
  | whileLoop cond body =>
      have hcond : E cond := hexprs cond (List.mem_singleton_self cond)
      have hloop : (scope.inLoop (n + 2) n).Sound (n + 3) :=
        (hscope.mono (by omega)).inLoop (by omega) (by omega)
      exact Stroke.passes_opens_append hscope.handlers (Nat.le_refl n)
        ⟨.goto (by omega), .branch hcond (by omega) (by omega),
          .enter (by omega), .body hloop (by omega) (hbodies body (List.mem_singleton_self body)),
          .goto (by omega), .enter (by omega), trivial⟩
  | doLoop body cond =>
      have hcond : E cond := hexprs cond (List.mem_singleton_self cond)
      have hloop : (scope.inLoop (n + 2) (n + 1)).Sound (n + 3) :=
        (hscope.mono (by omega)).inLoop (by omega) (by omega)
      exact Stroke.passes_opens_append hscope.handlers (Nat.le_refl n)
        ⟨.goto (by omega),
          .enter (by omega), .body hloop (by omega) (hbodies body (List.mem_singleton_self body)),
          .goto (by omega), .branch hcond (by omega) (by omega), .enter (by omega), trivial⟩
  | forLoop init cond? step body =>
      simp only [Stmt.exprs, List.mem_append] at hexprs
      have hloop : (scope.inLoop (n + 3) (n + 2)).Sound (n + 4) :=
        (hscope.mono (by omega)).inLoop (by omega) (by omega)
      simp only [Stmt.script, List.append_assoc]
      refine Stroke.passes_emits_append (fun e he => hexprs e (.inl (.inl he))) ?_
      refine Stroke.passes_opens_append hscope.handlers (Nat.le_refl n)
        ⟨.goto (by omega), ?_,
          .enter (by omega), .body hloop (by omega) (hbodies body (List.mem_singleton_self body)),
          .goto (by omega), .enter (by omega), ?_⟩
      · cases cond? with
        | none => exact .goto (by omega)
        | some cond => exact .branch (hexprs cond (.inl (.inr (by simp)))) (by omega) (by omega)
      · exact Stroke.passes_emits_append (fun e he => hexprs e (.inr he))
          ⟨.goto (by omega), .enter (by omega), trivial⟩
  | foreach collection key? value byRef body =>
      have hloop : (scope.inLoop (n + 2) n).Sound (n + 3) :=
        (hscope.mono (by omega)).inLoop (by omega) (by omega)
      refine Stroke.passes_opens_append hscope.handlers (Nat.le_refl n)
        ⟨⟨?_, ?_⟩, ⟨?_, hexprs⟩,
          .enter (by omega), .body hloop (by omega) (hbodies body (List.mem_singleton_self body)),
          .goto (by omega), .enter (by omega), trivial⟩
      · simp [Edge.mentions, Edge.successors]
      · exact fun e he => hexprs e (by simp_all [Edge.exprs, Stmt.exprs])
      · simp [Edge.mentions, Edge.successors, Stroke.gain]
  | switch value cases =>
      refine passes_switch hscope (hexprs value (List.mem_cons_self ..)) (fun c hc e he => ?_)
        fun c hc => hbodies c.body (List.mem_map_of_mem hc)
      exact hexprs e (List.mem_cons_of_mem _ (List.mem_filterMap.2 ⟨c, hc, he⟩))
  | protect body catches finally? =>
      simp only [bodies, List.mem_cons, List.mem_append, List.mem_map, Option.mem_toList] at hbodies
      refine passes_protect hscope (fun c hc v hv => ?_) ?_ ?_ ?_
      · exact hvars v (List.mem_filterMap.2 ⟨c, hc, hv⟩)
      · exact hbodies body (.inl rfl)
      · exact fun c hc => hbodies c.body (.inr (.inl ⟨c, hc, rfl⟩))
      · exact fun stmts hstmts => hbodies stmts (.inr (.inr hstmts))
  | ret | raise | exit =>
      exact ⟨⟨List.forall_mem_nil _, hexprs⟩, hscope.handlers, .enter (Nat.lt_succ_self n), trivial⟩
  | brk =>
      refine Stroke.passes_leaves hscope.handlers fun b hb => ?_
      obtain ⟨jumps, hjumps, rfl⟩ := Option.map_eq_some_iff.1 hb
      exact (hscope.jumps jumps hjumps).1
  | cont =>
      refine Stroke.passes_leaves hscope.handlers fun b hb => ?_
      obtain ⟨jumps, hjumps, rfl⟩ := Option.map_eq_some_iff.1 hb
      exact (hscope.jumps jumps hjumps).2

/-- Lowering statements in range keeps a lowering sound. -/
theorem Lowering.Sound.lowerAll {stmts : List Stmt} {scope : Scope} {s : Lowering}
    (hstmts : ∀ stmt ∈ nestedAll stmts, stmt.InRange E V) (hscope : scope.Sound s.drafts.size)
    (hs : s.Sound E V) : ((lowerAll scope stmts).run s).2.Sound E V := by
  induction stmts using Stmt.bodies_induction generalizing scope s with
  | nil => exact hs
  | cons stmt rest ihBodies ihRest =>
      have hhead : stmt.InRange E V :=
        hstmts stmt (List.mem_append_left _ stmt.mem_nested_self)
      have hbodies : ∀ body ∈ stmt.bodies, ∀ t ∈ nestedAll body, t.InRange E V :=
        fun body hbody t ht => hstmts t (List.mem_append_left _ (Stmt.nestedAll_subset hbody ht))
      have hscript := hhead.script hscope hbodies
      have hs' : (Stroke.playAll (stmt.script scope s.drafts.size) s).Sound E V := by
        refine hscript.playAll (Nat.le_refl _) hs fun k hk m s' hm hs' hok => ?_
        refine hok.play hm hs' fun scope' body hbody hscope' hstmts' => ?_
        subst hbody
        exact ihBodies body (Stroke.mem_bodies hk) hstmts' hscope' hs'
      rw [run_lowerAll_cons]
      refine ihRest (fun t ht => hstmts t (List.mem_append_right _ ht)) (hscope.mono ?_) hs'
      exact Stroke.le_size_playAll s fun k _ s => Nat.le_of_add_right_le (Stroke.le_size_play k s)

theorem Lowering.sound_start : Lowering.start.Sound E V := by
  refine ⟨Nat.zero_lt_one, fun b d hd => ?_⟩
  have hb : b = 0 := Nat.lt_one_iff.1 (Array.getElem?_eq_some_iff.1 hd).1
  subst hb
  cases hd
  exact .blank (List.forall_mem_nil _)

/-- Every block comes from a draft; without an edge, it returns nothing. -/
theorem Lowering.exists_of_blocks {s : Lowering} {i : BlockId} {k : Block}
    (h : s.blocks[i]? = some k) :
    ∃ d, s.drafts[i]? = some d ∧ k = ⟨i, d.actions, d.edge?.getD (.ret none), d.handlers⟩ := by
  rw [blocks, Array.getElem?_mapIdx] at h
  obtain ⟨d, hd, rfl⟩ := Option.map_eq_some_iff.1 h
  exact ⟨d, hd, rfl⟩

/-- A block that was never ended returns nothing, which mentions nothing. -/
theorem Draft.Sound.edge_inRange {d : Draft} (h : d.Sound E V n) :
    (d.edge?.getD (.ret none)).InRange E n := by
  cases hedge : d.edge? with
  | none => exact ⟨List.forall_mem_nil _, List.forall_mem_nil _⟩
  | some edge => exact h.edge edge hedge

/-- A sound lowering gives a well-formed body. -/
theorem Lowering.Sound.wellFormed {s : Lowering} {b : Builder}
    (hs : s.Sound (· < b.exprs.size) (· < b.vars.length))
    (hchildren : ∀ (e : ExprId) (x : Expr), b.exprs[e]? = some x → ∀ c ∈ x.children, c < e)
    (hvars : ∀ (e : ExprId) (x : Expr), b.exprs[e]? = some x → ∀ v ∈ x.vars, v < b.vars.length) :
    Body.WellFormed ⟨b.routine, b.kind, b.vars, b.exprs, s.blocks, 0⟩ := by
  have hsize : s.blocks.size = s.drafts.size := Array.size_mapIdx
  exact {
    entry := hsize ▸ Nat.zero_lt_of_lt hs.current
    children := fun {e x} => hchildren e x
    exprVars := fun {e x} => hvars e x
    labels := by
      intro i k hk
      obtain ⟨d, hd, rfl⟩ := exists_of_blocks hk
      rfl
    targets := by
      intro i k hk target htarget
      obtain ⟨d, hd, rfl⟩ := exists_of_blocks hk
      rw [hsize]
      rcases List.mem_append.1 htarget with hedge | hhandler
      · exact (hs.drafts i d hd).edge_inRange.targets target hedge
      · exact (hs.drafts i d hd).handlers target hhandler
    blockExprs := by
      intro i k hk e he
      obtain ⟨d, hd, rfl⟩ := exists_of_blocks hk
      rcases List.mem_append.1 he with haction | hedge
      · obtain ⟨a, ha, he⟩ := List.mem_flatMap.1 haction
        exact ((hs.drafts i d hd).actions a ha).exprs e he
      · exact (hs.drafts i d hd).edge_inRange.exprs e hedge
    blockVars := by
      intro i k hk v hv
      obtain ⟨d, hd, rfl⟩ := exists_of_blocks hk
      obtain ⟨a, ha, hv⟩ := List.mem_flatMap.1 hv
      exact ((hs.drafts i d hd).actions a ha).vars v hv }

/-- A body built from expressions that mention only earlier ones, and from any statements over them,
is well formed, and the check finds nothing wrong with it. -/
theorem build_wellFormed (b : Builder) (stmts : List Stmt)
    (hchildren : ∀ (e : ExprId) (x : Expr), b.exprs[e]? = some x → ∀ c ∈ x.children, c < e)
    (hvars : ∀ (e : ExprId) (x : Expr), b.exprs[e]? = some x → ∀ v ∈ x.vars, v < b.vars.length)
    (hstmts : ∀ s ∈ nestedAll stmts, s.InRange (· < b.exprs.size) (· < b.vars.length)) :
    (b.build stmts).malformed? = none ∧ (b.build stmts).WellFormed := by
  have hsound : ((lowerAll ⟨none, []⟩ stmts).run start).2.Sound (· < b.exprs.size)
      (· < b.vars.length) := sound_start.lowerAll hstmts Scope.sound_outermost
  have hwell : (b.build stmts).WellFormed := hsound.wellFormed hchildren hvars
  exact ⟨Body.malformed?_eq_none_iff.2 hwell, hwell⟩

namespace Sample

/-- One variable, its value, and a test of it. -/
def testing : Builder :=
  ⟨0, .function, [⟨"x", .localVar⟩], #[.var 0, .isBlank 0]⟩

/-- A jump without a loop, a `switch` without cases, and dead code in nested regions. -/
def tangle : List Stmt :=
  [.brk, .switch 0 [],
    .protect [.protect [.raise 0, .whileLoop 1 [.cont]] [] (some [.ret none])]
      [⟨[], some 0, [.brk, .act (.echo [1])]⟩] none,
    .ret (some 1), .act (.eval 0)]

end Sample

/-- Loops, jumps and a region, all in one body. -/
theorem build_wellFormed_tangle :
    (∀ s ∈ nestedAll Sample.tangle, s.InRange (· < 2) (· < 1)) ∧
      (Sample.testing.build Sample.tangle).malformed? = none ∧
      (Sample.testing.build Sample.tangle).WellFormed := by
  have hstmts : ∀ s ∈ nestedAll Sample.tangle, s.InRange (· < 2) (· < 1) := by decide
  have hexprs : ∀ (e : ExprId) (x : Expr), Sample.testing.exprs[e]? = some x →
      (∀ c ∈ x.children, c < e) ∧ ∀ v ∈ x.vars, v < 1 := by
    intro e x hx
    rcases e with _ | _ | e
    · cases hx
      decide
    · cases hx
      decide
    · cases hx
  exact ⟨hstmts, build_wellFormed Sample.testing Sample.tangle (fun e x hx => (hexprs e x hx).1)
    (fun e x hx => (hexprs e x hx).2) hstmts⟩

end FlowTyping
