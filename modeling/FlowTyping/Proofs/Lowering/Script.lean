import FlowTyping.Proofs.Lowering.Writing

/-!
# The script of a statement

Lowering a statement is a fixed sequence of strokes: blocks are opened, entered, written and ended,
and bodies are lowered in between. The numbers of the blocks depend only on how many blocks there
are at the outset. Main statement: `run_lower`.
-/

namespace FlowTyping

open Lower Lowering

/-- One stroke of lowering. -/
inductive Stroke where
  | fresh (handlers : List BlockId)
  | enter (b : BlockId)
  | close (b : BlockId) (edge : Edge)
  | finish (edge : Edge)
  | emit (a : Action)
  /-- Gives a block other handlers. -/
  | guard (b : BlockId) (handlers : List BlockId)
  | body (scope : Scope) (stmts : List Stmt)

namespace Stroke

/-- What a stroke does to a lowering. -/
def play : Stroke → Lowering → Lowering
  | .fresh handlers, s => s.opened handlers
  | .enter b, s => s.entering b
  | .close b edge, s => s.closed b edge
  | .finish edge, s => s.closed s.current edge
  | .emit a, s => s.edited s.current fun d => { d with actions := d.actions ++ [a] }
  | .guard b handlers, s => s.edited b fun d => { d with handlers := handlers }
  | .body scope stmts, s => ((lowerAll scope stmts).run s).2

/-- The strokes of a script, one after the other. -/
def playAll (strokes : List Stroke) (s : Lowering) : Lowering :=
  strokes.foldl (fun s k => k.play s) s

/-- Opens some blocks one after the other. -/
def opens (handlers : List BlockId) (count : Nat) : List Stroke :=
  List.replicate count (.fresh handlers)

/-- The strokes that evaluate some expressions. -/
def emits (exprs : List ExprId) : List Stroke :=
  exprs.map fun e => .emit (.eval e)

/-- Leaves for a block, or just stops where there is none. -/
def leaves (handlers : List BlockId) (n : Nat) (target? : Option BlockId) : List Stroke :=
  (target?.toList.map fun target => .finish (.leave target)) ++ [.fresh handlers, .enter n]

/-- Lowers cases whose blocks are numbered from `b`. -/
def cases (scope : Scope) (stop : Nat) : (b : Nat) → List (Case Stmt) → List Stroke
  | _, [] => []
  | b, c :: rest =>
    [.enter b, .body scope c.body,
      .finish (.goto ((List.range' (b + 1) rest.length).headD stop))] ++
      cases scope stop (b + 1) rest

/-- Lowers catches whose blocks are numbered from `b`. -/
def catches (scope : Scope) (after : Nat) : (b : Nat) → List (Catch Stmt) → List Stroke
  | _, [] => []
  | b, c :: rest =>
    [.guard b scope.handlers, .enter b, .emit (.bindException c.var? c.classes), .body scope c.body,
      .finish (.goto after)] ++ catches scope after (b + 1) rest

/-- Lowers what a finally block runs. -/
def finals (scope : Scope) (stop b : Nat) : Option (List Stmt) → List Stroke
  | some stmts => [.enter b, .body scope stmts, .finish (.goto stop)]
  | none => []

end Stroke

/-- The blocks of a protected region. -/
structure Region where
  catches : List BlockId
  finally? : Option BlockId
  stop : BlockId

namespace Region

/-- The region whose blocks are numbered from `n`: first the catches, then the finally block. -/
def numbered (n : Nat) (catches : List (Catch Stmt)) (finally? : Option (List Stmt)) : Region :=
  ⟨List.range' n catches.length, finally?.map fun _ => n + catches.length,
    n + catches.length + finally?.toList.length⟩

variable {n : Nat} {catches : List (Catch Stmt)} {finally? : Option (List Stmt)} {b : BlockId}

/-- The blocks of the catches come first in a region. -/
theorem mem_catches_numbered :
    b ∈ (numbered n catches finally?).catches ↔ n ≤ b ∧ b < n + catches.length :=
  List.mem_range'_1

/-- The block after a region comes after those of its catches. -/
theorem le_stop_numbered : n + catches.length ≤ (numbered n catches finally?).stop :=
  Nat.le_add_right ..

theorem lt_stop_of_mem_finally? (h : b ∈ (numbered n catches finally?).finally?) :
    b < (numbered n catches finally?).stop := by
  cases finally? with
  | none => cases h
  | some stmts =>
      cases h
      exact Nat.lt_succ_self _

end Region

/-- Opens the blocks of a protected region and lowers its body. -/
def Stroke.inside (scope : Scope) (n : Nat) (body : List Stmt) (catches : List (Catch Stmt))
    (finally? : Option (List Stmt)) : List Stroke :=
  let region := Region.numbered n catches finally?
  let inner := scope.inRegion region.catches region.finally?
  opens scope.handlers catches.length ++ opens scope.handlers finally?.toList.length ++
    [.fresh scope.handlers, .fresh inner.handlers,
      .finish (.protect (region.stop + 1) region.catches region.finally? region.stop),
      .enter (region.stop + 1), .body inner body,
      .finish (.goto (region.finally?.getD region.stop))]

/-- The strokes that lower a statement where `n` blocks are there at the outset. -/
def Stmt.script (scope : Scope) (n : Nat) : Stmt → List Stroke
  | .act action => [.emit action]
  | .ifElse cond thenBody elseBody =>
    Stroke.opens scope.handlers 3 ++
      [.finish (.branch cond n (n + 1)),
        .enter n, .body scope thenBody, .finish (.goto (n + 2)),
        .enter (n + 1), .body scope elseBody, .finish (.goto (n + 2)),
        .enter (n + 2)]
  | .whileLoop cond body =>
    Stroke.opens scope.handlers 3 ++
      [.finish (.goto n), .close n (.branch cond (n + 1) (n + 2)),
        .enter (n + 1), .body (scope.inLoop (n + 2) n) body, .finish (.goto n),
        .enter (n + 2)]
  | .doLoop body cond =>
    Stroke.opens scope.handlers 3 ++
      [.finish (.goto n),
        .enter n, .body (scope.inLoop (n + 2) (n + 1)) body, .finish (.goto (n + 1)),
        .close (n + 1) (.branch cond n (n + 2)), .enter (n + 2)]
  | .forLoop init cond? step body =>
    Stroke.emits init ++ Stroke.opens scope.handlers 4 ++
      [.finish (.goto n),
        .close n
          (match cond? with
          | some cond => .branch cond (n + 1) (n + 3)
          | none => .goto (n + 1)),
        .enter (n + 1), .body (scope.inLoop (n + 3) (n + 2)) body, .finish (.goto (n + 2)),
        .enter (n + 2)] ++
      Stroke.emits step ++ [.finish (.goto n), .enter (n + 3)]
  | .foreach collection key? value byRef body =>
    Stroke.opens scope.handlers 3 ++
      [.finish (.iterate collection byRef n),
        .close n (.advance collection key? value byRef (n + 1) (n + 2)),
        .enter (n + 1), .body (scope.inLoop (n + 2) n) body, .finish (.goto n),
        .enter (n + 2)]
  | .switch value cases =>
    let stop := n + cases.length
    Stroke.opens scope.handlers cases.length ++
      [.fresh scope.handlers,
        .finish (.switch value
          (cases.zipWith (fun c b => ⟨c.label?, b⟩) (List.range' n cases.length)) stop)] ++
      Stroke.cases (scope.inLoop stop stop) stop n cases ++ [.enter stop]
  | .protect body catches finally? =>
    let region := Region.numbered n catches finally?
    Stroke.inside scope n body catches finally? ++
      Stroke.catches (scope.inCatch region.finally?) (region.finally?.getD region.stop) n catches ++
      Stroke.finals scope region.stop (n + catches.length) finally? ++ [.enter region.stop]
  | .ret value? => [.finish (.ret value?), .fresh scope.handlers, .enter n]
  | .raise value => [.finish (.raise value), .fresh scope.handlers, .enter n]
  | .exit value? => [.finish (.exit value?), .fresh scope.handlers, .enter n]
  | .brk => Stroke.leaves scope.handlers n (scope.jumps?.map Jumps.onBreak)
  | .cont => Stroke.leaves scope.handlers n (scope.jumps?.map Jumps.onContinue)

namespace Lower

/-- Lowering never fails, so a sequence goes on from what the first part has made. -/
theorem run_bind {α β : Type} (x : Lower α) (f : α → Lower β) (s : Lowering) :
    (x >>= f).run s = (f (x.run s).1).run (x.run s).2 :=
  rfl

theorem run_pure {α : Type} (a : α) (s : Lowering) : (pure a : Lower α).run s = (a, s) :=
  rfl

theorem run_map {α β : Type} (f : α → β) (x : Lower α) (s : Lowering) :
    (f <$> x).run s = (f (x.run s).1, (x.run s).2) :=
  rfl

/-- The number of a new block is how many there are. -/
theorem run_openBlock (handlers : List BlockId) (s : Lowering) :
    (openBlock handlers).run s = (s.drafts.size, s.opened handlers) :=
  rfl

theorem run_enter (b : BlockId) (s : Lowering) : (enter b).run s = ((), s.entering b) :=
  rfl

theorem run_finish (edge : Edge) (s : Lowering) :
    (finish edge).run s = ((), s.closed s.current edge) :=
  rfl

end Lower

namespace Stroke

/-- A script in two parts plays one after the other. -/
theorem playAll_append (ks ks' : List Stroke) (s : Lowering) :
    playAll (ks ++ ks') s = playAll ks' (playAll ks s) :=
  List.foldl_append

/-- The strokes that open blocks add as many as they say. -/
@[simp]
theorem size_playAll_opens (handlers : List BlockId) (count : Nat) (s : Lowering) :
    (playAll (opens handlers count) s).drafts.size = s.drafts.size + count := by
  induction count generalizing s with
  | zero => rfl
  | succ count ih =>
      change (playAll (opens handlers count) (s.opened handlers)).drafts.size = _
      rw [ih, size_opened]
      omega

@[simp]
theorem size_playAll_emits (exprs : List ExprId) (s : Lowering) :
    (playAll (emits exprs) s).drafts.size = s.drafts.size := by
  induction exprs generalizing s with
  | nil => rfl
  | cons e rest ih => exact (ih _).trans (size_edited ..)

end Stroke

namespace Lower

open Stroke (playAll)

/-- Blocks that are opened together have consecutive numbers. -/
theorem run_openBlocks {α : Type} (handlers : List BlockId) (l : List α) (s : Lowering) :
    (openBlocks handlers l).run s =
      (List.range' s.drafts.size l.length, playAll (Stroke.opens handlers l.length) s) := by
  induction l generalizing s with
  | nil => rfl
  | cons a rest ih =>
      have hrest := ih (s.opened handlers)
      rw [size_opened] at hrest
      change (do
        let bs ← openBlocks handlers rest
        return s.drafts.size :: bs : Lower (List BlockId)).run (s.opened handlers) = _
      rw [StateT.run_bind, hrest]
      rfl

/-- A jump is played by its script. -/
theorem run_jump (scope : Scope) (target? : Option BlockId) (s : Lowering) :
    (jump scope target?).run s =
      ((), playAll (Stroke.leaves scope.handlers s.drafts.size target?) s) := by
  cases target? with
  | none => rfl
  | some target =>
      simp only [jump, run_bind, run_finish, run_openBlock, run_enter, closed, size_edited]
      rfl

theorem run_emitAll (exprs : List ExprId) (s : Lowering) :
    (emitAll exprs).run s = ((), playAll (Stroke.emits exprs) s) := by
  induction exprs generalizing s with
  | nil => rfl
  | cons e rest ih => exact ih _

/-- The arms of a `switch` are played by their script. -/
theorem run_lowerCases (scope : Scope) (stop b : Nat) (cs : List (Case Stmt)) (s : Lowering) :
    (lowerCases scope stop cs (List.range' b cs.length)).run s =
      ((), playAll (Stroke.cases scope stop b cs) s) := by
  induction cs generalizing b s with
  | nil => rfl
  | cons c rest ih =>
      rw [List.length_cons, List.range'_succ, lowerCases]
      exact ih (b + 1) _

/-- The catches of a region are played by their script. -/
theorem run_lowerCatches (scope : Scope) (after b : Nat) (cs : List (Catch Stmt)) (s : Lowering) :
    (lowerCatches scope after cs (List.range' b cs.length)).run s =
      ((), playAll (Stroke.catches scope after b cs) s) := by
  induction cs generalizing b s with
  | nil => rfl
  | cons c rest ih =>
      rw [List.length_cons, List.range'_succ, lowerCatches]
      exact ih (b + 1) _

end Lower

/-- Lowering a statement is playing its script. -/
theorem run_lower (scope : Scope) (stmt : Stmt) (s : Lowering) :
    (lower scope stmt).run s = ((), Stroke.playAll (stmt.script scope s.drafts.size) s) := by
  cases stmt with
  | act action =>
      rw [lower]
      rfl
  | ifElse | whileLoop | doLoop | foreach =>
      simp only [lower, run_bind, run_openBlock, run_finish, run_enter, size_opened]
      rfl
  | forLoop init cond? step body =>
      simp only [lower, run_bind, run_emitAll, run_openBlock, run_finish, run_enter, size_opened,
        Stroke.size_playAll_emits, Stmt.script, Stroke.playAll_append]
      rfl
  | switch value cases =>
      simp only [lower, run_bind, run_openBlocks, run_openBlock, run_finish, run_enter,
        run_lowerCases,
        Stroke.size_playAll_opens, Stmt.script, Stroke.playAll_append]
      rfl
  | protect body catches finally? =>
      cases finally? with
      | none | some =>
          simp only [lower, run_bind, run_pure, run_map, run_openBlocks, run_openBlock, run_finish,
            run_enter, run_lowerCatches, size_opened, Stroke.size_playAll_opens, Stmt.script,
            Stroke.inside, Stroke.playAll_append]
          rfl
  | ret | raise | exit =>
      simp only [lower, terminate, run_bind, run_openBlock, run_finish, run_enter, closed,
        size_edited]
      rfl
  | brk =>
      rw [lower]
      exact run_jump ..
  | cont =>
      rw [lower]
      exact run_jump ..

/-! ### Bodies -/

mutual

/-- A statement and all statements in it. -/
def Stmt.nested : Stmt → List Stmt
  | .ifElse cond thenBody elseBody =>
    .ifElse cond thenBody elseBody :: (nestedAll thenBody ++ nestedAll elseBody)
  | .whileLoop cond body => .whileLoop cond body :: nestedAll body
  | .doLoop body cond => .doLoop body cond :: nestedAll body
  | .forLoop init cond? step body => .forLoop init cond? step body :: nestedAll body
  | .foreach collection key? value byRef body =>
    .foreach collection key? value byRef body :: nestedAll body
  | .switch value cases => .switch value cases :: nestedCases cases
  | .protect body catches finally? =>
    .protect body catches finally? ::
      (nestedAll body ++ nestedCatches catches ++ nestedFinally finally?)
  | .act action => [.act action]
  | .ret value? => [.ret value?]
  | .raise value => [.raise value]
  | .exit value? => [.exit value?]
  | .brk => [.brk]
  | .cont => [.cont]

/-- All statements in a list, at any depth. -/
def nestedAll : List Stmt → List Stmt
  | [] => []
  | s :: rest => s.nested ++ nestedAll rest

/-- All statements in the arms of a `switch`. -/
def nestedCases : List (Case Stmt) → List Stmt
  | [] => []
  | ⟨_, body⟩ :: rest => nestedAll body ++ nestedCases rest

/-- All statements in some catches. -/
def nestedCatches : List (Catch Stmt) → List Stmt
  | [] => []
  | ⟨_, _, body⟩ :: rest => nestedAll body ++ nestedCatches rest

/-- All statements in a finally block, if there is one. -/
def nestedFinally : Option (List Stmt) → List Stmt
  | none => []
  | some stmts => nestedAll stmts

end

/-- The lists of statements that a statement holds. -/
def Stmt.bodies : Stmt → List (List Stmt)
  | .ifElse _ thenBody elseBody => [thenBody, elseBody]
  | .whileLoop _ body => [body]
  | .doLoop body _ => [body]
  | .forLoop _ _ _ body => [body]
  | .foreach _ _ _ _ body => [body]
  | .switch _ cases => cases.map Case.body
  | .protect body catches finally? => body :: (catches.map Catch.body ++ finally?.toList)
  | _ => []

theorem nestedCases_eq (cases : List (Case Stmt)) :
    nestedCases cases = cases.flatMap fun c => nestedAll c.body := by
  induction cases with
  | nil => rfl
  | cons c rest ih => rw [nestedCases, ih, List.flatMap_cons]

theorem nestedCatches_eq (catches : List (Catch Stmt)) :
    nestedCatches catches = catches.flatMap fun c => nestedAll c.body := by
  induction catches with
  | nil => rfl
  | cons c rest ih => rw [nestedCatches, ih, List.flatMap_cons]

/-- What is in a statement is the statement itself, or in one of its bodies. -/
theorem Stmt.mem_nested_iff {s t : Stmt} :
    t ∈ s.nested ↔ t = s ∨ ∃ body ∈ s.bodies, t ∈ nestedAll body := by
  cases s with
  | switch => simp [nested, bodies, nestedCases_eq]
  | protect body catches finally? =>
      cases finally? with
      | none => simp [nested, bodies, nestedCatches_eq, nestedFinally]
      | some stmts =>
          simp [nested, bodies, nestedCatches_eq, nestedFinally, or_and_right, exists_or]
  | _ => simp [nested, bodies]

theorem Stmt.mem_nested_self (s : Stmt) : s ∈ s.nested :=
  mem_nested_iff.2 (.inl rfl)

/-- What is in a body of a statement is in the statement. -/
theorem Stmt.nestedAll_subset {s : Stmt} {body : List Stmt} (h : body ∈ s.bodies) :
    nestedAll body ⊆ s.nested :=
  fun _ ht => mem_nested_iff.2 (.inr ⟨body, h, ht⟩)

/-- A body is smaller than its statement. -/
theorem Stmt.sizeOf_lt_of_mem_bodies {s : Stmt} {body : List Stmt} (h : body ∈ s.bodies) :
    sizeOf body < sizeOf s := by
  cases s with
  | ifElse cond thenBody elseBody =>
      rw [ifElse.sizeOf_spec]
      rcases List.mem_cons.1 h with rfl | h
      · omega
      · rw [List.mem_singleton.1 h]
        omega
  | whileLoop | doLoop | forLoop | foreach =>
      rw [List.mem_singleton.1 h]
      simp +arith
  | switch value cases =>
      obtain ⟨⟨label?, body⟩, hc, rfl⟩ := List.mem_map.1 h
      have hcase := List.sizeOf_lt_of_mem hc
      rw [Case.mk.sizeOf_spec] at hcase
      change sizeOf body < _
      rw [switch.sizeOf_spec]
      omega
  | protect body' catches finally? =>
      simp only [bodies, List.mem_cons, List.mem_append, List.mem_map] at h
      rw [protect.sizeOf_spec]
      rcases h with rfl | ⟨⟨classes, var?, body⟩, hc, rfl⟩ | hfinally
      · omega
      · have hcatch := List.sizeOf_lt_of_mem hc
        rw [Catch.mk.sizeOf_spec] at hcatch
        change sizeOf body < _
        omega
      · obtain rfl := Option.mem_toList.1 hfinally
        rw [Option.some.sizeOf_spec]
        omega
  | act | ret | raise | exit | brk | cont => cases h

/-- Induction on a list of statements, and on the bodies of each statement. -/
theorem Stmt.bodies_induction {P : List Stmt → Prop} (nil : P [])
    (cons : ∀ s rest, (∀ body ∈ s.bodies, P body) → P rest → P (s :: rest)) (stmts : List Stmt) :
    P stmts := by
  induction h : sizeOf stmts using Nat.strongRecOn generalizing stmts with
  | ind n ih =>
      subst h
      cases stmts with
      | nil => exact nil
      | cons s rest =>
          have hcons : sizeOf (s :: rest) = 1 + sizeOf s + sizeOf rest :=
            List.cons.sizeOf_spec s rest
          refine cons s rest (fun body hbody => ?_) (ih (sizeOf rest) (by omega) rest rfl)
          have hlt := sizeOf_lt_of_mem_bodies hbody
          exact ih (sizeOf body) (by omega) body rfl

namespace Stroke

/-- What a stroke lowers. -/
def inner? : Stroke → Option (Scope × List Stmt)
  | .body scope stmts => some (scope, stmts)
  | _ => none

@[simp]
theorem filterMap_inner?_opens (handlers : List BlockId) (count : Nat) :
    (opens handlers count).filterMap inner? = [] := by
  simp [opens, List.filterMap_eq_nil_iff, inner?]

@[simp]
theorem filterMap_inner?_emits (exprs : List ExprId) : (emits exprs).filterMap inner? = [] := by
  simp [emits, List.filterMap_eq_nil_iff, inner?]

/-- The script of the arms lowers their bodies in order. -/
@[simp]
theorem filterMap_inner?_cases (scope : Scope) (stop b : Nat) (cs : List (Case Stmt)) :
    (cases scope stop b cs).filterMap inner? = cs.map fun c => (scope, c.body) := by
  induction cs generalizing b with
  | nil => rfl
  | cons c rest ih => exact congrArg _ (ih (b + 1))

/-- The script of the catches lowers their bodies in order. -/
@[simp]
theorem filterMap_inner?_catches (scope : Scope) (after b : Nat) (cs : List (Catch Stmt)) :
    (catches scope after b cs).filterMap inner? = cs.map fun c => (scope, c.body) := by
  induction cs generalizing b with
  | nil => rfl
  | cons c rest ih => exact congrArg _ (ih (b + 1))

@[simp]
theorem filterMap_inner?_finals (scope : Scope) (stop b : Nat) (finally? : Option (List Stmt)) :
    (finals scope stop b finally?).filterMap inner? =
      finally?.toList.map fun stmts => (scope, stmts) := by
  cases finally? <;> rfl

end Stroke

/-- A script lowers the bodies of the statement, in order. -/
theorem Stmt.inner?_script (scope : Scope) (n : Nat) (s : Stmt) :
    ((s.script scope n).filterMap Stroke.inner?).map Prod.snd = s.bodies := by
  cases s with
  | brk | cont => simp [script, bodies, Stroke.leaves, Stroke.inner?, List.filterMap_cons]
  | protect =>
      simp [script, bodies, Stroke.inside, Stroke.inner?, List.filterMap_cons, Function.comp_def]
  | _ => simp [script, bodies, Stroke.inner?, List.filterMap_cons]

/-- A list of statements is lowered by playing the script of the first and lowering the others. -/
theorem run_lowerAll_cons (scope : Scope) (stmt : Stmt) (rest : List Stmt) (s : Lowering) :
    (lowerAll scope (stmt :: rest)).run s =
      (lowerAll scope rest).run (Stroke.playAll (stmt.script scope s.drafts.size) s) := by
  rw [lowerAll, run_bind, run_lower]

namespace Stroke

/-- The script of a statement lowers the bodies of the statement and no other. -/
theorem mem_bodies {scope scope' : Scope} {n : Nat} {stmt : Stmt} {stmts : List Stmt}
    (h : .body scope' stmts ∈ stmt.script scope n) : stmts ∈ stmt.bodies := by
  rw [← stmt.inner?_script scope n]
  exact List.mem_map.2 ⟨(scope', stmts), List.mem_filterMap.2 ⟨_, h, rfl⟩, rfl⟩

/-! ### Checking scripts -/

/-- How many blocks a stroke opens, not counting those of bodies. -/
def gain : Stroke → Nat
  | .fresh _ => 1
  | _ => 0

theorem le_size_playAll {ks : List Stroke} (s : Lowering)
    (h : ∀ k ∈ ks, ∀ s, s.drafts.size ≤ (k.play s).drafts.size) :
    s.drafts.size ≤ (playAll ks s).drafts.size := by
  induction ks generalizing s with
  | nil => exact Nat.le_refl _
  | cons k rest ih =>
      calc s.drafts.size ≤ (k.play s).drafts.size := h k (List.mem_cons_self ..) s
        _ ≤ (playAll rest (k.play s)).drafts.size :=
          ih (k.play s) fun k' hk' => h k' (List.mem_cons_of_mem k hk')

end Stroke

/-- Blocks are only ever added. -/
theorem le_size_lowerAll (scope : Scope) (stmts : List Stmt) (s : Lowering) :
    s.drafts.size ≤ ((lowerAll scope stmts).run s).2.drafts.size := by
  induction stmts using Stmt.bodies_induction generalizing scope s with
  | nil => exact Nat.le_refl _
  | cons stmt rest ihBodies ihRest =>
      rw [run_lowerAll_cons]
      refine Nat.le_trans (Stroke.le_size_playAll s fun k hk s => ?_) (ihRest scope _)
      cases k with
      | body scope' body => exact ihBodies body (Stroke.mem_bodies hk) scope' s
      | fresh handlers => exact (size_opened s handlers) ▸ Nat.le_succ _
      | enter b => exact Nat.le_refl _
      | close | finish | emit | guard => exact Nat.le_of_eq (size_edited ..).symm

namespace Stroke

/-- A stroke removes no block, and adds one if it opens it. -/
theorem le_size_play (k : Stroke) (s : Lowering) :
    s.drafts.size + k.gain ≤ (k.play s).drafts.size := by
  cases k with
  | body scope stmts => exact le_size_lowerAll scope stmts s
  | fresh handlers => exact Nat.le_of_eq (size_opened s handlers).symm
  | enter b => exact Nat.le_refl _
  | close | finish | emit | guard => exact Nat.le_of_eq (size_edited ..).symm

/-- Every stroke of a script passes a check that may count on `m` blocks and those opened so far. -/
def Passes (ok : Nat → Stroke → Prop) : (m : Nat) → List Stroke → Prop
  | _, [] => True
  | m, k :: rest => ok m k ∧ Passes ok (m + k.gain) rest

variable {ok : Nat → Stroke → Prop} {m : Nat} {ks ks' : List Stroke}

/-- What every stroke keeps as long as it passes its check, a script keeps that passes. -/
theorem Passes.playAll {I : Lowering → Prop} {s : Lowering} (h : Passes ok m ks)
    (hm : m ≤ s.drafts.size) (hs : I s)
    (hstep : ∀ k ∈ ks, ∀ m s, m ≤ s.drafts.size → I s → ok m k → I (k.play s)) :
    I (playAll ks s) := by
  induction ks generalizing m s with
  | nil => exact hs
  | cons k rest ih =>
      refine ih h.2 ?_ (hstep k (List.mem_cons_self ..) m s hm hs h.1) fun k' hk' => ?_
      · exact Nat.le_trans (Nat.add_le_add_right hm _) (le_size_play k s)
      · exact hstep k' (List.mem_cons_of_mem k hk')

/-- A script passes if its parts do, the second with the blocks that the first has opened. -/
theorem passes_append (h : Passes ok m ks)
    (h' : Passes ok (m + ks.countP fun k => k.gain = 1) ks') : Passes ok m (ks ++ ks') := by
  induction ks generalizing m with
  | nil => exact h'
  | cons k rest ih =>
      refine ⟨h.1, ih h.2 ?_⟩
      cases k <;> simpa [gain, Nat.add_assoc, Nat.add_comm 1] using h'

theorem passes_opens {handlers : List BlockId} {count : Nat}
    (h : ∀ m' ≥ m, ok m' (.fresh handlers)) : Passes ok m (opens handlers count) := by
  induction count generalizing m with
  | zero => trivial
  | succ count ih =>
      refine ⟨h m (Nat.le_refl m), ih fun m' hm' => h m' ?_⟩
      exact Nat.le_trans (Nat.le_add_right ..) hm'

theorem passes_emits {exprs : List ExprId} (h : ∀ e ∈ exprs, ok m (.emit (.eval e))) :
    Passes ok m (emits exprs) := by
  induction exprs with
  | nil => trivial
  | cons e rest ih =>
      exact ⟨h e (List.mem_cons_self ..), ih fun e' he' => h e' (List.mem_cons_of_mem e he')⟩

/-- The script of the arms passes if its strokes do. -/
theorem passes_cases {scope : Scope} {stop b : Nat} {cs : List (Case Stmt)}
    (henter : ∀ b' ≥ b, b' < b + cs.length → ok m (.enter b'))
    (hbody : ∀ c ∈ cs, ok m (.body scope c.body))
    (hgoto : ∀ t, t = stop ∨ b ≤ t ∧ t < b + cs.length → ok m (.finish (.goto t))) :
    Passes ok m (cases scope stop b cs) := by
  induction cs generalizing b with
  | nil => trivial
  | cons c rest ih =>
      refine ⟨henter b (Nat.le_refl b) (by simp), hbody c (List.mem_cons_self ..), hgoto _ ?_,
        ih ?_ ?_ ?_⟩
      · cases rest with
        | nil => exact .inl rfl
        | cons c' rest => exact .inr ⟨Nat.le_succ b, by simp [List.range'_succ]⟩
      · exact fun b' hle hlt => henter b' (by omega) (by simp; omega)
      · exact fun c' hc' => hbody c' (List.mem_cons_of_mem c hc')
      · exact fun t ht => hgoto t (ht.imp_right fun h => ⟨by omega, by simp; omega⟩)

/-- The script of the catches passes if its strokes do. -/
theorem passes_catches {scope : Scope} {after b : Nat} {cs : List (Catch Stmt)}
    (hguard : ∀ b' ≥ b, b' < b + cs.length → ok m (.guard b' scope.handlers))
    (henter : ∀ b' ≥ b, b' < b + cs.length → ok m (.enter b'))
    (hemit : ∀ c ∈ cs, ok m (.emit (.bindException c.var? c.classes)))
    (hbody : ∀ c ∈ cs, ok m (.body scope c.body)) (hgoto : ok m (.finish (.goto after))) :
    Passes ok m (catches scope after b cs) := by
  induction cs generalizing b with
  | nil => trivial
  | cons c rest ih =>
      have hself := List.mem_cons_self (a := c) (l := rest)
      refine ⟨hguard b (Nat.le_refl b) (by simp), henter b (Nat.le_refl b) (by simp), hemit c hself,
        hbody c hself, hgoto, ih ?_ ?_ ?_ ?_⟩
      · exact fun b' hle hlt => hguard b' (by omega) (by simp; omega)
      · exact fun b' hle hlt => henter b' (by omega) (by simp; omega)
      · exact fun c' hc' => hemit c' (List.mem_cons_of_mem c hc')
      · exact fun c' hc' => hbody c' (List.mem_cons_of_mem c hc')

end Stroke

end FlowTyping
