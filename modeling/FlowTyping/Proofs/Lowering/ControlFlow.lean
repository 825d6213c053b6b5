import FlowTyping.Proofs.Lowering.Writing

/-!
# Lowering preserves control flow

Main statement: `path_blocks_iff_runs`. The complete traces of a list of statements without
protected regions are the traces of the paths through its blocks.
-/

namespace FlowTyping

open Behaviour Lower Stmt

section

variable {jumps? : Option Jumps}

/-- Expressions that are evaluated one after the other. -/
theorem emitAll_writes (exprs : List ExprId) :
    Writes jumps? [] (emitAll exprs) (Just (exprs.map fun e => .act (.eval e)) .normal) := by
  induction exprs with
  | nil => exact .nil
  | cons e rest ih =>
      refine ((Writes.emit (.eval e)).seq ih).congr fun t c => ?_
      rw [seq_just_iff]
      simp [Just]

/-- A jump goes to its target, or nowhere. -/
theorem jump_writes (scope : Scope) (target? : Option BlockId) {c : Completion}
    (hafter : ∀ {blocks q n t e}, After blocks jumps? q n t e c ↔ Follows blocks n target? t e) :
    Writes jumps? [] (jump scope target?) (Just [] c) := by
  have h : Writes jumps? [] _ (Just [] c) :=
    .depart scope.handlers (target?.map Edge.leave) fun hends => .jump hends hafter
  cases target? <;> exact h

end

theorem headD_of_forall₂ {α β : Type} {R : α → β → Prop} {as : List α} {bs : List β} {a : α} {b : β}
    (h : List.Forall₂ R as bs) (hR : R a b) : R (as.headD a) (bs.headD b) := by
  cases h with
  | nil => exact hR
  | cons hhead => exact hhead

/-- The arms of a `switch` have the labels of its cases. -/
theorem map_label?_zipWith {cases : List (Case Stmt)} {bodies : List BlockId}
    (h : bodies.length = cases.length) :
    (cases.zipWith (fun c b => Arm.mk c.label? b) bodies).map Arm.label? =
      cases.map Case.label? := by
  induction cases generalizing bodies with
  | nil => rfl
  | cons c cases ih =>
      cases bodies with
      | nil => cases h
      | cons b bodies => simp [ih (Nat.succ.inj h)]

/-- The arms of a `switch` lead to the bodies of its cases. -/
theorem forall₂_zipWith {R : BlockId → Behaviour → Prop} {cases : List (Case Stmt)}
    {bodies : List BlockId} (h : List.Forall₂ R bodies (DoesFrom cases)) :
    List.Forall₂ (fun arm A => R arm.body A) (cases.zipWith (fun c b => Arm.mk c.label? b) bodies)
      (DoesFrom cases) := by
  induction cases generalizing bodies with
  | nil =>
      rw [DoesFrom]
      exact .nil
  | cons c cases ih =>
      rw [DoesFrom] at h ⊢
      cases h with
      | cons hhead htail => exact .cons hhead (ih htail)

mutual

/-- A statement without protected regions is lowered to code that does what it says, form by
form. -/
theorem lower_writes (scope : Scope) : ∀ s : Stmt, s.unprotected = true →
    Writes scope.jumps? [] (lower scope s) s.Does
  | .act action, _ => by
    rw [lower, Does]
    exact .emit action
  | .ifElse cond thenBody elseBody, h => by
    rw [unprotected, Bool.and_eq_true] at h
    rw [lower, Does]
    refine .opening _ fun thenBlock => .opening _ fun elseBlock => .opening _ fun mergeBlock => ?_
    have hthen := Fills.fill (lowerAll_writes scope thenBody h.1) thenBlock mergeBlock
    have helse := Fills.fill (lowerAll_writes scope elseBody h.2) elseBlock mergeBlock
    exact .compound (hthen.seq helse) fun hends hparts => .ifElse hends hparts.1 hparts.2
  | .whileLoop cond body, h => by
    rw [unprotected] at h
    rw [lower, Does]
    refine .opening _ fun header => .opening _ fun bodyBlock => .opening _ fun stop => ?_
    have hbody := Fills.fill (lowerAll_writes (scope.inLoop stop header) body h) bodyBlock header
    refine .compound ((Fills.close header (.branch cond bodyBlock stop)).seq hbody) ?_
    intro blocks p hends hparts
    exact .of_goto hends (.loop hparts.1 hparts.2 (.refl _))
  | .doLoop body cond, h => by
    rw [unprotected] at h
    rw [lower, Does]
    refine .opening _ fun bodyBlock => .opening _ fun condBlock => .opening _ fun stop => ?_
    have hbody := Fills.fill (lowerAll_writes (scope.inLoop stop condBlock) body h)
      bodyBlock condBlock
    refine .compound (hbody.seq (Fills.close condBlock (.branch cond bodyBlock stop))) ?_
    intro blocks p hends hparts
    exact .of_goto hends (.rounds hparts.2 hparts.1 (.refl _))
  | .forLoop init cond? step body, h => by
    rw [unprotected] at h
    rw [lower, Does]
    refine (emitAll_writes init).seq ?_
    refine .opening _ fun header => .opening _ fun bodyBlock => .opening _ fun stepBlock =>
      .opening _ fun stop => ?_
    have hhead := Fills.close header ((Head.ofCond? cond?).edge bodyBlock stop)
    have hbody := Fills.fill (lowerAll_writes (scope.inLoop stop stepBlock) body h)
      bodyBlock stepBlock
    have hexprs : Writes scope.jumps? [] (emitAll step) _ := emitAll_writes step
    have hstep := Fills.fill hexprs stepBlock header
    have hfor := Writes.compound (hhead.seq (hbody.seq hstep)) fun hends hparts =>
      .of_goto hends (.loop hparts.1 hparts.2.1 hparts.2.2)
    cases cond? <;> exact hfor
  | .foreach collection key? value byRef body, h => by
    rw [unprotected] at h
    rw [lower, Does]
    refine .opening _ fun advance => .opening _ fun bodyBlock => .opening _ fun stop => ?_
    have hbody := Fills.fill (lowerAll_writes (scope.inLoop stop advance) body h) bodyBlock advance
    refine .compound
      ((Fills.close advance (.advance collection key? value byRef bodyBlock stop)).seq hbody) ?_
    intro blocks p hends hparts
    exact (Realizes.move hends Edge.iterate_leads_iff rfl).seq (.loop hparts.1 hparts.2 (.refl _))
  | .switch value cases, h => by
    rw [unprotected] at h
    rw [lower, Does]
    refine .openings _ cases fun bodies hlength => .opening _ fun stop => ?_
    refine .compound (lowerCases_fills (scope.inLoop stop stop) stop cases bodies h hlength) ?_
    intro blocks p hends hparts
    rw [← map_label?_zipWith hlength]
    exact .switch hends (forall₂_zipWith hparts)
  | .protect body catches finally?, h => by simp [unprotected] at h
  | .ret value?, _ => by
    rw [lower, Does]
    exact .depart scope.handlers (some (.ret value?)) fun hends => .stop hends rfl
  | .raise value, _ => by
    rw [lower, Does]
    exact .depart scope.handlers (some (.raise value)) fun hends => .stop hends rfl
  | .exit value?, _ => by
    rw [lower, Does]
    exact .depart scope.handlers (some (.exit value?)) fun hends => .stop hends rfl
  | .brk, _ => by
    rw [lower, Does]
    exact jump_writes scope _ Iff.rfl
  | .cont, _ => by
    rw [lower, Does]
    exact jump_writes scope _ Iff.rfl

/-- So is a list of statements. -/
theorem lowerAll_writes (scope : Scope) : ∀ stmts : List Stmt, allUnprotected stmts = true →
    Writes scope.jumps? [] (lowerAll scope stmts) (DoesAll stmts)
  | [], _ => by
    rw [lowerAll, DoesAll]
    exact .nil
  | s :: rest, h => by
    rw [allUnprotected, Bool.and_eq_true] at h
    rw [lowerAll, DoesAll]
    exact (lower_writes scope s h.1).seq (lowerAll_writes scope rest h.2)

/-- Every arm does what its body and the arms after it do. -/
theorem lowerCases_fills (scope : Scope) (stop : BlockId) : ∀ (cases : List (Case Stmt))
    (bodies : List BlockId), casesUnprotected cases = true → bodies.length = cases.length →
    Fills bodies (lowerCases scope stop cases bodies) fun blocks =>
      List.Forall₂ (fun b A => Realizes blocks scope.jumps? ⟨b, 0⟩ ⟨stop, 0⟩ A) bodies
        (DoesFrom cases)
  | [], [], _, _ => by
    rw [lowerCases, DoesFrom]
    · exact Fills.nil.mono fun _ _ => .nil
    · nofun
  | ⟨label?, body⟩ :: cases, b :: bodies, h, hlength => by
    rw [casesUnprotected, Bool.and_eq_true] at h
    rw [lowerCases, DoesFrom]
    have hbody := Fills.fill (lowerAll_writes scope body h.1) b (bodies.headD stop)
    have hrest := lowerCases_fills scope stop cases bodies h.2 (Nat.succ.inj hlength)
    refine (hbody.seq hrest).mono fun blocks hparts => .cons (hparts.1.seq ?_) hparts.2
    exact headD_of_forall₂ hparts.2 (.refl _)

end

/-- Where nothing surrounds the code and its end returns, only the end of a run can come after
it. -/
theorem after_iff {blocks : Array Block} {q : Point} (hq : q.Ends blocks (.ret none)) {t : Trace}
    {e : Ending} {c : Completion} : (∃ n, After blocks none q n t e c) ↔ t = [] ∧ e = c.ending := by
  cases c with
  | normal =>
      constructor
      · rintro ⟨n, h⟩
        exact Route.eq_of_ending h hq rfl
      · rintro ⟨rfl, rfl⟩
        exact ⟨1, .stop hq rfl⟩
  | brk | cont | stop => exact ⟨fun ⟨_, h⟩ => h, fun h => ⟨0, h⟩⟩

/-- The complete traces of a list of statements without protected regions are those of the paths
from its first block to the edges at which control leaves the routine. -/
theorem path_blocks_iff_runs {stmts : List Stmt} (h : allUnprotected stmts = true) (t : Trace)
    (e : Ending) : Path (Stmt.blocks stmts) 0 t e ↔ Stmt.Runs stmts t e := by
  have hopen : Lowering.start.IsOpen := ⟨⟨[], none, []⟩, rfl, rfl⟩
  have hwritten := lowerAll_writes ⟨none, []⟩ stmts h Lowering.start hopen List.not_mem_nil
    List.nodup_nil fun _ hb => absurd hb List.not_mem_nil
  rw [Stmt.blocks, path_iff]
  generalize ((lowerAll ⟨none, []⟩ stmts).run Lowering.start).2 = s at hwritten
  have hreal := hwritten.realizes s ⟨fun _ _ _ _ => rfl, List.prefix_refl _⟩
  obtain ⟨d, hd, hnone⟩ := hwritten.isOpen
  have hend : Point.Ends s.blocks s.point (.ret none) := by
    have hdone : d.actions.length = s.point.done := by simp [Lowering.point, Lowering.actionsAt, hd]
    have hdraft := Lowering.ends_of_draft hd hdone
    rwa [hnone] at hdraft
  constructor
  · rintro ⟨n, hroute⟩
    obtain ⟨t₁, c, m, t₂, hdoes, hafter, -, rfl⟩ := hreal.sound hroute
    obtain ⟨rfl, rfl⟩ := (after_iff hend).1 ⟨m, hafter⟩
    exact ⟨c, by rwa [List.append_nil], rfl⟩
  · rintro ⟨c, hdoes, rfl⟩
    obtain ⟨n, hafter⟩ := (after_iff hend (t := [])).2 ⟨rfl, rfl⟩
    have hpath := hreal.complete hdoes hafter
    rwa [List.append_nil] at hpath

namespace Sample

/-- A loop whose only round ends in a `break`, after a `switch` with a `continue`. -/
def single : List Stmt :=
  [.whileLoop 0 [.switch 1 [⟨some 2, [.cont]⟩], .brk]]

/-- A run through the sample: the condition holds once, and the `switch` takes its only arm. -/
def singleRound : Trace :=
  [.test 0 true, .dispatch 1 [some 2] (some 0)]

end Sample

/-- The `continue` goes on behind the `switch`, and the `break` leaves the loop. -/
theorem path_blocks_iff_runs_single :
    allUnprotected Sample.single = true ∧ Stmt.Runs Sample.single Sample.singleRound (.ret none) ∧
      Path (Stmt.blocks Sample.single) 0 Sample.singleRound (.ret none) := by
  have hcase : Seq (DoesAll [.cont]) (Just [] .normal) [] .cont :=
    .early (.early ⟨rfl, rfl⟩ nofun) nofun
  have hswitch : Does (.switch 1 [⟨some 2, [.cont]⟩]) [.dispatch 1 [some 2] (some 0)] .normal :=
    Switch.case (i := 0) rfl hcase
  have hbody : DoesAll [.switch 1 [⟨some 2, [.cont]⟩], .brk] [.dispatch 1 [some 2] (some 0)] .brk :=
    Seq.next hswitch (Seq.early ⟨rfl, rfl⟩ nofun)
  have hloop : Does (.whileLoop 0 [.switch 1 [⟨some 2, [.cont]⟩], .brk])
    Sample.singleRound .normal :=
    Loop.start (.brk hbody)
  have hruns : Stmt.Runs Sample.single Sample.singleRound (.ret none) :=
    ⟨.normal, seq_just_nil_iff.2 hloop, rfl⟩
  exact ⟨rfl, hruns, (path_blocks_iff_runs rfl _ _).2 hruns⟩

end FlowTyping
