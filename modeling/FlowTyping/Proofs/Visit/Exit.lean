import FlowTyping.Inference.Solver
import FlowTyping.Proofs.Visit.Logic

/-!
# Where a visit leads

Main statement: `mem_flows_iff`. A visit sends states to the successors of its block and to its
handlers, and to no other block: the exits of every edge are its successors, and a block that has
handlers always has a state to hand to them.
-/

namespace FlowTyping

open Visit

variable {env : Setting} {s s' : Scene}

/-- The exits of a computation lead to some blocks, each as often as it is listed. -/
def LeadsTo (targets : List BlockId) (x : Visit (List (BlockId × State))) : Prop :=
  ∀ s exits s', x.run s = .ok (exits, s') → (exits.map Prod.fst).Perm targets

theorem LeadsTo.bind {α : Type} {targets : List BlockId} {x : Visit α}
    {f : α → Visit (List (BlockId × State))} (h : ∀ a, LeadsTo targets (f a)) :
    LeadsTo targets (x >>= f) := by
  intro s exits s' hrun
  obtain ⟨a, s₁, -, hrun⟩ := exists_of_run_bind hrun
  exact h a s₁ exits s' hrun

theorem LeadsTo.exitTo (targets : List BlockId) : LeadsTo targets (exitTo targets) := by
  intro s exits s' hrun
  cases hrun
  rw [List.map_map]
  exact .of_eq (List.map_id' targets)

theorem LeadsTo.nowhere : LeadsTo [] (pure []) := by
  intro s exits s' hrun
  cases hrun
  exact .nil

/-- Where something may throw and that is watched, there is a state to throw from. -/
theorem isSome_of_noteThrow {thrown? r : Option State}
    (h : (noteThrow true thrown?).run s = .ok (r, s')) : r.isSome := by
  obtain ⟨now, s₁, -, h⟩ := exists_of_run_bind h
  cases thrown? with
  | none =>
      cases h
      rfl
  | some thrown =>
      obtain ⟨joined, s₂, -, h⟩ := exists_of_run_bind h
      cases h
      rfl

/-- What a visit to an edge yields: an exit for each successor, and if throws are watched a state
for the handlers. -/
structure Outcome.Covers (o : Outcome) (targets : List BlockId) (watched : Bool) : Prop where
  exits : (o.exits.map Prod.fst).Perm targets
  thrown : watched = true → o.thrown?.isSome

theorem settle_covers {targets : List BlockId} {watched : Bool} {thrown? : Option State}
    {x : Visit (List (BlockId × State))} (hx : LeadsTo targets x) {o : Outcome}
    (h : (settle watched thrown? x).run s = .ok (o, s')) : o.Covers targets watched := by
  obtain ⟨exits, s₁, hexits, h⟩ := exists_of_run_bind h
  obtain ⟨r, s₂, hthrow, h⟩ := exists_of_run_bind h
  cases h
  constructor
  · exact hx s exits s₁ hexits
  · rintro rfl
    exact isSome_of_noteThrow hthrow

theorem visitBranchEdge_covers {watched : Bool} {thrown? : Option State} {cond : ExprId}
    {ifTrue ifFalse : BlockId} {o : Outcome}
    (h : (visitBranchEdge env watched thrown? cond ifTrue ifFalse).run s = .ok (o, s')) :
    o.Covers [ifTrue, ifFalse] watched := by
  obtain ⟨before, s₁, -, h⟩ := exists_of_run_bind h
  obtain ⟨_, s₂, -, h⟩ := exists_of_run_bind h
  obtain ⟨trueState, s₃, -, h⟩ := exists_of_run_bind h
  obtain ⟨thrown₁?, s₄, -, h⟩ := exists_of_run_bind h
  obtain ⟨_, s₅, -, h⟩ := exists_of_run_bind h
  obtain ⟨falseState, s₆, -, h⟩ := exists_of_run_bind h
  obtain ⟨thrown₂?, s₇, hthrow, h⟩ := exists_of_run_bind h
  cases h
  constructor
  · exact .refl _
  · rintro rfl
    exact isSome_of_noteThrow hthrow

/-- The walk through a collection leaves the loop in the state before the next element, and enters
it in the state after. -/
theorem visitAdvance_leadsTo (collection : ExprId) (key? : Option ExprId) (value : ExprId)
    (byRef : Bool) (body stop : BlockId) :
    LeadsTo [body, stop] (visitAdvance env collection key? value byRef body stop) := by
  intro s exits s' h
  obtain ⟨done, s₁, hdone, h⟩ := exists_of_run_bind h
  obtain ⟨table, s₂, -, h⟩ := exists_of_run_bind h
  obtain ⟨facts, s₃, -, h⟩ := exists_of_run_bind h
  obtain ⟨elem, s₄, -, h⟩ := exists_of_run_bind h
  obtain ⟨_, s₅, -, h⟩ := exists_of_run_bind h
  obtain ⟨_, s₆, -, h⟩ := exists_of_run_bind h
  obtain ⟨entered, s₇, hentered, h⟩ := exists_of_run_bind h
  cases h
  have hstop : (done.map Prod.fst).Perm [stop] := LeadsTo.exitTo [stop] _ _ _ hdone
  have hbody : (entered.map Prod.fst).Perm [body] := LeadsTo.exitTo [body] _ _ _ hentered
  rw [List.map_append]
  exact (hstop.append hbody).trans (.swap body stop [])

theorem visitEdge_covers {watched : Bool} {thrown? : Option State} {edge : Edge} {o : Outcome}
    (h : (visitEdge env watched thrown? edge).run s = .ok (o, s')) :
    o.Covers edge.successors watched := by
  cases edge with
  | goto target => exact settle_covers (.exitTo _) h
  | leave target => exact settle_covers (.exitTo _) h
  | branch cond ifTrue ifFalse => exact visitBranchEdge_covers h
  | switch value arms stop =>
      exact settle_covers (.bind fun _ => .bind fun _ => .exitTo _) h
  | protect body catches finally? stop => exact settle_covers (.exitTo _) h
  | iterate collection byRef advance =>
      exact settle_covers (.bind fun _ => .bind fun _ => .exitTo _) h
  | advance collection key? value byRef body stop =>
      exact settle_covers (visitAdvance_leadsTo collection key? value byRef body stop) h
  | ret value? => exact settle_covers (.bind fun _ => .bind fun _ => .nowhere) h
  | raise value => exact settle_covers (.bind fun _ => .nowhere) h
  | exit value? => exact settle_covers (.bind fun _ => .nowhere) h

/-- A visit sends a state to each successor and each handler of its block, and nowhere else. -/
theorem mem_flows_iff {block : Block} {o : Outcome}
    (h : (visitBlock env block).run s = .ok (o, s')) {target : BlockId} :
    (∃ st, (target, st) ∈ Solver.flows block o) ↔
      target ∈ block.edge.successors ∨ target ∈ block.handlers := by
  obtain ⟨_, s₁, -, h⟩ := exists_of_run_bind h
  obtain ⟨_, s₂, -, h⟩ := exists_of_run_bind h
  have hcovers := visitEdge_covers h
  have hexits : (∃ st, (target, st) ∈ o.exits) ↔ target ∈ block.edge.successors := by
    rw [← hcovers.exits.mem_iff, List.mem_map]
    constructor
    · rintro ⟨st, hst⟩
      exact ⟨(target, st), hst, rfl⟩
    · rintro ⟨⟨_, st⟩, hst, rfl⟩
      exact ⟨st, hst⟩
  simp only [Solver.flows, List.mem_append, exists_or]
  apply or_congr hexits
  cases hthrown : o.thrown? with
  | some thrown =>
      constructor
      · rintro ⟨st, hst⟩
        obtain ⟨_, hmem, heq⟩ := List.mem_map.1 hst
        cases heq
        exact hmem
      · intro hmem
        exact ⟨thrown, List.mem_map_of_mem hmem⟩
  | none =>
      -- Only a block without handlers ends up with no state for them.
      have hempty : block.handlers = [] := by
        have hwatched := mt hcovers.thrown (by simp [hthrown])
        simpa using hwatched
      simp [hempty]

end FlowTyping
