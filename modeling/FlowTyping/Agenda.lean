import FlowTyping.Id
import FlowTyping.OrderedMap

/-!
# The agenda

The blocks that are still to be visited, first come first served and each at most once, and the
blocks that wait for the result of a routine. When a routine publishes a new result, the blocks that
used the old one are queued again; so are the blocks whose successors were held back.
-/

namespace FlowTyping

/-- The blocks that depend on the result of one routine. -/
structure Dependents where
  /-- Blocks that used the result. -/
  waiters : List BlockRef
  /-- Blocks whose successors are held back. -/
  deferred : List BlockRef
  deriving DecidableEq, Repr, Inhabited

namespace Dependents

/-- No block depends on a routine. -/
def none : Dependents :=
  ⟨[], []⟩

end Dependents

/-- A queue, the set of its blocks and the numbers of its blocks by routine that agree. -/
structure InStep (queue queued : List BlockRef) (pending : OrderedMap RoutineId Nat) : Prop where
  nodup : queue.Nodup
  mem_queued : ∀ {b : BlockRef}, b ∈ queued ↔ b ∈ queue
  counted : ∀ r, (pending.find? r).getD 0 = queue.countP fun b => decide (b.1 = r)

namespace InStep

variable {queue queued : List BlockRef} {pending : OrderedMap RoutineId Nat} {b : BlockRef}

/-- Nothing is queued, and no block depends on any routine. -/
theorem empty : InStep [] [] .empty :=
  ⟨List.nodup_nil, Iff.rfl, fun _ => rfl⟩

/-- A new block at the end counts for its routine. -/
theorem push (h : InStep queue queued pending) (hb : b ∉ queued) :
    InStep (queue ++ [b]) (b :: queued) (pending.insert b.1 ((pending.find? b.1).getD 0 + 1)) := by
  refine ⟨?_, fun {c} => ?_, fun r => ?_⟩
  · rw [List.nodup_append]
    refine ⟨h.nodup, List.nodup_cons.2 ⟨List.not_mem_nil, List.nodup_nil⟩, fun c hc c' hc' => ?_⟩
    rw [List.mem_singleton.1 hc']
    rintro rfl
    exact hb (h.mem_queued.2 hc)
  · rw [List.mem_cons, List.mem_append, List.mem_singleton, h.mem_queued, or_comm]
  · rw [OrderedMap.find?_insert, List.countP_append, List.countP_singleton]
    by_cases hr : b.1 = r
    · simp [hr, h.counted]
    · simp [hr, h.counted]

/-- The first block no longer counts for its routine. -/
theorem pop (h : InStep (b :: queue) queued pending) :
    InStep queue (queued.filter fun c => decide (c ≠ b))
      (pending.insert b.1 ((pending.find? b.1).getD 0 - 1)) := by
  obtain ⟨hfirst, hrest⟩ := List.nodup_cons.1 h.nodup
  refine ⟨hrest, fun {c} => ?_, fun r => ?_⟩
  · rw [List.mem_filter, h.mem_queued, List.mem_cons]
    constructor
    · rintro ⟨hc | hc, hne⟩
      · exact absurd hc (of_decide_eq_true hne)
      · exact hc
    · intro hc
      exact ⟨.inr hc, decide_eq_true fun heq => hfirst (heq ▸ hc)⟩
  · rw [OrderedMap.find?_insert, h.counted]
    by_cases hr : b.1 = r
    · simp [hr]
    · simp [hr, h.counted]

end InStep

/-- The blocks that are to be visited next, and the blocks that depend on the results of
routines. -/
structure Agenda where
  queue : List BlockRef
  /-- The blocks of the queue once more, as a set. -/
  queued : List BlockRef
  /-- How many blocks of a routine are queued. -/
  pending : OrderedMap RoutineId Nat
  dependents : OrderedMap RoutineId Dependents
  inStep : InStep queue queued pending
  deriving Repr

namespace Agenda

def empty : Agenda :=
  ⟨[], [], .empty, .empty, .empty⟩

instance : Inhabited Agenda :=
  ⟨empty⟩

/-- Whether a block is queued, told from the set and not from the queue. -/
def isQueued (a : Agenda) (b : BlockRef) : Bool :=
  decide (b ∈ a.queued)

/-- How many blocks of a routine are queued. -/
def pendingCount (a : Agenda) (r : RoutineId) : Nat :=
  (a.pending.find? r).getD 0

/-- Queues a block, and tells whether it was not queued before. -/
def enqueue (a : Agenda) (b : BlockRef) : Bool × Agenda :=
  if h : b ∈ a.queued then (false, a)
  else (true, { a with
    queue := a.queue ++ [b]
    queued := b :: a.queued
    pending := a.pending.insert b.1 (a.pendingCount b.1 + 1)
    inStep := a.inStep.push h })

/-- Queues some blocks one after the other. -/
def enqueueAll (a : Agenda) (bs : List BlockRef) : Agenda :=
  bs.foldl (fun a b => (a.enqueue b).2) a

/-- Takes the block that has been queued longest. -/
def dequeue (a : Agenda) : Option (BlockRef × Agenda) :=
  match h : a.queue with
  | [] => none
  | b :: rest => some (b, { a with
      queue := rest
      queued := a.queued.filter fun c => decide (c ≠ b)
      pending := a.pending.insert b.1 (a.pendingCount b.1 - 1)
      inStep := InStep.pop (h ▸ a.inStep) })

/-- No block of the routine is queued. -/
def isStable (a : Agenda) (r : RoutineId) : Bool :=
  a.pendingCount r == 0

/-- The blocks that depend on a routine, if any block ever did. -/
def dependents? (a : Agenda) (callee : RoutineId) : Option Dependents :=
  a.dependents.find? callee

/-- Adds a block to a list unless it is there. -/
def addBlock (b : BlockRef) (bs : List BlockRef) : List BlockRef :=
  if b ∈ bs then bs else bs ++ [b]

/-- Notes that a block used the result of a routine, and tells whether that result may still change
in this round. -/
def await (a : Agenda) (callee : RoutineId) (caller : BlockRef) : Bool × Agenda :=
  let d := (a.dependents? callee).getD .none
  let a := { a with
    dependents := a.dependents.insert callee { d with waiters := addBlock caller d.waiters } }
  (!a.isStable callee, a)

/-- Holds back the successors of a block until a routine has settled. -/
def defer (a : Agenda) (callee : RoutineId) (caller : BlockRef) : Agenda :=
  let d := (a.dependents? callee).getD .none
  { a with
    dependents := a.dependents.insert callee { d with deferred := addBlock caller d.deferred } }

/-- The blocks that used the result of a routine. -/
def waiters (a : Agenda) (callee : RoutineId) : List BlockRef :=
  match a.dependents? callee with
  | some d => d.waiters
  | none => []

/-- Hands out the blocks that were held back for a routine. -/
def takeDeferred (a : Agenda) (callee : RoutineId) : List BlockRef × Agenda :=
  match a.dependents? callee with
  | some d =>
    (d.deferred, { a with dependents := a.dependents.insert callee { d with deferred := [] } })
  | none => ([], a)

end Agenda

end FlowTyping
