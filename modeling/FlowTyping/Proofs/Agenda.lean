import FlowTyping.Agenda

/-!
# The agenda, seen through its lists

What each operation does to the queue, to the blocks that wait for a routine and to the blocks that
are held back for one.
-/

namespace FlowTyping

/-- Blocks are compared by their numbers. -/
theorem BlockRef.lawfulBEq : LawfulBEq BlockRef :=
  inferInstance

namespace Agenda

/-- Noting a block as waiting changes the waiting blocks of one routine. -/
theorem dependents?_await (a : Agenda) (callee r : RoutineId) (b : BlockRef) :
    (a.await callee b).2.dependents? r =
      if callee = r then
        some { (a.dependents? callee).getD .none with
          waiters := addBlock b ((a.dependents? callee).getD .none).waiters }
      else a.dependents? r :=
  OrderedMap.find?_insert ..

/-- A block is added if it is not there. -/
theorem mem_addBlock {b c : BlockRef} {bs : List BlockRef} :
    c ∈ addBlock b bs ↔ c ∈ bs ∨ c = b := by
  rw [addBlock]
  split
  · rename_i h
    constructor
    · exact Or.inl
    · rintro (hc | rfl)
      · exact hc
      · exact h
  · simp

theorem waiters_eq (a : Agenda) (r : RoutineId) :
    a.waiters r = ((a.dependents? r).getD .none).waiters := by
  rw [waiters]
  cases a.dependents? r <;> rfl

/-- Whether it was noted before or not, the block waits once. -/
theorem waiters_await (a : Agenda) (callee r : RoutineId) (b : BlockRef) :
    (a.await callee b).2.waiters r =
      if callee = r then addBlock b (a.waiters r) else a.waiters r := by
  rw [waiters_eq, dependents?_await, waiters_eq]
  by_cases h : callee = r
  · subst h
    rw [if_pos rfl, if_pos rfl]
    rfl
  · rw [if_neg h, if_neg h]

theorem mem_waiters_await {a : Agenda} {callee r : RoutineId} {b c : BlockRef} :
    c ∈ (a.await callee b).2.waiters r ↔ c ∈ a.waiters r ∨ c = b ∧ callee = r := by
  rw [waiters_await]
  by_cases h : callee = r
  · simp [h, mem_addBlock]
  · simp [h]

/-- The blocks whose successors are held back for a routine. -/
def deferred (a : Agenda) (callee : RoutineId) : List BlockRef :=
  ((a.dependents? callee).getD .none).deferred

/-- To note a block as waiting does not release blocks that are held back. -/
theorem deferred_await (a : Agenda) (callee r : RoutineId) (b : BlockRef) :
    (a.await callee b).2.deferred r = a.deferred r := by
  rw [deferred, deferred, dependents?_await]
  by_cases h : callee = r
  · subst h
    simp
  · simp [h]


/-- Blocks wait only for routines that the agenda knows of. -/
theorem mem_keys_of_mem_waiters {a : Agenda} {callee : RoutineId} {b : BlockRef}
    (h : b ∈ a.waiters callee) : callee ∈ a.dependents.keys := by
  rw [OrderedMap.mem_keys_iff]
  rw [waiters, dependents?] at h
  cases hfound : a.dependents.find? callee with
  | some _ => rfl
  | none =>
      rw [hfound] at h
      cases h

/-! ### Queueing -/

/-- The set of queued blocks tells what is in the queue. -/
theorem isQueued_iff {a : Agenda} {b : BlockRef} : a.isQueued b = true ↔ b ∈ a.queue :=
  decide_eq_true_iff.trans a.inStep.mem_queued

/-- A block that is queued stays where it is; any other goes to the end. -/
theorem queue_enqueue (a : Agenda) (b : BlockRef) :
    (a.enqueue b).2.queue = if b ∈ a.queue then a.queue else a.queue ++ [b] := by
  rw [enqueue]
  split
  · rename_i h
    exact (if_pos (a.inStep.mem_queued.1 h)).symm
  · rename_i h
    exact (if_neg fun hmem => h (a.inStep.mem_queued.2 hmem)).symm

theorem mem_queue_enqueue {a : Agenda} {b c : BlockRef} :
    c ∈ (a.enqueue b).2.queue ↔ c ∈ a.queue ∨ c = b := by
  rw [queue_enqueue]
  split
  · rename_i hb
    constructor
    · exact Or.inl
    · rintro (hc | rfl)
      · exact hc
      · exact hb
  · simp

@[simp]
theorem dependents_enqueue (a : Agenda) (b : BlockRef) :
    (a.enqueue b).2.dependents = a.dependents := by
  rw [enqueue]
  split <;> rfl

/-- What is queued after some blocks were added: these, and what was queued before. -/
theorem mem_queue_enqueueAll {a : Agenda} {bs : List BlockRef} {c : BlockRef} :
    c ∈ (a.enqueueAll bs).queue ↔ c ∈ a.queue ∨ c ∈ bs := by
  induction bs generalizing a with
  | nil => simp [enqueueAll]
  | cons b bs ih =>
      change c ∈ ((a.enqueue b).2.enqueueAll bs).queue ↔ _
      rw [ih, mem_queue_enqueue, List.mem_cons, or_assoc]

/-- Queueing blocks concerns nothing but the queue. -/
@[simp]
theorem dependents_enqueueAll (a : Agenda) (bs : List BlockRef) :
    (a.enqueueAll bs).dependents = a.dependents := by
  induction bs generalizing a with
  | nil => rfl
  | cons b bs ih => exact (ih (a.enqueue b).2).trans (dependents_enqueue a b)

theorem waiters_congr {a b : Agenda} (h : a.dependents = b.dependents) (r : RoutineId) :
    a.waiters r = b.waiters r := by
  rw [waiters, waiters, dependents?, dependents?, h]

theorem deferred_congr {a b : Agenda} (h : a.dependents = b.dependents) (r : RoutineId) :
    a.deferred r = b.deferred r := by
  rw [deferred, deferred, dependents?, dependents?, h]

/-- Only an empty agenda has no next block. -/
theorem dequeue_eq_none {a : Agenda} : a.dequeue = none ↔ a.queue = [] := by
  rw [dequeue]
  split
  · rename_i hqueue
    simp [hqueue]
  · rename_i hqueue
    simp [hqueue]

/-- Taking a block leaves the rest of the queue and everything that depends on routines. -/
theorem dequeue_eq_some {a a' : Agenda} {b : BlockRef} (h : a.dequeue = some (b, a')) :
    a.queue = b :: a'.queue ∧ a'.dependents = a.dependents := by
  rw [dequeue] at h
  split at h
  · cases h
  · rename_i hqueue
    cases h
    exact ⟨hqueue, rfl⟩

/-! ### Holding back -/

/-- Holding a block back changes the blocks held back for one routine. -/
theorem dependents?_defer (a : Agenda) (callee r : RoutineId) (b : BlockRef) :
    (a.defer callee b).dependents? r =
      if callee = r then
        some { (a.dependents? callee).getD .none with
          deferred := addBlock b ((a.dependents? callee).getD .none).deferred }
      else a.dependents? r :=
  OrderedMap.find?_insert ..

/-- A block is held back for the routine that it was deferred for, along with those before it. -/
theorem mem_deferred_defer {a : Agenda} {callee r : RoutineId} {b c : BlockRef} :
    c ∈ (a.defer callee b).deferred r ↔ c ∈ a.deferred r ∨ c = b ∧ callee = r := by
  rw [deferred, dependents?_defer, deferred]
  by_cases h : callee = r
  · subst h
    simp [mem_addBlock]
  · simp [h]

/-- A block that is held back waits for what it waited for. -/
theorem waiters_defer (a : Agenda) (callee r : RoutineId) (b : BlockRef) :
    (a.defer callee b).waiters r = a.waiters r := by
  rw [waiters_eq, waiters_eq, dependents?_defer]
  by_cases h : callee = r
  · subst h
    simp
  · simp [h]

/-- What is handed out are the blocks that are held back for the routine. -/
theorem takeDeferred_fst (a : Agenda) (callee : RoutineId) :
    (a.takeDeferred callee).1 = a.deferred callee := by
  rw [takeDeferred, deferred]
  cases a.dependents? callee <;> rfl

@[simp]
theorem queue_takeDeferred (a : Agenda) (callee : RoutineId) :
    (a.takeDeferred callee).2.queue = a.queue := by
  rw [takeDeferred]
  split <;> rfl

/-- Handing out the blocks of a routine leaves its waiting blocks alone. -/
theorem dependents?_takeDeferred (a : Agenda) (callee r : RoutineId) :
    (a.takeDeferred callee).2.dependents? r =
      if callee = r then (a.dependents? r).map fun d => { d with deferred := [] }
      else a.dependents? r := by
  rw [takeDeferred]
  by_cases h : callee = r
  · subst h
    cases hd : a.dependents? callee with
    | none => simp [hd]
    | some d => simp [dependents?]
  · cases hd : a.dependents? callee with
    | none => simp [h]
    | some d => simp [dependents?, h]

theorem waiters_takeDeferred (a : Agenda) (callee r : RoutineId) :
    (a.takeDeferred callee).2.waiters r = a.waiters r := by
  rw [waiters_eq, waiters_eq, dependents?_takeDeferred]
  by_cases h : callee = r
  · subst h
    cases a.dependents? callee <;> simp
  · simp [h]

/-- After its blocks were handed out, none is held back for the routine. -/
theorem deferred_takeDeferred (a : Agenda) (callee r : RoutineId) :
    (a.takeDeferred callee).2.deferred r = if callee = r then [] else a.deferred r := by
  rw [deferred, dependents?_takeDeferred, deferred]
  by_cases h : callee = r
  · subst h
    cases a.dependents? callee <;> simp [Dependents.none]
  · simp [h]

end Agenda

end FlowTyping
