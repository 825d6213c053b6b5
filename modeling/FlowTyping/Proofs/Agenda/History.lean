import FlowTyping.Proofs.Agenda
import Mathlib.Data.List.DropRight
import Mathlib.Data.List.Induction

/-!
# Histories of an agenda

An agenda is used by calls, one after the other. Main statement: `calls_keep_order`. After any calls
on an empty agenda the queue, its set and the numbers by routine agree, blocks have come out in the
order in which they went in, and the blocks that wait for a routine or are held back for it can be
read off the calls.
-/

namespace FlowTyping

attribute [local instance] BlockRef.lawfulBEq

namespace Agenda

/-- Something that an agenda is asked to do. -/
inductive Call where
  | enqueue (b : BlockRef)
  | dequeue
  | await (callee : RoutineId) (caller : BlockRef)
  | defer (callee : RoutineId) (caller : BlockRef)
  | takeDeferred (callee : RoutineId)
  deriving DecidableEq

/-- What a call on an agenda gives back. -/
inductive Answer where
  | done
  | flag (value : Bool)
  | block (b? : Option BlockRef)
  | blocks (bs : List BlockRef)

namespace Call

/-- The blocks that used the result of a routine, in the order of the calls. -/
def awaits (callee : RoutineId) (calls : List Call) : List BlockRef :=
  calls.filterMap fun
    | .await r b => if r = callee then some b else none
    | _ => none

/-- The blocks that were held back for a routine, in the order of the calls. -/
def deferrals (callee : RoutineId) (calls : List Call) : List BlockRef :=
  calls.filterMap fun
    | .defer r b => if r = callee then some b else none
    | _ => none

/-- The calls since the blocks held back for a routine were last handed out. -/
def sinceTaken (callee : RoutineId) (calls : List Call) : List Call :=
  calls.rtakeWhile fun call => decide (call ≠ .takeDeferred callee)

theorem sinceTaken_concat (callee : RoutineId) (calls : List Call) (c : Call) :
    sinceTaken callee (calls ++ [c]) =
      if c = .takeDeferred callee then [] else sinceTaken callee calls ++ [c] := by
  rw [sinceTaken, List.rtakeWhile_concat]
  by_cases hc : c = .takeDeferred callee
  · simp [hc]
  · simp [hc, sinceTaken]

/-- The blocks that were put into the queue, in the order of the calls. -/
def accepted (history : List (Call × Answer)) : List BlockRef :=
  history.filterMap fun
    | (.enqueue b, .flag true) => some b
    | _ => none

/-- The blocks that were taken out of the queue, in the order of the calls. -/
def dequeued (history : List (Call × Answer)) : List BlockRef :=
  history.filterMap fun
    | (.dequeue, .block b?) => b?
    | _ => none

end Call

open Call

/-- What a call answers, and the agenda after it. -/
def call (a : Agenda) : Call → Answer × Agenda
  | .enqueue b => (.flag (a.enqueue b).1, (a.enqueue b).2)
  | .dequeue =>
      match a.dequeue with
      | some (b, a') => (.block (some b), a')
      | none => (.block none, a)
  | .await callee caller => (.flag (a.await callee caller).1, (a.await callee caller).2)
  | .defer callee caller => (.done, a.defer callee caller)
  | .takeDeferred callee => (.blocks (a.takeDeferred callee).1, (a.takeDeferred callee).2)

/-- The agenda after some calls. -/
def after (a : Agenda) (calls : List Call) : Agenda :=
  calls.foldl (fun a c => (a.call c).2) a

/-- Some calls with their answers. -/
def history (a : Agenda) : List Call → List (Call × Answer)
  | [] => []
  | c :: rest => (c, (a.call c).1) :: (a.call c).2.history rest

theorem after_concat (a : Agenda) (calls : List Call) (c : Call) :
    a.after (calls ++ [c]) = ((a.after calls).call c).2 :=
  List.foldl_concat ..

/-! ### Numbers by routine -/

variable {a a' : Agenda} {b : BlockRef}

theorem pendingCount_eq_countP (a : Agenda) (r : RoutineId) :
    a.pendingCount r = a.queue.countP fun b => decide (b.1 = r) :=
  a.inStep.counted r

theorem isStable_iff {r : RoutineId} : a.isStable r = true ↔ ∀ b ∈ a.queue, b.1 ≠ r := by
  rw [isStable, beq_iff_eq, pendingCount_eq_countP, List.countP_eq_zero]
  simp

/-- Something is left to subtract from when a block is taken. -/
theorem pendingCount_dequeue (h : a.dequeue = some (b, a')) :
    a'.pendingCount b.1 + 1 = a.pendingCount b.1 := by
  rw [pendingCount_eq_countP, pendingCount_eq_countP, (dequeue_eq_some h).1]
  simp

/-! ### First come, first served -/

theorem enqueue_fst_iff : (a.enqueue b).1 = true ↔ b ∉ a.queue := by
  rw [enqueue, ← a.inStep.mem_queued]
  split
  · rename_i h
    simp [h]
  · rename_i h
    simp [h]

/-- One call adds to the end of the queue what it accepts and takes from its front what it
yields. -/
theorem dequeued_append_queue_call (a : Agenda) (c : Call) :
    dequeued [(c, (a.call c).1)] ++ (a.call c).2.queue =
      a.queue ++ accepted [(c, (a.call c).1)] := by
  cases c with
  | enqueue b =>
      change (a.enqueue b).2.queue = a.queue ++ accepted [(.enqueue b, .flag (a.enqueue b).1)]
      rw [queue_enqueue]
      by_cases hb : b ∈ a.queue
      · rw [if_pos hb, Bool.eq_false_iff.2 fun h => enqueue_fst_iff.1 h hb]
        exact (List.append_nil _).symm
      · rw [if_neg hb, enqueue_fst_iff.2 hb]
        rfl
  | dequeue =>
      rw [call]
      cases h : a.dequeue with
      | none => exact (List.append_nil _).symm
      | some taken => exact (dequeue_eq_some h).1.symm.trans (List.append_nil _).symm
  | await callee caller => exact (List.append_nil _).symm
  | defer callee caller => exact (List.append_nil _).symm
  | takeDeferred callee =>
      exact (queue_takeDeferred a callee).trans (List.append_nil _).symm

/-- Blocks come out in the order in which they went in, and those still to come are the queue. -/
theorem dequeued_append_queue (a : Agenda) (calls : List Call) :
    dequeued (a.history calls) ++ (a.after calls).queue =
      a.queue ++ accepted (a.history calls) := by
  induction calls generalizing a with
  | nil => exact (List.append_nil _).symm
  | cons c rest ih =>
      have hstep := dequeued_append_queue_call a c
      have hrest := ih (a.call c).2
      calc dequeued (a.history (c :: rest)) ++ (a.after (c :: rest)).queue
          = dequeued [(c, (a.call c).1)] ++
              (dequeued ((a.call c).2.history rest) ++ ((a.call c).2.after rest).queue) := by
            rw [← List.append_assoc, dequeued, dequeued, dequeued, ← List.filterMap_append]
            rfl
        _ = a.queue ++ (accepted [(c, (a.call c).1)] ++ accepted ((a.call c).2.history rest)) := by
            rw [hrest, ← List.append_assoc, hstep, List.append_assoc]
        _ = a.queue ++ accepted (a.history (c :: rest)) := by
            rw [accepted, accepted, accepted, ← List.filterMap_append]
            rfl

/-! ### Waiting and holding back -/

/-- Adding a block to blocks without repetition is adding it and then dropping what is repeated. -/
theorem addBlock_eraseDups (b : BlockRef) (bs : List BlockRef) :
    addBlock b bs.eraseDups = (bs ++ [b]).eraseDups := by
  rw [addBlock, List.eraseDups_append]
  by_cases hb : b ∈ bs
  · rw [if_pos (List.mem_eraseDups.2 hb)]
    simp [List.removeAll, hb]
  · rw [if_neg (mt List.mem_eraseDups.1 hb)]
    simp [List.removeAll, hb, List.eraseDups_cons]

theorem dependents_call_dequeue (a : Agenda) : (a.call .dequeue).2.dependents = a.dependents := by
  rw [call]
  cases h : a.dequeue with
  | none => rfl
  | some taken => exact (dequeue_eq_some h).2

/-- Only `await` adds to the blocks that wait, and no call takes from them. -/
theorem waiters_call (a : Agenda) (c : Call) (r : RoutineId) :
    (a.call c).2.waiters r = (awaits r [c]).foldl (fun bs b => addBlock b bs) (a.waiters r) := by
  cases c with
  | enqueue b => exact waiters_congr (dependents_enqueue a b) r
  | dequeue => exact waiters_congr (dependents_call_dequeue a) r
  | await callee caller =>
      change (a.await callee caller).2.waiters r = _
      rw [waiters_eq, dependents?_await, waiters_eq]
      by_cases h : callee = r
      · subst h
        simp [awaits]
      · simp [awaits, h]
  | defer callee caller => exact waiters_defer a callee r caller
  | takeDeferred callee => exact waiters_takeDeferred a callee r

/-- Only `defer` adds to the blocks that are held back, until they are handed out. -/
theorem deferred_call (a : Agenda) (c : Call) (r : RoutineId) :
    (a.call c).2.deferred r =
      if c = .takeDeferred r then []
      else (deferrals r [c]).foldl (fun bs b => addBlock b bs) (a.deferred r) := by
  cases c with
  | enqueue b => exact deferred_congr (dependents_enqueue a b) r
  | dequeue => exact deferred_congr (dependents_call_dequeue a) r
  | await callee caller => exact deferred_await a callee r caller
  | defer callee caller =>
      change (a.defer callee caller).deferred r = _
      rw [deferred, dependents?_defer, deferred]
      by_cases h : callee = r
      · subst h
        simp [deferrals]
      · simp [deferrals, h]
  | takeDeferred callee =>
      change (a.takeDeferred callee).2.deferred r = _
      rw [deferred_takeDeferred]
      simp [deferrals]

theorem foldl_addBlock_eraseDups (bs new : List BlockRef) :
    new.foldl (fun bs b => addBlock b bs) bs.eraseDups = (bs ++ new).eraseDups := by
  induction new generalizing bs with
  | nil => rw [List.append_nil, List.foldl_nil]
  | cons b new ih =>
      rw [List.foldl_cons, addBlock_eraseDups, ih, List.append_assoc, List.singleton_append]

/-- The blocks that wait for a routine are those that ever used its result, each at its first
place. -/
theorem waiters_after (calls : List Call) (r : RoutineId) :
    (empty.after calls).waiters r = (awaits r calls).eraseDups := by
  induction calls using List.reverseRecOn with
  | nil => rfl
  | append_singleton calls c ih =>
      rw [after_concat, waiters_call, ih, foldl_addBlock_eraseDups, awaits, awaits, awaits,
        List.filterMap_append]

/-- The blocks that are held back for a routine are those of the calls since they were last handed
out, each at its first place. -/
theorem deferred_after (calls : List Call) (r : RoutineId) :
    (empty.after calls).deferred r = (deferrals r (sinceTaken r calls)).eraseDups := by
  induction calls using List.reverseRecOn with
  | nil => rfl
  | append_singleton calls c ih =>
      rw [after_concat, deferred_call, ih, sinceTaken_concat]
      by_cases hc : c = .takeDeferred r
      · rw [if_pos hc, if_pos hc]
        rfl
      · rw [if_neg hc, if_neg hc, foldl_addBlock_eraseDups, deferrals, deferrals, deferrals,
          List.filterMap_append]

theorem waiters_append (calls more : List Call) (r : RoutineId) :
    (empty.after calls).waiters r <+: (empty.after (calls ++ more)).waiters r := by
  rw [waiters_after, waiters_after, awaits, awaits, List.filterMap_append, List.eraseDups_append]
  exact List.prefix_append _ _

/-- Whatever is called on an empty agenda, its parts agree, it serves first what came first, and it
forgets no block that waits or is held back. -/
theorem calls_keep_order (calls more : List Call) :
    let a := empty.after calls
    -- No block is queued twice, and the set of queued blocks is that of the queue.
    a.queue.Nodup ∧ (∀ b, a.isQueued b = true ↔ b ∈ a.queue) ∧
      (∀ b, (a.enqueue b).1 = true ↔ b ∉ a.queue) ∧
    -- The blocks of each routine are counted, and taking one leaves one less.
    (∀ r, a.pendingCount r = a.queue.countP fun b => decide (b.1 = r)) ∧
      (∀ r, a.isStable r = true ↔ ∀ b ∈ a.queue, b.1 ≠ r) ∧
      (∀ b a', a.dequeue = some (b, a') → a'.pendingCount b.1 + 1 = a.pendingCount b.1) ∧
    -- The blocks that came out, followed by those in the queue, are the blocks that went in.
    (a.dequeue = none ↔ a.queue = []) ∧
      dequeued (empty.history calls) ++ a.queue = accepted (empty.history calls) ∧
    -- Who waits for a routine has used its result, and goes on waiting for it.
    (∀ r, a.waiters r = (awaits r calls).eraseDups) ∧
      (∀ r, a.waiters r <+: (empty.after (calls ++ more)).waiters r) ∧
    -- Handed out is what was held back since the last time.
    ∀ r, (a.takeDeferred r).1 = (deferrals r (sinceTaken r calls)).eraseDups := by
  intro a
  refine ⟨a.inStep.nodup, fun _ => isQueued_iff, fun _ => enqueue_fst_iff,
    a.pendingCount_eq_countP, fun _ => isStable_iff, fun _ _ => pendingCount_dequeue,
    dequeue_eq_none, dequeued_append_queue .empty calls, waiters_after calls,
    waiters_append calls more, fun r => ?_⟩
  calc (a.takeDeferred r).1 = a.deferred r := a.takeDeferred_fst r
    _ = (deferrals r (sinceTaken r calls)).eraseDups := deferred_after calls r

end Agenda

end FlowTyping
