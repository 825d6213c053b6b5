import FlowTyping.Proofs.Lattice
import Mathlib.Data.List.Zip
import Mathlib.Order.Lattice

/-!
# The semilattice of states

A variable is well formed when its mask is normal, and when it carries the mark of a reference just
if it is shared, in which case nothing else is known about it. Every change to a state keeps its
variables well formed, and on well-formed states of one routine the join is the least upper bound in
the order in which a state is above all that it subsumes.

Main statement: `flow_semilattice`.
-/

namespace FlowTyping

/-- A normal mask absorbs a mask just if it contains its values and has its flags. -/
theorem Mask.union_eq_left_iff {a b : Mask} (ha : a.Normal) :
    a ∪ b = a ↔ a.contains b = true ∧ (b.subclasses = true → a.subclasses = true) ∧
      (b.void = true → a.void = true) ∧ (b.ref = true → a.ref = true) := by
  constructor
  · intro h
    have hsubclasses := congrArg Mask.subclasses h
    have hvoid := congrArg Mask.void h
    have href := congrArg Mask.ref h
    rw [subclasses_union, Bool.or_eq_left_iff_imp] at hsubclasses
    rw [void_union, Bool.or_eq_left_iff_imp] at hvoid
    rw [ref_union, Bool.or_eq_left_iff_imp] at href
    exact ⟨contains_of_union_eq h, hsubclasses, hvoid, href⟩
  · rintro ⟨hcontains, hsubclasses, hvoid, href⟩
    have hany : (a.any || b.any) = a.any := by
      rw [Bool.or_eq_left_iff_imp]
      exact contains_iff_admits.1 hcontains none
    apply Mask.ext
    · rw [kinds_union, hany]
      cases h : a.any with
      | true => exact (ha h).symm
      | false =>
          apply BitVec.eq_of_getLsbD_eq
          intro i _
          rw [if_neg Bool.false_ne_true, BitVec.getLsbD_or, Bool.or_eq_left_iff_imp]
          intro hi
          have hadmits := contains_iff_admits.1 hcontains (some i) (Or.inr hi)
          rw [Admits, h] at hadmits
          exact hadmits.resolve_left Bool.false_ne_true
    · rw [any_union, hany]
    · rw [subclasses_union, Bool.or_eq_left_iff_imp.2 hsubclasses]
    · rw [void_union, Bool.or_eq_left_iff_imp.2 hvoid]
    · rw [ref_union, Bool.or_eq_left_iff_imp.2 href]

namespace Slot

/-- A shared variable may hold anything and nothing else is known about it; any other has no mark of
a reference. -/
structure WellFormed (s : Slot) : Prop extends s.Proper where
  belowMax : s.shared = true → s.belowMax = false
  ref : s.shared = false → s.mask.ref = false

/-- The first slot allows all that the second one allows, and promises no more. -/
structure Covers (x y : Slot) : Prop where
  mask : x.mask.contains y.mask = true
  flags : x.shared = false → (y.mask.subclasses = true → x.mask.subclasses = true) ∧
    (y.mask.void = true → x.mask.void = true)
  assigned : x.assigned = true → y.assigned = true
  shared : y.shared = true → x.shared = true
  belowMax : x.belowMax = true → y.belowMax = true

variable {x y : Slot} {m : Mask} {i l : Bool}

namespace WellFormed

/-- Shared variables are well formed if they may hold anything and nothing more is known. -/
theorem ofShared : WellFormed ⟨sharedMask, i, true, false⟩ where
  normal _ := rfl
  shared _ := rfl
  belowMax _ := rfl
  ref h := nomatch h

theorem ofPlain (hm : m.Normal) (hr : m.ref = false) : WellFormed ⟨m, i, false, l⟩ where
  normal := hm
  shared h := nomatch h
  belowMax h := nomatch h
  ref _ := hr

/-- There are no other well-formed slots. -/
theorem shared_or_plain (h : x.WellFormed) :
    (∃ i, x = ⟨sharedMask, i, true, false⟩) ∨
      ∃ m i l, m.Normal ∧ m.ref = false ∧ x = ⟨m, i, false, l⟩ := by
  obtain ⟨m, i, shared, l⟩ := x
  cases shared with
  | true =>
      obtain rfl := h.shared rfl
      obtain rfl := h.belowMax rfl
      exact Or.inl ⟨i, rfl⟩
  | false => exact Or.inr ⟨m, i, l, h.normal, h.ref rfl, rfl⟩

theorem unset : Slot.unset.WellFormed :=
  ofPlain (fun h => nomatch h) rfl

theorem share (s : Slot) : s.share.WellFormed :=
  ofShared

/-- An assignment leaves a variable well formed, shared or not. -/
theorem assign (h : x.WellFormed) (hm : m.Normal) : (x.assign m).WellFormed := by
  rcases h.shared_or_plain with ⟨i, rfl⟩ | ⟨m', i, l, -, -, rfl⟩
  · exact ofShared
  · exact ofPlain hm rfl

theorem markAssigned (h : x.WellFormed) : x.markAssigned.WellFormed := by
  rcases h.shared_or_plain with ⟨i, rfl⟩ | ⟨m', i, l, hm', hr, rfl⟩
  · exact ofShared
  · exact ofPlain hm' hr

theorem narrow (h : x.WellFormed) (hm : m.Normal) : (x.narrow m).WellFormed := by
  rcases h.shared_or_plain with ⟨i, rfl⟩ | ⟨m', i, l, -, -, rfl⟩
  · exact ofShared
  · exact ofPlain hm rfl

theorem setBelowMax (h : x.WellFormed) (b : Bool) : (x.setBelowMax b).WellFormed := by
  rcases h.shared_or_plain with ⟨i, rfl⟩ | ⟨m', i, l, hm', hr, rfl⟩
  · rw [Slot.setBelowMax, Bool.not_true, Bool.and_false]
    exact ofShared
  · exact ofPlain hm' hr

theorem forget (x : Slot) (b : Bool) : (x.forget b).WellFormed := by
  rw [Slot.forget]
  cases x.shared || b with
  | true => exact ofShared
  | false => exact ofPlain (fun _ => rfl) rfl

/-- A join is well formed, be it that one of the variables is shared. -/
theorem join (hx : x.WellFormed) (hy : y.WellFormed) : (x.join y).WellFormed := by
  rcases hx.shared_or_plain with ⟨i, rfl⟩ | ⟨m, i, l, hm, hr, rfl⟩
  · exact ofShared
  · rcases hy.shared_or_plain with ⟨i', rfl⟩ | ⟨m', i', l', hm', hr', rfl⟩
    · simp only [Slot.join, Bool.and_false]
      exact ofShared
    · apply ofPlain Mask.normal_union
      rw [Mask.ref_union, hr, hr', Bool.or_self]

end WellFormed

/-- A slot absorbs just the slots that it covers. -/
theorem join_eq_left_iff (hx : x.WellFormed) (hy : y.WellFormed) : x.join y = x ↔ x.Covers y := by
  rcases hx.shared_or_plain with ⟨i, rfl⟩ | ⟨m, i, l, hm, hr, rfl⟩
  · constructor
    · intro h
      have hassigned := congrArg Slot.assigned h
      constructor
      case mask => rfl
      case flags => exact fun h => nomatch h
      case assigned => exact Bool.and_eq_left_iff_imp.1 hassigned
      case shared => exact fun _ => rfl
      case belowMax => exact fun h => nomatch h
    · intro h
      apply Slot.ext
      · rfl
      · exact Bool.and_eq_left_iff_imp.2 h.assigned
      · rfl
      · rfl
  · rcases hy.shared_or_plain with ⟨i', rfl⟩ | ⟨m', i', l', hm', hr', rfl⟩
    · constructor
      · intro h
        cases congrArg Slot.shared h
      · intro h
        cases h.shared rfl
    · constructor
      · intro h
        have hmask := (Mask.union_eq_left_iff hm).1 (congrArg Slot.mask h)
        refine ⟨hmask.1, fun _ => ⟨hmask.2.1, hmask.2.2.1⟩, ?_, fun h => h, ?_⟩
        · exact Bool.and_eq_left_iff_imp.1 (congrArg Slot.assigned h)
        · exact Bool.and_eq_left_iff_imp.1 (congrArg Slot.belowMax h)
      · intro h
        apply Slot.ext
        · apply (Mask.union_eq_left_iff hm).2
          refine ⟨h.mask, (h.flags rfl).1, (h.flags rfl).2, ?_⟩
          intro href
          cases hr'.symm.trans href
        · exact Bool.and_eq_left_iff_imp.2 h.assigned
        · rfl
        · exact Bool.and_eq_left_iff_imp.2 h.belowMax

end Slot

/-- The state is about `vars` variables of one routine, all of them well formed. -/
structure State.WellFormed (s : State) (context : ContextId) (vars : Nat) : Prop where
  context : s.context = context
  length : s.slots.length = vars
  slots : ∀ x ∈ s.slots, x.WellFormed

/-! ### Changes to a state -/

/-- A change to a state in place. -/
inductive Mutation where
  | assign (v : VarId) (m : Mask)
  | markAssigned (v : VarId)
  | unset (v : VarId)
  | share (v : VarId)
  | setBelowMax (v : VarId) (b : Bool)
  | narrow (v : VarId) (m : Mask)
  | forgetAll (b : Bool)
  | absorb (other : State)

namespace Mutation

/-- What a mutation makes of a state. -/
def apply : Mutation → State → Except Fault State
  | .assign v m, s => s.assign v m
  | .markAssigned v, s => s.markAssigned v
  | .unset v, s => s.unset v
  | .share v, s => s.share v
  | .setBelowMax v b, s => s.setBelowMax v b
  | .narrow v m, s => s.narrow v m
  | .forgetAll b, s => .ok (s.forgetAll b)
  | .absorb other, s => Prod.snd <$> s.absorb other

/-- The change is about a variable that there is, and the masks and states that it brings are well
formed. -/
def Allowed (context : ContextId) (vars : Nat) : Mutation → Prop
  | .assign v m | .narrow v m => v < vars ∧ m.Normal
  | .markAssigned v | .unset v | .share v | .setBelowMax v _ => v < vars
  | .forgetAll _ => True
  | .absorb other => other.WellFormed context vars

/-- One change after the other. -/
def applyAll (us : List Mutation) (s : State) : Except Fault State :=
  us.foldlM (fun s u => u.apply s) s

end Mutation

namespace State

variable {a b c j s : State} {context : ContextId} {vars : Nat} {v : VarId}

namespace WellFormed

theorem new (context : ContextId) (vars : Nat) :
    (State.new context vars).WellFormed context vars where
  context := rfl
  length := List.length_replicate
  slots x hx := by
    rw [(List.mem_replicate.1 hx).2]
    exact .unset

/-- A change that keeps slots well formed keeps a state well formed. -/
theorem update (h : s.WellFormed context vars) (hv : v < vars) {f : Slot → Slot}
    (hf : ∀ x, x.WellFormed → (f x).WellFormed) :
    ∃ s', s.update v f = .ok s' ∧ s'.WellFormed context vars := by
  have hlt : v < s.slots.length := h.length ▸ hv
  obtain ⟨s', hs', hcontext, hlength, hslots⟩ := forall_slots_update hf h.slots hlt
  exact ⟨s', hs', hcontext.trans h.context, hlength.trans h.length, hslots⟩

theorem forgetAll (h : s.WellFormed context vars) (b : Bool) :
    (s.forgetAll b).WellFormed context vars where
  context := h.context
  length := by rw [State.forgetAll, List.length_map, h.length]
  slots x hx := by
    obtain ⟨y, -, rfl⟩ := List.mem_map.1 hx
    exact .forget y b

/-- The join of well-formed states is well formed. -/
theorem join (ha : a.WellFormed context vars) (hb : b.WellFormed context vars)
    (h : a.join b = .ok j) : j.WellFormed context vars where
  context := by
    obtain ⟨-, -, rfl⟩ := join_eq_ok_iff.1 h
    exact ha.context
  length := (length_of_join h).trans ha.length
  slots := forall_slots_join (fun _ _ => Slot.WellFormed.join) ha.slots hb.slots h

theorem join_eq (ha : a.WellFormed context vars) (hb : b.WellFormed context vars) :
    a.join b = .ok ⟨a.context, List.zipWith Slot.join a.slots b.slots⟩ :=
  join_of_compatible (ha.context.trans hb.context.symm) (ha.length.trans hb.length.symm)

/-- Every change keeps a state well formed. -/
theorem apply (h : s.WellFormed context vars) {u : Mutation} (hu : u.Allowed context vars) :
    ∃ s', u.apply s = .ok s' ∧ s'.WellFormed context vars := by
  cases u with
  | assign v m => exact h.update hu.1 fun _ hx => hx.assign hu.2
  | markAssigned v => exact h.update hu fun _ hx => hx.markAssigned
  | unset v => exact h.update hu fun _ _ => .unset
  | share v => exact h.update hu fun x _ => .share x
  | setBelowMax v b => exact h.update hu fun _ hx => hx.setBelowMax b
  | narrow v m => exact h.update hu.1 fun _ hx => hx.narrow hu.2
  | forgetAll b => exact ⟨_, rfl, h.forgetAll b⟩
  | absorb other =>
      have hj := h.join_eq hu
      exact ⟨_, hj, h.join hu hj⟩

/-- Mutations that mention only variables of the routine can be applied, and keep states well
formed. -/
theorem applyAll (h : s.WellFormed context vars) {us : List Mutation}
    (hus : ∀ u ∈ us, u.Allowed context vars) :
    ∃ s', Mutation.applyAll us s = .ok s' ∧ s'.WellFormed context vars := by
  induction us generalizing s with
  | nil => exact ⟨s, rfl, h⟩
  | cons u us ih =>
      obtain ⟨s₁, hs₁, hw₁⟩ := h.apply (hus u List.mem_cons_self)
      obtain ⟨s', hs', hw'⟩ := ih hw₁ fun u' hu' => hus u' (List.mem_cons_of_mem u hu')
      refine ⟨s', ?_, hw'⟩
      rw [Mutation.applyAll, List.foldlM_cons, hs₁]
      exact hs'

end WellFormed

end State

/-! ### The order -/

/-- The well-formed states of `vars` variables of a routine. -/
abbrev Flow (context : ContextId) (vars : Nat) : Type :=
  { s : State // s.WellFormed context vars }

namespace Flow

variable {context : ContextId} {vars : Nat}

instance : Max (Flow context vars) where
  max a b :=
    ⟨⟨a.1.context, List.zipWith Slot.join a.1.slots b.1.slots⟩, a.2.join b.2 (a.2.join_eq b.2)⟩

/-- On well-formed states the join is the supremum. -/
theorem join_eq (a b : Flow context vars) : a.1.join b.1 = .ok (a ⊔ b).1 :=
  a.2.join_eq b.2

theorem slots_sup (a b : Flow context vars) :
    (a ⊔ b).1.slots = List.zipWith Slot.join a.1.slots b.1.slots :=
  rfl

/-- Well-formed states of one routine differ in their slots only. -/
theorem ext_slots {a b : Flow context vars} (h : a.1.slots = b.1.slots) : a = b :=
  Subtype.ext (State.ext (a.2.context.trans b.2.context.symm) h)

theorem join_comm (a b : Flow context vars) : a ⊔ b = b ⊔ a := by
  apply ext_slots
  rw [slots_sup, slots_sup, List.zipWith_comm]
  simp only [Slot.join_comm]

theorem join_assoc (a b c : Flow context vars) : a ⊔ b ⊔ c = a ⊔ (b ⊔ c) := by
  apply ext_slots
  simp only [slots_sup]
  rw [List.zipWith_zipWith_left, List.zipWith_zipWith_right]
  simp only [Slot.join_assoc]

theorem join_self (a : Flow context vars) : a ⊔ a = a := by
  apply ext_slots
  rw [slots_sup, List.zipWith_self]
  calc
    a.1.slots.map (fun x => x.join x) = a.1.slots.map id :=
      List.map_congr_left fun x hx => Slot.join_self (a.2.slots x hx).toProper
    _ = a.1.slots := List.map_id _

instance : SemilatticeSup (Flow context vars) :=
  .mk' join_comm join_assoc join_self

/-- A state is above those that it subsumes. -/
theorem subsumes_iff_le {a b : Flow context vars} : a.1.subsumes b.1 = .ok true ↔ b ≤ a := by
  rw [State.subsumes_iff, join_eq, ← sup_eq_left, Subtype.ext_iff, Except.ok.injEq]

/-- A state is above those whose variables its own variables cover. -/
theorem le_iff_covers {a b : Flow context vars} :
    b ≤ a ↔ ∀ (v : VarId) (x y : Slot), a.1.slots[v]? = some x → b.1.slots[v]? = some y →
    x.Covers y := by
  have hcovers {v : VarId} {x y : Slot} (hx : a.1.slots[v]? = some x)
    (hy : b.1.slots[v]? = some y) : x.join y = x ↔ x.Covers y :=
    Slot.join_eq_left_iff (a.2.slots x (List.mem_of_getElem? hx))
      (b.2.slots y (List.mem_of_getElem? hy))
  rw [← sup_eq_left]
  constructor
  · intro h v x y hx hy
    have hv := State.slots_of_join (join_eq a b) v
    rw [h, hx, hy] at hv
    exact (hcovers hx hy).1 (Option.some.inj hv).symm
  · intro h
    apply ext_slots
    apply List.ext_getElem?
    intro v
    rw [State.slots_of_join (join_eq a b) v]
    cases hx : a.1.slots[v]? with
    | none => rfl
    | some x =>
        have hlt : v < b.1.slots.length := by
          rw [b.2.length, ← a.2.length]
          exact (List.getElem?_eq_some_iff.1 hx).1
        have hy := List.getElem?_eq_getElem hlt
        rw [hy]
        exact congrArg some ((hcovers hx hy).2 (h v x _ hx hy))

/-- Absorbing a state tells whether it was not subsumed. -/
theorem absorb_eq (a b : Flow context vars) :
    ∃ changed, a.1.absorb b.1 = .ok (changed, (a ⊔ b).1) ∧ a.1.subsumes b.1 = .ok (!changed) := by
  refine ⟨(a ⊔ b).1 != a.1, ?_, ?_⟩
  · exact State.absorb_eq_ok_iff.2 ⟨join_eq a b, rfl⟩
  · rw [State.subsumes, join_eq, bne, Bool.not_not]
    rfl

end Flow

/-- A new state is well formed, and so is what any changes make of it. On well-formed states of one
routine the join is commutative, associative and idempotent, subsumption is a partial order that
compares variable by variable, and the join is the least state that subsumes both. -/
theorem flow_semilattice (context : ContextId) (vars : Nat) :
    (State.new context vars).WellFormed context vars ∧
    (∀ (s : State) (u : Mutation), s.WellFormed context vars → u.Allowed context vars →
      ∃ s', u.apply s = .ok s' ∧ s'.WellFormed context vars) ∧
    (∀ us : List Mutation, (∀ u ∈ us, u.Allowed context vars) →
      ∃ s, Mutation.applyAll us (.new context vars) = .ok s ∧ s.WellFormed context vars) ∧
    ∀ a b c : State, a.WellFormed context vars → b.WellFormed context vars →
      c.WellFormed context vars →
      a.join a = .ok a ∧ a.join b = b.join a ∧
      (∃ j k l, a.join b = .ok j ∧ j.join c = .ok l ∧ b.join c = .ok k ∧ a.join k = .ok l) ∧
      a.subsumes a = .ok true ∧
      (a.subsumes b = .ok true → b.subsumes a = .ok true → a = b) ∧
      (a.subsumes b = .ok true → b.subsumes c = .ok true → a.subsumes c = .ok true) ∧
      (a.subsumes b = .ok true ↔
        ∀ (v : VarId) (x y : Slot), a.slots[v]? = some x → b.slots[v]? = some y → x.Covers y) ∧
      ∃ j changed, a.join b = .ok j ∧ j.WellFormed context vars ∧
        j.subsumes a = .ok true ∧ j.subsumes b = .ok true ∧
        (c.subsumes a = .ok true → c.subsumes b = .ok true → c.subsumes j = .ok true) ∧
        (∀ (v : VarId) (x y z : Slot), a.slots[v]? = some x → b.slots[v]? = some y →
          j.slots[v]? = some z → z.mask.contains x.mask = true ∧ z.mask.contains y.mask = true) ∧
        a.absorb b = .ok (changed, j) ∧ a.subsumes b = .ok (!changed) := by
  refine ⟨.new context vars, fun s u h hu => h.apply hu,
    fun us => (State.WellFormed.new ..).applyAll, ?_⟩
  intro a b c ha hb hc
  lift a to Flow context vars using ha
  lift b to Flow context vars using hb
  lift c to Flow context vars using hc
  obtain ⟨changed, habsorb, hsubsumes⟩ := Flow.absorb_eq a b
  refine ⟨?_, ?_, ?_, ?_, ?_, ?_, ?_, (a ⊔ b).1, changed, Flow.join_eq a b, (a ⊔ b).2,
    ?_, ?_, ?_, ?_,
    habsorb, hsubsumes⟩
  · rw [Flow.join_eq, sup_idem]
  · rw [Flow.join_eq, Flow.join_eq, sup_comm]
  · refine ⟨_, _, (a ⊔ b ⊔ c).1, Flow.join_eq a b, Flow.join_eq (a ⊔ b) c, Flow.join_eq b c, ?_⟩
    rw [Flow.join_eq, sup_assoc]
  · exact Flow.subsumes_iff_le.2 le_rfl
  · intro hab hba
    exact congrArg _ (le_antisymm (Flow.subsumes_iff_le.1 hba) (Flow.subsumes_iff_le.1 hab))
  · intro hab hbc
    exact Flow.subsumes_iff_le.2
      (le_trans (Flow.subsumes_iff_le.1 hbc) (Flow.subsumes_iff_le.1 hab))
  · exact Flow.subsumes_iff_le.trans Flow.le_iff_covers
  · exact Flow.subsumes_iff_le.2 le_sup_left
  · exact Flow.subsumes_iff_le.2 le_sup_right
  · intro hca hcb
    exact Flow.subsumes_iff_le.2 (sup_le (Flow.subsumes_iff_le.1 hca) (Flow.subsumes_iff_le.1 hcb))
  · intro v x y z hx hy hz
    exact ⟨(Flow.le_iff_covers.1 le_sup_left v z x hz hx).mask,
      (Flow.le_iff_covers.1 le_sup_right v z y hz hy).mask⟩

namespace Sample

/-- A shared variable, and one that holds a small number. -/
def sharedState : State :=
  ⟨0, [⟨Slot.sharedMask, true, true, false⟩, ⟨.long, true, false, true⟩]⟩

theorem wellFormed_sharedState : sharedState.WellFormed 0 2 where
  context := rfl
  length := rfl
  slots x hx := by
    rcases List.mem_pair.1 hx with rfl | rfl
    · exact .ofShared
    · exact .ofPlain (fun h => nomatch h) rfl

end Sample

/-- A shared variable and a small number meet a path that has assigned neither. -/
theorem flow_semilattice_shared :
    Sample.sharedState.WellFormed 0 2 ∧ (State.new 0 2).WellFormed 0 2 ∧
      ∃ j, Sample.sharedState.absorb (.new 0 2) = .ok (true, j) ∧ j.WellFormed 0 2 ∧
        j.subsumes Sample.sharedState = .ok true ∧ j.subsumes (.new 0 2) = .ok true ∧
        Sample.sharedState.subsumes (.new 0 2) = .ok false := by
  obtain ⟨hnew, -, -, hlaws⟩ := flow_semilattice 0 2
  have hshared := Sample.wellFormed_sharedState
  obtain ⟨-, -, -, -, -, -, -, j, changed, -, hj, hleft, hright, -, -, habsorb, hsubsumes⟩ :=
    hlaws Sample.sharedState (.new 0 2) (.new 0 2) hshared hnew hnew
  have hchanged : Sample.sharedState.subsumes (.new 0 2) = .ok false := rfl
  cases changed with
  | true => exact ⟨hshared, hnew, j, habsorb, hj, hleft, hright, hchanged⟩
  | false => cases hchanged.symm.trans hsubsumes

end FlowTyping
