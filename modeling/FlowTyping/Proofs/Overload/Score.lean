import FlowTyping.Proofs.Kind.Permanent
import Mathlib.Data.List.Basic
import Mathlib.Data.Prod.Lex

/-!
# Scores of candidates

Scores are compared by the worst argument first and by the number of conversions then. To score a
candidate, the types that it declares are read into the table, so that candidates are scored in
different tables. Main statement: `scored_repeats`. All of them keep their scores in the table that
comes out.
-/

namespace FlowTyping

open Typing

/-! ### The order of scores -/

/-- Conversions of the same rank are the same. -/
theorem Cost.rank_injective : Function.Injective Cost.rank := by
  intro a b h
  cases a <;> cases b <;> simp_all [Cost.rank]

namespace Score

/-- The worst cost counts first, the number of conversions second. -/
def key (s : Score) : ℕ ×ₗ ℕ :=
  toLex (s.worst.rank, s.conversions)

/-- A score is its worst conversion and the number of conversions. -/
theorem key_injective : Function.Injective key := by
  intro s s' h
  obtain ⟨hworst, hconversions⟩ := Prod.mk.inj (toLex.injective h)
  cases s
  cases s'
  cases Cost.rank_injective hworst
  cases hconversions
  rfl

/-- Scores are compared by their keys. -/
theorem le_iff {s s' : Score} : s.le s' = true ↔ s.key ≤ s'.key := by
  simp [le, key, Prod.Lex.toLex_le_toLex]

theorem least?_eq_none_iff {l : List Score} : least? l = none ↔ l = [] := by
  cases l with
  | nil => simp [least?]
  | cons s rest =>
      rw [least?]
      cases least? rest with
      | none => simp
      | some best => by_cases h : s.le best = true <;> simp [h]

/-- The smallest of some scores is one of them, and no other is smaller. -/
theorem least?_eq_some {l : List Score} {best : Score} (h : least? l = some best) :
    best ∈ l ∧ ∀ s ∈ l, best.key ≤ s.key := by
  induction l generalizing best with
  | nil => cases h
  | cons s rest ih =>
      rw [least?] at h
      cases hrest : least? rest with
      | none =>
          rw [hrest] at h
          cases h
          rw [least?_eq_none_iff.1 hrest]
          simp
      | some other =>
          simp only [hrest] at h
          obtain ⟨hmem, hle⟩ := ih hrest
          by_cases hfirst : s.le other = true
          · rw [if_pos hfirst] at h
            cases h
            refine ⟨List.mem_cons_self, List.forall_mem_cons.2 ⟨le_rfl, ?_⟩⟩
            intro s' hs'
            exact (le_iff.1 hfirst).trans (hle s' hs')
          · rw [if_neg hfirst] at h
            cases h
            refine ⟨List.mem_cons_of_mem s hmem, List.forall_mem_cons.2 ⟨?_, hle⟩⟩
            exact (lt_of_not_ge fun hge => hfirst (le_iff.2 hge)).le

end Score

namespace KindTable

variable {t t' : KindTable}

theorem Grows.kind?_eq (hg : t.Grows t') {i : Nat} (hi : i < t.size) : t'.kind? i = t.kind? i := by
  obtain ⟨more, hmore⟩ := hg.kinds
  rw [KindTable.kind?, KindTable.kind?, ← hmore]
  exact List.getElem?_append_left hi

end KindTable

namespace ArgumentType

variable {arg : ArgumentType} {t t' : KindTable}

/-- The argument lists only kinds of the table. -/
def Within (arg : ArgumentType) (t : KindTable) : Prop :=
  ∀ i, arg.mask.has i = true → i < t.size

theorem Within.grow (h : arg.Within t) (hg : t.Grows t') : arg.Within t' := by
  intro i hi
  exact Nat.lt_of_lt_of_le (h i hi) hg.size_le

end ArgumentType

namespace Overload

/-! ### The cheapest candidates -/

/-- The cheapest candidates are listed in their order. -/
theorem cheapest_sublist (scored : List (Score × RoutineDecl)) :
    (cheapest scored).Sublist (scored.map Prod.snd) := by
  rw [cheapest]
  split
  · exact List.nil_sublist _
  · exact List.filter_sublist.map Prod.snd

/-- Of some candidates, one at least is cheapest. -/
theorem cheapest_eq_nil_iff {scored : List (Score × RoutineDecl)} :
    cheapest scored = [] ↔ scored = [] := by
  rw [cheapest]
  cases hleast : Score.least? (scored.map Prod.fst) with
  | none => simp [List.map_eq_nil_iff.1 (Score.least?_eq_none_iff.1 hleast)]
  | some best =>
      obtain ⟨p, hp, rfl⟩ := List.mem_map.1 (Score.least?_eq_some hleast).1
      have hbest : p ∈ scored.filter fun s => s.1 == p.1 :=
        List.mem_filter.2 ⟨hp, beq_self_eq_true _⟩
      simp [List.ne_nil_of_mem hp, List.ne_nil_of_mem hbest]

/-- The cheapest candidates are those with a score that no other score undercuts. -/
theorem mem_cheapest_iff {scored : List (Score × RoutineDecl)} {r : RoutineDecl} :
    r ∈ cheapest scored ↔ ∃ s, (s, r) ∈ scored ∧ ∀ p ∈ scored, s.key ≤ p.1.key := by
  rw [cheapest]
  cases hleast : Score.least? (scored.map Prod.fst) with
  | none =>
      have hempty : scored = [] := List.map_eq_nil_iff.1 (Score.least?_eq_none_iff.1 hleast)
      simp [hempty]
  | some best =>
      obtain ⟨hmem, hle⟩ := Score.least?_eq_some hleast
      obtain ⟨p, hp, rfl⟩ := List.mem_map.1 hmem
      simp only [List.mem_map, List.mem_filter, beq_iff_eq]
      constructor
      · rintro ⟨⟨s, r'⟩, ⟨hs, rfl⟩, rfl⟩
        exact ⟨_, hs, fun q hq => hle q.1 (List.mem_map_of_mem hq)⟩
      · rintro ⟨s, hs, hleast'⟩
        have hkey : s.key = p.1.key :=
          le_antisymm (hleast' p hp) (hle s (List.mem_map_of_mem (f := Prod.fst) hs))
        exact ⟨(s, r), ⟨hs, Score.key_injective hkey⟩, rfl⟩

/-! ### Costs in later tables -/

variable {d : Declarations} {t t' : KindTable} {args : List ArgumentType} {r : RoutineDecl}

theorem accepts_grow (hg : t.Grows t') {param : Mask} (hparam : param.Fits t.size)
    (test : Kind → Bool) : accepts t' param test = accepts t param test := by
  rw [accepts, accepts, Bool.eq_iff_iff, List.any_eq_true, List.any_eq_true]
  have hkind {i : Nat} (hi : i ∈ param.members) : t'.kind? i = t.kind? i :=
    hg.kind?_eq (KindTable.lt_of_mem_members hparam hi)
  constructor
  · rintro ⟨i, hi, htest⟩
    exact ⟨i, hi, hkind hi ▸ htest⟩
  · rintro ⟨i, hi, htest⟩
    exact ⟨i, hi, (hkind hi).symm ▸ htest⟩

/-- The cost of a conversion does not change while the table grows. -/
theorem kindCost_grow (hg : t.Grows t') {param : Mask} (hparam : param.Fits t.size) (k : Kind)
    (i : Nat) : kindCost d t' k i param = kindCost d t k i param := by
  simp only [kindCost, accepts_grow hg hparam]

/-- What it costs to pass an argument does not change as the table grows. -/
theorem cost_grow (hg : t.Grows t') {arg : ArgumentType} (harg : arg.Within t)
    {param? : Option Mask} (hparam : ∀ m ∈ param?, m.Fits t.size) :
    cost d t' arg.mask param? = cost d t arg.mask param? := by
  rw [cost, cost]
  cases hknown : param?.filter fun param => !param.any with
  | none => rfl
  | some param =>
      have hfits : param.Fits t.size := hparam param (Option.filter_eq_some_iff.1 hknown).1
      dsimp only
      split
      · rfl
      · apply List.foldl_ext
        intro worst i hi
        simp only [hg.kind?_eq (harg i (Mask.mem_members.1 hi)), kindCost_grow hg hfits]

/-! ### Scores in later tables -/

/-- What a parameter accepts is asked for alike each time. -/
theorem acceptedMask?_echoes (p : ParamDecl) : Echoes (acceptedMask? p) (acceptedMask? p) := by
  rw [acceptedMask?]
  cases p.hint? with
  | none => exact .pure _
  | some hint => exact .bind (KindTable.hintMask_echoes (Hint.same_refl hint)) fun _ => .pure _

theorem fits_acceptedMask? (p : ParamDecl) (ht : t.WellFormed) :
    Runs (acceptedMask? p) t fun param? t' => ∀ m ∈ param?, m.Fits t'.size := by
  rw [acceptedMask?]
  cases p.hint? with
  | none => exact Runs.pure ht (by simp)
  | some hint =>
      refine Runs.bind (KindTable.hintMask_runs hint ht) fun m t' hw _ hm => Runs.pure hw ?_
      intro m' hm'
      cases hm'
      split
      · exact hm.union (.bit (Nat.lt_of_lt_of_le (by decide) hw.six_le_size))
      · exact hm

theorem argumentCost_numbers (r : RoutineDecl) (position : Nat) (arg : ArgumentType) :
    Numbers (argumentCost d r position arg) := by
  rw [argumentCost]
  cases r.paramAt? position with
  | none => exact .pure _
  | some p => exact .bind (acceptedMask?_echoes p).numbers fun _ => .get_bind fun _ => .pure _

theorem scoreFrom_numbers (r : RoutineDecl) (position : Nat) (s : Score)
    (args : List ArgumentType) : Numbers (scoreFrom d r position s args) := by
  induction args generalizing position s with
  | nil => exact .pure _
  | cons arg rest ih =>
      rw [scoreFrom]
      exact .bind (argumentCost_numbers r position arg) fun _ => ih _ _

/-- The cost of an argument does not change once it was told. -/
theorem argumentCost_repeats (ht : t.WellFormed) (r : RoutineDecl) (position : Nat)
    {arg : ArgumentType} (harg : arg.Within t) :
    Repeats t (argumentCost d r position arg) (argumentCost d r position arg) := by
  rw [argumentCost]
  cases r.paramAt? position with
  | none => exact .pure _
  | some p =>
      apply Repeats.bind ((acceptedMask?_echoes p).repeats t) fun _ => .get_bind fun _ => .pure _
      intro param? t₁ haccepted c t₂ hcost t₃ hlater
      obtain ⟨param?', t₁', haccepted', -, hgrows, hfits⟩ := fits_acceptedMask? p ht
      cases haccepted.symm.trans haccepted'
      cases hcost
      change Except.ok (cost d t₃ arg.mask param?, t₃) = _
      rw [cost_grow (KindTable.Changes.grows hlater) (harg.grow hgrows) hfits]

/-- Nor does the score of some arguments. -/
theorem scoreFrom_repeats (ht : t.WellFormed) (r : RoutineDecl) (position : Nat) (s : Score)
    (hargs : ∀ arg ∈ args, arg.Within t) :
    Repeats t (scoreFrom d r position s args) (scoreFrom d r position s args) := by
  induction args generalizing position s t with
  | nil => exact .pure _
  | cons arg rest ih =>
      obtain ⟨harg, hrest⟩ := List.forall_mem_cons.1 hargs
      rw [scoreFrom]
      apply Repeats.bind (argumentCost_repeats ht r position harg) fun _ =>
        scoreFrom_numbers r _ _ _
      intro c t₁ hcost
      obtain ⟨c', t₁', hcost', hw, hgrows, -⟩ := argumentCost_runs d r position arg ht
      cases hcost.symm.trans hcost'
      exact ih hw _ _ fun arg' harg' => (hrest arg' harg').grow hgrows

/-- Each candidate is given a score, and none is dropped. -/
theorem map_snd_scored {candidates : List RoutineDecl} {scored : List (Score × RoutineDecl)}
    (h : (candidates.mapM fun r => do return (← score d r args, r) : Typing _).run t
      = .ok (scored, t')) : scored.map Prod.snd = candidates := by
  induction candidates generalizing t scored with
  | nil =>
      cases h
      rfl
  | cons r rest ih =>
      rw [List.mapM_cons] at h
      obtain ⟨first, t₁, hfirst, h⟩ := Typing.exists_of_run_bind h
      obtain ⟨others, t₂, hothers, h⟩ := Typing.exists_of_run_bind h
      obtain ⟨_, t₃, -, hfirst⟩ := Typing.exists_of_run_bind hfirst
      cases hfirst
      cases h
      rw [List.map_cons, ih hothers]

/-- Once all candidates are scored, each of them has the score that it was given, although the table
has changed since, and scoring it again changes nothing. -/
theorem scored_repeats {candidates : List RoutineDecl} {scored : List (Score × RoutineDecl)}
    (ht : t.WellFormed) (hargs : ∀ arg ∈ args, arg.Within t)
    (h : (candidates.mapM fun r => do return (← score d r args, r) : Typing _).run t
      = .ok (scored, t')) :
    t.Changes t' ∧ ∀ p ∈ scored, (score d p.2 args).run t' = .ok (p.1, t') := by
  induction candidates generalizing t scored with
  | nil =>
      cases h
      exact ⟨.refl, by simp⟩
  | cons r rest ih =>
      rw [List.mapM_cons] at h
      obtain ⟨first, t₁, hfirst, h⟩ := exists_of_run_bind h
      obtain ⟨others, t₂, hothers, h⟩ := exists_of_run_bind h
      obtain ⟨s, t₃, hscore, hfirst⟩ := exists_of_run_bind hfirst
      cases hfirst
      cases h
      have hchanges : t.Changes t₁ := scoreFrom_numbers r 0 _ args t s t₁ hscore
      obtain ⟨s', t₁', hscore', hw, -⟩ := scoreFrom_runs d r args 0 ⟨.pass, 0⟩ ht
      cases hscore.symm.trans hscore'
      have hargs₁ : ∀ arg ∈ args, arg.Within t₁ :=
        fun arg harg => (hargs arg harg).grow (KindTable.Changes.grows hchanges)
      obtain ⟨hlater, hscores⟩ := ih hw hargs₁ hothers
      refine ⟨hchanges.trans hlater, List.forall_mem_cons.2 ⟨?_, hscores⟩⟩
      exact scoreFrom_repeats ht r 0 _ hargs s t₁ hscore t' hlater

end Overload

end FlowTyping
