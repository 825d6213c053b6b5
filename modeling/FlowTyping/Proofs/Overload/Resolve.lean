import FlowTyping.Proofs.Declaration.Hierarchy
import FlowTyping.Proofs.Overload.Score
import Mathlib.Data.List.Nodup

/-!
# The candidates that resolution picks

Of the candidates that apply to a call and take its arguments, those with the smallest score are
best. Main statement: `resolve_picks_best`. A call is bound to the only best candidate, or to the
one whose class derives from the classes of all others; without such a candidate all best ones are
kept. Scores are those in the table that comes out, whichever candidates were scored before.
-/

namespace FlowTyping

open Typing

namespace Overload

variable {d : Declarations} {scope? : Option Name} {candidates : List RoutineDecl}
  {args : List ArgumentType} {t t' : KindTable} {r : RoutineDecl}

/-! ### Candidates that apply -/

/-- Code of a class, or of none, may call the routine. -/
inductive Sees (d : Declarations) : Option Name → RoutineDecl → Prop
  | function {scope? : Option Name} {r : RoutineDecl} (hcls : r.cls? = none) : Sees d scope? r
  | isPublic {scope? : Option Name} {r : RoutineDecl}
    (h : r.visibility = .isPublic) : Sees d scope? r
  | isPrivate {scope cls : Name} {r : RoutineDecl} (hcls : r.cls? = some cls)
      (h : r.visibility = .isPrivate) (hsame : (scope == cls) = true) : Sees d (some scope) r
  | isProtected {scope cls : Name} {r : RoutineDecl} (hcls : r.cls? = some cls)
      (h : r.visibility = .isProtected) (hrelated : d.Extends scope cls ∨ d.Extends cls scope) :
      Sees d (some scope) r

/-- The test for visibility is the rule. -/
theorem isVisible_iff : isVisible d scope? r = true ↔ Sees d scope? r := by
  constructor
  · intro h
    rw [isVisible] at h
    cases hcls : r.cls? with
    | none => exact .function hcls
    | some cls =>
        rw [hcls] at h
        cases hvis : r.visibility with
        | isPublic => exact .isPublic hvis
        | isPrivate =>
            cases scope? with
            | none =>
                rw [hvis] at h
                cases h
            | some scope =>
                rw [hvis] at h
                exact .isPrivate hcls hvis h
        | isProtected =>
            cases scope? with
            | none =>
                rw [hvis] at h
                cases h
            | some scope =>
                rw [hvis] at h
                apply Sees.isProtected hcls hvis
                rw [← Declarations.isSubclass_iff, ← Declarations.isSubclass_iff]
                exact Bool.or_eq_true_iff.1 h
  · intro h
    cases h with
    | function hcls => rw [isVisible, hcls]
    | isPublic h =>
        rw [isVisible, h]
        cases r.cls? <;> rfl
    | isPrivate hcls h hsame =>
        rw [isVisible, hcls, h]
        exact hsame
    | isProtected hcls h hrelated =>
        rw [isVisible, hcls, h]
        rw [← Declarations.isSubclass_iff, ← Declarations.isSubclass_iff] at hrelated
        exact Bool.or_eq_true_iff.2 hrelated

/-- A number of arguments goes to a parameter each, and no parameter without a default is left
out. -/
def TakesEach (r : RoutineDecl) (count : Nat) : Prop :=
  r.isVariadic = false ∧ r.mandatoryCount ≤ count ∧ count ≤ r.fixedCount

/-- The last parameter takes whatever arguments are left. -/
def TakesRest (r : RoutineDecl) (count : Nat) : Prop :=
  r.isVariadic = true ∧ r.mandatoryCount ≤ count

/-- A visible candidate that takes the arguments. Candidates that take any number of them count only
if no other one takes just as many. -/
def Applies (d : Declarations) (scope? : Option Name) (candidates : List RoutineDecl) (count : Nat)
    (r : RoutineDecl) : Prop :=
  r ∈ candidates ∧ Sees d scope? r ∧
    (TakesEach r count ∨
      TakesRest r count ∧ ∀ r' ∈ candidates, Sees d scope? r' → ¬TakesEach r' count)

theorem applicable_sublist (candidates : List RoutineDecl) (count : Nat) :
    (applicable d scope? candidates count).Sublist candidates := by
  rw [applicable]
  split
  · exact List.filter_sublist.trans List.filter_sublist
  · exact List.filter_sublist.trans List.filter_sublist

/-- The candidates that are left are those that apply. -/
theorem mem_applicable_iff {count : Nat} :
    r ∈ applicable d scope? candidates count ↔ Applies d scope? candidates count r := by
  have hfixed (r : RoutineDecl) :
      r ∈ (candidates.filter (isVisible d scope?)).filter
        (fun r => !r.isVariadic && r.mandatoryCount ≤ count && count ≤ r.fixedCount) ↔
      r ∈ candidates ∧ Sees d scope? r ∧ TakesEach r count := by
    rw [List.mem_filter, List.mem_filter, isVisible_iff, and_assoc]
    simp [TakesEach, and_assoc]
  have hrest :
      r ∈ (candidates.filter (isVisible d scope?)).filter
        (fun r => r.isVariadic && r.mandatoryCount ≤ count) ↔
      r ∈ candidates ∧ Sees d scope? r ∧ TakesRest r count := by
    rw [List.mem_filter, List.mem_filter, isVisible_iff, and_assoc]
    simp [TakesRest]
  rw [applicable, Applies]
  split
  · rename_i hempty
    have hnone : ∀ r' ∈ candidates, Sees d scope? r' → ¬TakesEach r' count := by
      intro r' hr' hsees htakes
      have hmem := (hfixed r').2 ⟨hr', hsees, htakes⟩
      rw [List.isEmpty_iff.1 hempty] at hmem
      exact List.not_mem_nil hmem
    rw [hrest]
    constructor
    · rintro ⟨hr, hsees, htakes⟩
      exact ⟨hr, hsees, Or.inr ⟨htakes, hnone⟩⟩
    · rintro ⟨hr, hsees, htakes | ⟨htakes, -⟩⟩
      · exact absurd htakes (hnone r hr hsees)
      · exact ⟨hr, hsees, htakes⟩
  · rename_i hsome
    rw [hfixed]
    constructor
    · rintro ⟨hr, hsees, htakes⟩
      exact ⟨hr, hsees, Or.inl htakes⟩
    · rintro ⟨hr, hsees, htakes | ⟨-, hnone⟩⟩
      · exact ⟨hr, hsees, htakes⟩
      · -- Some candidate takes just as many arguments, so the open ones do not count.
        obtain ⟨r', hr'⟩ := List.exists_mem_of_ne_nil _ fun h => hsome (List.isEmpty_iff.2 h)
        obtain ⟨hmem, hsees', htakes'⟩ := (hfixed r').1 hr'
        exact absurd htakes' (hnone r' hmem hsees')

/-! ### Best candidates -/

/-- A candidate applies and takes the arguments at some cost in the table. -/
structure Eligible (d : Declarations) (t : KindTable) (candidates : List RoutineDecl)
    (args : List ArgumentType) (scope? : Option Name) (r : RoutineDecl) (s : Score) : Prop where
  applies : Applies d scope? candidates args.length r
  score : ∃ t', (score d r args).run t = .ok (s, t')
  compatible : s.worst ≠ .incompatible

/-- No eligible candidate has a smaller score. -/
def Best (d : Declarations) (t : KindTable) (candidates : List RoutineDecl)
    (args : List ArgumentType) (scope? : Option Name) (r : RoutineDecl) : Prop :=
  ∃ s, Eligible d t candidates args scope? r s ∧
    ∀ r' s', Eligible d t candidates args scope? r' s' → s.key ≤ s'.key

/-- The class that declares the one routine derives from the class of the other one, another
class. -/
def StrictlyDerives (d : Declarations) (r r' : RoutineDecl) : Prop :=
  ∃ cls base, r.cls? = some cls ∧ r'.cls? = some base ∧ (base == cls) = false ∧ d.Extends cls base

section Scored

variable {scored : List (Score × RoutineDecl)} (ht : t.WellFormed)
  (hargs : ∀ arg ∈ args, arg.Within t)
  (h : ((applicable d scope? candidates args.length).mapM fun r => do
    return (← score d r args, r) : Typing _).run t = .ok (scored, t'))

include ht hargs h

/-- The candidates whose arguments can be converted are the eligible ones. -/
theorem mem_scored_iff {s : Score} :
    (s, r) ∈ scored.filter (fun p => p.1.worst != .incompatible) ↔
      Eligible d t' candidates args scope? r s := by
  have hscores := (scored_repeats ht hargs h).2
  rw [List.mem_filter, bne_iff_ne]
  constructor
  · rintro ⟨hmem, hcompatible⟩
    refine ⟨mem_applicable_iff.1 ?_, ⟨t', hscores _ hmem⟩, hcompatible⟩
    rw [← map_snd_scored h]
    exact List.mem_map_of_mem (f := Prod.snd) hmem
  · intro heligible
    have hmem := mem_applicable_iff.2 heligible.applies
    rw [← map_snd_scored h] at hmem
    obtain ⟨p, hp, rfl⟩ := List.mem_map.1 hmem
    obtain ⟨t'', hscore⟩ := heligible.score
    cases (hscores p hp).symm.trans hscore
    exact ⟨hp, heligible.compatible⟩

/-- The cheapest of the eligible candidates are the best ones. -/
theorem mem_cheapest_iff_best :
    r ∈ cheapest (scored.filter fun p => p.1.worst != .incompatible) ↔
      Best d t' candidates args scope? r := by
  rw [mem_cheapest_iff, Best]
  constructor
  · rintro ⟨s, hs, hleast⟩
    refine ⟨s, (mem_scored_iff ht hargs h).1 hs, fun r' s' helig => ?_⟩
    exact hleast (s', r') ((mem_scored_iff ht hargs h).2 helig)
  · rintro ⟨s, helig, hleast⟩
    refine ⟨s, (mem_scored_iff ht hargs h).2 helig, fun p hp => ?_⟩
    exact hleast p.2 p.1 ((mem_scored_iff ht hargs h).1 hp)

/-- If anything is eligible, something is best. -/
theorem no_cheapest_iff :
    cheapest (scored.filter fun p => p.1.worst != .incompatible) = [] ↔
      ∀ r s, ¬Eligible d t' candidates args scope? r s := by
  rw [cheapest_eq_nil_iff, List.eq_nil_iff_forall_not_mem]
  constructor
  · intro hnone r s helig
    exact hnone (s, r) ((mem_scored_iff ht hargs h).2 helig)
  · rintro hnone ⟨s, r⟩ hmem
    exact hnone r s ((mem_scored_iff ht hargs h).1 hmem)

end Scored

/-! ### Ties -/

/-- The test for a more derived class is the rule. -/
theorem strictlyDerives_iff {cls : Name} {r' : RoutineDecl} (hcls : r.cls? = some cls) :
    (match r'.cls? with
      | some base => base != cls && d.isSubclass cls base
      | none => false) = true ↔ StrictlyDerives d r r' := by
  rw [StrictlyDerives]
  cases hbase : r'.cls? with
  | none => simp
  | some base => simp [hcls, bne, Declarations.isSubclass_iff]

section Ties

variable {tied : List RoutineDecl} (hids : (tied.map RoutineDecl.id).Nodup)

include hids

/-- A candidate that is chosen among several derives from all others. -/
theorem mostDerived?_eq_some (h : mostDerived? d tied = some r) :
    r ∈ tied ∧ ∀ r' ∈ tied, r' ≠ r → StrictlyDerives d r r' := by
  have hmem := List.mem_of_find?_eq_some h
  refine ⟨hmem, fun r' hr' hne => ?_⟩
  have hwins := List.find?_some h
  cases hcls : r.cls? with
  | none => simp [hcls] at hwins
  | some cls =>
      simp only [hcls, List.all_eq_true, Bool.or_eq_true, beq_iff_eq] at hwins
      rcases hwins r' hr' with hid | hderives
      · exact absurd (List.inj_on_of_nodup_map hids hr' hmem hid) hne
      · exact (strictlyDerives_iff hcls).1 hderives

/-- If none is chosen, each of them fails to derive from another one. -/
theorem mostDerived?_eq_none (htwo : 2 ≤ tied.length) (h : mostDerived? d tied = none) :
    ∀ r ∈ tied, ∃ r' ∈ tied, r' ≠ r ∧ ¬StrictlyDerives d r r' := by
  intro r hr
  have hloses := List.find?_eq_none.1 h r hr
  cases hcls : r.cls? with
  | none =>
      -- A routine without a class derives from no other one, and there is another one.
      obtain ⟨r', hr', hne⟩ : ∃ r' ∈ tied, r' ≠ r := by
        by_contra hall
        have hsame : ∀ r' ∈ tied, r' = r :=
          fun r' hr' => by_contra fun hne => hall ⟨r', hr', hne⟩
        have hone : tied = List.replicate tied.length r := List.eq_replicate_of_mem hsame
        have hnodup : tied.Nodup := List.Nodup.of_map _ hids
        rw [hone, List.nodup_replicate] at hnodup
        omega
      refine ⟨r', hr', hne, ?_⟩
      rintro ⟨cls, base, hcls', -⟩
      rw [hcls] at hcls'
      cases hcls'
  | some cls =>
      simp only [hcls, List.all_eq_true, Bool.or_eq_true, beq_iff_eq, not_forall, not_or] at hloses
      obtain ⟨r', hr', hid, hderives⟩ := hloses
      refine ⟨r', hr', ?_, fun hstrict => hderives ((strictlyDerives_iff hcls).2 hstrict)⟩
      rintro rfl
      exact hid rfl

/-- How a tie is decided. -/
theorem decideTie_spec :
    (decideTie d tied = .missing ↔ tied = []) ∧
    (∀ id, decideTie d tied = .resolved id →
      ∃ r ∈ tied, r.id = id ∧ ∀ r' ∈ tied, r' ≠ r → StrictlyDerives d r r') ∧
    ∀ ids, decideTie d tied = .ambiguous ids →
      ids = tied.map RoutineDecl.id ∧ 2 ≤ tied.length ∧
        ∀ r ∈ tied, ∃ r' ∈ tied, r' ≠ r ∧ ¬StrictlyDerives d r r' := by
  rcases tied with - | ⟨r, - | ⟨r', rest⟩⟩
  · simp [decideTie]
  · simp [decideTie]
  · cases hmost : mostDerived? d (r :: r' :: rest) with
    | some best =>
        obtain ⟨hmem, hderives⟩ := mostDerived?_eq_some hids hmost
        simp only [decideTie, hmost]
        refine ⟨by simp, ?_, by simp⟩
        rintro id h
        cases h
        exact ⟨best, hmem, rfl, hderives⟩
    | none =>
        have htwo : 2 ≤ (r :: r' :: rest).length := by simp
        simp only [decideTie, hmost]
        refine ⟨by simp, by simp, ?_⟩
        rintro ids h
        cases h
        exact ⟨rfl, htwo, mostDerived?_eq_none hids htwo hmost⟩

end Ties

/-- Resolution always comes to an answer. It is bound to nothing exactly if an argument stands for
an unknown number of arguments or no candidate is eligible; a routine that it finds is best and
derives from all other best ones; and if it finds several, these are all the best ones, in the order
of the candidates, of which none derives from all others. -/
theorem resolve_picks_best (d : Declarations) {t : KindTable} (ht : t.WellFormed)
    {candidates : List RoutineDecl} (hids : (candidates.map RoutineDecl.id).Nodup)
    {args : List ArgumentType} (hargs : ∀ arg ∈ args, arg.Within t) (scope? : Option Name) :
    ∃ binding t', (resolve d candidates args scope?).run t = .ok (binding, t') ∧
      (binding = .missing ↔
        (∃ arg ∈ args, arg.unpack = true) ∨ ∀ r s, ¬Eligible d t' candidates args scope? r s) ∧
      (∀ id, binding = .resolved id →
        ∃ r, r.id = id ∧ Best d t' candidates args scope? r ∧
          ∀ r', Best d t' candidates args scope? r' → r' ≠ r → StrictlyDerives d r r') ∧
      ∀ ids, binding = .ambiguous ids →
        ∃ rs : List RoutineDecl, rs.Sublist candidates ∧ rs.map RoutineDecl.id = ids ∧
        2 ≤ rs.length ∧
          (∀ r, r ∈ rs ↔ Best d t' candidates args scope? r) ∧
          ∀ r ∈ rs, ∃ r' ∈ rs, r' ≠ r ∧ ¬StrictlyDerives d r r' := by
  obtain ⟨binding, t', hrun, -⟩ := resolve_runs d candidates args scope? ht
  refine ⟨binding, t', hrun, ?_⟩
  rw [resolve] at hrun
  split at hrun
  · rename_i hnothing
    cases hrun
    refine ⟨iff_of_true rfl ?_, by simp, by simp⟩
    rcases Bool.or_eq_true_iff.1 hnothing with hempty | hunpack
    · right
      rintro r s ⟨⟨hmem, -⟩, -, -⟩
      rw [List.isEmpty_iff.1 hempty] at hmem
      exact List.not_mem_nil hmem
    · exact Or.inl (List.any_eq_true.1 hunpack)
  · rename_i hsomething
    have hpacked : ¬∃ arg ∈ args, arg.unpack = true := by
      rintro ⟨arg, harg, hunpack⟩
      exact hsomething (Bool.or_eq_true_iff.2 (Or.inr (List.any_eq_true.2 ⟨arg, harg, hunpack⟩)))
    obtain ⟨scored, t₁, hscored, hrun⟩ := exists_of_run_bind hrun
    cases hrun
    have hbest {r : RoutineDecl} := mem_cheapest_iff_best (r := r) ht hargs hscored
    have hnone := no_cheapest_iff ht hargs hscored
    generalize htied : cheapest (scored.filter fun p => p.1.worst != .incompatible) = tied
      at hbest hnone
    have hsub : tied.Sublist candidates := by
      rw [← htied]
      apply (cheapest_sublist _).trans
      apply (List.filter_sublist.map Prod.snd).trans
      rw [map_snd_scored hscored]
      exact applicable_sublist _ _
    obtain ⟨hmissing, hresolved, hambiguous⟩ :=
      decideTie_spec (d := d) (hids.sublist (hsub.map RoutineDecl.id))
    refine ⟨?_, ?_, ?_⟩
    · rw [hmissing, hnone, or_iff_right hpacked]
    · intro id hid
      obtain ⟨r, hr, hrid, hderives⟩ := hresolved id hid
      exact ⟨r, hrid, hbest.1 hr, fun r' hr' => hderives r' (hbest.2 hr')⟩
    · intro ids hids'
      obtain ⟨rfl, htwo, hstuck⟩ := hambiguous ids hids'
      exact ⟨tied, hsub, rfl, htwo, fun r => hbest, hstuck⟩

namespace Sample

/-- A class and one that derives from it. -/
def family : Declarations :=
  (Declarations.empty.declareClass (.new ⟨"Base"⟩)).declareClass
    { ClassDecl.new ⟨"Derived"⟩ with base? := some ⟨"base"⟩ }

/-- A routine with one parameter of a declared type. -/
def taking (id : RoutineId) (cls? : Option Name) (hint : Hint) : RoutineDecl :=
  ⟨id, ⟨"take"⟩, cls?, [(ParamDecl.new "x").typed hint], none, .isPublic, false⟩

/-- The last candidate declares a class that no longer fits into the table. -/
def takers : List RoutineDecl :=
  [taking 0 (some ⟨"Base"⟩) (.ofClass ⟨"node"⟩),
    taking 1 (some ⟨"Derived"⟩) (.nullable (.ofClass ⟨"NODE"⟩)),
    taking 2 none (.ofClass ⟨"Leaf"⟩)]

/-- Two candidates take the argument as it is, and the one of the derived class is called. -/
theorem resolve_picks_best_derived :
    (resolve family takers [⟨.bit 6, false⟩] none).run Sample.fullTable =
      .ok (.resolved 1, { Sample.fullTable with overflowed := true }) ∧
    ∃ r, r.id = 1 ∧
      Best family { Sample.fullTable with overflowed := true } takers [⟨.bit 6, false⟩] none r ∧
      ∀ r',
        Best family { Sample.fullTable with overflowed := true } takers [⟨.bit 6, false⟩] none r' →
        r' ≠ r → StrictlyDerives family r r' := by
  have hfirst : (resolve family takers [⟨.bit 6, false⟩] none).run Sample.fullTable =
      .ok (.resolved 1, { Sample.fullTable with overflowed := true }) := by
    -- Taking the lowest bit out of a word goes through its sixty places.
    set_option maxRecDepth 2000 in
    rfl
  have hids : (takers.map RoutineDecl.id).Nodup := by decide
  have hargs : ∀ arg ∈ [(⟨.bit 6, false⟩ : ArgumentType)], arg.Within Sample.fullTable := by
    intro arg harg i hi
    rw [List.mem_singleton.1 harg, Mask.has_bit, Bool.and_eq_true, decide_eq_true_iff,
      decide_eq_true_iff] at hi
    rw [← hi.2]
    decide
  obtain ⟨binding, t', hrun, -, hresolved, -⟩ :=
    resolve_picks_best family Sample.reachable_fullTable.wellFormed hids hargs none
  cases hfirst.symm.trans hrun
  exact ⟨hfirst, hresolved 1 rfl⟩

end Sample

end Overload

end FlowTyping
