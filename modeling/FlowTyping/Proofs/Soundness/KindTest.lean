import FlowTyping.Proofs.Soundness.Allow
import FlowTyping.Proofs.Soundness.Narrow

/-!
# Functions that test for a kind

Main statement: `narrow_check_allows_iff`. A variable that was narrowed by the answer of a function
such as `is_int` still describes the value that was tested, with one exception. That `is_numeric`
failed rules out texts along with numbers, although texts that do not read as numbers fail it too.
-/

namespace FlowTyping

open Visit

variable {env : Setting} {d : Declarations} {s s₁ : Scene} {t : KindTable} {e : ExprId} {x : VarId}
  {slot : Slot} {m r : Mask} {v : Value} {k : Kind}

/-! ### Narrowing a variable -/

/-- The expression names a variable that nothing else writes to, whose mask is one of the
routine's. -/
structure Scene.Owns (env : Setting) (s : Scene) (e : ExprId) (x : VarId) (slot : Slot) : Prop where
  var : env.body.exprs[e]? = some (.var x)
  found : s.state.slots[x]? = some slot
  unshared : slot.shared = false
  table : s.facts.table.WellFormed
  fits : slot.mask.Fits s.facts.table.size

/-- The computation succeeds and leaves a variable with a mask that has `Q`. -/
def Visit.Leaves {α : Type} (a : Visit α) (s : Scene) (x : VarId) (Q : Mask → KindTable → Prop) :
    Prop :=
  ∃ r s' slot, a.run s = .ok (r, s') ∧ s'.state.slots[x]? = some slot ∧ Q slot.mask s'.facts.table

namespace Visit.Leaves

variable {α β : Type} {a : Visit α} {f : α → Visit β} {Q R : Mask → KindTable → Prop}

theorem after {b : α} (ha : a.run s = .ok (b, s₁)) (hf : Leaves (f b) s₁ x Q) :
    Leaves (a >>= f) s x Q := by
  obtain ⟨r, s', slot, hrun, hslot⟩ := hf
  exact ⟨r, s', slot, (run_bind_ok ha).trans hrun, hslot⟩

theorem mono (h : Leaves a s x Q) (hqr : ∀ m t, Q m t → R m t) : Leaves a s x R := by
  obtain ⟨r, s', slot, hrun, hslot, hq⟩ := h
  exact ⟨r, s', slot, hrun, hslot, hqr _ _ hq⟩

end Visit.Leaves

/-- An update of a known slot does not fail. -/
theorem updateSlot_run (hslot : s.state.slots[x]? = some slot) (g : Slot → Slot) :
    ∃ s', (updateState (·.update x g)).run s = .ok ((), s') ∧ s'.facts = s.facts ∧
      s'.state.slots[x]? = some (g slot) := by
  have hlt : x < s.state.slots.length := (List.getElem?_eq_some_iff.1 hslot).1
  refine ⟨{ s with state := { s.state with slots := s.state.slots.modify x g } }, ?_, rfl, ?_⟩
  · change (liftM (s.state.update x g) >>= setState : Visit Unit).run s = _
    rw [State.update, if_pos hlt]
    rfl
  · rw [List.getElem?_modify_eq, hslot]
    rfl

theorem varMask_of_slot (hslot : s.state.slots[x]? = some slot) :
    (varMask x).run s = .ok (slot.mask, s) := by
  have hfound : s.state.slot x = .ok slot := by rw [State.slot, hslot]
  change (liftM (s.state.slot x) >>= fun found : Slot => pure found.mask : Visit Mask).run s = _
  rw [hfound]
  rfl

/-- A variable that nothing else writes to gets the new mask, unless that leaves nothing. -/
theorem narrowTo_leaves (htable : s.facts.table = t) (hslot : s.state.slots[x]? = some slot)
    (hshared : slot.shared = false) (hv : slot.mask.Allows d t v) :
    Leaves (narrowTo x r) s x fun m t' => m.Allows d t' v ↔ r.isEmpty = true ∨ r.Allows d t v := by
  subst htable
  cases hempty : r.isEmpty with
  | true =>
      refine ⟨(), s, slot, ?_, hslot, iff_of_true hv (Or.inl rfl)⟩
      rw [narrowTo, if_pos hempty]
      rfl
  | false =>
      obtain ⟨s', hrun, hfacts, hslot'⟩ := updateSlot_run hslot (Slot.narrow r)
      refine ⟨(), s', Slot.narrow r slot, ?_, hslot', ?_⟩
      · rw [narrowTo, hempty]
        exact hrun
      · rw [Slot.narrow, hshared, hfacts]
        simp only [Bool.false_eq_true, if_false, false_or]
        exact ⟨fun h => h.withRef r.ref, fun h => h.withRef false⟩

/-! ### Tests -/

namespace Value

/-- The value is a number or a text that reads as one. -/
def isNumeric (numeric : String → Bool) : Value → Bool
  | .long _ => true
  | .double _ => true
  | .string text => numeric text
  | _ => false

/-- An array, whatever its elements. -/
def isArray : Value → Bool
  | .array _ => true
  | _ => false

/-- An object of any class. -/
def isObject : Value → Bool
  | .object _ _ => true
  | _ => false

/-- What a function that tests for a kind answers, given which texts read as numbers. -/
def check? (numeric : String → Bool) (name : Name) (v : Value) : Option Bool :=
  match name.key with
  | "is_null" => some v.isNull
  | "is_int" | "is_integer" | "is_long" => some (v.isLike .long)
  | "is_float" | "is_double" => some (v.isLike .double)
  | "is_string" => some (v.isLike .string)
  | "is_bool" => some (v.isLike .bool)
  | "is_array" => some v.isArray
  | "is_object" => some v.isObject
  | "is_numeric" => some (v.isNumeric numeric)
  | _ => none

end Value

namespace KindTest

/-- Whether a value passes a test. -/
def holds (numeric : String → Bool) (v : Value) : KindTest → Bool
  | .null => v.isNull
  | .long => v.isLike .long
  | .double => v.isLike .double
  | .string => v.isLike .string
  | .bool => v.isLike .bool
  | .array => v.isArray
  | .object => v.isObject
  | .numeric => v.isNumeric numeric

variable {numeric : String → Bool} {name : Name} {test : KindTest}

/-- The functions that narrowing knows are the ones that test for a kind, and they are tests as
narrowing takes them. -/
theorem check?_eq : v.check? numeric name = (ofFunction? name).map (holds numeric v) := by
  rw [Value.check?, ofFunction?]
  generalize name.key = key
  split
  case h_12 => simp [*]
  all_goals rfl

theorem ofFunction?_eq_numeric_iff :
    ofFunction? name = some .numeric ↔ name.key = "is_numeric" := by
  rw [ofFunction?]
  generalize name.key = key
  split <;> simp_all

/-- A text that does not read as a number fails the test for numbers, which texts may pass. -/
def Misses (numeric : String → Bool) (v : Value) (test : KindTest) : Prop :=
  test = .numeric ∧ test.holds numeric v = false ∧ ∃ text, v = .string text

/-- Otherwise the kinds of a value pass a test as the value does. -/
theorem accepts_of_isLike (hnot : ¬test.Misses numeric v) (hk : v.isLike k = true) :
    test.accepts k = test.holds numeric v := by
  cases v with
  | string text =>
      cases k <;> cases hk
      cases test with
      | numeric =>
          cases htext : numeric text with
          | true => exact htext.symm
          | false => exact absurd ⟨rfl, htext, text, rfl⟩ hnot
      | _ => rfl
  | _ =>
      cases k <;> cases hk
      cases test <;> rfl

/-- What all values that pass a test are described by. -/
theorem mask_allows (ht : t.WellFormed) (hv : test.holds numeric v = true) :
    Typing.Runs test.mask t fun r t' => r.Allows d t' v := by
  cases test with
  | array =>
      cases v with
      | array items =>
          exact (KindTable.anyArray_runs ht).mono fun _ _ _ _ h => .of_lists_array h.2 items
      | _ => cases hv
  | object => exact .pure ht (.any rfl)
  | numeric =>
      cases v with
      | long n => exact .pure ht (Mask.Allows.number ht (.long n)).union_left
      | double x => exact .pure ht (Mask.Allows.number ht (.double x)).union_left
      | string text => exact .pure ht (Mask.Allows.bit ht (k := .string) rfl rfl).union_right
      | _ => cases hv
  | null =>
      cases v with
      | null => exact .pure ht (.bit ht (k := .null) rfl rfl)
      | _ => cases hv
  | long => exact .pure ht (.bit ht (k := .long) rfl hv)
  | double => exact .pure ht (.bit ht (k := .double) rfl hv)
  | string => exact .pure ht (.bit ht (k := .string) rfl hv)
  | bool => exact .pure ht (.bit ht (k := .bool) rfl hv)

/-- Tests treat all arrays alike. -/
theorem accepts_array (test : KindTest) (a b : Mask) :
    test.accepts (.array a) = test.accepts (.array b) := by
  cases test <;> rfl

end KindTest

variable {numeric : String → Bool} {name : Name} {test : KindTest}

/-- The tested mask allows the value, whatever the outcome, unless the test misses it. -/
theorem testedMask_allows (ht : t.WellFormed) (hm : m.Fits t.size) (hv : m.Allows d t v)
    (hnot : m.any = false → ¬test.Misses numeric v) :
    Typing.Runs (testedMask test m (test.holds numeric v)) t fun r t' => r.Allows d t' v := by
  have haccepts (hany : m.any = false) (k : Kind) (hk : v.IsOf d m.subclasses k) :
      test.accepts k = test.holds numeric v :=
    KindTest.accepts_of_isLike (hnot hany) hk.isLike
  cases hholds : test.holds numeric v with
  | false =>
      obtain ⟨r, hr, hallows⟩ := KindTable.filter_allows (fun k => !test.accepts k) ht hm hv
        (fun a b => by rw [test.accepts_array a b])
        fun hany k hk => by rw [haccepts hany k hk, hholds, Bool.not_false]
      exact Typing.Runs.get_bind (Typing.Runs.lift hr ht hallows)
  | true =>
      obtain ⟨kept, hkept, hallows⟩ :=
        KindTable.filter_allows test.accepts ht hm hv test.accepts_array
        fun hany k hk => (haccepts hany k hk).trans hholds
      refine Typing.Runs.get_bind (Typing.Runs.lift_bind hkept ?_)
      refine Typing.Runs.ite (fun _ => KindTest.mask_allows ht hholds) fun _ => ?_
      exact Typing.Runs.ite (fun _ => .pure ht hv) fun _ => .pure ht hallows

/-- That a text failed the test for numbers leaves it out of what is listed. -/
theorem testedMask_of_misses (ht : t.WellFormed) (hm : m.Fits t.size) (hany : m.any = false)
    (hv : m.Allows d t v) (hmisses : test.Misses numeric v) :
    Typing.Runs (testedMask test m (test.holds numeric v)) t fun r t' =>
      (r.isEmpty = true ∨ r.Allows d t' v) ↔
        ∀ k, t.Offers m k → k.isNumber = true ∨ k = .string := by
  obtain ⟨rfl, hholds, text, rfl⟩ := hmisses
  obtain ⟨r, hr, -⟩ := KindTable.filter_ok ht hm fun k => !KindTest.numeric.accepts k
  have hgone : ¬r.Allows d t (.string text) := by
    rw [KindTable.allows_filter_iff ht hm hany hr (fun _ _ => rfl) hv]
    rintro ⟨k, -, hof, hkeep⟩
    cases k with
    | string => cases hkeep
    | _ => cases hof
  rw [hholds]
  refine Typing.Runs.get_bind (Typing.Runs.lift hr ht ?_)
  rw [or_iff_left hgone, KindTable.isEmpty_filter_iff ht hm hany hr]
  apply forall₂_congr
  intro k _
  cases k <;> simp [KindTest.accepts, Kind.isNumber]

/-- What is left of a tested mask describes the value, unless the test misses it and something else
is left. -/
theorem testedMask_allows_iff (test : KindTest) (numeric : String → Bool) (ht : t.WellFormed)
    (hm : m.Fits t.size) (hv : m.Allows d t v) :
    Typing.Runs (testedMask test m (test.holds numeric v)) t fun r t' =>
      (r.isEmpty = true ∨ r.Allows d t' v) ↔
        ¬(test.Misses numeric v ∧ m.any = false ∧
          ∃ k, t.Offers m k ∧ k.isNumber = false ∧ k ≠ .string) := by
  by_cases hmisses : m.any = false ∧ test.Misses numeric v
  · refine (testedMask_of_misses ht hm hmisses.1 hv hmisses.2).mono fun r t' _ _ h => h.trans ?_
    simp only [hmisses, true_and, not_exists, not_and, not_not]
    apply forall₂_congr
    intro k _
    rw [← Bool.not_eq_true, or_iff_not_imp_left]
  · refine (testedMask_allows ht hm hv fun hany h => hmisses ⟨hany, h⟩).mono fun _ _ _ _ h => ?_
    exact iff_of_true (Or.inr h) fun hnot => hmisses ⟨hnot.2.1, hnot.1⟩

/-- What a test leaves of a variable allows the tested value, unless a text is missed. -/
theorem narrowTested_leaves {arg : Argument} (hown : s.Owns env arg.value x slot)
    (hunpack : arg.unpack = false) (hv : slot.mask.Allows d s.facts.table v) :
    Leaves (narrowTested env test arg (test.holds numeric v)) s x fun m t =>
      m.Allows d t v ↔ ¬(test.Misses numeric v ∧ slot.mask.any = false ∧
        ∃ k, s.facts.table.Offers slot.mask k ∧ k.isNumber = false ∧ k ≠ .string) := by
  obtain ⟨r, t, hrun, -, hg, hr⟩ := testedMask_allows_iff test numeric hown.table hown.fits hv
  rw [narrowTested, if_neg (by simp [hunpack])]
  refine .after (Setting.varOf?_of_var hown.var s) (.after (varMask_of_slot hown.found) ?_)
  refine .after (onTable_run hrun) ?_
  generalize hs₁ : { s with facts := { s.facts with table := t } } = s₁
  have htable : s₁.facts.table = t := by rw [← hs₁]
  have hfound : s₁.state.slots[x]? = some slot := by rw [← hs₁]; exact hown.found
  split
  · obtain ⟨s₂, hmark, hfacts, hmarked⟩ := updateSlot_run hfound Slot.markAssigned
    exact .after hmark ((narrowTo_leaves (by rw [hfacts, htable]) hmarked hown.unshared
      (hv.grow hg)).mono fun m t' h => h.trans hr)
  · exact (narrowTo_leaves htable hfound hown.unshared (hv.grow hg)).mono fun m t' h => h.trans hr

variable {arg : Argument}

/-- The same for a call that makes the test. -/
theorem narrow_call_leaves (numeric : String → Bool)
    (he : env.body.exprs[e]? = some (.call name [arg]))
    (htest : KindTest.ofFunction? name = some test) (hunpack : arg.unpack = false)
    (hown : s.Owns env arg.value x slot) (hv : slot.mask.Allows d s.facts.table v) :
    Leaves (narrow env e (test.holds numeric v)) s x fun m t =>
      m.Allows d t v ↔ ¬(test.Misses numeric v ∧ slot.mask.any = false ∧
        ∃ k, s.facts.table.Offers slot.mask k ∧ k.isNumber = false ∧ k ≠ .string) := by
  refine .after (Setting.expr_run he) ?_
  simp only [htest]
  exact narrowTested_leaves hown hunpack hv

/-- Narrowing by the answer of a function that tests for a kind keeps the tested value, with one
exception: if `is_numeric` fails on a text and the variable may also hold something that is neither
a number nor a text, the text is left out. -/
theorem narrow_check_allows_iff (he : env.body.exprs[e]? = some (.call name [arg]))
    (hname : (KindTest.ofFunction? name).isSome = true) (hunpack : arg.unpack = false)
    (hown : s.Owns env arg.value x slot) (hv : slot.mask.Allows env.decls s.facts.table v)
    (numeric : String → Bool) :
    ∃ outcome, v.check? numeric name = some outcome ∧
      Leaves (narrow env e outcome) s x fun m t =>
        m.Allows env.decls t v ↔
          ¬(name.key = "is_numeric" ∧ outcome = false ∧ (∃ text, v = .string text) ∧
            slot.mask.any = false ∧
              ∃ k, s.facts.table.Offers slot.mask k ∧ k.isNumber = false ∧ k ≠ .string) := by
  obtain ⟨test, htest⟩ := Option.isSome_iff_exists.1 hname
  refine ⟨test.holds numeric v, by rw [KindTest.check?_eq, htest, Option.map_some], ?_⟩
  have hnumeric : test = .numeric ↔ name.key = "is_numeric" := by
    rw [← KindTest.ofFunction?_eq_numeric_iff, htest, Option.some.injEq]
  simpa only [KindTest.Misses, hnumeric, and_assoc] using
    narrow_call_leaves numeric he htest hunpack hown hv

namespace Checking

/-- Tests a parameter with `is_numeric`. -/
def body : Body :=
  ⟨0, .function, [⟨"x", .parameter⟩], #[.var 0, .call ⟨"is_numeric"⟩ [⟨0, false⟩]],
    #[⟨0, [], .ret none, []⟩], 0⟩

/-- The body on its own, without declarations. -/
def setting : Setting :=
  ⟨body, ⟨#[], .empty, .empty⟩, .empty, 0⟩

/-- A parameter of type `?string`. -/
def nullableText : Slot :=
  Slot.unset.assign (.null ∪ .string)

/-- The parameter is a text or `null` when the test is made. -/
def scene : Scene :=
  ⟨⟨0, [nullableText]⟩, .new body (.new 0 60 none), .empty, none⟩

theorem owns : scene.Owns setting 0 0 nullableText := by
  have hnull : Mask.null.Fits scene.facts.table.size := .bit (by decide)
  have hstring : Mask.string.Fits scene.facts.table.size := .bit (by decide)
  exact ⟨rfl, rfl, rfl, .new 0 60 none, (hnull.union hstring).withRef false⟩

theorem allows (text : String) :
    nullableText.mask.Allows setting.decls scene.facts.table (.string text) := by
  have hstring : Mask.string.Allows setting.decls scene.facts.table (.string text) :=
    .bit (.new 0 60 none) (k := .string) rfl rfl
  exact hstring.union_right.withRef false

theorem ofFunction? : KindTest.ofFunction? ⟨"is_numeric"⟩ = some .numeric :=
  KindTest.ofFunction?_eq_numeric_iff.2 (by decide)

end Checking

/-- A text that reads as a number passes `is_numeric`, and is kept. -/
theorem narrow_check_allows_iff_of_text :
    Checking.nullableText.mask.Allows Checking.setting.decls Checking.scene.facts.table
      (.string "12") ∧
      (Value.string "12").check? (· == "12") ⟨"is_numeric"⟩ = some true ∧
      Leaves (narrow Checking.setting 1 true) Checking.scene 0 fun m t =>
        m.Allows Checking.setting.decls t (.string "12") := by
  have hcall : Checking.setting.body.exprs[1]? = some (.call ⟨"is_numeric"⟩ [⟨0, false⟩]) := rfl
  have hname : (KindTest.ofFunction? ⟨"is_numeric"⟩).isSome = true := by
    rw [Checking.ofFunction?, Option.isSome_some]
  have hpasses : (Value.string "12").check? (· == "12") ⟨"is_numeric"⟩ = some true := by
    rw [KindTest.check?_eq, Checking.ofFunction?]
    rfl
  obtain ⟨outcome, hcheck, hleaves⟩ :=
    narrow_check_allows_iff hcall hname rfl Checking.owns (Checking.allows "12") (· == "12")
  cases hpasses.symm.trans hcheck
  refine ⟨Checking.allows "12", hpasses, hleaves.mono fun m t h => h.2 ?_⟩
  rintro ⟨-, hfails, -⟩
  cases hfails

/-- A `?string` on which `is_numeric` failed counts as `null`, although it may be a text. -/
theorem not_allows_of_failed_is_numeric :
    Checking.nullableText.mask.Allows Checking.setting.decls Checking.scene.facts.table
      (.string "abc") ∧
      (Value.string "abc").check? (fun _ => false) ⟨"is_numeric"⟩ = some false ∧
      Leaves (narrow Checking.setting 1 false) Checking.scene 0 fun m t =>
        ¬m.Allows Checking.setting.decls t (.string "abc") := by
  refine ⟨Checking.allows "abc", by rw [KindTest.check?_eq, Checking.ofFunction?]; rfl, ?_⟩
  refine (narrow_call_leaves (fun _ => false) rfl Checking.ofFunction? rfl Checking.owns
    (Checking.allows "abc")).mono fun m t h => ?_
  rw [h, not_not]
  exact ⟨⟨rfl, rfl, "abc", rfl⟩, rfl, .null, ⟨0, by decide, rfl⟩, rfl, Kind.noConfusion⟩

end FlowTyping
