import FlowTyping.Proofs.Soundness.KindTest

/-!
# Tests for instances

Main statement: `narrow_isInstance_allows_iff`. A variable that was narrowed by the outcome of a
test for instances of a class still describes the value that was tested, with one exception. That a
value is no instance of `static` rules out the class of the routine, although the object at run time
may belong to a subclass.
-/

namespace FlowTyping

open Visit

variable {env : Setting} {d : Declarations} {s : Scene} {t : KindTable} {e operand : ExprId}
  {x : VarId} {slot : Slot} {m : Mask} {v : Value} {k : Kind} {cls base : Name} {ref : ClassRef}

/-- A class kind names the class or one that extends it. -/
def Kind.Extends (d : Declarations) (cls : Name) : Kind → Prop
  | .object own => d.Extends own cls
  | _ => False

/-- The value is an object whose class is the class or extends it. -/
def Value.IsInstance (d : Declarations) (cls : Name) : Value → Prop
  | .object own _ => d.Extends own cls
  | _ => False

/-- The classes that an expression may name at run time. -/
def ClassRef.MayName (d : Declarations) (self? : Option Name) (cls : Name) : ClassRef → Prop
  | .named c => cls = c
  | .selfClass => self? = some cls
  | .parent => ∃ own decl, self? = some own ∧ d.class? own = some decl ∧ decl.base? = some cls
  | .lateStatic => ∃ own, self? = some own ∧ d.Extends cls own
  | .dynamic _ => False

/-- The test asks whether the class of an object extends the tested one. -/
theorem Declarations.isInstance_iff : d.isInstance cls k = true ↔ k.Extends d cls := by
  cases k with
  | object own => exact Declarations.isSubclass_iff
  | _ => exact iff_of_false Bool.false_ne_true id

namespace Value.IsInstance

/-- An instance of a class is one of its base classes. -/
theorem up (h : v.IsInstance d cls) (hbase : d.Extends cls base) : v.IsInstance d base := by
  cases v with
  | object own id => exact Declarations.Extends.trans h hbase
  | _ => cases h

/-- What is of a kind that extends a class is an instance of the class. -/
theorem of_isOf {b : Bool} (hof : v.IsOf d b k) (hk : k.Extends d cls) : v.IsInstance d cls := by
  cases k with
  | object own =>
      cases v with
      | object c id =>
          rcases hof with hsame | ⟨-, hextends⟩
          · exact (Declarations.Extends.of_beq hsame).trans hk
          · exact hextends.trans hk
      | _ => cases hof
  | _ => cases hk

end Value.IsInstance

/-- Instances of a class are described by the class with its subclasses. -/
theorem instanceOf_allows (ht : t.WellFormed) (hv : v.IsInstance d cls) :
    Typing.Runs (KindTable.instanceOf cls true) t fun r t' => r.Allows d t' v := by
  cases v with
  | object own id =>
      refine Typing.Runs.bind (KindTable.intern_runs ht fun _ h => Kind.noConfusion h)
        fun r t' hw _ hr => Typing.Runs.pure hw ?_
      have hlists : t'.Lists (r.withSubclasses true) (.object cls) := hr.2.1
      exact .of_lists_object hlists (Or.inr ⟨rfl, hv⟩) id
  | _ => cases hv

/-- An instance of the class stays described once the test is known to hold. -/
theorem instanceMask_allows (ht : t.WellFormed) (hm : m.Fits t.size) (hv : m.Allows d t v)
    (hinst : v.IsInstance d cls) :
    Typing.Runs (instanceMask d cls m true) t fun r t' => r.Allows d t' v := by
  rw [instanceMask, if_neg (by decide)]
  refine Typing.Runs.ite (fun _ => instanceOf_allows ht hinst) fun hlisted => ?_
  have hany : m.any = false := (Bool.or_eq_false_iff.1 (Bool.not_eq_true _ ▸ hlisted)).1
  obtain ⟨kept, hkept, hfit⟩ := KindTable.filter_ok ht hm (d.isInstance cls)
  obtain ⟨classes, hclasses⟩ := KindTable.classes_ok hm
  obtain ⟨b, hb⟩ := KindTable.allKinds_ok hfit Kind.isObject
  refine Typing.Runs.get_bind (Typing.Runs.lift_bind hkept (Typing.Runs.lift_bind hclasses
    (Typing.Runs.lift_bind hb ?_)))
  refine Typing.Runs.ite (fun hcount => Typing.Runs.pure ht ?_) fun _ => ?_
  · -- As many kinds were kept as there are classes, so the class of the object is among them.
    have hlength : classes.length = kept.count := beq_iff_eq.1 (Bool.and_eq_true_iff.1 hcount).2
    obtain ⟨k, hk, hof⟩ := hv.exists_kind hany
    have hobject : k.isObject = true := by
      cases k with
      | object => rfl
      | _ =>
          cases v with
          | object => cases hof
          | _ => cases hinst
    refine (KindTable.allows_filter_iff ht hm hany hkept (fun _ _ => rfl) hv).2 ⟨k, hk, hof, ?_⟩
    refine KindTable.keep_of_count ht hm hany hkept hclasses (fun k hkeep => ?_) hlength hk hobject
    cases k with
    | object => rfl
    | _ => cases hkeep
  · refine Typing.Runs.bind (instanceOf_allows ht hinst) fun _ _ hw _ hr => ?_
    exact Typing.Runs.pure hw hr.union_right

/-- Once the test is known to fail, a value is lost if all its kinds extend the class and others do
not. -/
theorem instanceMask_allows_iff (ht : t.WellFormed) (hm : m.Fits t.size) (hv : m.Allows d t v) :
    Typing.Runs (instanceMask d cls m false) t fun r t' =>
      (r.isEmpty = true ∨ r.Allows d t' v) ↔
        ¬(m.any = false ∧ (∀ k, t.Offers m k → v.IsOf d m.subclasses k → k.Extends d cls) ∧
          ∃ k, t.Offers m k ∧ ¬k.Extends d cls) := by
  obtain ⟨r, hr, -⟩ := KindTable.filter_ok ht hm fun k => !d.isInstance cls k
  refine Typing.Runs.get_bind (Typing.Runs.lift hr ht ?_)
  cases hany : m.any with
  | true =>
      rw [KindTable.filter, if_pos hany] at hr
      cases hr
      exact iff_of_true (Or.inr hv) fun hnot => Bool.noConfusion hnot.1
  | false =>
      rw [KindTable.isEmpty_filter_iff ht hm hany hr,
        KindTable.allows_filter_iff ht hm hany hr (fun _ _ => rfl) hv]
      simp only [Bool.not_eq_true', Declarations.isInstance_iff, ← Bool.not_eq_true]
      grind

/-! ### Narrowing by the outcome -/

/-- The class that narrowing takes a reference for is above every class that the reference may name,
and but for `static` it is that class. -/
theorem staticClass?_of_mayName (href : ref.MayName env.decls s.facts.table.self? cls) :
    ∃ base, (staticClass? env ref).run s = .ok (some base, s) ∧ env.decls.Extends cls base ∧
      (ref ≠ .lateStatic → base = cls) ∧
      (ref = .lateStatic → s.facts.table.self? = some base) := by
  cases ref with
  | named c =>
      cases href
      exact ⟨cls, rfl, .refl, fun _ => rfl, ClassRef.noConfusion⟩
  | selfClass =>
      have href : s.facts.table.self? = some cls := href
      refine ⟨cls, ?_, .refl, fun _ => rfl, ClassRef.noConfusion⟩
      rw [← href]
      rfl
  | parent =>
      obtain ⟨own, decl, hself, hdecl, hbase⟩ := href
      have hparent : (s.facts.table.self?).bind
        (fun c => (env.decls.class? c).bind ClassDecl.base?) =
          some cls := by
        rw [hself, Option.bind_some, hdecl, Option.bind_some, hbase]
      refine ⟨cls, ?_, .refl, fun _ => rfl, ClassRef.noConfusion⟩
      rw [← hparent]
      rfl
  | lateStatic =>
      obtain ⟨own, hself, hextends⟩ := href
      refine ⟨own, ?_, hextends, fun hnot => absurd rfl hnot, fun _ => hself⟩
      rw [← hself]
      rfl
  | dynamic => cases href

/-- What the test leaves of a variable is what the narrowed mask allows. -/
theorem narrow_isInstance_leaves {holds : Bool} {P : Prop}
    (he : env.body.exprs[e]? = some (.isInstance operand ref))
    (hbase : (staticClass? env ref).run s = .ok (some base, s)) (hown : s.Owns env operand x slot)
    (hv : slot.mask.Allows d s.facts.table v)
    (hmask : Typing.Runs (instanceMask env.decls base slot.mask holds) s.facts.table fun r t =>
      (r.isEmpty = true ∨ r.Allows d t v) ↔ P) :
    Leaves (narrow env e holds) s x fun m t => m.Allows d t v ↔ P := by
  obtain ⟨r, t, hrun, -, hg, hr⟩ := hmask
  refine .after (Setting.expr_run he) (.after (Setting.varOf?_of_var hown.var s) ?_)
  refine .after hbase (.after (varMask_of_slot hown.found) (.after (onTable_run hrun) ?_))
  exact .mono (narrowTo_leaves (t := t) rfl hown.found hown.unshared (hv.grow hg))
    fun m t' h => h.trans hr

/-- Narrowing by the outcome of a test for instances keeps the tested value, with one exception: if
the test against `static` fails, all kinds of the value extend the routine's own class and the
variable may also hold something that does not, the value is left out. -/
theorem narrow_isInstance_allows_iff (he : env.body.exprs[e]? = some (.isInstance operand ref))
    (href : ref.MayName env.decls s.facts.table.self? cls) (hown : s.Owns env operand x slot)
    (hv : slot.mask.Allows env.decls s.facts.table v) {holds : Bool}
    (hholds : holds = true ↔ v.IsInstance env.decls cls) :
    Leaves (narrow env e holds) s x fun m t =>
      m.Allows env.decls t v ↔
        ¬(ref = .lateStatic ∧ holds = false ∧ slot.mask.any = false ∧
          ∃ own, s.facts.table.self? = some own ∧
            (∀ k, s.facts.table.Offers slot.mask k → v.IsOf env.decls slot.mask.subclasses k →
              k.Extends env.decls own) ∧
            ∃ k, s.facts.table.Offers slot.mask k ∧ ¬k.Extends env.decls own) := by
  obtain ⟨base, hbase, hextends, hexact, hself⟩ := staticClass?_of_mayName href
  refine narrow_isInstance_leaves he hbase hown hv ?_
  cases holds with
  | true =>
      refine (instanceMask_allows hown.table hown.fits hv ((hholds.1 rfl).up hextends)).mono
        fun _ _ _ _ h => iff_of_true (Or.inr h) ?_
      exact fun hnot => Bool.noConfusion hnot.2.1
  | false =>
      refine (instanceMask_allows_iff hown.table hown.fits hv).mono fun _ _ _ _ h => h.trans ?_
      apply not_congr
      constructor
      · rintro ⟨hany, hall, hother⟩
        have hstatic : ref = .lateStatic := by
          -- Any other reference names the class itself, and no kind of the value extends that one.
          by_contra hnot
          obtain ⟨k, hk, hof⟩ := hv.exists_kind hany
          have hinst := Value.IsInstance.of_isOf hof (hall k hk hof)
          rw [hexact hnot] at hinst
          exact Bool.false_ne_true (hholds.2 hinst)
        exact ⟨hstatic, rfl, hany, base, hself hstatic, hall, hother⟩
      · rintro ⟨hstatic, -, hany, own, hown', hall, hother⟩
        cases (hself hstatic).symm.trans hown'
        exact ⟨hany, hall, hother⟩

namespace StaticTest

/-- A method of `A` that tests its parameter against `static`. -/
def body : Body :=
  ⟨0, .method false, [⟨"x", .parameter⟩], #[.var 0, .isInstance 0 .lateStatic],
    #[⟨0, [], .ret none, []⟩], 0⟩

/-- A method of `A`, where `B` is declared as a subclass. -/
def setting : Setting :=
  ⟨body, Inherited.decls, .empty, 0⟩

/-- The table is full. -/
def table : KindTable :=
  (KindTable.new 0 7 (some ⟨"A"⟩)).push (.object ⟨"A"⟩) rfl

/-- A parameter of type `?A`. -/
def nullable : Slot :=
  Slot.unset.assign (Mask.null ∪ Inherited.objects)

/-- The variable is an object of `A`, or `null`. -/
def scene : Scene :=
  ⟨⟨0, [nullable]⟩, .new body table, .empty, none⟩

theorem wellFormed : table.WellFormed :=
  (KindTable.WellFormed.new 0 7 (some ⟨"A"⟩)).push rfl (by decide) fun _ h => Kind.noConfusion h

theorem owns : scene.Owns setting 0 0 nullable := by
  have hnull : Mask.null.Fits table.size := .bit (by decide)
  exact ⟨rfl, rfl, rfl, wellFormed, (hnull.union (Inherited.fits (by decide))).withRef false⟩

theorem mayName : ClassRef.lateStatic.MayName Inherited.decls table.self? ⟨"B"⟩ :=
  ⟨⟨"A"⟩, rfl, Inherited.extends_base⟩

theorem allows {cls : Name} (hcls : Inherited.decls.Extends cls ⟨"A"⟩) :
    nullable.mask.Allows Inherited.decls table (.object cls 1) := by
  have hobject : Inherited.objects.Allows Inherited.decls table (.object cls 1) :=
    Inherited.allows rfl hcls
  exact hobject.union_right.withRef false

end StaticTest

/-- An object of the subclass, in a method that was called on the subclass, passes the test and is
kept. -/
theorem narrow_isInstance_allows_iff_of_subclass :
    ClassRef.lateStatic.MayName Inherited.decls StaticTest.table.self? ⟨"B"⟩ ∧
      StaticTest.nullable.mask.Allows Inherited.decls StaticTest.table (.object ⟨"B"⟩ 1) ∧
      (Value.object ⟨"B"⟩ 1).IsInstance Inherited.decls ⟨"B"⟩ ∧
      Leaves (narrow StaticTest.setting 1 true) StaticTest.scene 0 fun m t =>
        m.Allows Inherited.decls t (.object ⟨"B"⟩ 1) := by
  have hallows := StaticTest.allows Inherited.extends_base
  have hinst : (Value.object ⟨"B"⟩ 1).IsInstance Inherited.decls ⟨"B"⟩ :=
    Declarations.Extends.of_beq (by decide)
  have htest : StaticTest.setting.body.exprs[1]? = some (.isInstance 0 .lateStatic) := rfl
  have hleaves := narrow_isInstance_allows_iff (s := StaticTest.scene) htest StaticTest.mayName
    StaticTest.owns hallows (iff_of_true rfl hinst)
  refine ⟨StaticTest.mayName, hallows, hinst, hleaves.mono fun m t h => h.2 ?_⟩
  rintro ⟨-, hfails, -⟩
  cases hfails

/-- In a method of `A` that was called on an object of the subclass `B`, an `?A` that is no instance
of `static` counts as `null`, although it may be an object of `A`. -/
theorem not_allows_of_failed_static :
    ClassRef.lateStatic.MayName Inherited.decls StaticTest.table.self? ⟨"B"⟩ ∧
      StaticTest.nullable.mask.Allows Inherited.decls StaticTest.table (.object ⟨"A"⟩ 1) ∧
      ¬(Value.object ⟨"A"⟩ 1).IsInstance Inherited.decls ⟨"B"⟩ ∧
      Leaves (narrow StaticTest.setting 1 false) StaticTest.scene 0 fun m t =>
        ¬m.Allows Inherited.decls t (.object ⟨"A"⟩ 1) := by
  have hself : Inherited.decls.Extends ⟨"A"⟩ ⟨"A"⟩ := .refl
  have hnot : ¬Inherited.decls.Extends ⟨"A"⟩ ⟨"B"⟩ := by
    rw [← Declarations.isSubclass_iff]
    decide +kernel
  refine ⟨StaticTest.mayName, StaticTest.allows hself, hnot, ?_⟩
  have hallows := StaticTest.allows hself
  refine (narrow_isInstance_leaves rfl rfl StaticTest.owns hallows (instanceMask_allows_iff
    StaticTest.wellFormed StaticTest.owns.fits hallows)).mono fun m t h => ?_
  rw [h, not_not]
  refine ⟨rfl, ?_, .null, ⟨0, by decide, rfl⟩, id⟩
  rintro k ⟨i, -, hk⟩ hof
  have hmem : k ∈ Kind.primitives ++ [.object ⟨"A"⟩] := List.mem_of_getElem? hk
  cases k with
  | object own =>
      have hcls : own = ⟨"A"⟩ := by simpa [Kind.primitives] using hmem
      rw [hcls]
      exact hself
  | _ => cases hof

end FlowTyping
