import FlowTyping.Proofs.Kind.Store
import FlowTyping.Proofs.Visit.Expr
import FlowTyping.Proofs.Visit.Quiet

/-!
# Writing elements

An assignment to an element of a variable, at any depth, stores the value in what the variable holds
and assigns the rebuilt container to the variable. So the value is found again where it was stored,
unless a container on the way holds only strings, numbers or resources. An element that is missing
counts as one of those that are there, so this goes for missing elements of strings too.

Main statement: `item_write_contains_iff`.
-/

namespace FlowTyping

open Visit

/-- An expression names an element of a variable, `depth` levels down; the indices are literals, or
are left out. -/
inductive Body.Item (b : Body) (x : VarId) : ExprId → (depth : Nat) → Prop
  | var {e : ExprId} (he : b.exprs[e]? = some (.var x)) : Item b x e 0
  | item {e array : ExprId} {index? : Option ExprId} {depth : Nat}
      (he : b.exprs[e]? = some (.item array index?))
      (hindex : ∀ i ∈ index?, ∃ l, b.exprs[i]? = some (.literal l)) (h : Item b x array depth) :
      Item b x e (depth + 1)

variable {env : Setting} {s s' : Scene} {e : ExprId} {x : VarId} {depth : Nat} {m m' : Mask}

theorem lift_eq_ok {α : Type} {y : Except Fault α} {a : α}
    (h : (liftM y : Visit α).run s = .ok (a, s')) : y = .ok a ∧ s' = s := by
  cases y with
  | error fault => cases h
  | ok b =>
      cases h
      exact ⟨rfl, rfl⟩

theorem varMask_eq_ok (h : (varMask x).run s = .ok (m, s')) :
    (∃ slot, s.state.slot x = .ok slot ∧ m = slot.mask) ∧ s' = s := by
  obtain ⟨slot, s₁, hslot, hmask⟩ := exists_of_run_bind h
  obtain ⟨hslot, rfl⟩ := scene_of_slot hslot
  cases hmask
  exact ⟨⟨slot, hslot, rfl⟩, rfl⟩

/-- Peeking at an element looks into what the variable holds. -/
theorem peekWithin_item (hitem : env.body.Item x e depth) {slot : Slot}
    (hslot : s.state.slot x = .ok slot) {fuel : Nat}
    (h : (peekWithin env fuel e).run s = .ok (m, s')) :
    s.facts.table.nested depth slot.mask = .ok m ∧ s' = s := by
  induction hitem generalizing fuel m s' with
  | var he =>
      cases fuel with
      | zero => cases h
      | succ fuel =>
          rw [peekWithin, run_bind_ok (Setting.expr_run he)] at h
          obtain ⟨⟨slot', hslot', rfl⟩, rfl⟩ := varMask_eq_ok h
          cases hslot.symm.trans hslot'
          exact ⟨rfl, rfl⟩
  | @item e array index? depth he hindex hitem ih =>
      cases fuel with
      | zero => cases h
      | succ fuel =>
          rw [peekWithin, run_bind_ok (Setting.expr_run he)] at h
          simp only at h
          split at h
          · obtain ⟨container, s₁, hcontainer, hread⟩ := exists_of_run_bind h
            obtain ⟨hnested, rfl⟩ := ih hcontainer
            rw [KindTable.nested_succ hnested]
            exact lift_eq_ok hread
          · cases h

theorem run_of_below {v : Visitor} {c : ExprId} {access : Access}
    (h : ((v.below e).value c access).run s = .ok (m, s')) :
    (v.value c access).run s = .ok (m, s') := by
  change (if c < e then v.value c access else throw (.unorderedExpr e c) : Visit Mask).run s = _
    at h
  split at h
  · exact h
  · cases h

/-- Recording what was found leaves the variables and the kinds alone. -/
theorem exists_of_visitValue {access : Access} {form : Expr} (he : env.body.exprs[e]? = some form)
    (h : ((visitor env).value e access).run s = .ok (m, s')) :
    ∃ s₁, (visitForm env ((visitor env).below e) e access form).run s = .ok (m, s₁) ∧
      s'.state = s₁.state ∧ s'.facts.table = s₁.facts.table := by
  rw [visitor_value (Array.getElem?_eq_some_iff.1 he).1, visitValue,
    run_bind_ok (Setting.expr_run he)] at h
  obtain ⟨m₁, s₁, hform, hrecord⟩ := exists_of_run_bind h
  cases hrecord
  exact ⟨s₁, hform, rfl, rfl⟩

/-- Reading a literal index leaves the variables and the kinds alone. -/
theorem scene_of_readIndex {index? : Option ExprId} {u : Unit}
    (hindex : ∀ i ∈ index?, ∃ l, env.body.exprs[i]? = some (.literal l))
    (h : (index?.forM ((visitor env).below e).read).run s = .ok (u, s')) :
    s'.state = s.state ∧ s'.facts.table = s.facts.table := by
  cases index? with
  | none =>
      cases h
      exact ⟨rfl, rfl⟩
  | some i =>
      obtain ⟨l, hl⟩ := hindex i rfl
      obtain ⟨m, s₁, hvalue, hrest⟩ := exists_of_run_bind h
      cases hrest
      obtain ⟨s₁, hform, hstate, htable⟩ := exists_of_visitValue hl (run_of_below hvalue)
      cases hform
      exact ⟨hstate, htable⟩

/-- Writing to an element stores it in what the variable holds, and assigns that to the variable. -/
theorem write_item (hitem : env.body.Item x e depth) {slot : Slot}
    (hslot : s.state.slot x = .ok slot)
    (h : ((visitor env).value e (.write m)).run s = .ok (m', s')) :
    ∃ w, (storeWithin slot.mask depth m).run s.facts.table = .ok (w, s'.facts.table) ∧
      s.state.assign x w = .ok s'.state := by
  induction hitem generalizing m m' s s' with
  | var he =>
      obtain ⟨s₁, hform, hstate, htable⟩ := exists_of_visitValue he h
      obtain ⟨_, s₂, hassign, hread⟩ := exists_of_run_bind hform
      obtain ⟨st, hst, rfl⟩ := state_of_updateState hassign
      obtain ⟨-, rfl⟩ := varMask_eq_ok hread
      rw [hstate, htable]
      exact ⟨m, rfl, hst⟩
  | @item e array index? depth he hindex hitem ih =>
      obtain ⟨s₁, hform, hstate, htable⟩ := exists_of_visitValue he h
      obtain ⟨_, s₂, hread, hbody⟩ := exists_of_run_bind hform
      obtain ⟨hstate₂, htable₂⟩ := scene_of_readIndex hindex hread
      obtain ⟨_, s₃, hwrite, hresult⟩ := exists_of_run_bind hbody
      cases hresult
      obtain ⟨container, s₄, hpeek, hstore⟩ := exists_of_run_bind hwrite
      obtain ⟨hnested, rfl⟩ := peekWithin_item hitem (hstate₂ ▸ hslot) hpeek
      obtain ⟨rebuilt, s₅, htyping, hup⟩ := exists_of_run_bind hstore
      obtain ⟨t, hrun, rfl⟩ := onTable_eq_ok htyping
      obtain ⟨m₁, s₆, hvalue, hend⟩ := exists_of_run_bind hup
      cases hend
      obtain ⟨w, hw, hassign⟩ := ih (s := { s₄ with facts := { s₄.facts with table := t } })
        (hstate₂ ▸ hslot) (run_of_below hvalue)
      rw [hstate, htable, ← hstate₂, ← htable₂]
      refine ⟨w, ?_, hassign⟩
      rw [storeWithin, StateT.run_bind, StateT.run_get, pure_bind, hnested]
      change (storeInMask container m >>= storeWithin slot.mask depth).run s₄.facts.table = _
      rw [StateT.run_bind, hrun]
      exact hw

/-- An assignment visits the value, and then writes it to the element. -/
theorem exists_of_assign_item {target value : ExprId} {access : Access}
    (he : env.body.exprs[e]? = some (.assign target value))
    (hitem : env.body.Item x target (depth + 1))
    (h : ((visitor env).value e access).run s = .ok (m', s')) :
    ∃ m s₁ m₁ s₂, ((visitor env).value value .read).run s = .ok (m, s₁) ∧
      ((visitor env).value target (.write (m.withRef false))).run s₁ = .ok (m₁, s₂) ∧
      s'.state = s₂.state ∧ s'.facts.table = s₂.facts.table := by
  obtain ⟨s₃, hform, hstate, htable⟩ := exists_of_visitValue he h
  obtain ⟨m, s₁, hvalue, hrest⟩ := exists_of_run_bind hform
  obtain ⟨m₁, s₂, htarget, hrest⟩ := exists_of_run_bind hrest
  refine ⟨m, s₁, m₁, s₂, run_of_below hvalue, run_of_below htarget, ?_⟩
  cases hitem with
  | item hform =>
      rw [run_bind_ok (Setting.expr_run hform)] at hrest
      obtain ⟨form, s₄, hexpr, hrest⟩ := exists_of_run_bind hrest
      obtain ⟨-, rfl⟩ := Setting.expr_eq_ok hexpr
      cases hrest
      exact ⟨hstate, htable⟩

theorem Body.Item.lt {b : Body} (h : b.Item x e depth) (hb : b.WellFormed) : x < b.vars.length := by
  induction h with
  | var he => exact hb.exprVars he x (List.mem_singleton.2 rfl)
  | item _ _ _ ih => exact ih

theorem State.slot_assign {a b : State} {slot : Slot} (h : a.assign x m = .ok b)
    (hslot : a.slot x = .ok slot) : b.slot x = .ok (slot.assign m) := by
  have hx : a.slots[x]? = some slot := by
    rw [State.slot] at hslot
    split at hslot
    · rename_i hx
      cases hslot
      exact hx
    · cases hslot
  rw [State.assign, State.update, if_pos (List.getElem?_eq_some_iff.1 hx).1] at h
  cases h
  simp [State.slot, hx]

/-- What is found in a variable that was assigned, some levels down. -/
theorem nested_assign {t : KindTable} {slot : Slot} {w found : Mask}
    (h : t.nested (depth + 1) (slot.assign w).mask = .ok found) :
    found.any = true ∨ t.nested (depth + 1) w = .ok found := by
  cases hshared : slot.shared with
  | true =>
      refine .inl (KindTable.any_of_nested ?_ h)
      rw [Slot.assign, hshared]
      rfl
  | false =>
      rw [Slot.assign, hshared] at h
      exact .inr ((KindTable.nested_withRef false).symm.trans h)

/-- On a well-formed body every expression can be read. -/
theorem visitor_reads (hb : env.body.WellFormed) (hs : s.Fits env.body)
    (he : e < env.body.exprs.size) :
    ∃ m s', ((visitor env).value e .read).run s = .ok (m, s') ∧ s'.Fits env.body ∧ s'.Holds m := by
  have hyields : Yields env env.published ((visitor env).value e .read) _ s :=
    (visitor_safe hb).value he hs trivial
  obtain ⟨m, s', hrun, -, hs', hm, -⟩ := hyields
  exact ⟨m, s', hrun, hs', hm⟩

/-- An assignment to an element of a variable succeeds. Its value is among what is found there
afterwards if and only if the variable takes an element at each level above, anything is found
there, or it was among what was found there before. -/
theorem item_write_contains_iff {target value : ExprId} {n : Nat} (hb : env.body.WellFormed)
    (hs : s.Fits env.body) (he : env.body.exprs[e]? = some (.assign target value))
    (hitem : env.body.Item x target n) (hn : 1 ≤ n) :
    ∃ (m : Mask) (s₁ : Scene) (slot : Slot) (result : Mask) (s' : Scene) (slot' : Slot)
    (old new : Mask),
      ((visitor env).value value .read).run s = .ok (m, s₁) ∧ s₁.state.slot x = .ok slot ∧
        ((visitor env).value e .read).run s = .ok (result, s') ∧ s'.state.slot x = .ok slot' ∧
        s₁.facts.table.nested n slot.mask = .ok old ∧ s'.facts.table.nested n slot'.mask = .ok new ∧
        (new.contains m.shape = true ↔
          s₁.facts.table.Takes n slot.mask ∨ new.any = true ∨ old.contains m.shape = true) := by
  obtain ⟨depth, rfl⟩ := Nat.exists_eq_add_of_le' hn
  have hx := hitem.lt hb
  have hlt : e < env.body.exprs.size := (Array.getElem?_eq_some_iff.1 he).1
  have hvalue : value < e := hb.children he value (by simp [Expr.children])
  obtain ⟨result, s', hrun, hs', -⟩ := visitor_reads hb hs hlt
  obtain ⟨m, s₁, hread, hs₁, hm⟩ := visitor_reads hb hs (Nat.lt_trans hvalue hlt)
  obtain ⟨_, _, m₁, s₂, hread', hwrite, hstate, htable⟩ := exists_of_assign_item he hitem hrun
  cases hread.symm.trans hread'
  obtain ⟨slot, hslot, hfit⟩ := hs₁.state.slot hx
  obtain ⟨w, hstore, hassign⟩ := write_item hitem hslot hwrite
  obtain ⟨_, _, hstore', hw, -, hwfit, hstored⟩ :=
    storeWithin_stored hs₁.facts.table hfit.mask (hm.withRef false) (depth + 1)
  cases hstore.symm.trans hstore'
  have hslot' : s'.state.slot x = .ok (slot.assign w) := hstate ▸ State.slot_assign hassign hslot
  obtain ⟨old, hold, -⟩ := KindTable.nested_ok hs₁.facts.table hfit.mask (depth + 1)
  obtain ⟨new, hnew, -⟩ := KindTable.nested_ok hw (Slot.Fits.assign slot hwfit).mask (depth + 1)
  refine ⟨m, s₁, slot, result, s', slot.assign w, old, new, hread, hslot, hrun, hslot', hold,
    htable ▸ hnew, ?_⟩
  rcases nested_assign hnew with hany | hnew
  · exact iff_of_true (Mask.contains_iff.2 (.inl hany)) (.inr (.inl hany))
  · obtain ⟨htakes, hkeeps⟩ := hstored old new hold hnew
    -- Only the kinds count, whichever flags the value has.
    change new.contains (m.withRef false) = true ↔ _ ∨ _ ∨ old.contains (m.withRef false) = true
    exact Mask.Stored.contains_iff_of_imp htakes hkeeps

namespace Grid

/-- Assigns `1` to `$a[1][0]`. -/
def body : Body :=
  ⟨0, .function, [⟨"a", .localVar⟩],
    #[.var 0, .literal (.long 1), .item 0 (some 1), .literal (.long 0), .item 2 (some 3),
      .literal (.long 1), .assign 4 5],
    #[⟨0, [.eval 6], .ret none, []⟩], 0⟩

/-- The body on its own, without declarations. -/
def setting : Setting :=
  ⟨body, ⟨#[], .empty, .empty⟩, .empty, 0⟩

/-- The primitive kinds, `string[]` and `string[][]`. -/
def table : KindTable :=
  ((KindTable.new 0 60 none).push (.array .string) rfl).push (.array (.bit 6)) rfl

/-- `$a` holds values of a mask. -/
def scene (m : Mask) : Scene :=
  ⟨⟨0, [⟨m, true, false, false⟩]⟩, .new body table, .empty, none⟩

theorem wellFormed : table.WellFormed := by
  have hfirst : ((KindTable.new 0 60 none).push (.array .string) rfl).WellFormed :=
    (KindTable.WellFormed.new 0 60 none).push rfl (by decide)
      fun _ h => Kind.array.inj h ▸ .bit (by decide)
  exact hfirst.push rfl (by decide) fun _ h => Kind.array.inj h ▸ .bit (by decide)

theorem fits {m : Mask} (hm : m.Fits table.size) : (scene m).Fits body := by
  refine ⟨Facts.fits_new body wellFormed, rfl, rfl, ?_⟩
  exact List.forall_mem_singleton.2 ⟨hm, fun h => Bool.noConfusion h⟩

theorem item : body.Item 0 4 2 := by
  have hliteral (i j : ExprId) (n : Int64) (hi : body.exprs[i]? = some (.literal (.long n))) :
      j ∈ some i → ∃ l, body.exprs[j]? = some (.literal l) := by
    intro hj
    cases hj
    exact ⟨_, hi⟩
  refine .item rfl (fun j => hliteral 3 j 0 rfl) ?_
  exact .item rfl (fun j => hliteral 1 j 1 rfl) (.var rfl)

end Grid

/-- `$a` is `null` or of `string[][]`: rows are arrays, and take the number. -/
theorem item_write_contains_iff_rows :
    ∃ s' slot new, ((visitor Grid.setting).value 6 .read).run
      (Grid.scene (.null ∪ .bit 7)) = .ok (.long, s') ∧
      s'.state.slot 0 = .ok slot ∧ s'.facts.table.nested 2 slot.mask = .ok new ∧
      new.contains .long = true := by
  -- Taking the lowest bit out of a word goes through its sixty places.
  set_option maxRecDepth 2000 in
  have hb : Grid.setting.body.WellFormed := Body.malformed?_eq_none_iff.1 (by decide +kernel)
  have hfits : (Mask.null ∪ .bit 7).Fits Grid.table.size :=
    .union (.bit (by decide)) (.bit (by decide))
  have htakes : Grid.table.Takes 2 (.null ∪ .bit 7) := by
    intro k hk c hc
    have hlevel : k = 0 ∨ k = 1 := by omega
    rcases hlevel with rfl | rfl
    · cases hc
      rfl
    · cases hc
      rfl
  obtain ⟨m, s₁, slot, result, s', slot', old, new, hread, hslot, hrun, hslot', -, hnew, hiff⟩ :=
    item_write_contains_iff (x := 0) (e := 6) (n := 2) hb (Grid.fits hfits) rfl Grid.item
      (by decide)
  cases hread
  cases hslot
  cases hrun
  exact ⟨_, slot', new, rfl, hslot', hnew, hiff.2 (.inl htakes)⟩

/-- `$a` is of `string[]`. A row that it does not have yet is taken for one of its strings, which
take no elements, so the number is not found there, although the array `['s']` has become
`['s', [1]]`. -/
theorem item_write_lost_in_texts :
    (Grid.scene (.bit 6)).Fits Grid.body ∧ Grid.table.isArrayOnly (.bit 6) = .ok true ∧
      ∃ s' slot new, ((visitor Grid.setting).value 6 .read).run
        (Grid.scene (.bit 6)) = .ok (.long, s') ∧
        s'.state.slot 0 = .ok slot ∧ s'.facts.table.nested 2 slot.mask = .ok new ∧
        new.contains .long = false := by
  set_option maxRecDepth 2000 in
  exact ⟨Grid.fits (.bit (by decide)), rfl, _, _, _, rfl, rfl, rfl, rfl⟩

end FlowTyping
