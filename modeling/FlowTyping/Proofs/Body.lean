import FlowTyping.Body.Malformed

/-!
# Well-formed bodies

What a body promises once nothing is wrong with it: the positions it mentions exist, and
sub-expressions come before their parents.
-/

namespace FlowTyping.Body

/-- Every position that the body mentions exists. -/
structure WellFormed (b : Body) : Prop where
  entry : b.entry < b.blocks.size
  children : ∀ {e : ExprId} {x : Expr}, b.exprs[e]? = some x → ∀ c ∈ x.children, c < e
  exprVars : ∀ {e : ExprId} {x : Expr}, b.exprs[e]? = some x → ∀ v ∈ x.vars, v < b.vars.length
  labels : ∀ {i : BlockId} {k : Block}, b.blocks[i]? = some k → k.id = i
  targets : ∀ {i : BlockId} {k : Block}, b.blocks[i]? = some k →
    ∀ target ∈ k.edge.mentions ++ k.handlers, target < b.blocks.size
  blockExprs : ∀ {i : BlockId} {k : Block}, b.blocks[i]? = some k →
    ∀ e ∈ k.actions.flatMap Action.exprs ++ k.edge.exprs, e < b.exprs.size
  blockVars : ∀ {i : BlockId} {k : Block}, b.blocks[i]? = some k →
    ∀ v ∈ k.actions.flatMap Action.vars, v < b.vars.length

/-- The check for a bound finds nothing just if all positions are below it. -/
theorem beyond?_eq_none_iff {bound : Nat} {positions : List Nat} :
    beyond? bound positions = none ↔ ∀ p ∈ positions, p < bound := by
  simp [beyond?, List.find?_eq_none]

/-- The check of an expression finds nothing just if its operands come before it and its variables
exist. -/
theorem exprMalformed?_eq_none_iff {b : Body} {id : ExprId} {x : Expr} (hid : id < b.exprs.size) :
    b.exprMalformed? id x = none ↔
      (∀ c ∈ x.children, c < id) ∧ ∀ v ∈ x.vars, v < b.vars.length := by
  simp only [exprMalformed?, Option.or_eq_none_iff, Option.map_eq_none_iff, beyond?_eq_none_iff]
  constructor
  · intro h
    exact h.2
  · intro h
    exact ⟨fun c hc => Nat.lt_trans (h.1 c hc) hid, h⟩

/-- The check of a block finds nothing just if the block bears its number and all that it mentions
exists. -/
theorem blockMalformed?_eq_none_iff {b : Body} {i : BlockId} {k : Block} :
    b.blockMalformed? i k = none ↔
      k.id = i ∧ (∀ target ∈ k.edge.mentions ++ k.handlers, target < b.blocks.size) ∧
        (∀ e ∈ k.actions.flatMap Action.exprs ++ k.edge.exprs, e < b.exprs.size) ∧
        ∀ v ∈ k.actions.flatMap Action.vars, v < b.vars.length := by
  rw [blockMalformed?]
  split
  · rename_i h
    simp [h]
  · rename_i h
    simp only [Option.or_eq_none_iff, Option.map_eq_none_iff, beyond?_eq_none_iff]
    rw [Decidable.of_not_not h]
    simp only [true_and]

/-- A check of every entry of an array finds nothing exactly when no entry fails it. -/
theorem findSome?_zipIdx_eq_none_iff {α β : Type} {a : Array α} {f : α × Nat → Option β} :
    a.toList.zipIdx.findSome? f = none ↔ ∀ i x, a[i]? = some x → f (x, i) = none := by
  rw [List.findSome?_eq_none_iff]
  constructor
  · intro h i x hx
    apply h (x, i)
    rw [List.mk_mem_zipIdx_iff_getElem?]
    simpa using hx
  · rintro h ⟨x, i⟩ hmem
    rw [List.mk_mem_zipIdx_iff_getElem?] at hmem
    exact h i x (by simpa using hmem)

/-- The check finds nothing exactly in the well-formed bodies. -/
theorem malformed?_eq_none_iff {b : Body} : b.malformed? = none ↔ b.WellFormed := by
  rw [malformed?]
  split
  · rename_i h
    constructor
    · intro h'
      cases h'
    · intro hw
      exact absurd hw.entry (Nat.not_lt.2 h)
  · rename_i hentry
    rw [Option.or_eq_none_iff, findSome?_zipIdx_eq_none_iff, findSome?_zipIdx_eq_none_iff]
    constructor
    · rintro ⟨hexprs, hblocks⟩
      have he (i x) (hx : b.exprs[i]? = some x) :=
        (exprMalformed?_eq_none_iff (Array.getElem?_eq_some_iff.1 hx).1).1 (hexprs i x hx)
      have hb (i k) (hk : b.blocks[i]? = some k) :=
        blockMalformed?_eq_none_iff.1 (hblocks i k hk)
      exact {
        entry := Nat.lt_of_not_le hentry
        children := fun {e x} hx => (he e x hx).1
        exprVars := fun {e x} hx => (he e x hx).2
        labels := fun {i k} hk => (hb i k hk).1
        targets := fun {i k} hk => (hb i k hk).2.1
        blockExprs := fun {i k} hk => (hb i k hk).2.2.1
        blockVars := fun {i k} hk => (hb i k hk).2.2.2 }
    · intro hw
      constructor
      · intro i x hx
        exact (exprMalformed?_eq_none_iff (Array.getElem?_eq_some_iff.1 hx).1).2
          ⟨hw.children hx, hw.exprVars hx⟩
      · intro i k hk
        exact blockMalformed?_eq_none_iff.2
          ⟨hw.labels hk, hw.targets hk, hw.blockExprs hk, hw.blockVars hk⟩

end FlowTyping.Body
