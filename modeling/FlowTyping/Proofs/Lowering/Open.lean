import FlowTyping.Proofs.Lowering.Handlers

/-!
# Statements go to open blocks

Wherever a statement is lowered, the current block has not ended, be it dead code: a script enters
only blank blocks that it has opened itself, and lowers a body only right after it has entered one.
A block that has ended keeps its edge whatever is lowered later.

Main statements: `Site.Within.isOpen` and `Site.Within.ended`.
-/

namespace FlowTyping

open Lowering

/-! ### Orderly scripts -/

/-- How far a script has been played. -/
structure Progress where
  /-- How many blocks there are at least. -/
  count : Nat
  /-- There are no others. -/
  complete : Bool
  /-- The current block has not ended. -/
  isOpen : Bool
  /-- Blocks that were entered or ended. -/
  used : List BlockId

namespace Progress

variable {p p' q : Progress} {b k : Nat}

/-- There are `k` blocks numbered from `b`, and none of them was used. -/
structure Offers (p : Progress) (b k : Nat) : Prop where
  count : b + k ≤ p.count
  used : ∀ u : Nat, u ∈ p.used → u < b ∨ b + k ≤ u

/-- Of all blocks only `k` that are numbered from `b` were used meanwhile. -/
structure Spends (p : Progress) (b k : Nat) (q : Progress) : Prop where
  count : q.count = p.count
  used : ∀ u : Nat, u ∈ q.used → u ∈ p.used ∨ b ≤ u ∧ u < b + k

theorem Spends.refl (p : Progress) (b : Nat) : p.Spends b 0 p :=
  ⟨rfl, fun _ hu => .inl hu⟩

/-- The first block on offer exists and was not used. -/
theorem Offers.entry (h : p.Offers b (k + 1)) : b < p.count ∧ b ∉ p.used := by
  refine ⟨Nat.lt_of_lt_of_le (by omega) h.count, fun hmem => ?_⟩
  have hout := h.used b hmem
  omega

/-- The first block was used. -/
theorem Offers.tail (h : p.Offers b (k + 1)) (hcount : p'.count = p.count)
    (hused : p'.used = b :: p.used) : p'.Offers (b + 1) k := by
  have hle := h.count
  refine ⟨by omega, fun u hu => ?_⟩
  rw [hused, List.mem_cons] at hu
  rcases hu with rfl | hu
  · exact .inl (Nat.lt_succ_self _)
  · have hout := h.used u hu
    omega

/-- To use one block and then the following ones is to use them all. -/
theorem Spends.cons (h : p'.Spends (b + 1) k q) (hcount : p'.count = p.count)
    (hused : p'.used = b :: p.used) : p.Spends b (k + 1) q := by
  refine ⟨h.count.trans hcount, fun u hu => ?_⟩
  rcases h.used u hu with hu | hu
  · rw [hused, List.mem_cons] at hu
    rcases hu with rfl | hu
    · exact .inr ⟨Nat.le_refl _, by omega⟩
    · exact .inl hu
  · exact .inr ⟨by omega, by omega⟩

end Progress

namespace Stroke

/-- What a stroke changes in the count of blocks, in the current block and in the blocks used. -/
def advance : Stroke → Progress → Progress
  | .fresh _, p => { p with count := p.count + 1 }
  | .enter b, p => { p with isOpen := true, used := b :: p.used }
  | .close b _, p => { p with isOpen := false, used := b :: p.used }
  | .finish _, p => { p with isOpen := false }
  | .body _ _, p => { p with complete := false }
  | .emit _, p => p
  | .guard _ _, p => p

/-- A stroke enters only blocks from `n` on that were not used, and lowers a body only in an open
block. -/
def Admissible (n : Nat) (p : Progress) : Stroke → Prop
  | .fresh _ => p.complete = true
  | .enter b => n ≤ b ∧ b < p.count ∧ b ∉ p.used
  | .body _ _ => p.isOpen = true
  | _ => True

/-- Every stroke of a script is admissible, and the script ends in an open block. -/
def Orderly (n : Nat) : Progress → List Stroke → Prop
  | p, [] => p.isOpen = true
  | p, k :: rest => k.Admissible n p ∧ Orderly n (k.advance p) rest

end Stroke

/-- A lowering has made some progress: the blocks from `n` on that were not used are blank. -/
structure Lowering.Made (n : Nat) (p : Progress) (s : Lowering) : Prop where
  complete : p.complete = true → s.drafts.size = p.count
  isOpen : p.isOpen = true → s.IsOpen
  current : s.current < s.drafts.size
  blank : ∀ b, n ≤ b → b < p.count → b ∉ p.used → s.Blank b ∧ b ≠ s.current

namespace Lowering

variable {n : Nat} {p : Progress} {s s' : Lowering} {b : BlockId}

theorem Blank.guarded (h : s.Blank b) (b' : BlockId) (handlers : List BlockId) :
    (s.edited b' fun d => { d with handlers := handlers }).Blank b := by
  by_cases hb : b = b'
  · subst hb
    obtain ⟨handlers', hd⟩ := h
    exact ⟨handlers, edited_self _ hd⟩
  · exact h.congr (edited_of_ne _ hb)

/-- A block stays open if the change leaves its edge alone. -/
theorem IsOpen.edited (h : s.IsOpen) (b : BlockId) {f : Draft → Draft}
    (hf : ∀ d, (f d).edge? = d.edge?) : (s.edited b f).IsOpen := by
  obtain ⟨d, hd, hnone⟩ := h
  by_cases hb : s.current = b
  · subst hb
    exact ⟨f d, edited_self f hd, (hf d).trans hnone⟩
  · exact ⟨d, (edited_of_ne f hb).trans hd, hnone⟩

theorem IsOpen.opened (h : s.IsOpen) (handlers : List BlockId) : (s.opened handlers).IsOpen := by
  obtain ⟨d, hd, hnone⟩ := h
  exact ⟨d, (opened_of_lt handlers (Array.getElem?_eq_some_iff.1 hd).1).trans hd, hnone⟩

/-- At the start of a script nothing has been used. -/
theorem made_start (h : s.IsOpen) : s.Made s.drafts.size ⟨s.drafts.size, true, true, []⟩ where
  complete _ := rfl
  isOpen _ := h
  current := h.lt
  blank _ hge hlt := absurd hlt (Nat.not_lt.2 hge)

namespace Made

/-- A new block adds to the count, and is blank. -/
theorem opened (h : s.Made n p) (hcomplete : p.complete = true) (handlers : List BlockId) :
    (s.opened handlers).Made n { p with count := p.count + 1 } where
  complete _ := by
    rw [size_opened, h.complete hcomplete]
  isOpen hopen := (h.isOpen hopen).opened handlers
  current := by
    rw [size_opened]
    exact Nat.lt_succ_of_lt h.current
  blank b hge hlt hused := by
    rcases Nat.lt_or_eq_of_le (Nat.le_of_lt_succ hlt) with hold | hnew
    · obtain ⟨hblank, hne⟩ := h.blank b hge hold hused
      exact ⟨hblank.congr (opened_of_lt handlers hblank.lt), hne⟩
    · rw [hnew, ← h.complete hcomplete]
      exact ⟨blank_opened s handlers, Nat.ne_of_gt h.current⟩

/-- A block that is entered is used, and open. -/
theorem entering (h : s.Made n p) (hge : n ≤ b) (hlt : b < p.count) (hused : b ∉ p.used) :
    (s.entering b).Made n { p with isOpen := true, used := b :: p.used } where
  complete := h.complete
  isOpen _ := (h.blank b hge hlt hused).1.isOpen_entering
  current := (h.blank b hge hlt hused).1.lt
  blank b' hge' hlt' hused' := by
    rw [List.mem_cons, not_or] at hused'
    exact ⟨(h.blank b' hge' hlt' hused'.2).1, hused'.1⟩

/-- Ending a block that is current, or that counts as used from now on. -/
theorem closed (h : s.Made n p) (b : BlockId) (edge : Edge) {used : List BlockId}
    (hused : p.used ⊆ used) (hb : b = s.current ∨ b ∈ used) :
    (s.closed b edge).Made n { p with isOpen := false, used := used } where
  complete hcomplete := (size_edited ..).trans (h.complete hcomplete)
  isOpen hopen := absurd hopen Bool.false_ne_true
  current := by
    rw [Lowering.closed, size_edited]
    exact h.current
  blank b' hge hlt hused' := by
    obtain ⟨hblank, hne⟩ := h.blank b' hge hlt fun hmem => hused' (hused hmem)
    have hb' : b' ≠ b := by
      rcases hb with rfl | hmem
      · exact hne
      · exact fun heq => hused' (heq ▸ hmem)
    exact ⟨hblank.congr (edited_of_ne _ hb'), hne⟩

/-- To add to the current block uses no other one. -/
theorem emitted (h : s.Made n p) {f : Draft → Draft} (hf : ∀ d, (f d).edge? = d.edge?) :
    (s.edited s.current f).Made n p where
  complete hcomplete := (size_edited ..).trans (h.complete hcomplete)
  isOpen hopen := (h.isOpen hopen).edited _ hf
  current := by
    rw [size_edited]
    exact h.current
  blank b hge hlt hused := by
    obtain ⟨hblank, hne⟩ := h.blank b hge hlt hused
    exact ⟨hblank.congr (edited_of_ne _ hne), hne⟩

theorem guarded (h : s.Made n p) (b : BlockId) (handlers : List BlockId) :
    (s.edited b fun d => { d with handlers := handlers }).Made n p where
  complete hcomplete := (size_edited ..).trans (h.complete hcomplete)
  isOpen hopen := by
    apply (h.isOpen hopen).edited
    exact fun _ => rfl
  current := by
    rw [size_edited]
    exact h.current
  blank b' hge hlt hused := by
    obtain ⟨hblank, hne⟩ := h.blank b' hge hlt hused
    exact ⟨hblank.guarded b handlers, hne⟩

/-- Lowering a body leaves the blank blocks alone. -/
theorem framed (h : s.Made n p) (hframed : Framed s s') (hopen : s'.IsOpen) :
    s'.Made n { p with complete := false } where
  complete hcomplete := absurd hcomplete Bool.false_ne_true
  isOpen _ := hopen
  current := hopen.lt
  blank b hge hlt hused := by
    obtain ⟨hblank, hne⟩ := h.blank b hge hlt hused
    exact ⟨hblank.congr (hframed.others b hblank.lt hne), hframed.ne_current hblank.lt hne⟩

end Made

end Lowering

namespace Stroke

variable {n : Nat} {p : Progress} {s : Lowering} {ks : List Stroke}

/-- An admissible stroke makes the progress that it is said to make. -/
theorem Admissible.play {k : Stroke} (hk : k.Admissible n p) (hs : s.Made n p)
    (hbody : ∀ scope stmts, k = .body scope stmts → s.IsOpen →
      ((lowerAll scope stmts).run s).2.IsOpen) : (k.play s).Made n (k.advance p) := by
  cases k with
  | fresh handlers => exact hs.opened hk handlers
  | enter b => exact hs.entering hk.1 hk.2.1 hk.2.2
  | close b edge =>
      exact hs.closed b edge (List.subset_cons_self b p.used) (.inr List.mem_cons_self)
  | finish edge => exact hs.closed s.current edge (List.Subset.refl p.used) (.inl rfl)
  | emit a => exact hs.emitted fun _ => rfl
  | guard b handlers => exact hs.guarded b handlers
  | body scope stmts =>
      exact hs.framed (framed_lowerAll scope stmts s) (hbody scope stmts rfl (hs.isOpen hk))

/-- All bodies of an orderly script are lowered in open blocks, and it ends in one, if what it
lowers does. -/
theorem Orderly.isOpen (h : Orderly n p ks) (hs : s.Made n p)
    (hbody : ∀ scope stmts, .body scope stmts ∈ ks → ∀ s : Lowering, s.IsOpen →
      ((lowerAll scope stmts).run s).2.IsOpen) :
    (playAll ks s).IsOpen ∧ ∀ z ∈ sites ks s, z.start.IsOpen := by
  induction ks generalizing p s with
  | nil => exact ⟨hs.isOpen h, List.forall_mem_nil _⟩
  | cons k rest ih =>
      have hplay : (k.play s).Made n (k.advance p) := by
        apply h.1.play hs
        rintro scope stmts rfl
        exact hbody scope stmts List.mem_cons_self s
      obtain ⟨hend, hsites⟩ := ih h.2 hplay fun scope stmts hmem =>
        hbody scope stmts (List.mem_cons_of_mem k hmem)
      refine ⟨hend, fun z hz => ?_⟩
      rcases mem_sites_cons hz with ⟨rfl, hstart⟩ | hrest
      · rw [hstart]
        exact hs.isOpen h.1
      · exact hsites z hrest

/-! ### Scripts are orderly -/

/-- Blocks may be opened as long as their count is known. -/
theorem orderly_opens_append {handlers : List BlockId} {count : Nat} (hcomplete : p.complete = true)
    (h : Orderly n { p with count := p.count + count } ks) :
    Orderly n p (opens handlers count ++ ks) := by
  induction count generalizing p with
  | zero => exact h
  | succ count ih =>
      refine ⟨hcomplete, ih hcomplete ?_⟩
      rwa [advance, Nat.add_assoc, Nat.add_comm 1]

theorem orderly_emits_append {exprs : List ExprId} (h : Orderly n p ks) :
    Orderly n p (emits exprs ++ ks) := by
  induction exprs with
  | nil => exact h
  | cons e rest ih => exact ⟨trivial, ih⟩

/-- Cases enter just their own blocks, which are numbered from `b`. -/
theorem orderly_cases_append {scope : Scope} {stop b : Nat} {cs : List (Case Stmt)} (hn : n ≤ b)
    (hp : p.Offers b cs.length) (h : ∀ q, p.Spends b cs.length q → Orderly n q ks) :
    Orderly n p (cases scope stop b cs ++ ks) := by
  induction cs generalizing b p with
  | nil => exact h p (.refl p b)
  | cons c rest ih =>
      refine ⟨⟨hn, hp.entry⟩, rfl, trivial, ?_⟩
      exact ih (Nat.le_succ_of_le hn) (hp.tail rfl rfl) fun q hq => h q (hq.cons rfl rfl)

/-- Catches enter just their own blocks, which are numbered from `b`. -/
theorem orderly_catches_append {scope : Scope} {after b : Nat} {cs : List (Catch Stmt)} (hn : n ≤ b)
    (hp : p.Offers b cs.length) (h : ∀ q, p.Spends b cs.length q → Orderly n q ks) :
    Orderly n p (catches scope after b cs ++ ks) := by
  induction cs generalizing b p with
  | nil => exact h p (.refl p b)
  | cons c rest ih =>
      refine ⟨trivial, ⟨hn, hp.entry⟩, trivial, rfl, trivial, ?_⟩
      exact ih (Nat.le_succ_of_le hn) (hp.tail rfl rfl) fun q hq => h q (hq.cons rfl rfl)

/-- What a finally block runs enters just that block. -/
theorem orderly_finals_append {scope : Scope} {stop b : Nat} {finally? : Option (List Stmt)}
    (hn : n ≤ b) (hp : p.Offers b finally?.toList.length)
    (h : ∀ q, p.Spends b finally?.toList.length q → Orderly n q ks) :
    Orderly n p (finals scope stop b finally? ++ ks) := by
  cases finally? with
  | none => exact h p (.refl p b)
  | some stmts =>
      refine ⟨⟨hn, hp.entry⟩, rfl, trivial, ?_⟩
      exact h _ (Progress.Spends.cons (.refl _ (b + 1)) rfl rfl)

/-- A jump ends the current block, and goes on in a block of dead code. -/
theorem orderly_leaves (handlers : List BlockId) (n : Nat) (target? : Option BlockId) :
    Orderly n ⟨n, true, true, []⟩ (leaves handlers n target?) := by
  cases target? <;> simp [leaves, Orderly, Admissible, advance]

end Stroke

/-- A script enters blank blocks of its own, and lowers a body only once it has entered one. -/
theorem Stmt.orderly_script (scope : Scope) (n : Nat) (stmt : Stmt) :
    Stroke.Orderly n ⟨n, true, true, []⟩ (stmt.script scope n) := by
  cases stmt with
  | act | ret | raise | exit =>
      simp [script, Stroke.Orderly, Stroke.Admissible, Stroke.advance]
  | ifElse | whileLoop | doLoop | foreach =>
      apply Stroke.orderly_opens_append rfl
      simp [Stroke.Orderly, Stroke.Admissible, Stroke.advance]
  | forLoop init cond? step body =>
      simp only [script, List.append_assoc]
      apply Stroke.orderly_emits_append
      apply Stroke.orderly_opens_append rfl
      simp only [List.cons_append, List.nil_append, Stroke.Orderly, Stroke.advance]
      refine ⟨trivial, trivial, by simp [Stroke.Admissible], rfl, trivial,
        by simp [Stroke.Admissible], ?_⟩
      apply Stroke.orderly_emits_append
      simp [Stroke.Orderly, Stroke.Admissible, Stroke.advance]
  | switch value cases =>
      simp only [script, List.append_assoc]
      apply Stroke.orderly_opens_append rfl
      refine ⟨rfl, trivial, ?_⟩
      apply Stroke.orderly_cases_append (Nat.le_refl n)
        ⟨Nat.le_succ _, fun _ hu => absurd hu List.not_mem_nil⟩
      intro q hq
      have hlt : n + cases.length < q.count := by
        rw [hq.count]
        exact Nat.lt_succ_self _
      refine ⟨⟨Nat.le_add_right .., hlt, fun hmem => ?_⟩, rfl⟩
      rcases hq.used _ hmem with hnil | hown
      · cases hnil
      · exact Nat.lt_irrefl _ hown.2
  | protect body catches finally? =>
      let stop := n + catches.length + finally?.toList.length
      simp only [script, Stroke.inside, List.append_assoc]
      apply Stroke.orderly_opens_append rfl
      apply Stroke.orderly_opens_append rfl
      have hinside : n ≤ stop + 1 := by omega
      refine ⟨rfl, rfl, trivial, ⟨hinside, Nat.lt_succ_self _, List.not_mem_nil⟩, rfl, trivial, ?_⟩
      have hclauses : Progress.Offers ⟨stop + 2, false, false, [stop + 1]⟩ n catches.length := by
        have hle : n + catches.length ≤ stop + 2 := by omega
        refine ⟨hle, fun u hu => ?_⟩
        have hu' : u = stop + 1 := List.mem_singleton.1 hu
        omega
      apply Stroke.orderly_catches_append (Nat.le_refl n) hclauses
      intro q hq
      have hcount : q.count = stop + 2 := hq.count
      have hused (u : Nat) (hu : u ∈ q.used) : u = stop + 1 ∨ n ≤ u ∧ u < n + catches.length :=
        (hq.used u hu).imp_left List.mem_singleton.1
      have hfinal : q.Offers (n + catches.length) finally?.toList.length := by
        refine ⟨by omega, fun u hu => ?_⟩
        have hown := hused u hu
        omega
      apply Stroke.orderly_finals_append (Nat.le_add_right ..) hfinal
      intro q' hq'
      have hcount' : q'.count = stop + 2 := hq'.count.trans hcount
      have hge : n ≤ stop := by omega
      have hlt : stop < q'.count := by omega
      refine ⟨⟨hge, hlt, fun hmem => ?_⟩, rfl⟩
      rcases hq'.used stop hmem with hu | hown
      · have hown := hused stop hu
        omega
      · omega
  | brk | cont => exact Stroke.orderly_leaves ..

/-- Lowering goes on with an open block, and ends with one. -/
theorem isOpen_lowerAll (scope : Scope) (stmts : List Stmt) {s : Lowering} (h : s.IsOpen) :
    ((lowerAll scope stmts).run s).2.IsOpen := by
  induction stmts using Stmt.bodies_induction generalizing scope s with
  | nil => exact h
  | cons stmt rest ihBodies ihRest =>
      rw [run_lowerAll_cons]
      apply ihRest
      apply ((stmt.orderly_script scope s.drafts.size).isOpen (made_start h) _).1
      intro scope' body hbody s' hs'
      exact ihBodies body (Stroke.mem_bodies hbody) scope' hs'

/-! ### Blocks keep their edges -/

namespace Lowering

variable {s : Lowering} {b : BlockId} {edge : Edge}

/-- The block has ended with the edge. -/
def Ended (s : Lowering) (b : BlockId) (edge : Edge) : Prop :=
  ∃ d, s.drafts[b]? = some d ∧ d.edge? = some edge

/-- The edge of a block that has ended stays, whatever is done to a block. -/
theorem Ended.edited (h : s.Ended b edge) (b' : BlockId) {f : Draft → Draft}
    (hf : ∀ d : Draft, d.edge? = some edge → (f d).edge? = some edge) :
    (s.edited b' f).Ended b edge := by
  obtain ⟨d, hd, hedge⟩ := h
  by_cases hb : b = b'
  · subst hb
    exact ⟨f d, edited_self f hd, hf d hedge⟩
  · exact ⟨d, (edited_of_ne f hb).trans hd, hedge⟩

theorem Ended.closed (h : s.Ended b edge) (b' : BlockId) (edge' : Edge) :
    (s.closed b' edge').Ended b edge := by
  apply h.edited
  intro d hd
  rw [hd]
  rfl

theorem Ended.opened (h : s.Ended b edge) (handlers : List BlockId) :
    (s.opened handlers).Ended b edge := by
  obtain ⟨d, hd, hedge⟩ := h
  exact ⟨d, (opened_of_lt handlers (Array.getElem?_eq_some_iff.1 hd).1).trans hd, hedge⟩

/-- An open block ends in the edge it is closed with. -/
theorem IsOpen.ended_closed (h : s.IsOpen) (edge : Edge) :
    (s.closed s.current edge).Ended s.current edge := by
  obtain ⟨d, hd, hnone⟩ := h
  exact ⟨_, closed_self edge hd hnone, rfl⟩

/-- A draft that has ended becomes a block with its edge. -/
theorem Ended.block (h : s.Ended b edge) : ∃ k, s.blocks[b]? = some k ∧ k.edge = edge := by
  obtain ⟨d, hd, hedge⟩ := h
  refine ⟨⟨b, d.actions, d.edge?.getD (.ret none), d.handlers⟩, by simp [blocks, hd], ?_⟩
  rw [hedge]
  rfl

end Lowering

theorem Stroke.ended_play (k : Stroke) {s : Lowering} {b : BlockId} {edge : Edge}
    (h : s.Ended b edge)
    (hbody : ∀ scope stmts, k = .body scope stmts → ((lowerAll scope stmts).run s).2.Ended b edge) :
    (k.play s).Ended b edge := by
  cases k with
  | fresh handlers => exact h.opened handlers
  | enter b' => exact h
  | close b' edge' => exact h.closed b' edge'
  | finish edge' => exact h.closed s.current edge'
  | emit a => exact h.edited s.current fun _ hd => hd
  | guard b' handlers => exact h.edited b' fun _ hd => hd
  | body scope stmts => exact hbody scope stmts rfl

/-- Scripts keep the edges of blocks that have ended. -/
theorem Stroke.ended_playAll {ks : List Stroke} {s : Lowering} {b : BlockId} {edge : Edge}
    (h : s.Ended b edge)
    (hbody : ∀ scope stmts, .body scope stmts ∈ ks → ∀ s : Lowering, s.Ended b edge →
      ((lowerAll scope stmts).run s).2.Ended b edge) : (playAll ks s).Ended b edge := by
  induction ks generalizing s with
  | nil => exact h
  | cons k rest ih =>
      have hplay : (k.play s).Ended b edge := by
        apply k.ended_play h
        rintro scope stmts rfl
        exact hbody scope stmts List.mem_cons_self s h
      exact ih hplay fun scope stmts hmem => hbody scope stmts (List.mem_cons_of_mem k hmem)

/-- Whatever is lowered, a block that has ended keeps its edge. -/
theorem ended_lowerAll (scope : Scope) (stmts : List Stmt) {s : Lowering} {b : BlockId}
    {edge : Edge} (h : s.Ended b edge) : ((lowerAll scope stmts).run s).2.Ended b edge := by
  induction stmts using Stmt.bodies_induction generalizing scope s with
  | nil => exact h
  | cons stmt rest ihBodies ihRest =>
      rw [run_lowerAll_cons]
      apply ihRest
      apply Stroke.ended_playAll h
      intro scope' body hbody s' hs'
      exact ihBodies body (Stroke.mem_bodies hbody) scope' hs'

/-- The rest of a script is played after a site is finished. -/
theorem Stroke.ended_of_site {ks : List Stroke} {s : Lowering} {z : Site} {b : BlockId}
    {edge : Edge} (hz : z ∈ sites ks s) (h : z.finish.Ended b edge) :
    (playAll ks s).Ended b edge := by
  induction ks generalizing s with
  | nil => cases hz
  | cons k rest ih =>
      change (playAll rest (k.play s)).Ended b edge
      rcases mem_sites_cons hz with ⟨rfl, hstart⟩ | hrest
      · rw [Site.finish, hstart] at h
        exact ended_playAll h fun scope stmts _ s' hs' => ended_lowerAll scope stmts hs'
      · exact ih hrest

/-! ### Sites at any depth -/

namespace Site

variable {x y z : Site} {b : BlockId} {edge : Edge}

/-- After a statement an open block is current. -/
theorem isOpen_rest (h : x.start.IsOpen) : x.rest.start.IsOpen := by
  obtain ⟨scope, stmts, start⟩ := x
  cases stmts with
  | nil => exact h
  | cons stmt stmts =>
      rw [rest_cons]
      exact ((stmt.orderly_script scope _).isOpen (made_start h) fun scope' body _ s hs =>
        isOpen_lowerAll scope' body hs).1

/-- A body is lowered in an open block. -/
theorem isOpen_inner (h : x.start.IsOpen) (hz : z ∈ x.inner) : z.start.IsOpen := by
  obtain ⟨scope, stmts, start⟩ := x
  cases stmts with
  | nil => cases hz
  | cons stmt stmts =>
      exact ((stmt.orderly_script scope _).isOpen (made_start h) fun scope' body _ s hs =>
        isOpen_lowerAll scope' body hs).2 z hz

/-- Every statement is lowered with an open block as the current one. -/
theorem Within.isOpen (h : x.Within y) (hy : y.start.IsOpen) : x.start.IsOpen := by
  induction h with
  | refl => exact hy
  | rest _ ih => exact ih (isOpen_rest hy)
  | inner hz _ ih => exact ih (isOpen_inner hy hz)

theorem isOpen_root (stmts : List Stmt) : (root stmts).start.IsOpen :=
  ⟨_, rfl, rfl⟩

/-- A block that a body has ended keeps its edge until the end. -/
theorem ended_of_inner (hz : z ∈ x.inner) (h : z.finish.Ended b edge) : x.finish.Ended b edge := by
  obtain ⟨scope, stmts, start⟩ := x
  cases stmts with
  | nil => cases hz
  | cons stmt stmts =>
      rw [finish_cons]
      exact ended_lowerAll scope stmts (Stroke.ended_of_site hz h)

/-- What has ended at a site has ended in the same way when all is lowered. -/
theorem Within.ended (h : x.Within y) (hx : x.finish.Ended b edge) : y.finish.Ended b edge := by
  induction h with
  | refl => exact hx
  | @rest y _ ih => exact finish_rest y ▸ ih
  | inner hz _ ih => exact ended_of_inner hz ih

end Site

end FlowTyping
