import FlowTyping.Proofs.Lowering.Route

/-!
# Writing blocks

What a piece of lowering leaves behind. `Fills bs x Q`: `x` writes to the blank blocks `bs` and to
blocks of its own, and leaves all others alone. `Writes jumps? bs x A`: `x` goes on with the current
block, and the code that it writes realizes `A`. Both are about any later state of the lowering in
which what was written still stands; only the block to go on with may have got longer.
-/

namespace FlowTyping

open Behaviour Lower

namespace Lowering

variable {s : Lowering} {b b' : BlockId}

/-- The actions of a block so far. -/
def actionsAt (s : Lowering) (b : BlockId) : List Action :=
  (s.drafts[b]?.map Draft.actions).getD []

/-- The place that the next action goes to. -/
def point (s : Lowering) : Point :=
  ⟨s.current, (s.actionsAt s.current).length⟩

/-- The current block has not ended. -/
def IsOpen (s : Lowering) : Prop :=
  ∃ d, s.drafts[s.current]? = some d ∧ d.edge? = none

/-- Nothing has been written to a block. -/
def Blank (s : Lowering) (b : BlockId) : Prop :=
  ∃ handlers, s.drafts[b]? = some ⟨[], none, handlers⟩

theorem actionsAt_congr {s' : Lowering} (h : s'.drafts[b]? = s.drafts[b]?) :
    s'.actionsAt b = s.actionsAt b := by
  rw [actionsAt, h, actionsAt]

theorem Blank.congr {s' : Lowering} (hb : s.Blank b) (h : s'.drafts[b]? = s.drafts[b]?) :
    s'.Blank b := by
  rw [Blank, h]
  exact hb

theorem Blank.lt (h : s.Blank b) : b < s.drafts.size := by
  obtain ⟨handlers, hb⟩ := h
  exact (Array.getElem?_eq_some_iff.1 hb).1

theorem Blank.actionsAt_eq (h : s.Blank b) : s.actionsAt b = [] := by
  obtain ⟨handlers, hb⟩ := h
  simp [actionsAt, hb]

theorem IsOpen.lt (h : s.IsOpen) : s.current < s.drafts.size := by
  obtain ⟨d, hd, -⟩ := h
  exact (Array.getElem?_eq_some_iff.1 hd).1

/-- The state in which a block is the current one. -/
def entering (s : Lowering) (b : BlockId) : Lowering :=
  { s with current := b }

/-- A blank block is open once it is entered. -/
theorem Blank.isOpen_entering (h : s.Blank b) : (s.entering b).IsOpen := by
  obtain ⟨handlers, hb⟩ := h
  exact ⟨_, hb, rfl⟩

theorem Blank.point_entering (h : s.Blank b) : (s.entering b).point = ⟨b, 0⟩ := by
  have hnone : (s.entering b).actionsAt b = [] := h.actionsAt_eq
  change Point.mk b ((s.entering b).actionsAt b).length = _
  rw [hnone]
  rfl

/-- The state in which the draft of a block is another one. -/
def edited (s : Lowering) (b : BlockId) (f : Draft → Draft) : Lowering :=
  { s with drafts := s.drafts.modify b f }

@[simp] theorem size_edited (s : Lowering) (b : BlockId) (f : Draft → Draft) :
    (s.edited b f).drafts.size = s.drafts.size :=
  Array.size_modify ..

theorem edited_of_ne (f : Draft → Draft) (h : b' ≠ b) :
    (s.edited b f).drafts[b']? = s.drafts[b']? := by
  simp [edited, Array.getElem?_modify, h.symm]

/-- A change is seen in its block. -/
theorem edited_self {d : Draft} (f : Draft → Draft) (h : s.drafts[b]? = some d) :
    (s.edited b f).drafts[b]? = some (f d) := by
  simp [edited, Array.getElem?_modify, h]

/-- The state in which a block has ended. -/
def closed (s : Lowering) (b : BlockId) (edge : Edge) : Lowering :=
  s.edited b fun d => { d with edge? := d.edge?.or (some edge) }

/-- A block without an edge is closed with the given one. -/
theorem closed_self {d : Draft} (edge : Edge) (h : s.drafts[b]? = some d) (hnone : d.edge? = none) :
    (s.closed b edge).drafts[b]? = some { d with edge? := some edge } := by
  rw [closed, edited_self _ h, hnone]
  rfl

/-- The state with one more block. -/
def opened (s : Lowering) (handlers : List BlockId) : Lowering :=
  { s with drafts := s.drafts.push ⟨[], none, handlers⟩ }

@[simp] theorem size_opened (s : Lowering) (handlers : List BlockId) :
    (s.opened handlers).drafts.size = s.drafts.size + 1 :=
  Array.size_push ..

theorem opened_of_lt (handlers : List BlockId) (h : b < s.drafts.size) :
    (s.opened handlers).drafts[b]? = s.drafts[b]? := by
  rw [opened, Array.getElem?_push_lt h, Array.getElem?_eq_getElem h]

/-- A new block is blank. -/
theorem blank_opened (s : Lowering) (handlers : List BlockId) :
    (s.opened handlers).Blank s.drafts.size :=
  ⟨handlers, by simp [opened]⟩

/-- The actions of a draft are those of its block. -/
theorem acts_of_actionsAt {k : Nat} {a : Action} (h : (s.actionsAt b)[k]? = some a) :
    Point.Acts s.blocks ⟨b, k⟩ a := by
  cases hb : s.drafts[b]? with
  | none => simp [actionsAt, hb] at h
  | some d =>
      rw [actionsAt, hb] at h
      exact ⟨⟨b, d.actions, d.edge?.getD (.ret none), d.handlers⟩, by simp [blocks, hb], h⟩

/-- A block ends after its actions, in the edge of its draft. -/
theorem ends_of_draft {d : Draft} {k : Nat} (h : s.drafts[b]? = some d)
    (hk : d.actions.length = k) : Point.Ends s.blocks ⟨b, k⟩ (d.edge?.getD (.ret none)) :=
  ⟨⟨b, d.actions, d.edge?.getD (.ret none), d.handlers⟩, by simp [blocks, h], hk, rfl⟩

end Lowering

open Lowering

/-- Between two states, blank blocks and blocks opened meanwhile were written, and `Q` holds of
every graph that keeps them. -/
structure Filled (bs : List BlockId) (s s' : Lowering) (Q : Array Block → Prop) : Prop where
  size_le : s.drafts.size ≤ s'.drafts.size
  others : ∀ b < s.drafts.size, b ∉ bs → s'.drafts[b]? = s.drafts[b]?
  holds : ∀ F : Lowering, (∀ b < s'.drafts.size, b ∈ bs ∨ s.drafts.size ≤ b →
    F.drafts[b]? = s'.drafts[b]?) → Q F.blocks

/-- From every state in which some blocks are blank, a computation fills them so that `Q` holds. -/
def Fills (bs : List BlockId) (x : Lower Unit) (Q : Array Block → Prop) : Prop :=
  ∀ s : Lowering, bs.Nodup → (∀ b ∈ bs, s.Blank b) → Filled bs s (x.run s).2 Q

/-- A later state keeps what was written between two states. -/
structure Keeps (bs : List BlockId) (s s' F : Lowering) : Prop where
  settled : ∀ b < s'.drafts.size, b = s.current ∨ b ∈ bs ∨ s.drafts.size ≤ b → b ≠ s'.current →
    F.drafts[b]? = s'.drafts[b]?
  grows : s'.actionsAt s'.current <+: F.actionsAt s'.current

/-- Between two states, the current block, blank blocks and blocks opened meanwhile were written,
and the code realizes `A` in every graph that keeps them. -/
structure Written (jumps? : Option Jumps) (bs : List BlockId) (s s' : Lowering) (A : Behaviour) :
    Prop where
  isOpen : s'.IsOpen
  size_le : s.drafts.size ≤ s'.drafts.size
  others : ∀ b < s.drafts.size, b ≠ s.current → b ∉ bs → s'.drafts[b]? = s.drafts[b]?
  grows : s.actionsAt s.current <+: s'.actionsAt s.current
  current : s'.current = s.current ∨ s'.current ∈ bs ∨ s.drafts.size ≤ s'.current
  realizes : ∀ F, Keeps bs s s' F → Realizes F.blocks jumps? s.point s'.point A

/-- From every state with an open block and some blank ones, a computation writes code there that
does what `A` says. -/
def Writes (jumps? : Option Jumps) (bs : List BlockId) (x : Lower Unit) (A : Behaviour) : Prop :=
  ∀ s : Lowering, s.IsOpen → s.current ∉ bs → bs.Nodup → (∀ b ∈ bs, s.Blank b) →
    Written jumps? bs s (x.run s).2 A

namespace Fills

variable {bs bs' : List BlockId} {x y : Lower Unit} {Q Q' : Array Block → Prop}

theorem mono (h : Fills bs x Q) (hQ : ∀ blocks, Q blocks → Q' blocks) : Fills bs x Q' := by
  intro s hnodup hblank
  obtain ⟨hsize, hothers, hholds⟩ := h s hnodup hblank
  exact ⟨hsize, hothers, fun F hF => hQ _ (hholds F hF)⟩

theorem nil : Fills [] (pure ()) fun _ => True :=
  fun _ _ _ => ⟨Nat.le_refl _, fun _ _ _ => rfl, fun _ _ => trivial⟩

/-- Code that fills some blocks and then others fills them all. -/
theorem seq (hx : Fills bs x Q) (hy : Fills bs' y Q') :
    Fills (bs ++ bs') (x >>= fun _ => y) fun blocks => Q blocks ∧ Q' blocks := by
  intro s hnodup hblank
  obtain ⟨hbs, hbs', hdisjoint⟩ := List.nodup_append.1 hnodup
  have h₁ := hx s hbs fun b hb => hblank b (List.mem_append_left _ hb)
  have hlater : ∀ b ∈ bs', b ∉ bs := fun b hb' hb => hdisjoint b hb b hb' rfl
  have hblank' : ∀ b ∈ bs', s.Blank b := fun b hb => hblank b (List.mem_append_right _ hb)
  have h₂ := hy (x.run s).2 hbs' fun b hb =>
    (hblank' b hb).congr (h₁.others b (hblank' b hb).lt (hlater b hb))
  change Filled (bs ++ bs') s (y.run (x.run s).2).2 _
  refine ⟨Nat.le_trans h₁.size_le h₂.size_le, ?_, ?_⟩
  · intro b hb hmem
    rw [List.mem_append, not_or] at hmem
    exact (h₂.others b (Nat.lt_of_lt_of_le hb h₁.size_le) hmem.2).trans (h₁.others b hb hmem.1)
  · intro F hF
    refine ⟨h₁.holds F ?_, h₂.holds F ?_⟩
    · intro b hb hown
      have hmem : b ∉ bs' := by
        intro hb'
        rcases hown with hbs | hge
        · exact hlater b hb' hbs
        · exact absurd (hblank' b hb').lt (Nat.not_lt.2 hge)
      rw [← h₂.others b hb hmem]
      refine hF b (Nat.lt_of_lt_of_le hb h₂.size_le) (hown.imp_left ?_)
      exact List.mem_append_left _
    · intro b hb hown
      refine hF b hb ?_
      rcases hown with hbs | hge
      · exact .inl (List.mem_append_right _ hbs)
      · exact .inr (Nat.le_trans h₁.size_le hge)

/-- A block that just ends. -/
theorem close (b : BlockId) (edge : Edge) :
    Fills [b] (Lower.close b edge) fun blocks => Point.Ends blocks ⟨b, 0⟩ edge := by
  intro s _ hblank
  obtain ⟨handlers, hb⟩ := hblank b (List.mem_singleton_self b)
  change Filled [b] s (s.closed b edge) _
  refine ⟨Nat.le_of_eq (size_edited ..).symm, ?_, ?_⟩
  · intro b' _ hb'
    exact edited_of_ne _ (List.mem_singleton.not.1 hb')
  · intro F hF
    have hlt : b < s.drafts.size := (hblank b (List.mem_singleton_self b)).lt
    have hself := hF b (by rwa [closed, size_edited]) (.inl (List.mem_singleton_self b))
    rw [closed_self edge hb rfl] at hself
    exact ends_of_draft hself rfl

end Fills

namespace Written

variable {jumps? : Option Jumps} {s s₁ s₂ : Lowering} {A B : Behaviour}

/-- What keeps the code of two parts keeps that of the first. -/
theorem keeps_left {F : Lowering} (h₁ : Written jumps? [] s s₁ A) (h₂ : Written jumps? [] s₁ s₂ B)
    (hF : Keeps [] s s₂ F) : Keeps [] s s₁ F := by
  constructor
  · intro b hb hown hne
    have hne' : b ≠ s₂.current := by
      rcases h₂.current with heq | hmem | hge
      · exact heq ▸ hne
      · cases hmem
      · exact Nat.ne_of_lt (Nat.lt_of_lt_of_le hb hge)
    rw [← h₂.others b hb hne List.not_mem_nil]
    exact hF.settled b (Nat.lt_of_lt_of_le hb h₂.size_le) hown hne'
  · refine h₂.grows.trans ?_
    by_cases heq : s₁.current = s₂.current
    · rw [heq]
      exact hF.grows
    · have hlt := Nat.lt_of_lt_of_le h₁.isOpen.lt h₂.size_le
      exact actionsAt_congr (hF.settled _ hlt h₁.current heq) ▸ List.prefix_refl _

theorem keeps_right {F : Lowering} (h₁ : Written jumps? [] s s₁ A) (hF : Keeps [] s s₂ F) :
    Keeps [] s₁ s₂ F := by
  refine ⟨fun b hb hown => hF.settled b hb ?_, hF.grows⟩
  rcases hown with rfl | hmem | hge
  · exact h₁.current
  · cases hmem
  · exact .inr (.inr (Nat.le_trans h₁.size_le hge))

/-- Code that is written in two parts does the one after the other. -/
theorem trans (h₁ : Written jumps? [] s s₁ A) (hopen : s.IsOpen) (h₂ : Written jumps? [] s₁ s₂ B) :
    Written jumps? [] s s₂ (Seq A B) where
  isOpen := h₂.isOpen
  size_le := Nat.le_trans h₁.size_le h₂.size_le
  others b hb hne hmem := by
    have hne' : b ≠ s₁.current := by
      rcases h₁.current with heq | hmem | hge
      · exact heq ▸ hne
      · cases hmem
      · exact Nat.ne_of_lt (Nat.lt_of_lt_of_le hb hge)
    rw [h₂.others b (Nat.lt_of_lt_of_le hb h₁.size_le) hne' hmem]
    exact h₁.others b hb hne hmem
  grows := by
    refine h₁.grows.trans ?_
    by_cases heq : s.current = s₁.current
    · rw [heq]
      exact h₂.grows
    · have hlt := Nat.lt_of_lt_of_le hopen.lt h₁.size_le
      exact actionsAt_congr (h₂.others _ hlt heq List.not_mem_nil) ▸ List.prefix_refl _
  current := by
    rcases h₂.current with heq | hmem | hge
    · rw [heq]
      exact h₁.current
    · cases hmem
    · exact .inr (.inr (Nat.le_trans h₁.size_le hge))
  realizes F hF := (h₁.realizes F (h₁.keeps_left h₂ hF)).seq (h₂.realizes F (h₁.keeps_right hF))

/-- To end the current block and go on in a new one of dead code. -/
theorem depart {d : Draft} {edge? : Option Edge} (handlers : List BlockId)
    (hd : s.drafts[s.current]? = some d)
    (hd₁ : s₁.drafts[s.current]? = some { d with edge? := edge? })
    (hsize : s₁.drafts.size = s.drafts.size)
    (hothers : ∀ b, b ≠ s.current → s₁.drafts[b]? = s.drafts[b]?)
    (h : ∀ {blocks p q}, Point.Ends blocks p (edge?.getD (.ret none)) →
    Realizes blocks jumps? p q A) :
    Written jumps? [] s ((s₁.opened handlers).entering s₁.drafts.size) A := by
  have hold : ∀ b < s.drafts.size, (s₁.opened handlers).drafts[b]? = s₁.drafts[b]? :=
    fun b hb => opened_of_lt handlers (hsize ▸ hb)
  have hlt : s.current < s.drafts.size := (Array.getElem?_eq_some_iff.1 hd).1
  have hself : (s₁.opened handlers).drafts[s.current]? = some { d with edge? := edge? } :=
    (hold _ hlt).trans hd₁
  have hsize' : (s₁.opened handlers).drafts.size = s.drafts.size + 1 := by rw [size_opened, hsize]
  refine ⟨(blank_opened s₁ handlers).isOpen_entering, ?_, ?_, ?_, ?_, ?_⟩
  · exact hsize' ▸ Nat.le_succ _
  · exact fun b hb hne _ => (hold b hb).trans (hothers b hne)
  · have hactions : (s₁.opened handlers).actionsAt s.current = s.actionsAt s.current := by
      simp [actionsAt, hself, hd]
    exact hactions ▸ List.prefix_refl _
  · exact .inr (.inr (Nat.le_of_eq hsize.symm))
  · intro F hF
    have hcurrent : F.drafts[s.current]? = (s₁.opened handlers).drafts[s.current]? :=
      hF.settled _ (hsize' ▸ Nat.lt_succ_of_lt hlt) (.inl rfl) (hsize ▸ Nat.ne_of_lt hlt)
    exact h (ends_of_draft (hcurrent.trans hself) (by simp [actionsAt, hd]))

end Written

namespace Writes

variable {jumps? : Option Jumps} {bs : List BlockId} {x y : Lower Unit} {A B : Behaviour}

theorem congr (h : Writes jumps? bs x A) (hAB : ∀ t c, A t c ↔ B t c) : Writes jumps? bs x B := by
  intro s hopen hcurrent hnodup hblank
  have hx := h s hopen hcurrent hnodup hblank
  exact { hx with realizes := fun F hF => (hx.realizes F hF).congr hAB }

theorem nil : Writes jumps? [] (pure ()) (Just [] .normal) :=
  fun _ hopen _ _ _ => ⟨hopen, Nat.le_refl _, fun _ _ _ _ => rfl, List.prefix_refl _, .inl rfl,
    fun _ _ => .refl _⟩

/-- An action that is added is done. -/
theorem emit (a : Action) : Writes jumps? [] (Lower.emit a) (Just [.act a] .normal) := by
  rintro s ⟨d, hd, hnone⟩ - - -
  let s' := s.edited s.current fun d => { d with actions := d.actions ++ [a] }
  change Written jumps? [] s s' _
  have hself : s'.drafts[s.current]? = some { d with actions := d.actions ++ [a] } :=
    edited_self _ hd
  have hactions : s'.actionsAt s.current = s.actionsAt s.current ++ [a] := by
    simp [actionsAt, hself, hd]
  refine ⟨⟨_, hself, hnone⟩, Nat.le_of_eq (size_edited ..).symm, ?_, ?_, .inl rfl, ?_⟩
  · exact fun b _ hb _ => edited_of_ne _ hb
  · rw [hactions]
    exact List.prefix_append ..
  · intro F hF
    have hpoint : s'.point = s.point.next := by
      change Point.mk s.current (s'.actionsAt s.current).length = _
      rw [hactions, List.length_append]
      rfl
    rw [hpoint]
    refine .act (acts_of_actionsAt ?_)
    have hgrows : s'.actionsAt s.current <+: F.actionsAt s.current := hF.grows
    rw [hactions] at hgrows
    obtain ⟨rest, hrest⟩ := hgrows
    change (F.actionsAt s.current)[(s.actionsAt s.current).length]? = some a
    simp [← hrest]

/-- Code that is written one after the other is done one after the other. -/
theorem seq (hx : Writes jumps? [] x A) (hy : Writes jumps? [] y B) :
    Writes jumps? [] (x >>= fun _ => y) (Seq A B) := by
  intro s hopen hcurrent hnodup hblank
  have h₁ := hx s hopen hcurrent hnodup hblank
  have h₂ := hy (x.run s).2 h₁.isOpen List.not_mem_nil hnodup fun _ hb => absurd hb List.not_mem_nil
  exact h₁.trans hopen h₂

/-- A block opened on the way is blank until something is written to it. -/
theorem opening {f : BlockId → Lower Unit} (handlers : List BlockId)
    (h : ∀ b, Writes jumps? (bs ++ [b]) (f b) A) :
    Writes jumps? bs (openBlock handlers >>= f) A := by
  intro s hopen hcurrent hnodup hblank
  have hold : ∀ b < s.drafts.size, (s.opened handlers).drafts[b]? = s.drafts[b]? :=
    fun b hb => opened_of_lt handlers hb
  have hnew : s.drafts.size ∉ bs := fun hmem => Nat.lt_irrefl _ (hblank _ hmem).lt
  have hw : Written jumps? (bs ++ [s.drafts.size]) (s.opened handlers)
      ((f s.drafts.size).run (s.opened handlers)).2 A := by
    refine h _ _ ?_ ?_ ?_ ?_
    · exact hopen.imp fun d hd => ⟨(hold _ hopen.lt).trans hd.1, hd.2⟩
    · simpa using ⟨hcurrent, Nat.ne_of_lt hopen.lt⟩
    · exact List.nodup_append.2 ⟨hnodup, List.nodup_cons.2 ⟨List.not_mem_nil, List.nodup_nil⟩, by
        intro b hb b' hb' heq
        rw [List.mem_singleton.1 hb'] at heq
        exact hnew (heq ▸ hb)⟩
    · intro b hb
      rcases List.mem_append.1 hb with hb | hb
      · exact (hblank b hb).congr (hold b (hblank b hb).lt)
      · rw [List.mem_singleton.1 hb]
        exact blank_opened s handlers
  have hactions : (s.opened handlers).actionsAt s.current = s.actionsAt s.current :=
    actionsAt_congr (hold _ hopen.lt)
  have hpoint : (s.opened handlers).point = s.point :=
    congrArg (fun actions : List Action => Point.mk s.current actions.length) hactions
  have hsize : s.drafts.size + 1 ≤ ((f s.drafts.size).run (s.opened handlers)).2.drafts.size :=
    size_opened s handlers ▸ hw.size_le
  refine ⟨hw.isOpen, Nat.le_of_succ_le hsize, ?_, hactions ▸ hw.grows, ?_, ?_⟩
  · intro b hb hne hmem
    have hmem' : b ∉ bs ++ [s.drafts.size] := by simpa using ⟨hmem, Nat.ne_of_lt hb⟩
    rw [← hold b hb]
    exact hw.others b (by rw [size_opened]; omega) hne hmem'
  · rcases hw.current with heq | hmem | hge
    · exact .inl heq
    · rcases List.mem_append.1 hmem with hmem | hmem
      · exact .inr (.inl hmem)
      · exact .inr (.inr (Nat.le_of_eq (List.mem_singleton.1 hmem).symm))
    · rw [size_opened] at hge
      exact .inr (.inr (Nat.le_of_succ_le hge))
  · intro F hF
    rw [← hpoint]
    refine hw.realizes F ⟨fun b hb hown => hF.settled b hb ?_, hF.grows⟩
    rcases hown with heq | hmem | hge
    · exact .inl heq
    · rcases List.mem_append.1 hmem with hmem | hmem
      · exact .inr (.inl hmem)
      · exact .inr (.inr (Nat.le_of_eq (List.mem_singleton.1 hmem).symm))
    · rw [size_opened] at hge
      exact .inr (.inr (Nat.le_of_succ_le hge))

/-- Blocks that are opened first are blank for what comes next. -/
theorem openings {α : Type} {f : List BlockId → Lower Unit} (handlers : List BlockId) (xs : List α)
    (h : ∀ ids : List BlockId, ids.length = xs.length → Writes jumps? (bs ++ ids) (f ids) A) :
    Writes jumps? bs (openBlocks handlers xs >>= f) A := by
  induction xs generalizing bs f with
  | nil => simpa [openBlocks] using h [] rfl
  | cons x xs ih =>
      simp only [openBlocks, bind_assoc, pure_bind]
      refine .opening handlers fun b => ih fun ids hids => ?_
      simpa using h (b :: ids) (by simp [hids])

/-- Code that ends the current block and leaves nothing to go on with. -/
theorem depart (handlers : List BlockId) (edge? : Option Edge)
    (h : ∀ {blocks p q}, Point.Ends blocks p (edge?.getD (.ret none)) →
      Realizes blocks jumps? p q A) :
    Writes jumps? [] (do
      match edge? with
      | some edge => finish edge
      | none => pure ()
      enter (← openBlock handlers)) A := by
  rintro s hopen - - -
  obtain ⟨d, hd, hnone⟩ := hopen
  cases edge? with
  | some edge =>
      have hclosed := closed_self edge hd hnone
      exact Written.depart handlers hd hclosed (size_edited ..) (fun b hb => edited_of_ne _ hb) h
  | none => exact Written.depart handlers hd (hnone ▸ hd) rfl (fun _ _ => rfl) h

/-- A compound statement: the current block ends, the blank blocks are filled, and the last of them
is the one to go on with. -/
theorem compound {stop : BlockId} {edge : Edge} {Q : Array Block → Prop} (hx : Fills bs x Q)
    (h : ∀ {blocks p}, Point.Ends blocks p edge → Q blocks → Realizes blocks jumps? p ⟨stop, 0⟩ A) :
    Writes jumps? (bs ++ [stop]) (do finish edge; x; enter stop) A := by
  intro s hopen hcurrent hnodup hblank
  obtain ⟨hbs, -, hdisjoint⟩ := List.nodup_append.1 hnodup
  have hstop : stop ∉ bs := fun hmem => hdisjoint stop hmem stop (List.mem_singleton_self stop) rfl
  have hcurrent' : s.current ∉ bs := fun hmem => hcurrent (List.mem_append_left _ hmem)
  let s₁ := s.closed s.current edge
  have hsize₁ : s₁.drafts.size = s.drafts.size := size_edited ..
  have hothers₁ : ∀ b, b ≠ s.current → s₁.drafts[b]? = s.drafts[b]? := fun b hb => edited_of_ne _ hb
  have hblank₁ : ∀ b ∈ bs ++ [stop], s₁.Blank b := fun b hb =>
    (hblank b hb).congr (hothers₁ b (ne_of_mem_of_not_mem hb hcurrent))
  have hfilled := hx s₁ hbs fun b hb => hblank₁ b (List.mem_append_left _ hb)
  change Written jumps? (bs ++ [stop]) s ((x.run s₁).2.entering stop) A
  generalize (x.run s₁).2 = s₂ at hfilled
  have hsize₂ : s.drafts.size ≤ s₂.drafts.size := hsize₁ ▸ hfilled.size_le
  have hothers₂ : ∀ b < s.drafts.size, b ∉ bs → s₂.drafts[b]? = s₁.drafts[b]? :=
    fun b hb => hfilled.others b (hsize₁ ▸ hb)
  have hstopBlank : s.Blank stop :=
    hblank stop (List.mem_append_right _ (List.mem_singleton_self stop))
  have hstop₂ : s₂.Blank stop :=
    (hblank₁ stop (List.mem_append_right _ (List.mem_singleton_self stop))).congr
      (hothers₂ stop hstopBlank.lt hstop)
  obtain ⟨d, hd, hnone⟩ := hopen
  have hlt : s.current < s.drafts.size := (Array.getElem?_eq_some_iff.1 hd).1
  have hclosed : s₂.drafts[s.current]? = some { d with edge? := some edge } :=
    (hothers₂ _ hlt hcurrent').trans (closed_self edge hd hnone)
  refine ⟨hstop₂.isOpen_entering, hsize₂, ?_, ?_, ?_, ?_⟩
  · intro b hb hne hmem
    exact (hothers₂ b hb fun h => hmem (List.mem_append_left _ h)).trans (hothers₁ b hne)
  · have hactions : s₂.actionsAt s.current = s.actionsAt s.current := by
      simp [actionsAt, hclosed, hd]
    exact hactions ▸ List.prefix_refl _
  · exact .inr (.inl (List.mem_append_right _ (List.mem_singleton_self stop)))
  · intro F hF
    rw [hstop₂.point_entering]
    refine h ?_ (hfilled.holds F ?_)
    · have hself : F.drafts[s.current]? = s₂.drafts[s.current]? :=
        hF.settled _ (Nat.lt_of_lt_of_le hlt hsize₂) (.inl rfl)
          (ne_of_mem_of_not_mem (List.mem_append_right _ (List.mem_singleton_self stop))
          hcurrent).symm
      rw [hclosed] at hself
      exact ends_of_draft hself (by simp [actionsAt, hd])
    · intro b hb hown
      refine hF.settled b hb ?_ ?_
      · rcases hown with hmem | hge
        · exact .inr (.inl (List.mem_append_left _ hmem))
        · exact .inr (.inr (hsize₁ ▸ hge))
      · rcases hown with hmem | hge
        · exact ne_of_mem_of_not_mem hmem hstop
        · exact (Nat.ne_of_lt (Nat.lt_of_lt_of_le hstopBlank.lt (hsize₁ ▸ hge))).symm

end Writes

/-- A blank block that a piece of code is written to, and that goes on elsewhere. -/
theorem Fills.fill {jumps? : Option Jumps} {x : Lower Unit} {A : Behaviour}
    (h : Writes jumps? [] x A) (b target : BlockId) :
    Fills [b] (do enter b; x; finish (.goto target)) fun blocks =>
      Realizes blocks jumps? ⟨b, 0⟩ ⟨target, 0⟩ A := by
  intro s _ hblank
  have hb : s.Blank b := hblank b (List.mem_singleton_self b)
  have hw := h (s.entering b) hb.isOpen_entering List.not_mem_nil List.nodup_nil
    fun _ hmem => absurd hmem List.not_mem_nil
  change Filled [b] s ((x.run (s.entering b)).2.closed (x.run (s.entering b)).2.current
    (.goto target)) _
  generalize (x.run (s.entering b)).2 = s₁ at hw
  obtain ⟨d, hd, hnone⟩ := hw.isOpen
  have hclosed := closed_self (.goto target) hd hnone
  have hsize : (s₁.closed s₁.current (.goto target)).drafts.size = s₁.drafts.size := size_edited ..
  have howned : s₁.current = b ∨ s.drafts.size ≤ s₁.current := by
    rcases hw.current with heq | hmem | hge
    · exact .inl heq
    · cases hmem
    · exact .inr hge
  refine ⟨hsize ▸ hw.size_le, ?_, ?_⟩
  · intro b' hb' hmem
    have hne : b' ≠ b := List.mem_singleton.not.1 hmem
    have hne₁ : b' ≠ s₁.current := by
      rcases howned with heq | hge
      · exact heq ▸ hne
      · exact Nat.ne_of_lt (Nat.lt_of_lt_of_le hb' hge)
    exact (edited_of_ne _ hne₁).trans (hw.others b' hb' hne List.not_mem_nil)
  · intro F hF
    rw [hsize] at hF
    have hcurrent : F.drafts[s₁.current]? = some { d with edge? := some (.goto target) } :=
      (hF _ hw.isOpen.lt (howned.imp_left List.mem_singleton.2)).trans hclosed
    have hkeeps : Keeps [] (s.entering b) s₁ F := by
      constructor
      · intro b' hb' hown hne
        refine (hF b' hb' ?_).trans (edited_of_ne _ hne)
        rcases hown with heq | hmem | hge
        · exact .inl (List.mem_singleton.2 heq)
        · cases hmem
        · exact .inr hge
      · simp [actionsAt, hcurrent, hd]
    rw [← hb.point_entering]
    exact (hw.realizes F hkeeps).goto (ends_of_draft hcurrent (by simp [actionsAt, hd]))

end FlowTyping
