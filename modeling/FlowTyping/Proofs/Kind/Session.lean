import FlowTyping.Proofs.Kind.Change

/-!
# Sessions with a kind table

A session asks one table for masks, request after request; a request names the masks that it reads
by their place among the answers so far. Main statement: `session_keeps_table`. Whatever is asked,
every request is answered, the table stays well formed, entries stay as they are, and every answer
can be described and shown.
-/

namespace FlowTyping

open Typing

/-- Something that a table is asked for. A number stands for the answer to an earlier request. -/
inductive Request where
  | empty
  | top
  | primitive (i : Fin 6)
  | arrayOf (elem : Nat)
  | anyArray
  | instanceOf (cls : Name) (subclasses : Bool)
  | hint (declared : Hint)
  | adopt (s : Summary)
  | filter (mask : Nat) (keep : Kind → Bool)
  | elements (mask : Nat)
  | union (a b : Nat)
  | without (a b : Nat)
  | withRef (mask : Nat) (b : Bool)
  | withVoid (mask : Nat) (b : Bool)
  | withSubclasses (mask : Nat) (b : Bool)

/-- The mask that a request asks for, given the answers so far; a place without an answer reads as
the empty mask. -/
def Request.answer (answers : List Mask) : Request → Typing Mask
  | .empty => return .empty
  | .top => return .top
  | .primitive i => return .bit i
  | .arrayOf elem => KindTable.arrayOf (answers.getD elem .empty)
  | .anyArray => KindTable.anyArray
  | .instanceOf cls subclasses => KindTable.instanceOf cls subclasses
  | .hint declared => KindTable.hintMask declared
  | .adopt s => KindTable.adopt s
  | .filter mask keep => do (← get).filter (answers.getD mask .empty) keep
  | .elements mask => do (← get).elementMask (answers.getD mask .empty)
  | .union a b => return answers.getD a .empty ∪ answers.getD b .empty
  | .without a b => return (answers.getD a .empty).without (answers.getD b .empty)
  | .withRef mask b => return (answers.getD mask .empty).withRef b
  | .withVoid mask b => return (answers.getD mask .empty).withVoid b
  | .withSubclasses mask b => return (answers.getD mask .empty).withSubclasses b

/-- A table together with what it has been asked for. -/
structure Session where
  table : KindTable
  /-- The masks that the table has yielded, in order. -/
  answers : List Mask

namespace Session

/-- A session with a new table. -/
def start (id : ContextId) (cap : Nat) (self? : Option Name) : Session :=
  ⟨.new id cap self?, []⟩

/-- Answers one more request. -/
def ask (s : Session) (request : Request) : Except Fault Session := do
  let (m, t) ← (request.answer s.answers).run s.table
  return ⟨t, s.answers ++ [m]⟩

/-- Answers requests one after the other. -/
def askAll (s : Session) (requests : List Request) : Except Fault Session :=
  requests.foldlM ask s

end Session

/-- A table that some session leads to. -/
def KindTable.Reachable (t : KindTable) : Prop :=
  ∃ id cap self? requests s, (Session.start id cap self?).askAll requests = .ok s ∧ s.table = t

/-! ### One request -/

/-- Whatever is asked, the table changes only by listing kinds. -/
theorem Request.answer_numbers (answers : List Mask) (request : Request) :
    Numbers (request.answer answers) := by
  cases request with
  | arrayOf elem => exact KindTable.arrayOf_numbers _
  | anyArray => exact KindTable.anyArray_numbers
  | instanceOf cls subclasses => exact KindTable.instanceOf_numbers cls subclasses
  | hint declared => exact KindTable.hintMask_numbers declared
  | adopt s => exact KindTable.adopt_numbers s
  | filter mask keep => exact .get_bind fun _ => .lift _
  | elements mask => exact .get_bind fun _ => .lift _
  | empty | top | primitive | union | without | withRef | withVoid | withSubclasses => exact .pure _

/-- Every request is answered by a mask that fits, if the earlier answers fit. -/
theorem Request.answer_runs {t : KindTable} {answers : List Mask} (request : Request)
    (ht : t.WellFormed) (hanswers : ∀ m ∈ answers, m.Fits t.size) :
    Runs (request.answer answers) t fun m t' => m.Fits t'.size := by
  have hread (i : Nat) : (answers.getD i .empty).Fits t.size := by
    rw [List.getD_eq_getElem?_getD]
    cases hi : answers[i]? with
    | none => exact Mask.Fits.empty
    | some m => exact hanswers m (List.mem_of_getElem? hi)
  cases request with
  | empty => exact Runs.pure ht Mask.Fits.empty
  | top => exact Runs.pure ht Mask.Fits.top
  | primitive i =>
      exact Runs.pure ht (Mask.Fits.bit (Nat.lt_of_lt_of_le i.isLt ht.six_le_size))
  | arrayOf elem => exact (KindTable.arrayOf_runs ht (hread elem)).mono fun _ _ _ _ h => h.1
  | anyArray => exact (KindTable.anyArray_runs ht).mono fun _ _ _ _ h => h.1
  | instanceOf cls subclasses => exact KindTable.instanceOf_runs ht cls subclasses
  | hint declared => exact KindTable.hintMask_runs declared ht
  | adopt s => exact KindTable.adopt_runs s ht
  | filter mask keep =>
      obtain ⟨m, hm, hfit⟩ := KindTable.filter_ok ht (hread mask) keep
      apply Runs.get_bind
      refine ⟨m, t, ?_, ht, .refl t, hfit⟩
      rw [hm]
      rfl
  | elements mask =>
      obtain ⟨m, hm, hfit⟩ := KindTable.elementMask_ok ht (hread mask)
      apply Runs.get_bind
      refine ⟨m, t, ?_, ht, .refl t, hfit⟩
      rw [hm]
      rfl
  | union a b => exact Runs.pure ht ((hread a).union (hread b))
  | without a b => exact Runs.pure ht (hread a).without
  | withRef mask b => exact Runs.pure ht ((hread mask).withRef b)
  | withVoid mask b => exact Runs.pure ht ((hread mask).withVoid b)
  | withSubclasses mask b => exact Runs.pure ht ((hread mask).withSubclasses b)

/-! ### Whole sessions -/

namespace Session

variable {s s' : Session}

/-- The table is well formed, the elements of its arrays carry no flags, and every answer fits
it. -/
structure Sound (s : Session) : Prop where
  wellFormed : s.table.WellFormed
  flagless : s.table.Flagless
  fits : ∀ m ∈ s.answers, m.Fits s.table.size

/-- A session that goes on from another one. -/
structure Extends (s s' : Session) : Prop where
  table : s.table.Grows s'.table
  answers : s.answers <+: s'.answers

theorem Extends.refl (s : Session) : s.Extends s :=
  ⟨.refl _, List.prefix_rfl⟩

theorem Extends.trans {s'' : Session} (h : s.Extends s') (h' : s'.Extends s'') : s.Extends s'' :=
  ⟨h.table.trans h'.table, h.answers.trans h'.answers⟩

/-- A session starts sound. -/
theorem sound_start (id : ContextId) (cap : Nat) (self? : Option Name) :
    (start id cap self?).Sound :=
  ⟨.new id cap self?, .new id cap self?, fun _ h => nomatch h⟩

/-- One request keeps a session sound. -/
theorem Sound.ask (hs : s.Sound) (request : Request) :
    ∃ s', s.ask request = .ok s' ∧ s'.Sound ∧ s.Extends s' ∧
      s'.answers.length = s.answers.length + 1 := by
  obtain ⟨m, t, hrun, hw, hgrows, hfit⟩ := request.answer_runs hs.wellFormed hs.fits
  refine ⟨⟨t, s.answers ++ [m]⟩, ?_, ⟨hw, ?_, ?_⟩, ⟨hgrows, List.prefix_append _ _⟩, ?_⟩
  · rw [Session.ask, hrun]
    rfl
  · exact (request.answer_numbers s.answers s.table m t hrun).flagless hs.flagless
  · intro m' hm'
    rcases List.mem_append.1 hm' with hold | hlast
    · exact hgrows.fits (hs.fits m' hold)
    · rw [List.mem_singleton.1 hlast]
      exact hfit
  · exact List.length_append

/-- Any number of requests keep a session sound. -/
theorem Sound.askAll (hs : s.Sound) (requests : List Request) :
    ∃ s', s.askAll requests = .ok s' ∧ s'.Sound ∧ s.Extends s' ∧
      s'.answers.length = s.answers.length + requests.length := by
  induction requests generalizing s with
  | nil => exact ⟨s, rfl, hs, .refl s, rfl⟩
  | cons request rest ih =>
      obtain ⟨s₁, hask, hs₁, hext₁, hlen₁⟩ := hs.ask request
      obtain ⟨s₂, hrest, hs₂, hext₂, hlen₂⟩ := ih hs₁
      refine ⟨s₂, ?_, hs₂, hext₁.trans hext₂, ?_⟩
      · rw [Session.askAll, List.foldlM_cons, hask]
        exact hrest
      · rw [hlen₂, hlen₁, List.length_cons]
        omega

/-- A session that was started with a new table stays sound. -/
theorem sound_of_askAll {id : ContextId} {cap : Nat} {self? : Option Name}
    {requests : List Request} (h : (start id cap self?).askAll requests = .ok s) : s.Sound := by
  obtain ⟨s', hs', hsound, -⟩ := (sound_start id cap self?).askAll requests
  cases h.symm.trans hs'
  exact hsound

end Session

namespace KindTable

variable {t : KindTable} {m : Mask}

/-- Tables that sessions lead to are well formed. -/
theorem Reachable.wellFormed (h : t.Reachable) : t.WellFormed := by
  obtain ⟨id, cap, self?, requests, s, hs, rfl⟩ := h
  exact (Session.sound_of_askAll hs).wellFormed

theorem Reachable.flagless (h : t.Reachable) : t.Flagless := by
  obtain ⟨id, cap, self?, requests, s, hs, rfl⟩ := h
  exact (Session.sound_of_askAll hs).flagless

/-! ### Reading answers -/

/-- A kind is shown wherever its elements are. -/
theorem showKind_ok {f : Mask → Except Fault String} {text : String} (k : Kind)
    (hf : ∀ elem, k = .array elem → f elem = .ok text) : ∃ shown, showKind f k = .ok shown := by
  cases k with
  | array elem =>
      rw [showKind, hf elem rfl]
      split
      · exact ⟨_, rfl⟩
      · split
        · exact ⟨_, rfl⟩
        · simp only [bind, Except.bind]
          split
          · exact ⟨_, rfl⟩
          · exact ⟨_, rfl⟩
  | null | bool | long | double | string | resource | object _ => exact ⟨_, rfl⟩

/-- Elements of arrays are listed before the array, so a mask is shown within as many levels as
there are kinds, and a larger bound shows it in the same way. -/
theorem showWithin_ok (ht : t.WellFormed) {n : Nat} (hm : m.Fits n) (hn : n ≤ t.size) :
    ∃ text, ∀ depth, n < depth → t.showWithin depth m = .ok text := by
  induction n using Nat.strongRecOn generalizing m with
  | _ n ih =>
      have hread : ∀ i ∈ m.members, ∃ text, ∀ depth, n ≤ depth →
          (do showKind (t.showWithin depth) (← t.kindAt i)) = .ok text := by
        intro i hi
        have hlt := lt_of_mem_members hm hi
        obtain ⟨k, hk, hkind⟩ := kindAt_ok (t := t) (Nat.lt_of_lt_of_le hlt hn)
        simp only [hkind, bind, Except.bind]
        cases k with
        | array elem =>
            obtain ⟨text, htext⟩ := ih i hlt (ht.nested hk) (by omega)
            obtain ⟨shown, hshown⟩ :=
              showKind_ok (f := fun _ => .ok text) (.array elem) fun _ _ => rfl
            refine ⟨shown, fun depth hdepth => ?_⟩
            rw [← hshown, showKind, showKind, htext depth (by omega)]
        | null | bool | long | double | string | resource | object _ => exact ⟨_, fun _ _ => rfl⟩
      obtain ⟨kinds, hkinds⟩ := mapM_ok_of_le hread
      obtain ⟨text, htext⟩ : ∃ text, t.showWithin (n + 1) m = .ok text := by
        rw [showWithin, hkinds n (Nat.le_refl n)]
        exact ⟨_, rfl⟩
      refine ⟨text, fun depth hdepth => ?_⟩
      obtain ⟨depth, rfl⟩ := Nat.exists_eq_add_one_of_ne_zero (Nat.ne_zero_of_lt hdepth)
      rw [showWithin, hkinds n (Nat.le_refl n)] at htext
      rw [showWithin, hkinds depth (Nat.le_of_lt_succ hdepth)]
      exact htext

/-- A mask that fits has one description and one text, whatever bound above the number of kinds is
put on the nesting of arrays. -/
theorem readable_of_fits (ht : t.WellFormed) (hm : m.Fits t.size) :
    ∃ summary text, t.summarize m = .ok summary ∧ t.display m = .ok text ∧
      ∀ depth, t.size < depth →
        t.summarizeWithin depth m = .ok summary ∧ t.showWithin depth m = .ok text := by
  obtain ⟨summary, hsummary⟩ := summarize_ok ht hm
  obtain ⟨text, htext⟩ := showWithin_ok ht hm (Nat.le_refl _)
  refine ⟨summary, text, hsummary, htext _ (Nat.lt_succ_self _), fun depth hdepth => ?_⟩
  exact ⟨summarizeWithin_grow (.refl t) hdepth hsummary, htext depth hdepth⟩

end KindTable

/-- Whatever a session asks for, every request is answered, and the table keeps its shape. -/
theorem session_keeps_table (id : ContextId) (cap : Nat) (self? : Option Name)
    (requests more : List Request) :
    ∃ s s' : Session,
      (Session.start id cap self?).askAll requests = .ok s ∧ s.askAll more = .ok s' ∧
      s'.answers.length = requests.length + more.length ∧
      -- The table stays within its capacity and starts with the primitive kinds.
      s'.table.size ≤ s'.table.cap ∧ s'.table.cap = max 7 (min cap kindLimit) ∧
      s'.table.cap ≤ kindLimit ∧ Kind.primitives <+: s'.table.kinds ∧
      -- No kind is listed twice, and the index has the numbers of the listed kinds and no others.
      (s'.table.kinds.Pairwise fun k k' => (k == k') = false) ∧
      (∀ (k : Kind) (i : Nat), s'.table.index.lookup k = some i ↔
        ∃ k', s'.table.kinds[i]? = some k' ∧ (k' == k) = true) ∧
      -- What was listed before the later requests is still in its place.
      s.table.kinds <+: s'.table.kinds ∧
      -- The elements of an array carry no flags and are of kinds listed before the array.
      (∀ (i : Nat) (elem : Mask), s'.table.kinds[i]? = some (.array elem) →
        elem.shape = elem ∧ elem.Fits i) ∧
      -- Answers fit, and what fits can be described and shown under any bound on nesting.
      (∀ m ∈ s'.answers, m.Fits s'.table.size) ∧
      ∀ m : Mask, m.Fits s'.table.size →
        ∃ summary text, s'.table.summarize m = .ok summary ∧ s'.table.display m = .ok text ∧
          ∀ depth, s'.table.size < depth →
            s'.table.summarizeWithin depth m = .ok summary ∧
              s'.table.showWithin depth m = .ok text := by
  obtain ⟨s, hrun, hsound, hext, hlength⟩ := (Session.sound_start id cap self?).askAll requests
  obtain ⟨s', hrun', hsound', hext', hlength'⟩ := hsound.askAll more
  refine ⟨s, s', hrun, hrun', ?_, hsound'.wellFormed.size_le_cap, (hext.trans hext').table.cap,
    hsound'.wellFormed.cap_le, hsound'.wellFormed.primitives, s'.table.pairwise_kinds,
    s'.table.indexes, hext'.table.kinds, ?_, hsound'.fits, ?_⟩
  · calc s'.answers.length = s.answers.length + more.length := hlength'
      _ = requests.length + more.length := by
        rw [hlength, Session.start, List.length_nil, Nat.zero_add]
  · intro i elem helem
    exact ⟨hsound'.flagless elem (List.mem_of_getElem? helem), hsound'.wellFormed.nested helem⟩
  · intro m hm
    exact KindTable.readable_of_fits hsound'.wellFormed hm

end FlowTyping
