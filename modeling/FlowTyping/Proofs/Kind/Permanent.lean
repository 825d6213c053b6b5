import FlowTyping.Proofs.Kind.Session

/-!
# Answers that stay

A table that has answered a question once answers it the same way ever after, and is not changed by
it: a listed kind keeps its number, and a kind that did not fit stays out, since a full table stays
full. `Typing.Repeats` says so of pairs of computations. Main statement: `table_answers_permanent`,
for kinds, declared types and summaries in any spelling of their class names.
-/

namespace FlowTyping

open Typing

namespace KindTable

variable {t t' : KindTable}

/-- A full table lists nothing further. -/
theorem Changes.kinds_of_full (h : t.Changes t') (hfull : t.cap ≤ t.size) : t'.kinds = t.kinds := by
  induction h with
  | refl => rfl
  | @tail t₁ t₂ hfirst hlast ih =>
      cases hlast with
      | list _ hroom =>
          have hcap : t₁.cap = t.cap := (Changes.grows hfirst).cap
          have hsize : t₁.size = t.size := congrArg List.length ih
          omega
      | drop => exact ih

/-- A dropped kind is not forgotten. -/
theorem Changes.overflowed (h : t.Changes t') (hover : t.overflowed = true) :
    t'.overflowed = true := by
  cases hlate : t'.overflowed with
  | true => rfl
  | false => exact absurd hover (by rw [h.clear hlate]; exact Bool.false_ne_true)

end KindTable

namespace Typing

variable {α β : Type} {t : KindTable}

/-- What the first computation yields on the table, the second one yields on every later table,
which it leaves alone. -/
def Repeats (t : KindTable) (x y : Typing α) : Prop :=
  ∀ a t₁, x.run t = .ok (a, t₁) → ∀ t₂, t₁.Changes t₂ → y.run t₂ = .ok (a, t₂)

namespace Repeats

variable {x y : Typing α} {f g : α → Typing β}

theorem pure (a : α) : Repeats t (pure a) (pure a) := by
  intro b t₁ hrun t₂ _
  cases hrun
  rfl

/-- In a sequence the second part is asked on the table that the first part has led to. -/
theorem bind (hx : Repeats t x y) (hnumbers : ∀ a, Numbers (f a))
    (hf : ∀ a t₁, x.run t = .ok (a, t₁) → Repeats t₁ (f a) (g a)) :
    Repeats t (x >>= f) (y >>= g) := by
  intro b t₂ hrun t₃ hlater
  obtain ⟨a, t₁, hfirst, hrest⟩ := exists_of_run_bind hrun
  have hchanges : t₁.Changes t₂ := hnumbers a t₁ b t₂ hrest
  rw [StateT.run_bind, hx a t₁ hfirst t₃ (hchanges.trans hlater)]
  exact hf a t₁ hfirst b t₂ hrest t₃ hlater

/-- A kind that was numbered keeps its number, and one that was dropped stays out. -/
theorem intern {k k' : Kind} (hsame : ∀ x : Kind, (x == k') = (x == k)) :
    Repeats t (KindTable.intern k) (KindTable.intern k') := by
  intro m t₁ hrun t₂ hlater
  have hlisted {i : Nat} (hi : t₁.indexOf? k = some i) (hlt : i < kindLimit) :
      (KindTable.intern k').run t₂ = .ok (.bit i, t₂) := by
    have hstays : t₂.indexOf? k' = some i :=
      (KindTable.indexOf?_congr rfl hsame).trans (hlater.grows.indexOf? hi)
    exact KindTable.intern_eq_ok_iff.2 (Or.inl ⟨i, hstays, hlt, rfl, rfl⟩)
  rcases KindTable.intern_eq_ok_iff.1 hrun with
    ⟨i, hidx, hlt, rfl, rfl⟩ | ⟨hidx, hfull, rfl, rfl⟩ | ⟨hidx, -, hlt, rfl, rfl⟩
  · exact hlisted hidx hlt
  · have hkinds : t₂.kinds = t.kinds := hlater.kinds_of_full hfull
    have hnone : t₂.indexOf? k' = none := (KindTable.indexOf?_congr hkinds hsame).trans hidx
    have hfull' : t₂.cap ≤ t₂.size := by
      rw [hlater.grows.cap, KindTable.size, hkinds]
      exact hfull
    rw [KindTable.intern_full hnone hfull', ← hlater.overflowed rfl]
  · exact hlisted (KindTable.indexOf?_push hidx) hlt

end Repeats

/-- What asks for kinds only changes a table only by listing them. -/
theorem Echoes.numbers {x y : Typing α} (h : Echoes x y) : Numbers x := by
  induction h with
  | pure a => exact .pure a
  | intern hshape => exact KindTable.intern_numbers hshape
  | self _ _ ih => exact .get_bind ih
  | bind _ _ ihx ihf => exact .bind ihx ihf

/-- Computations that ask for the same kinds repeat each other. -/
theorem Echoes.repeats {x y : Typing α} (h : Echoes x y) (t : KindTable) : Repeats t x y := by
  induction h generalizing t with
  | pure a => exact .pure a
  | intern _ hsame => exact .intern hsame
  | @self _ f hself hf ih =>
      intro a t₁ hrun t₂ hlater
      have hchanges : t.Changes t₁ := (hf t).numbers t a t₁ hrun
      have hgrows : t.Grows t₂ := KindTable.Changes.grows (hchanges.trans hlater)
      have hread : (get >>= f).run t₂ = (f t).run t₂ :=
        congrArg (fun z => z.run t₂) (hself t t₂ hgrows.self)
      rw [hread]
      exact ih t t a t₁ hrun t₂ hlater
  | bind _ hf ihx ihf => exact .bind (ihx t) (fun a => (hf a).numbers) fun a t₁ _ => ihf a t₁

end Typing

/-! ### Declared types -/

mutual

/-- Declared types are the same when they are built alike; the case of class names does not
matter. -/
def Hint.same : Hint → Hint → Bool
  | .bool, .bool => true
  | .long, .long => true
  | .double, .double => true
  | .string, .string => true
  | .array, .array => true
  | .iterable, .iterable => true
  | .callable, .callable => true
  | .object, .object => true
  | .mixed, .mixed => true
  | .void, .void => true
  | .null, .null => true
  | .selfClass, .selfClass => true
  | .ofClass c, .ofClass c' => c == c'
  | .nullable h, .nullable h' => Hint.same h h'
  | .union hs, .union hs' => Hint.sameAll hs hs'
  | _, _ => false

/-- Declared types that are the same one by one. -/
def Hint.sameAll : List Hint → List Hint → Bool
  | [], [] => true
  | h :: hs, h' :: hs' => Hint.same h h' && Hint.sameAll hs hs'
  | _, _ => false

end

mutual

/-- Every declared type is the same as itself. -/
theorem Hint.same_refl : (h : Hint) → Hint.same h h = true
  | .ofClass _ => ReflBEq.rfl
  | .nullable h => Hint.same_refl h
  | .union hs => Hint.sameAll_refl hs
  | .bool | .long | .double | .string | .array | .iterable | .callable | .object | .mixed | .void
  | .null | .selfClass => rfl

theorem Hint.sameAll_refl : (hs : List Hint) → Hint.sameAll hs hs = true
  | [] => rfl
  | h :: hs => by rw [Hint.sameAll, Hint.same_refl h, Hint.sameAll_refl hs, Bool.and_self]

end

namespace KindTable

mutual

/-- Declared types that are the same accept their values by asking for the same kinds. -/
theorem hintMask_echoes : {h h' : Hint} → Hint.same h h' = true → Echoes (hintMask h) (hintMask h')
  | .ofClass cls, h', hsame => by
    cases h' with
    | ofClass cls' => exact instanceOf_echoes hsame true
    | _ => cases hsame
  | .nullable hint, h', hsame => by
    cases h' with
    | nullable hint' => exact .bind (hintMask_echoes hsame) fun _ => .pure _
    | _ => cases hsame
  | .union hints, h', hsame => by
    cases h' with
    | union hints' => exact hintsMask_echoes hsame .empty
    | _ => cases hsame
  | .array, h', hsame => by
    cases h' <;> simp [Hint.same] at hsame
    exact arrayOf_echoes .top
  | .iterable, h', hsame => by
    cases h' <;> simp [Hint.same] at hsame
    exact .bind (arrayOf_echoes .top) fun _ =>
      .bind (instanceOf_echoes ReflBEq.rfl true) fun _ => .pure _
  | .selfClass, h', hsame => by
    cases h' <;> simp [Hint.same] at hsame
    apply Echoes.self
    · intro t t' hself
      rw [hself]
    · intro t
      cases t.self? with
      | some cls => exact instanceOf_echoes ReflBEq.rfl true
      | none => exact .pure _
  | .bool, h', hsame | .long, h', hsame | .double, h', hsame | .string, h', hsame
  | .callable, h', hsame | .object, h', hsame | .mixed, h', hsame | .void, h', hsame
  | .null, h', hsame => by
    cases h' <;> simp [Hint.same] at hsame
    exact .pure _

/-- Lists of declared types that are the same ask for the same kinds. -/
theorem hintsMask_echoes : {hs hs' : List Hint} → Hint.sameAll hs hs' = true → (acc : Mask) →
    Echoes (hintsMask acc hs) (hintsMask acc hs')
  | [], hs', hsame, acc => by
    cases hs' with
    | nil => exact .pure _
    | cons _ _ => cases hsame
  | h :: hs, hs', hsame, acc => by
    cases hs' with
    | nil => cases hsame
    | cons h' hs' =>
        simp only [Hint.sameAll, Bool.and_eq_true] at hsame
        exact .bind (hintMask_echoes hsame.1) fun m => hintsMask_echoes hsame.2 (acc ∪ m)

end

end KindTable

/-! ### Questions -/

/-- What a table is asked for on behalf of a program: a kind, a declared type or a summary. -/
inductive Question where
  | kind (k : Kind)
  | hint (declared : Hint)
  | summary (s : Summary)

namespace Question

/-- Asks a table for the mask that a question is about. -/
def ask : Question → Typing Mask
  | .kind k => KindTable.intern k
  | .hint declared => KindTable.hintMask declared
  | .summary s => KindTable.adopt s

/-- The same question, perhaps with other spellings of class names. -/
def same : Question → Question → Bool
  | .kind k, .kind k' => k == k'
  | .hint h, .hint h' => h.same h'
  | .summary s, .summary s' => s == s'
  | _, _ => false

/-- A question that was answered once has the same answer ever after, in all its spellings. -/
theorem ask_repeats {q q' : Question} (h : q.same q' = true) (t : KindTable) :
    Repeats t q.ask q'.ask := by
  cases q with
  | kind k =>
      cases q' with
      | kind k' => exact .intern (Kind.beq_congr h)
      | _ => cases h
  | hint declared =>
      cases q' with
      | hint declared' => exact (KindTable.hintMask_echoes h).repeats t
      | _ => cases h
  | summary s =>
      cases q' with
      | summary s' => exact (KindTable.adopt_echoes h).repeats t
      | _ => cases h

/-- Every question has an answer. -/
theorem ask_ok {t : KindTable} (ht : t.WellFormed) (q : Question) :
    ∃ m t₁, q.ask.run t = .ok (m, t₁) := by
  cases q with
  | kind k =>
      cases hidx : t.indexOf? k with
      | some i => exact ⟨_, _, KindTable.intern_listed ht hidx⟩
      | none =>
          by_cases hfull : t.cap ≤ t.size
          · exact ⟨_, _, KindTable.intern_full hidx hfull⟩
          · have hlimit : t.size < kindLimit := Nat.lt_of_lt_of_le (Nat.not_le.1 hfull) ht.cap_le
            exact ⟨_, _, KindTable.intern_new hidx hfull hlimit⟩
  | hint declared =>
      obtain ⟨m, t₁, hrun, -⟩ := KindTable.hintMask_runs declared ht
      exact ⟨m, t₁, hrun⟩
  | summary s =>
      obtain ⟨m, t₁, hrun, -⟩ := KindTable.adopt_runs s ht
      exact ⟨m, t₁, hrun⟩

end Question

namespace Session

/-- The table of a session changes step by step, whatever masks the requests read. -/
theorem changes_of_ask {s s' : Session} {request : Request} (h : s.ask request = .ok s') :
    s.table.Changes s'.table := by
  rw [Session.ask] at h
  cases hrun : (request.answer s.answers).run s.table with
  | error fault =>
      rw [hrun] at h
      cases h
  | ok p =>
      rw [hrun] at h
      cases h
      exact request.answer_numbers s.answers s.table p.1 p.2 hrun

/-- Requests change the table only by listing kinds, or noting that one was dropped. -/
theorem changes_of_askAll {s s' : Session} {requests : List Request}
    (h : s.askAll requests = .ok s') : s.table.Changes s'.table := by
  induction requests generalizing s with
  | nil =>
      cases h
      exact .refl
  | cons request rest ih =>
      rw [Session.askAll, List.foldlM_cons] at h
      cases hask : s.ask request with
      | error fault =>
          rw [hask] at h
          cases h
      | ok s₁ =>
          rw [hask] at h
          exact (changes_of_ask hask).trans (ih h)

end Session

/-- A table that a session has led to answers every question, and whatever it is asked for after
that, the same question has the same answer and changes nothing, be it that a kind was found, was
listed or was dropped because the table was full. -/
theorem table_answers_permanent {t : KindTable} (ht : t.Reachable) (q : Question) :
    ∃ m t₁, q.ask.run t = .ok (m, t₁) ∧
      ∀ (q' : Question), q.same q' = true →
        ∀ (masks : List Mask) (more : List Request) (s : Session),
        Session.askAll ⟨t₁, masks⟩ more = .ok s → q'.ask.run s.table = .ok (m, s.table) := by
  obtain ⟨m, t₁, hrun⟩ := q.ask_ok ht.wellFormed
  refine ⟨m, t₁, hrun, ?_⟩
  intro q' hsame masks more s hmore
  exact Question.ask_repeats hsame t m t₁ hrun s.table (Session.changes_of_askAll hmore)

namespace Sample

/-- A table of seven kinds that a class has filled. -/
def fullTable : KindTable :=
  (KindTable.new 0 7 none).push (.object ⟨"Node"⟩) rfl

/-- The full table is the one after a single request. -/
theorem reachable_fullTable : fullTable.Reachable :=
  ⟨0, 7, none, [.instanceOf ⟨"Node"⟩ true],
    ⟨fullTable, [(Mask.bit 6).withSubclasses true]⟩, rfl, rfl⟩

/-- The listed class, or something to walk over, which no longer fits. -/
def nodeOrIterable : Hint :=
  .union [.nullable (.ofClass ⟨"node"⟩), .iterable]

/-- The full table takes the declared type for any value, and keeps to that after further
requests. -/
theorem table_answers_permanent_full :
    ∃ s : Session,
      Session.askAll ⟨{ fullTable with overflowed := true }, []⟩
        [.instanceOf ⟨"NODE"⟩ false, .hint .array, .arrayOf 1] = .ok s ∧
      (KindTable.hintMask (.union [.nullable (.ofClass ⟨"Node"⟩), .iterable])).run s.table =
        .ok (Mask.top.withSubclasses true, s.table) := by
  obtain ⟨m, t₁, hrun, hagain⟩ := table_answers_permanent reachable_fullTable (.hint nodeOrIterable)
  have hfirst : (KindTable.hintMask nodeOrIterable).run fullTable =
      .ok (Mask.top.withSubclasses true, { fullTable with overflowed := true }) := rfl
  cases hfirst.symm.trans hrun
  have hmore : Session.askAll ⟨{ fullTable with overflowed := true }, []⟩
      [.instanceOf ⟨"NODE"⟩ false, .hint .array, .arrayOf 1] =
        .ok ⟨{ fullTable with overflowed := true }, [.bit 6, .top, .top]⟩ := rfl
  exact ⟨_, hmore, hagain (.hint (.union [.nullable (.ofClass ⟨"Node"⟩), .iterable]))
    (by decide) [] _ _
    hmore⟩

end Sample

end FlowTyping
