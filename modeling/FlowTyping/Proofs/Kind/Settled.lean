import FlowTyping.Proofs.Kind.Grow

/-!
# Results that later tables do not change

A computation has settled in a table when every later version of the table yields the same result,
without a further kind. `Typing.Echoes` relates computations that ask for the same kinds: what one
of them yields has settled for the other. Main statements: `KindTable.settles_of_adopt`, by which a
summary that was read into a table once means the same mask from then on, also in another spelling
of its class names, and `KindTable.summarize_grow`, by which a mask keeps its summary.
-/

namespace FlowTyping

open Typing

namespace Typing

variable {α β : Type} {t t' : KindTable}

/-- In every later version of the table, the computation yields the same and lists no kind. -/
def Settles (x : Typing α) (t : KindTable) (a : α) : Prop :=
  ∀ t', t'.WellFormed → t.Grows t' →
    ∃ overflowed, x.run t' = .ok (a, { t' with overflowed := overflowed })

namespace Settles

variable {x : Typing α} {f : α → Typing β} {a : α} {b : β}

/-- What has settled stays settled while the table grows. -/
theorem grow (h : Settles x t a) (hg : t.Grows t') : Settles x t' a := by
  intro t'' hw hg'
  exact h t'' hw (hg.trans hg')

theorem pure (a : α) (t : KindTable) : Settles (pure a) t a := by
  intro t' _ _
  exact ⟨t'.overflowed, rfl⟩

/-- A sequence has settled if its parts have. -/
theorem bind (hx : Settles x t a) (hf : Settles (f a) t b) : Settles (x >>= f) t b := by
  intro t' hw hg
  obtain ⟨ox, hrun⟩ := hx t' hw hg
  have hw' : ({ t' with overflowed := ox } : KindTable).WellFormed :=
    ⟨hw.cap_le, hw.size_le_cap, hw.primitives, hw.nested⟩
  have hg' : t.Grows { t' with overflowed := ox } := ⟨hg.id, hg.cap, hg.self, hg.kinds⟩
  obtain ⟨of, hrun'⟩ := hf _ hw' hg'
  refine ⟨of, ?_⟩
  rw [StateT.run_bind, hrun]
  exact hrun'

end Settles

end Typing

namespace KindTable

variable {t t' : KindTable} {m : Mask}

/-- A listed kind keeps its number. -/
theorem Grows.indexOf? (hg : t.Grows t') {k : Kind} {i : Nat} (h : t.indexOf? k = some i) :
    t'.indexOf? k = some i := by
  obtain ⟨k', hi, hsame⟩ := indexOf?_eq_some_iff.1 h
  exact indexOf?_eq_some_iff.2 ⟨k', hg.kind? hi, hsame⟩

/-- A number that means a kind means it ever after. -/
theorem Grows.kindAt (hg : t.Grows t') {i : Nat} {k : Kind} (h : t.kindAt i = .ok k) :
    t'.kindAt i = .ok k :=
  kindAt_eq_ok.2 (hg.kind? (kindAt_eq_ok.1 h))

/-- A full table stays as it is. -/
theorem Grows.kinds_of_full (hg : t.Grows t') (hw : t'.WellFormed) (hfull : t.cap ≤ t.size) :
    t'.kinds = t.kinds := by
  have hle : t'.size ≤ t.size := by
    calc t'.size ≤ t'.cap := hw.size_le_cap
      _ = t.cap := hg.cap
      _ ≤ t.size := hfull
  exact (hg.kinds.eq_of_length_le hle).symm

/-- A kind that was numbered once keeps its mask, and so does every kind that is the same. -/
theorem settles_of_intern {k k' : Kind} (h : (intern k).run t = .ok (m, t'))
    (hsame : ∀ x : Kind, (x == k') = (x == k)) : Settles (intern k') t' m := by
  have hlisted {i : Nat} (hi : t'.indexOf? k = some i) : Settles (intern k') t' (.bit i) := by
    intro t'' hw hg
    exact ⟨t''.overflowed, intern_listed hw ((indexOf?_congr rfl hsame).trans (hg.indexOf? hi))⟩
  rcases intern_eq_ok_iff.1 h with
    ⟨i, hidx, -, rfl, rfl⟩ | ⟨hidx, hfull, rfl, rfl⟩ | ⟨hidx, -, -, rfl, rfl⟩
  · exact hlisted hidx
  · -- The table was full, and stays so.
    intro t'' hw hg
    have hkinds : t''.kinds = t.kinds := hg.kinds_of_full hw hfull
    refine ⟨true, intern_full ((indexOf?_congr hkinds hsame).trans hidx) ?_⟩
    rw [hg.cap, KindTable.size, hkinds]
    exact hfull
  · exact hlisted (indexOf?_push hidx)

/-- A sequence settles if its parts do. -/
theorem settles_of_bind {α β : Type} {x x' : Typing α} {f f' : α → Typing β} {b : β}
    (h : (x >>= f).run t = .ok (b, t'))
    (hx : ∀ a t₁, x.run t = .ok (a, t₁) → Settles x' t₁ a) (hadds : ∀ a, Adds (f a))
    (hf : ∀ a t₁, (f a).run t₁ = .ok (b, t') → Settles (f' a) t' b) : Settles (x' >>= f') t' b := by
  obtain ⟨a, t₁, hrun, hrest⟩ := exists_of_run_bind h
  exact .bind ((hx a t₁ hrun).grow (hadds a t₁ b t' hrest)) (hf a t₁ hrest)

theorem settles_of_pure {α : Type} {a b : α} (h : (pure a : Typing α).run t = .ok (b, t')) :
    Settles (pure a) t' b := by
  cases h
  exact .pure _ _

end KindTable

/-! ### Computations that ask for the same kinds -/

namespace Typing

/-- The two computations ask the table for the same kinds, in the same order, and do the same with
the answers. -/
inductive Echoes : {α : Type} → Typing α → Typing α → Prop
  | pure {α : Type} (a : α) : Echoes (pure a) (pure a)
  | intern {k k' : Kind} (hshape : ∀ elem, k = .array elem → elem.shape = elem)
      (hsame : ∀ x : Kind, (x == k') = (x == k)) :
      Echoes (KindTable.intern k) (KindTable.intern k')
  | self {α : Type} {f : KindTable → Typing α} (hself : ∀ t t', t'.self? = t.self? → f t' = f t)
      (hf : ∀ t, Echoes (f t) (f t)) : Echoes (get >>= f) (get >>= f)
  | bind {α β : Type} {x y : Typing α} {f g : α → Typing β} (hx : Echoes x y)
      (hf : ∀ a, Echoes (f a) (g a)) : Echoes (x >>= f) (y >>= g)

namespace Echoes

variable {α : Type} {x y : Typing α} {t t' : KindTable} {a : α}

/-- What asks for kinds only adds to the table. -/
theorem adds (h : Echoes x y) : Adds x := by
  induction h with
  | pure a => exact .pure a
  | intern => exact KindTable.intern_adds _
  | self _ _ ih => exact .bind .get ih
  | bind _ _ ihx ihf => exact .bind ihx ihf

/-- What one of them has yielded, the other one yields from then on. -/
theorem settles (h : Echoes x y) (hrun : x.run t = .ok (a, t')) : Settles y t' a := by
  induction h generalizing t t' with
  | pure => exact KindTable.settles_of_pure hrun
  | intern _ hsame => exact KindTable.settles_of_intern hrun hsame
  | @self _ f hself hf ih =>
      have hgrows : t.Grows t' := (hf t).adds t a t' hrun
      intro t'' hw hg
      have hread : (get >>= f).run t'' = (f t).run t'' :=
        congrArg (fun z => z.run t'') (hself t t'' (hgrows.trans hg).self)
      rw [hread]
      exact ih t hrun t'' hw hg
  | bind _ hf ihx ihf =>
      exact KindTable.settles_of_bind hrun (fun _ _ => ihx) (fun a => (hf a).adds) fun a _ => ihf a

end Echoes

end Typing

namespace KindTable

variable {t t' : KindTable} {m : Mask}

/-- Spellings of one class ask for the same kind. -/
theorem object_echoes {cls cls' : Name} (h : (cls == cls') = true) :
    Echoes (intern (.object cls)) (intern (.object cls')) :=
  .intern (fun _ hk => Kind.noConfusion hk) (Kind.beq_object_congr h)

theorem arrayOf_echoes (m : Mask) : Echoes (arrayOf m) (arrayOf m) := by
  apply Echoes.intern _ fun _ => rfl
  intro elem hk
  cases hk
  rfl

theorem instanceOf_echoes {cls cls' : Name} (h : (cls == cls') = true) (b : Bool) :
    Echoes (instanceOf cls b) (instanceOf cls' b) :=
  .bind (object_echoes h) fun _ => .pure _

/-- A class that was numbered once keeps its mask. -/
theorem settles_of_instanceOf {cls : Name} {b : Bool} (h : (instanceOf cls b).run t = .ok (m, t')) :
    Settles (instanceOf cls b) t' m :=
  (instanceOf_echoes ReflBEq.rfl b).settles h

/-! ### Summaries -/

mutual

/-- Descriptions that agree are read by asking for the same kinds. -/
theorem adoptKind_echoes : {d d' : Desc} → Desc.same d d' = true →
    Echoes (adoptKind d) (adoptKind d')
  | .array any ref void subclasses kinds, d', hd' => by
    cases d' with
    | array any' ref' void' subclasses' kinds' =>
        simp only [Desc.same, Bool.and_eq_true, beq_iff_eq] at hd'
        obtain ⟨⟨⟨⟨rfl, rfl⟩, rfl⟩, rfl⟩, hkinds⟩ := hd'
        exact .bind (adoptKinds_echoes hkinds _) fun _ => arrayOf_echoes _
    | _ => cases hd'
  | .object cls, d', hd' => by
    cases d' with
    | object cls' => exact object_echoes hd'
    | _ => cases hd'
  | .null, d', hd' | .bool, d', hd' | .long, d', hd' | .double, d', hd' | .string, d', hd'
  | .resource, d', hd' => by
    cases d' <;> simp [Desc.same] at hd'
    exact .pure _

/-- Lists of descriptions that agree ask for the same kinds. -/
theorem adoptKinds_echoes : {ds ds' : List Desc} → Desc.sameAll ds ds' = true → (acc : Mask) →
    Echoes (adoptKinds acc ds) (adoptKinds acc ds')
  | [], ds', hds', acc => by
    cases ds' with
    | nil => exact .pure _
    | cons _ _ => cases hds'
  | d :: ds, ds', hds', acc => by
    cases ds' with
    | nil => cases hds'
    | cons d' ds' =>
        simp only [Desc.sameAll, Bool.and_eq_true] at hds'
        exact .bind (adoptKind_echoes hds'.1) fun m => adoptKinds_echoes hds'.2 (acc ∪ m)

end

/-- Summaries that agree ask for the same kinds. -/
theorem adopt_echoes {s s' : Summary} (hsame : (s == s') = true) : Echoes (adopt s) (adopt s') := by
  simp only [BEq.beq, Bool.and_eq_true, decide_eq_true_eq] at hsame
  obtain ⟨⟨⟨⟨hany, href⟩, hvoid⟩, hsub⟩, hkinds⟩ := hsame
  rw [adopt, adopt, hany, href, hvoid, hsub]
  exact .bind (adoptKinds_echoes hkinds _) fun _ => .pure _

/-- A summary that was read into a table once keeps its mask, in every summary that agrees with
it. -/
theorem settles_of_adopt {s s' : Summary} (h : (adopt s).run t = .ok (m, t'))
    (hsame : (s == s') = true) : Settles (adopt s') t' m :=
  (adopt_echoes hsame).settles h

/-- The description of a kind depends only on how its elements are described. -/
theorem describeKind_eq_ok {f g : Mask → Except Fault Summary} {k : Kind} {d : Desc}
    (h : describeKind f k = .ok d) (hfg : ∀ m s, f m = .ok s → g m = .ok s) :
    describeKind g k = .ok d := by
  cases k with
  | array elem =>
      cases hf : f elem with
      | error e => simp [describeKind, hf, bind, Except.bind] at h
      | ok s => simpa [describeKind, hf, hfg elem s hf] using h
  | _ => exact h

/-- A mask keeps its summary while the table grows, and under larger bounds on nesting. -/
theorem summarizeWithin_grow (hg : t.Grows t') {depth depth' : Nat} (hdepth : depth ≤ depth')
    {s : Summary} (h : t.summarizeWithin depth m = .ok s) :
    t'.summarizeWithin depth' m = .ok s := by
  induction depth generalizing depth' m s with
  | zero => cases h
  | succ depth ih =>
      cases depth' with
      | zero => omega
      | succ depth' =>
          rw [summarizeWithin] at h ⊢
          cases hkinds : (m.members.mapM fun i => do
              describeKind (t.summarizeWithin depth) (← t.kindAt i) : Except Fault (List Desc)) with
          | error e =>
              rw [hkinds] at h
              cases h
          | ok kinds =>
              rw [hkinds] at h
              rw [mapM_eq_ok_of_forall hkinds]
              · exact h
              · intro i _ desc hdesc
                cases hkind : t.kindAt i with
                | error e => simp [hkind, bind, Except.bind] at hdesc
                | ok k =>
                    have hkind' := hg.kindAt hkind
                    simp only [hkind, hkind', bind, Except.bind] at hdesc ⊢
                    apply describeKind_eq_ok hdesc
                    intro m' s' hs'
                    exact ih (Nat.le_of_succ_le_succ hdepth) hs'

/-- A mask keeps its classes. -/
theorem classes_grow (hg : t.Grows t') {classes : List Name} (h : t.classes m = .ok classes) :
    t'.classes m = .ok classes := by
  rw [KindTable.classes] at h ⊢
  cases hkinds : m.members.mapM t.kindAt with
  | error e =>
      rw [hkinds] at h
      cases h
  | ok kinds =>
      rw [hkinds] at h
      rw [mapM_eq_ok_of_forall hkinds fun i _ k hk => hg.kindAt hk]
      exact h

/-- A mask keeps its summary. -/
theorem summarize_grow (hg : t.Grows t') {s : Summary} (h : t.summarize m = .ok s) :
    t'.summarize m = .ok s :=
  summarizeWithin_grow hg (Nat.succ_le_succ hg.size_le) h

end KindTable

end FlowTyping
