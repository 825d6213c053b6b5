/-!
# Lists and loops over them

General facts on lists and on computations that may fail: what stands where after an item has been
added, and what loops over a list do whose turns may fail.
-/

namespace FlowTyping

variable {ε α β : Type}

/-- What is listed after one more item has been put at the end. -/
theorem getElem?_concat_eq_some {l : List α} {a b : α} {i : Nat} :
    (l ++ [a])[i]? = some b ↔ l[i]? = some b ∨ i = l.length ∧ a = b := by
  rcases Nat.lt_trichotomy i l.length with hlt | rfl | hgt
  · simp [List.getElem?_append_left hlt, Nat.ne_of_lt hlt]
  · simp
  · simp [List.getElem?_append_right (Nat.le_of_lt hgt), Nat.ne_of_gt hgt,
      Nat.sub_ne_zero_of_lt hgt,
      Nat.le_of_lt hgt]

/-- A test on what a computation yields is passed just if it yields something that passes. -/
theorem any_toOption_iff {x : Except ε α} {p : α → Bool} :
    x.toOption.any p = true ↔ ∃ a, x = .ok a ∧ p a = true := by
  constructor
  · intro h
    cases x with
    | error e => cases h
    | ok a => exact ⟨a, rfl, h⟩
  · rintro ⟨a, rfl, h⟩
    exact h

/-! ### Loops -/

/-- A loop over a list succeeds and keeps an invariant if every turn does. -/
theorem foldlM_ok {f : β → α → Except ε β} {I : β → Prop} {l : List α}
    (hstep : ∀ a ∈ l, ∀ b, I b → ∃ b', f b a = .ok b' ∧ I b') {b : β} (hb : I b) :
    ∃ r, l.foldlM f b = .ok r ∧ I r := by
  induction l generalizing b with
  | nil => exact ⟨b, rfl, hb⟩
  | cons a rest ih =>
      obtain ⟨b', hf, hb'⟩ := hstep a (List.mem_cons_self ..) b hb
      obtain ⟨r, hr, hIr⟩ := ih (fun x hx => hstep x (List.mem_cons_of_mem a hx)) hb'
      refine ⟨r, ?_, hIr⟩
      rw [List.foldlM_cons, hf]
      exact hr

/-- Loops with the same turns do the same. -/
theorem foldlM_congr {f g : β → α → Except ε β} {l : List α}
    (h : ∀ a ∈ l, ∀ b, f b a = g b a) (b : β) : l.foldlM f b = l.foldlM g b := by
  induction l generalizing b with
  | nil => rfl
  | cons a rest ih =>
      obtain ⟨hhead, hrest⟩ := List.forall_mem_cons.1 h
      rw [List.foldlM_cons, List.foldlM_cons, hhead b]
      exact bind_congr fun b' => ih hrest b'

/-! ### Reading items one by one -/

/-- Reading every item of a list succeeds if each one can be read. -/
theorem mapM_ok {f : α → Except ε β} {l : List α}
    (h : ∀ a ∈ l, ∃ b, f a = .ok b) : ∃ r, l.mapM f = .ok r := by
  induction l with
  | nil => exact ⟨[], rfl⟩
  | cons a rest ih =>
      obtain ⟨b, hb⟩ := h a (List.mem_cons_self ..)
      obtain ⟨r, hr⟩ := ih fun x hx => h x (List.mem_cons_of_mem a hx)
      refine ⟨b :: r, ?_⟩
      rw [List.mapM_cons, hb]
      simp only [hr, bind, Except.bind, pure, Except.pure]

/-- Reading every item gives the same under all large bounds, if reading each one does. -/
theorem mapM_ok_of_le {f : Nat → α → Except ε β} {n : Nat} {l : List α}
    (h : ∀ a ∈ l, ∃ b, ∀ depth, n ≤ depth → f depth a = .ok b) :
    ∃ r, ∀ depth, n ≤ depth → l.mapM (f depth) = .ok r := by
  induction l with
  | nil => exact ⟨[], fun _ _ => rfl⟩
  | cons a rest ih =>
      obtain ⟨b, hb⟩ := h a (List.mem_cons_self ..)
      obtain ⟨r, hr⟩ := ih fun x hx => h x (List.mem_cons_of_mem a hx)
      refine ⟨b :: r, fun depth hdepth => ?_⟩
      rw [List.mapM_cons, hb depth hdepth, hr depth hdepth]
      rfl

/-- Reading every item of a list yields the same wherever each item reads the same. -/
theorem mapM_eq_ok_of_forall {f g : α → Except ε β} {l : List α} {r : List β}
    (h : l.mapM f = .ok r) (hfg : ∀ a ∈ l, ∀ b, f a = .ok b → g a = .ok b) : l.mapM g = .ok r := by
  induction l generalizing r with
  | nil => exact h
  | cons a l ih =>
      rw [List.mapM_cons] at h ⊢
      cases hf : f a with
      | error e => simp [hf, bind, Except.bind] at h
      | ok b =>
          cases hl : l.mapM f with
          | error e => simp [hf, hl, bind, Except.bind] at h
          | ok bs =>
              rw [hfg a (List.mem_cons_self ..) b hf,
                ih hl fun x hx => hfg x (List.mem_cons_of_mem a hx)]
              simpa [hf, hl] using h

/-! ### Tests on items -/

/-- All items can be tested if each one can. -/
theorem allM_ok {f : α → Except ε Bool} {l : List α}
    (h : ∀ a ∈ l, ∃ b, f a = .ok b) : ∃ r, l.allM f = .ok r := by
  induction l with
  | nil => exact ⟨true, rfl⟩
  | cons a rest ih =>
      obtain ⟨b, hb⟩ := h a (List.mem_cons_self ..)
      obtain ⟨r, hr⟩ := ih fun x hx => h x (List.mem_cons_of_mem a hx)
      cases b with
      | true => exact ⟨r, by simp only [List.allM, hb, bind, Except.bind, hr]⟩
      | false => exact ⟨false, by simp only [List.allM, hb, bind, Except.bind, pure, Except.pure]⟩

/-- Whether some item passes can be told if each one can be tested. -/
theorem anyM_ok {f : α → Except ε Bool} {l : List α}
    (h : ∀ a ∈ l, ∃ b, f a = .ok b) : ∃ r, l.anyM f = .ok r := by
  induction l with
  | nil => exact ⟨false, rfl⟩
  | cons a rest ih =>
      obtain ⟨b, hb⟩ := h a (List.mem_cons_self ..)
      obtain ⟨r, hr⟩ := ih fun x hx => h x (List.mem_cons_of_mem a hx)
      cases b with
      | true => exact ⟨true, by simp only [List.anyM, hb, bind, Except.bind, pure, Except.pure]⟩
      | false => exact ⟨r, by simp only [List.anyM, hb, bind, Except.bind, hr]⟩

/-- A test that all items pass is passed by each. -/
theorem of_allM {f : α → Except ε Bool} {l : List α} (h : l.allM f = .ok true) :
    ∀ a ∈ l, f a = .ok true := by
  induction l with
  | nil => exact List.forall_mem_nil _
  | cons a rest ih =>
      rw [List.allM] at h
      cases hf : f a with
      | error fault => simp [hf, bind, Except.bind] at h
      | ok b =>
          cases b with
          | true => exact List.forall_mem_cons.2 ⟨hf, ih (by simpa [hf, bind, Except.bind] using h)⟩
          | false => simp [hf, bind, Except.bind, pure, Except.pure] at h

/-- A test that no item passes is failed by each. -/
theorem of_anyM {f : α → Except ε Bool} {l : List α} (h : l.anyM f = .ok false) :
    ∀ a ∈ l, f a = .ok false := by
  induction l with
  | nil => exact List.forall_mem_nil _
  | cons a rest ih =>
      rw [List.anyM] at h
      cases hf : f a with
      | error fault => simp [hf, bind, Except.bind] at h
      | ok b =>
          cases b with
          | true => simp [hf, bind, Except.bind, pure, Except.pure] at h
          | false =>
              exact List.forall_mem_cons.2 ⟨hf, ih (by simpa [hf, bind, Except.bind] using h)⟩

end FlowTyping
