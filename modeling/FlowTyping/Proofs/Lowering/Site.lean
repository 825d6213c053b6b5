import FlowTyping.Proofs.Lowering.WellFormed

/-!
# Where statements are lowered

A site is a list of statements with the scope and the state in which their lowering begins. What is
lowered at a site goes to the block that is current there and to blocks opened meanwhile.
-/

namespace FlowTyping

open Lowering

/-- A list of statements at the place where it is lowered. -/
structure Site where
  scope : Scope
  stmts : List Stmt
  start : Lowering

/-- The state in which the statements have been lowered. -/
def Site.finish (x : Site) : Lowering :=
  ((lowerAll x.scope x.stmts).run x.start).2

namespace Lowering

variable {s s' s'' : Lowering} {b : BlockId}

/-- The handlers of a block. -/
def handlersAt (s : Lowering) (b : BlockId) : List BlockId :=
  (s.drafts[b]?.map Draft.handlers).getD []

theorem handlersAt_congr (h : s'.drafts[b]? = s.drafts[b]?) : s'.handlersAt b = s.handlersAt b := by
  rw [handlersAt, h, handlersAt]

/-- Writing to a block leaves all handlers as they are. -/
theorem handlersAt_edited {f : Draft → Draft} (hf : ∀ d, (f d).handlers = d.handlers)
    (b' : BlockId) : (s.edited b f).handlersAt b' = s.handlersAt b' := by
  by_cases hb : b' = b
  · subst hb
    cases hd : s.drafts[b']? with
    | none => simp [handlersAt, edited, Array.getElem?_modify, hd]
    | some d =>
        rw [handlersAt, edited_self f hd, handlersAt, hd, Option.map_some, hf, Option.map_some]
  · exact handlersAt_congr (edited_of_ne f hb)

/-- A later state differs only in the block that was current, and in the blocks opened since. -/
structure Framed (s s' : Lowering) : Prop where
  size_le : s.drafts.size ≤ s'.drafts.size
  current : s'.current = s.current ∨ s.drafts.size ≤ s'.current
  others : ∀ b < s.drafts.size, b ≠ s.current → s'.drafts[b]? = s.drafts[b]?
  handlers : ∀ b < s.drafts.size, s'.handlersAt b = s.handlersAt b

namespace Framed

theorem refl (s : Lowering) : Framed s s :=
  ⟨Nat.le_refl _, .inl rfl, fun _ _ _ => rfl, fun _ _ => rfl⟩

/-- A block that is none of its concern does not become current. -/
theorem ne_current (h : Framed s s') (hb : b < s.drafts.size) (hne : b ≠ s.current) :
    b ≠ s'.current := by
  rcases h.current with heq | hge
  · exact heq ▸ hne
  · exact Nat.ne_of_lt (Nat.lt_of_lt_of_le hb hge)

/-- What two parts leave alone both leave alone. -/
theorem trans (h : Framed s s') (h' : Framed s' s'') : Framed s s'' where
  size_le := Nat.le_trans h.size_le h'.size_le
  current := by
    rcases h'.current with heq | hge
    · exact heq ▸ h.current
    · exact .inr (Nat.le_trans h.size_le hge)
  others b hb hne := by
    rw [h'.others b (Nat.lt_of_lt_of_le hb h.size_le) (h.ne_current hb hne)]
    exact h.others b hb hne
  handlers b hb := (h'.handlers b (Nat.lt_of_lt_of_le hb h.size_le)).trans (h.handlers b hb)

theorem opened (h : Framed s s') (handlers : List BlockId) : Framed s (s'.opened handlers) := by
  have hold : ∀ b < s.drafts.size, (s'.opened handlers).drafts[b]? = s'.drafts[b]? := fun b hb =>
    opened_of_lt handlers (Nat.lt_of_lt_of_le hb h.size_le)
  refine ⟨?_, h.current, fun b hb hne => ?_, fun b hb => ?_⟩
  · rw [size_opened]
    exact Nat.le_succ_of_le h.size_le
  · exact (hold b hb).trans (h.others b hb hne)
  · exact (handlersAt_congr (hold b hb)).trans (h.handlers b hb)

theorem entering (h : Framed s s') (hb : s.drafts.size ≤ b) : Framed s (s'.entering b) :=
  ⟨h.size_le, .inr hb, h.others, h.handlers⟩

/-- The current block and new ones may be changed. -/
theorem edited (h : Framed s s') (hb : b = s'.current ∨ s.drafts.size ≤ b) {f : Draft → Draft}
    (hf : ∀ d, (f d).handlers = d.handlers) : Framed s (s'.edited b f) := by
  refine ⟨?_, h.current, fun b' hb' hne => ?_, fun b' hb' => ?_⟩
  · rw [size_edited]
    exact h.size_le
  · have hne' : b' ≠ b := by
      rcases hb with rfl | hge
      · exact h.ne_current hb' hne
      · exact Nat.ne_of_lt (Nat.lt_of_lt_of_le hb' hge)
    rw [edited_of_ne f hne']
    exact h.others b' hb' hne
  · rw [handlersAt_edited hf]
    exact h.handlers b' hb'

theorem guarded (h : Framed s s') (hb : s.drafts.size ≤ b) (f : Draft → Draft) :
    Framed s (s'.edited b f) := by
  have hold : ∀ b' < s.drafts.size, (s'.edited b f).drafts[b']? = s'.drafts[b']? := fun b' hb' =>
    edited_of_ne f (Nat.ne_of_lt (Nat.lt_of_lt_of_le hb' hb))
  refine ⟨?_, h.current, fun b' hb' hne => ?_, fun b' hb' => ?_⟩
  · rw [size_edited]
    exact h.size_le
  · exact (hold b' hb').trans (h.others b' hb' hne)
  · exact (handlersAt_congr (hold b' hb')).trans (h.handlers b' hb')

end Framed

end Lowering

namespace Stroke

variable {n b : Nat}

/-- A stroke that names a block names one from `n` on. -/
def Aims (n : Nat) : Stroke → Prop
  | .enter b => n ≤ b
  | .close b _ => n ≤ b
  | .guard b _ => n ≤ b
  | _ => True

/-- The arms are lowered in blocks of their own. -/
theorem aims_cases (scope : Scope) (stop : Nat) (cs : List (Case Stmt)) (h : n ≤ b) :
    ∀ k ∈ cases scope stop b cs, k.Aims n := by
  induction cs generalizing b with
  | nil => exact List.forall_mem_nil _
  | cons c rest ih =>
      rw [cases]
      simp only [List.forall_mem_append, List.forall_mem_cons, Aims]
      exact ⟨⟨h, trivial, trivial, List.forall_mem_nil _⟩, ih (Nat.le_succ_of_le h)⟩

/-- The catches are lowered in blocks of their own. -/
theorem aims_catches (scope : Scope) (after : Nat) (cs : List (Catch Stmt)) (h : n ≤ b) :
    ∀ k ∈ catches scope after b cs, k.Aims n := by
  induction cs generalizing b with
  | nil => exact List.forall_mem_nil _
  | cons c rest ih =>
      rw [catches]
      simp only [List.forall_mem_append, List.forall_mem_cons, Aims]
      exact ⟨⟨h, h, trivial, trivial, trivial, List.forall_mem_nil _⟩, ih (Nat.le_succ_of_le h)⟩

theorem aims_finals (scope : Scope) (stop : Nat) (finally? : Option (List Stmt)) (h : n ≤ b) :
    ∀ k ∈ finals scope stop b finally?, k.Aims n := by
  cases finally? <;> simp [finals, Aims, h]

theorem aims_opens {handlers : List BlockId} {count : Nat} :
    ∀ k ∈ opens handlers count, k.Aims n := by
  intro k hk
  rw [List.eq_of_mem_replicate hk]
  trivial

theorem aims_emits {exprs : List ExprId} : ∀ k ∈ emits exprs, k.Aims n := by
  intro k hk
  obtain ⟨e, -, rfl⟩ := List.mem_map.1 hk
  trivial

end Stroke

/-- A script names only blocks that it opens. -/
theorem Stmt.aims_script (scope : Scope) (n : Nat) (stmt : Stmt) :
    ∀ k ∈ stmt.script scope n, k.Aims n := by
  cases stmt with
  | ifElse | whileLoop | doLoop | foreach =>
      exact List.forall_mem_append.2 ⟨Stroke.aims_opens, by simp [Stroke.Aims]⟩
  | forLoop =>
      simp only [script, List.forall_mem_append]
      exact ⟨⟨⟨⟨Stroke.aims_emits, Stroke.aims_opens⟩, by simp [Stroke.Aims]⟩,
        Stroke.aims_emits⟩, by simp [Stroke.Aims]⟩
  | switch =>
      simp only [script, List.forall_mem_append]
      exact ⟨⟨⟨Stroke.aims_opens, by simp [Stroke.Aims]⟩, Stroke.aims_cases _ _ _ (Nat.le_refl n)⟩,
        by simp [Stroke.Aims]⟩
  | protect body catches finally? =>
      have hstop : n ≤ (Region.numbered n catches finally?).stop :=
        Nat.le_trans (Nat.le_add_right ..) Region.le_stop_numbered
      simp only [script, Stroke.inside, List.forall_mem_append]
      exact ⟨⟨⟨⟨⟨Stroke.aims_opens, Stroke.aims_opens⟩,
        by simp [Stroke.Aims, Nat.le_succ_of_le hstop]⟩, Stroke.aims_catches _ _ _ (Nat.le_refl n)⟩,
        Stroke.aims_finals _ _ _ (Nat.le_add_right ..)⟩, by simp [Stroke.Aims, hstop]⟩
  | brk | cont => exact List.forall_mem_append.2 ⟨by simp [Stroke.Aims], by simp [Stroke.Aims]⟩
  | act | ret | raise | exit => simp [script, Stroke.Aims]

namespace Stroke

/-- A stroke that names only blocks opened since keeps the frame, if what it lowers does. -/
theorem Aims.play {k : Stroke} {s s' : Lowering} (hk : k.Aims s.drafts.size) (h : Framed s s')
    (hbody : ∀ scope stmts, k = .body scope stmts → Framed s' ((lowerAll scope stmts).run s').2) :
    Framed s (k.play s') := by
  cases k with
  | fresh handlers => exact h.opened handlers
  | enter b => exact h.entering hk
  | close b edge => exact h.edited (.inr hk) fun _ => rfl
  | finish edge => exact h.edited (.inl rfl) fun _ => rfl
  | emit a => exact h.edited (.inl rfl) fun _ => rfl
  | guard b handlers => exact h.guarded hk _
  | body scope stmts => exact h.trans (hbody scope stmts rfl)

theorem passes_of_forall {ok : Nat → Stroke → Prop} {m : Nat} {ks : List Stroke}
    (h : ∀ k ∈ ks, ∀ m, ok m k) : Passes ok m ks := by
  induction ks generalizing m with
  | nil => trivial
  | cons k rest ih =>
      exact ⟨h k (List.mem_cons_self ..) m, ih fun k' hk' => h k' (List.mem_cons_of_mem k hk')⟩

end Stroke

/-- Lowering statements goes on with the current block and opens others, and leaves the rest
alone. -/
theorem framed_lowerAll (scope : Scope) (stmts : List Stmt) (s : Lowering) :
    Framed s ((lowerAll scope stmts).run s).2 := by
  induction stmts using Stmt.bodies_induction generalizing scope s with
  | nil => exact .refl s
  | cons stmt rest ihBodies ihRest =>
      rw [run_lowerAll_cons]
      refine Framed.trans ?_ (ihRest scope _)
      have haims : Stroke.Passes (fun _ k => k.Aims s.drafts.size) 0
          (stmt.script scope s.drafts.size) :=
        Stroke.passes_of_forall fun k hk _ => stmt.aims_script scope s.drafts.size k hk
      refine haims.playAll (Nat.zero_le _) (.refl s) fun k hk m s' _ h hok => ?_
      refine hok.play h fun scope' body hbody => ?_
      subst hbody
      exact ihBodies body (Stroke.mem_bodies hk) scope' s'

/-! ### Sites -/

namespace Stroke

/-- The sites that a script comes to, in order. -/
def sites : List Stroke → Lowering → List Site
  | [], _ => []
  | k :: rest, s =>
    (k.inner?.toList.map fun inner => ⟨inner.1, inner.2, s⟩) ++ sites rest (k.play s)

/-- The sites of a script in two parts. -/
theorem sites_append (ks ks' : List Stroke) (s : Lowering) :
    sites (ks ++ ks') s = sites ks s ++ sites ks' (playAll ks s) := by
  induction ks generalizing s with
  | nil => rfl
  | cons k rest ih =>
      rw [List.cons_append, sites, ih, sites, List.append_assoc]
      rfl

/-- The sites of a script are where its bodies are lowered. -/
theorem map_stmts_sites (ks : List Stroke) (s : Lowering) :
    (sites ks s).map Site.stmts = (ks.filterMap inner?).map Prod.snd := by
  induction ks generalizing s with
  | nil => rfl
  | cons k rest ih =>
      rw [sites, List.map_append, ih]
      cases k <;> rfl

/-- A site of a script is that of its first stroke or comes later. -/
theorem mem_sites_cons {k : Stroke} {rest : List Stroke} {s : Lowering} {z : Site}
    (h : z ∈ sites (k :: rest) s) :
    (k = .body z.scope z.stmts ∧ z.start = s) ∨ z ∈ sites rest (k.play s) := by
  rcases List.mem_append.1 h with hhead | hrest
  · obtain ⟨inner, hinner, rfl⟩ := List.mem_map.1 hhead
    rw [Option.mem_toList] at hinner
    cases k <;> cases hinner
    exact .inl ⟨rfl, rfl⟩
  · exact .inr hrest

variable {ok : Nat → Stroke → Prop} {m : Nat} {ks : List Stroke}

/-- What every stroke keeps as long as it passes its check holds at every site of a script that
passes. -/
theorem Passes.site {I : Lowering → Prop} {s : Lowering} {z : Site} (h : Passes ok m ks)
    (hm : m ≤ s.drafts.size) (hs : I s)
    (hstep : ∀ k ∈ ks, ∀ m s, m ≤ s.drafts.size → I s → ok m k → I (k.play s))
    (hz : z ∈ sites ks s) :
    I z.start ∧ ∃ m ≤ z.start.drafts.size, ok m (.body z.scope z.stmts) := by
  induction ks generalizing m s with
  | nil => cases hz
  | cons k rest ih =>
      rcases mem_sites_cons hz with ⟨hk, hstart⟩ | hrest
      · rw [hstart, ← hk]
        exact ⟨hs, m, hm, h.1⟩
      · have hm' := Nat.le_trans (Nat.add_le_add_right hm _) (le_size_play k s)
        have hs' := hstep k (List.mem_cons_self ..) m s hm hs h.1
        exact ih h.2 hm' hs' (fun k' hk' => hstep k' (List.mem_cons_of_mem k hk')) hrest

/-- What is lowered at a site has no more blocks than the whole. -/
theorem size_finish_le {s : Lowering} {z : Site} (hz : z ∈ sites ks s) :
    z.finish.drafts.size ≤ (playAll ks s).drafts.size := by
  induction ks generalizing s with
  | nil => cases hz
  | cons k rest ih =>
      rcases mem_sites_cons hz with ⟨rfl, hstart⟩ | hrest
      · rw [Site.finish, hstart]
        exact le_size_playAll _ fun k _ s => Nat.le_of_add_right_le (le_size_play k s)
      · exact ih hrest

end Stroke

namespace Site

/-- A whole list of statements. -/
def root (stmts : List Stmt) : Site :=
  ⟨⟨none, []⟩, stmts, .start⟩

/-- The site behind the first statement. -/
def rest (x : Site) : Site :=
  match x.stmts with
  | [] => x
  | s :: stmts => ⟨x.scope, stmts, ((lower x.scope s).run x.start).2⟩

/-- The sites of the bodies in the first statement, in order. -/
def inner (x : Site) : List Site :=
  match x.stmts with
  | [] => []
  | s :: _ => Stroke.sites (s.script x.scope x.start.drafts.size) x.start

/-- A site is part of another one, at any depth. -/
inductive Within (x : Site) : Site → Prop
  | refl : Within x x
  | rest {y : Site} (h : Within x y.rest) : Within x y
  | inner {y z : Site} (hz : z ∈ y.inner) (h : Within x z) : Within x y

/-- The first statement is lowered into a block: it begins there, or it writes there. -/
def Touches (x : Site) (b : BlockId) : Prop :=
  x.stmts ≠ [] ∧ (b = x.start.current ∨ x.rest.start.drafts[b]? ≠ x.start.drafts[b]?)

/-- All blocks that a site knows of exist. -/
structure Sound (x : Site) : Prop where
  scope : x.scope.Sound x.start.drafts.size
  start : x.start.Sound (fun _ => True) fun _ => True

variable {x y z : Site} {b : BlockId}

theorem sound_root (stmts : List Stmt) : (root stmts).Sound :=
  ⟨Scope.sound_outermost, sound_start⟩

/-! ### One statement -/

section Cons

variable {scope : Scope} {stmt : Stmt} {stmts : List Stmt} {start : Lowering}

theorem finish_cons : finish ⟨scope, stmt :: stmts, start⟩ =
    finish ⟨scope, stmts, Stroke.playAll (stmt.script scope start.drafts.size) start⟩ := by
  rw [finish, finish, run_lowerAll_cons]

theorem rest_cons : rest ⟨scope, stmt :: stmts, start⟩ =
    ⟨scope, stmts, Stroke.playAll (stmt.script scope start.drafts.size) start⟩ := by
  rw [rest]
  simp only [run_lower]

theorem inner_cons : inner ⟨scope, stmt :: stmts, start⟩ =
    Stroke.sites (stmt.script scope start.drafts.size) start :=
  rfl

theorem passes_aims : Stroke.Passes (fun _ k => k.Aims start.drafts.size) 0
    (stmt.script scope start.drafts.size) :=
  Stroke.passes_of_forall fun k hk _ => stmt.aims_script scope start.drafts.size k hk

theorem aims_play {k : Stroke} {s : Lowering} (hk : k.Aims start.drafts.size) (h : Framed start s) :
    Framed start (k.play s) :=
  hk.play h fun scope stmts _ => framed_lowerAll scope stmts s

end Cons

/-- A list of statements ends where the rest of it ends. -/
theorem finish_rest (x : Site) : x.rest.finish = x.finish := by
  obtain ⟨scope, stmts, start⟩ := x
  cases stmts with
  | nil => rfl
  | cons s stmts => rw [rest_cons, finish_cons]

/-- A statement leaves alone what does not belong to its site. -/
theorem framed_rest (x : Site) : Framed x.start x.rest.start := by
  obtain ⟨scope, stmts, start⟩ := x
  cases stmts with
  | nil => exact .refl start
  | cons s stmts =>
      rw [rest_cons]
      exact passes_aims.playAll (Nat.zero_le _) (.refl start) fun _ _ _ _ _ h hk => aims_play hk h

theorem nested_rest (x : Site) : nestedAll x.rest.stmts ⊆ nestedAll x.stmts := by
  obtain ⟨scope, stmts, start⟩ := x
  cases stmts with
  | nil => exact List.Subset.refl _
  | cons s stmts => exact List.subset_append_right ..

/-- What comes before a body leaves alone what does not belong to the site of the statement. -/
theorem framed_inner (hz : z ∈ x.inner) : Framed x.start z.start := by
  obtain ⟨scope, stmts, start⟩ := x
  cases stmts with
  | nil => cases hz
  | cons s stmts =>
      have hframed := passes_aims.site (Nat.zero_le _) (.refl start)
        (fun _ _ _ _ _ h hk => aims_play hk h) hz
      exact hframed.1

theorem map_stmts_inner (scope : Scope) (stmt : Stmt) (stmts : List Stmt) (start : Lowering) :
    (inner ⟨scope, stmt :: stmts, start⟩).map Site.stmts = stmt.bodies := by
  rw [inner_cons, Stroke.map_stmts_sites, Stmt.inner?_script]

/-- What a body lowers was in the statement. -/
theorem nested_inner (hz : z ∈ x.inner) : nestedAll z.stmts ⊆ nestedAll x.stmts := by
  obtain ⟨scope, stmts, start⟩ := x
  cases stmts with
  | nil => cases hz
  | cons s stmts =>
      have hbody : z.stmts ∈ s.bodies := by
        rw [← map_stmts_inner scope s stmts start]
        exact List.mem_map_of_mem hz
      exact List.Subset.trans (Stmt.nestedAll_subset hbody) (List.subset_append_left ..)

theorem size_inner_le (hz : z ∈ x.inner) : z.finish.drafts.size ≤ x.finish.drafts.size := by
  obtain ⟨scope, stmts, start⟩ := x
  cases stmts with
  | nil => cases hz
  | cons s stmts =>
      rw [finish_cons]
      exact Nat.le_trans (Stroke.size_finish_le hz) (framed_lowerAll ..).size_le

theorem inRange_true (s : Stmt) : s.InRange (fun _ => True) fun _ => True :=
  ⟨fun _ _ => trivial, fun _ _ => trivial⟩

theorem passes_inRange {scope : Scope} {n : Nat} (stmt : Stmt) (h : scope.Sound n) :
    Stroke.Passes (Stroke.InRange (fun _ => True) fun _ => True) n (stmt.script scope n) :=
  (inRange_true stmt).script h fun _ _ s _ => inRange_true s

theorem inRange_play {k : Stroke} {m : Nat} {s : Lowering}
    (hk : k.InRange (fun _ => True) (fun _ => True) m) (hm : m ≤ s.drafts.size)
    (hs : s.Sound (fun _ => True) fun _ => True) : (k.play s).Sound (fun _ => True) fun _ => True :=
  hk.play hm hs fun _ _ _ hscope hstmts => hs.lowerAll hstmts hscope

/-- After a statement the site of the others is sound. -/
theorem Sound.rest (h : x.Sound) : x.rest.Sound := by
  obtain ⟨scope, stmts, start⟩ := x
  cases stmts with
  | nil => exact h
  | cons s stmts =>
      have hframed := framed_rest ⟨scope, s :: stmts, start⟩
      rw [rest_cons] at hframed ⊢
      exact ⟨h.scope.mono hframed.size_le,
        (passes_inRange s h.scope).playAll (Nat.le_refl _) h.start
        fun _ _ _ _ hm hs hk => inRange_play hk hm hs⟩

/-- The body of a statement is lowered at a sound site. -/
theorem Sound.inner (h : x.Sound) (hz : z ∈ x.inner) : z.Sound := by
  obtain ⟨scope, stmts, start⟩ := x
  cases stmts with
  | nil => cases hz
  | cons s stmts =>
      obtain ⟨hstart, m, hm, hscope⟩ := (passes_inRange s h.scope).site (Nat.le_refl _) h.start
        (fun _ _ _ _ hm hs hk => inRange_play hk hm hs) hz
      exact ⟨hscope.1.mono hm, hstart⟩

/-! ### Sites at any depth -/

namespace Within

/-- Sites within sites are within the outer ones. -/
theorem trans (h : x.Within y) (h' : y.Within z) : x.Within z := by
  induction h' with
  | refl => exact h
  | rest _ ih => exact .rest ih
  | inner hz _ ih => exact .inner hz ih

/-- Up to a site within another one, nothing is touched that does not belong to the other one. -/
theorem framed (h : x.Within y) : Framed y.start x.start := by
  induction h with
  | refl => exact .refl x.start
  | rest _ ih => exact (framed_rest _).trans ih
  | inner hz _ ih => exact (framed_inner hz).trans ih

theorem nested (h : x.Within y) : nestedAll x.stmts ⊆ nestedAll y.stmts := by
  induction h with
  | refl => exact List.Subset.refl _
  | rest _ ih => exact List.Subset.trans ih (nested_rest _)
  | inner hz _ ih => exact List.Subset.trans ih (nested_inner hz)

theorem size_le (h : x.Within y) : x.finish.drafts.size ≤ y.finish.drafts.size := by
  induction h with
  | refl => exact Nat.le_refl _
  | @rest y _ ih => exact finish_rest y ▸ ih
  | inner hz _ ih => exact Nat.le_trans ih (size_inner_le hz)

/-- Sites within a sound one are sound. -/
theorem sound (h : x.Within y) (hy : y.Sound) : x.Sound := by
  induction h with
  | refl => exact hy
  | rest _ ih => exact ih hy.rest
  | inner hz _ ih => exact ih (hy.inner hz)

end Within

/-- Every statement is lowered somewhere. -/
theorem exists_within (scope : Scope) {stmts : List Stmt} (start : Lowering) {t : Stmt}
    (h : t ∈ nestedAll stmts) :
    ∃ y : Site, y.Within ⟨scope, stmts, start⟩ ∧ y.stmts.head? = some t := by
  induction stmts using Stmt.bodies_induction generalizing scope start with
  | nil => cases h
  | cons s stmts ihBodies ihRest =>
      rcases List.mem_append.1 h with hhead | hrest
      · rcases Stmt.mem_nested_iff.1 hhead with rfl | ⟨body, hbody, ht⟩
        · exact ⟨_, .refl, rfl⟩
        · have hsite : body ∈ (inner ⟨scope, s :: stmts, start⟩).map Site.stmts := by
            rwa [map_stmts_inner]
          obtain ⟨z, hz, rfl⟩ := List.mem_map.1 hsite
          obtain ⟨y, hy, hy'⟩ := ihBodies z.stmts hbody z.scope z.start ht
          exact ⟨y, .inner hz hy, hy'⟩
      · obtain ⟨y, hy, hy'⟩ := ihRest scope _ hrest
        exact ⟨y, .rest (rest_cons ▸ hy), hy'⟩

/-- A statement is lowered into the block that is current at its site and into blocks opened
since. -/
theorem Touches.owned (h : x.Touches b) : b = x.start.current ∨ x.start.drafts.size ≤ b := by
  obtain ⟨-, heq | hne⟩ := h
  · exact .inl heq
  · by_cases hcurrent : b = x.start.current
    · exact .inl hcurrent
    · refine .inr (Nat.le_of_not_lt fun hlt => hne ?_)
      exact x.framed_rest.others b hlt hcurrent

/-- The blocks of a site exist in the end. -/
theorem Touches.lt (h : x.Touches b) (hx : x.Sound) : b < x.finish.drafts.size := by
  have hle : x.rest.start.drafts.size ≤ x.finish.drafts.size := by
    rw [← finish_rest x]
    exact (framed_lowerAll ..).size_le
  obtain ⟨-, rfl | hne⟩ := h
  · exact Nat.lt_of_lt_of_le hx.start.current (framed_lowerAll ..).size_le
  · refine Nat.lt_of_lt_of_le (Nat.lt_of_not_le fun hge => hne ?_) hle
    rw [Array.getElem?_eq_none hge, Array.getElem?_eq_none (Nat.le_trans x.framed_rest.size_le hge)]

/-- For every site around it, a block of a site is new or the current one. -/
theorem Within.owned (h : x.Within y) (hb : x.Touches b) :
    b = y.start.current ∨ y.start.drafts.size ≤ b := by
  rcases hb.owned with rfl | hge
  · exact h.framed.current
  · exact .inr (Nat.le_trans h.framed.size_le hge)

end Site

end FlowTyping
