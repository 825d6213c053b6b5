import FlowTyping.Proofs.Lowering.Site
import Mathlib.Logic.Relation

/-!
# Exceptions reach the handlers around them

A block lists the handlers of the innermost region only. The catch and finally blocks of that region
list those of the next one, so that a throw reaches every handler around it, step by step. Main
statement: `handlers_reached`.
-/

namespace FlowTyping

open Lowering

namespace Lowering

variable {s s' s'' : Lowering} {b h : BlockId}

/-- No block loses a handler. -/
def KeepsHandlers (s s' : Lowering) : Prop :=
  ∀ b, s.handlersAt b ⊆ s'.handlersAt b

/-- A throw in a block may come to another block, over one handler or more. -/
def Reaches (s : Lowering) : BlockId → BlockId → Prop :=
  Relation.TransGen fun b h => h ∈ s.handlersAt b

theorem handlersAt_of_le (h : s.drafts.size ≤ b) : s.handlersAt b = [] := by
  rw [handlersAt, Array.getElem?_eq_none h]
  rfl

/-- A new block has the handlers it is opened with. -/
theorem handlersAt_opened_self (s : Lowering) (handlers : List BlockId) :
    (s.opened handlers).handlersAt s.drafts.size = handlers := by
  simp [handlersAt, opened]

theorem handlersAt_guarded {handlers : List BlockId} (h : b < s.drafts.size) :
    (s.edited b fun d => { d with handlers := handlers }).handlersAt b = handlers := by
  rw [handlersAt, edited_self _ (Array.getElem?_eq_getElem h)]
  rfl

namespace KeepsHandlers

theorem refl (s : Lowering) : KeepsHandlers s s :=
  fun _ => List.Subset.refl _

theorem trans (h : KeepsHandlers s s') (h' : KeepsHandlers s' s'') : KeepsHandlers s s'' :=
  fun b => List.Subset.trans (h b) (h' b)

/-- What can be reached through handlers stays within reach. -/
theorem reaches (hkeep : KeepsHandlers s s') (hreach : s.Reaches b h) : s'.Reaches b h :=
  Relation.TransGen.mono (fun b _ hb => hkeep b hb) _ _ hreach

end KeepsHandlers

theorem keepsHandlers_of_eq (h : ∀ b < s.drafts.size, s'.handlersAt b = s.handlersAt b) :
    KeepsHandlers s s' := by
  intro b
  rcases Nat.lt_or_ge b s.drafts.size with hlt | hge
  · rw [h b hlt]
    exact List.Subset.refl _
  · rw [handlersAt_of_le hge]
    exact List.nil_subset _

end Lowering

namespace Stroke

variable {ks ks' : List Stroke} {s : Lowering} {z : Site}

/-- No stroke of a script takes a handler away. -/
def Steady : List Stroke → Lowering → Prop
  | [], _ => True
  | k :: rest, s => KeepsHandlers s (k.play s) ∧ Steady rest (k.play s)

theorem Steady.append (h : Steady ks s) (h' : Steady ks' (playAll ks s)) :
    Steady (ks ++ ks') s := by
  induction ks generalizing s with
  | nil => exact h'
  | cons k rest ih => exact ⟨h.1, ih h.2 h'⟩

/-- A script whose strokes keep handlers keeps them as a whole. -/
theorem Steady.playAll (h : Steady ks s) : KeepsHandlers s (playAll ks s) := by
  induction ks generalizing s with
  | nil => exact .refl s
  | cons k rest ih => exact h.1.trans (ih h.2)

/-- What a site has given a block as handlers is there at the end of the script. -/
theorem Steady.site (h : Steady ks s) (hz : z ∈ sites ks s) :
    KeepsHandlers z.finish (Stroke.playAll ks s) := by
  induction ks generalizing s with
  | nil => cases hz
  | cons k rest ih =>
      rcases mem_sites_cons hz with ⟨rfl, hstart⟩ | hrest
      · rw [Site.finish, hstart]
        exact h.2.playAll
      · exact ih h.2 hrest

/-! ### Handlers only grow -/

/-- A stroke that gives new blocks some handlers, and leaves the other blocks alone. -/
def Plain (handlers : List BlockId) : Stroke → Prop
  | .fresh handlers' => handlers' = handlers
  | .body scope _ => scope.handlers = handlers
  | .guard _ _ => False
  | _ => True

variable {handlers : List BlockId} {b : BlockId}

theorem plain_opens {count : Nat} : ∀ k ∈ opens handlers count, k.Plain handlers := by
  intro k hk
  rw [List.eq_of_mem_replicate hk]
  rfl

theorem plain_emits {exprs : List ExprId} : ∀ k ∈ emits exprs, k.Plain handlers := by
  intro k hk
  obtain ⟨e, -, rfl⟩ := List.mem_map.1 hk
  trivial

/-- The arms of a `switch` are lowered by plain strokes. -/
theorem plain_cases {scope : Scope} {stop b : Nat} {cs : List (Case Stmt)}
    (h : scope.handlers = handlers) : ∀ k ∈ cases scope stop b cs, k.Plain handlers := by
  induction cs generalizing b with
  | nil => exact List.forall_mem_nil _
  | cons c rest ih =>
      rw [cases]
      simp only [List.forall_mem_append, List.forall_mem_cons, Plain]
      exact ⟨⟨trivial, h, trivial, List.forall_mem_nil _⟩, ih⟩

theorem plain_finals {scope : Scope} {stop b : Nat} {finally? : Option (List Stmt)}
    (h : scope.handlers = handlers) : ∀ k ∈ finals scope stop b finally?, k.Plain handlers := by
  cases finally? <;> simp [finals, Plain, h]

/-- A plain stroke leaves the handlers of all blocks alone. -/
theorem Plain.handlersAt_play {k : Stroke} (h : k.Plain handlers) (hb : b < s.drafts.size) :
    (k.play s).handlersAt b = s.handlersAt b := by
  cases k with
  | fresh handlers' => exact handlersAt_congr (opened_of_lt handlers' hb)
  | enter b' => rfl
  | close | finish | emit =>
      refine handlersAt_edited ?_ b
      exact fun _ => rfl
  | guard b' handlers' => cases h
  | body scope stmts => exact (framed_lowerAll scope stmts s).handlers b hb

/-- A script of plain strokes leaves the handlers of all blocks alone. -/
theorem handlersAt_playAll (h : ∀ k ∈ ks, ∃ handlers, k.Plain handlers) (hb : b < s.drafts.size) :
    (playAll ks s).handlersAt b = s.handlersAt b := by
  induction ks generalizing s with
  | nil => rfl
  | cons k rest ih =>
      obtain ⟨handlers, hk⟩ := h k (List.mem_cons_self ..)
      have hb' : b < (k.play s).drafts.size :=
        Nat.lt_of_lt_of_le hb (Nat.le_of_add_right_le (le_size_play k s))
      calc (playAll (k :: rest) s).handlersAt b
          = (k.play s).handlersAt b := ih (fun k' hk' => h k' (List.mem_cons_of_mem k hk')) hb'
        _ = s.handlersAt b := hk.handlersAt_play hb

/-- Plain strokes keep handlers. -/
theorem steady_of_plain (h : ∀ k ∈ ks, ∃ handlers, k.Plain handlers) : Steady ks s := by
  induction ks generalizing s with
  | nil => trivial
  | cons k rest ih =>
      obtain ⟨handlers, hk⟩ := h k (List.mem_cons_self ..)
      refine ⟨keepsHandlers_of_eq fun b hb => hk.handlersAt_play hb, ih fun k' hk' => ?_⟩
      exact h k' (List.mem_cons_of_mem k hk')

end Stroke

/-- Except for protected regions, all blocks of a statement get the handlers of its scope. -/
theorem Stmt.plain_script {stmt : Stmt} (scope : Scope) (n : Nat)
    (h : ∀ body catches finally?, stmt ≠ .protect body catches finally?) :
    ∀ k ∈ stmt.script scope n, k.Plain scope.handlers := by
  cases stmt with
  | ifElse | whileLoop | doLoop | foreach =>
      exact List.forall_mem_append.2 ⟨Stroke.plain_opens, by simp [Stroke.Plain, Scope.inLoop]⟩
  | forLoop =>
      simp only [script, List.forall_mem_append]
      exact ⟨⟨⟨⟨Stroke.plain_emits, Stroke.plain_opens⟩, by simp [Stroke.Plain, Scope.inLoop]⟩,
        Stroke.plain_emits⟩, by simp [Stroke.Plain]⟩
  | switch =>
      simp only [script, List.forall_mem_append]
      exact ⟨⟨⟨Stroke.plain_opens, by simp [Stroke.Plain]⟩, Stroke.plain_cases rfl⟩,
        by simp [Stroke.Plain]⟩
  | protect body catches finally? => exact absurd rfl (h body catches finally?)
  | brk | cont => exact List.forall_mem_append.2 ⟨by simp [Stroke.Plain], by simp [Stroke.Plain]⟩
  | act | ret | raise | exit => simp [script, Stroke.Plain]

namespace Stroke

/-- A block may be given more handlers. -/
theorem keepsHandlers_guard {b : BlockId} {handlers : List BlockId} {s : Lowering}
    (h : s.handlersAt b ⊆ handlers) : KeepsHandlers s ((guard b handlers).play s) := by
  intro b'
  by_cases hb : b' = b
  · subst hb
    rcases Nat.lt_or_ge b' s.drafts.size with hlt | hge
    · rw [play, handlersAt_guarded hlt]
      exact h
    · rw [handlersAt_of_le hge]
      exact List.nil_subset _
  · rw [play, handlersAt_congr (edited_of_ne _ hb)]
    exact List.Subset.refl _

/-- Catch blocks that have no other handlers yet than they are given lose none. -/
theorem steady_catches {scope : Scope} {after b : Nat} {cs : List (Catch Stmt)} {s : Lowering}
    (hsize : b + cs.length ≤ s.drafts.size)
    (h : ∀ b' ≥ b, b' < b + cs.length → s.handlersAt b' ⊆ scope.handlers) :
    Steady (catches scope after b cs) s := by
  induction cs generalizing b s with
  | nil => trivial
  | cons c rest ih =>
      rw [List.length_cons] at hsize h
      let s₁ := (guard b scope.handlers).play s
      let ks := [enter b, emit (.bindException c.var? c.classes), body scope c.body,
        finish (.goto after)]
      have hplain : ∀ k ∈ ks, ∃ handlers, k.Plain handlers := by simp [ks, Plain]
      have hsize₁ : s₁.drafts.size = s.drafts.size := size_edited ..
      have hsize₂ : s₁.drafts.size ≤ (playAll ks s₁).drafts.size :=
        le_size_playAll s₁ fun k _ s => Nat.le_of_add_right_le (le_size_play k s)
      have hrest : Steady (catches scope after (b + 1) rest) (playAll ks s₁) := by
        refine ih (by omega) fun b' hge hlt => ?_
        have hne : b' ≠ b := by omega
        have hlt₁ : b' < s₁.drafts.size := by omega
        rw [handlersAt_playAll hplain hlt₁]
        change (s.edited b _).handlersAt b' ⊆ _
        rw [handlersAt_congr (edited_of_ne _ hne)]
        exact h b' (by omega) (by omega)
      have hguard := keepsHandlers_guard (h b (Nat.le_refl b) (by omega))
      exact ⟨hguard, (steady_of_plain hplain).append hrest⟩

/-- Blocks that are opened together have the same handlers. -/
theorem handlersAt_opens {handlers : List BlockId} {count : Nat} {b : Nat} {s : Lowering}
    (hge : s.drafts.size ≤ b) (hlt : b < s.drafts.size + count) :
    (playAll (opens handlers count) s).handlersAt b = handlers := by
  induction count generalizing s with
  | zero => omega
  | succ count ih =>
      change (playAll (opens handlers count) (s.opened handlers)).handlersAt b = handlers
      by_cases hb : b = s.drafts.size
      · have hlt' : b < (s.opened handlers).drafts.size := by
          rw [size_opened]
          omega
        have hplain : ∀ k ∈ opens handlers count, ∃ handlers, k.Plain handlers := fun k hk =>
          ⟨handlers, plain_opens k hk⟩
        rw [handlersAt_playAll hplain hlt', hb, handlersAt_opened_self]
      · exact ih (by rw [size_opened]; omega) (by rw [size_opened]; omega)

section Inside

variable {scope : Scope} {body : List Stmt} {catches : List (Catch Stmt)}
  {finally? : Option (List Stmt)}

/-- What is lowered inside a region is lowered by plain strokes. -/
theorem plain_inside {n : Nat} :
    ∀ k ∈ inside scope n body catches finally?, ∃ handlers, k.Plain handlers := by
  simp only [inside, List.forall_mem_append]
  refine ⟨⟨fun k hk => ⟨_, plain_opens k hk⟩, fun k hk => ⟨_, plain_opens k hk⟩⟩, ?_⟩
  simp [Plain]

/-- A region opens a block for each catch at least. -/
theorem size_inside {s : Lowering} : s.drafts.size + catches.length ≤
    (playAll (inside scope s.drafts.size body catches finally?) s).drafts.size := by
  rw [inside, List.append_assoc, playAll_append, ← size_playAll_opens scope.handlers]
  exact le_size_playAll _ fun k _ s => Nat.le_of_add_right_le (le_size_play k s)

/-- The catch blocks are opened with the handlers around the region. -/
theorem handlersAt_inside {s : Lowering} {b : Nat} (hge : s.drafts.size ≤ b)
    (hlt : b < s.drafts.size + catches.length) :
    (playAll (inside scope s.drafts.size body catches finally?) s).handlersAt b =
      scope.handlers := by
  have hplain : ∀ k ∈ inside scope s.drafts.size body catches finally?,
      ∃ handlers, k.Plain handlers := plain_inside
  rw [inside, List.append_assoc, List.forall_mem_append] at hplain
  rw [inside, List.append_assoc, playAll_append, handlersAt_playAll hplain.2]
  · exact handlersAt_opens hge hlt
  · rwa [size_playAll_opens]

end Inside

end Stroke

/-- Lowering a statement takes no handler away: a catch block gets the finally block in addition. -/
theorem Stmt.steady_script (scope : Scope) (stmt : Stmt) (s : Lowering) :
    Stroke.Steady (stmt.script scope s.drafts.size) s := by
  by_cases h : ∀ body catches finally?, stmt ≠ .protect body catches finally?
  · exact Stroke.steady_of_plain fun k hk => ⟨_, Stmt.plain_script scope _ h k hk⟩
  · obtain ⟨body, catches, finally?, rfl⟩ :
        ∃ body catches finally?, stmt = .protect body catches finally? := by simpa using h
    simp only [script, List.append_assoc]
    refine (Stroke.steady_of_plain Stroke.plain_inside).append (Stroke.Steady.append ?_ ?_)
    · refine Stroke.steady_catches Stroke.size_inside fun b hge hlt => ?_
      rw [Stroke.handlersAt_inside hge hlt]
      exact List.subset_append_left ..
    · refine Stroke.steady_of_plain (List.forall_mem_append.2 ⟨fun k hk => ?_, ?_⟩)
      · exact ⟨scope.handlers, Stroke.plain_finals rfl k hk⟩
      · simp [Stroke.Plain]

/-! ### Blocks reach the handlers of their scope -/

namespace Lowering

/-- Blocks from `n` on reach some handlers. -/
def Covered (handlers : List BlockId) (n : Nat) (s : Lowering) : Prop :=
  ∀ b, n ≤ b → b < s.drafts.size → ∀ h ∈ handlers, s.Reaches b h

/-- A list of handlers holds some other ones, or else a block among the first `m` that is numbered
from `n` on. -/
def Linked (handlers : List BlockId) (n m : Nat) (handlers' : List BlockId) : Prop :=
  handlers ⊆ handlers' ∨ ∃ b ∈ handlers', n ≤ b ∧ b < m

variable {handlers handlers' : List BlockId} {n m : Nat} {s s' : Lowering} {b : BlockId}

/-- There are no blocks yet to be covered. -/
theorem covered_size (handlers : List BlockId) (s : Lowering) : s.Covered handlers s.drafts.size :=
  fun _ hge hlt => absurd hlt (Nat.not_lt.2 hge)

theorem Linked.mono {m' : Nat} (h : Linked handlers n m handlers') (hle : m ≤ m') :
    Linked handlers n m' handlers' :=
  h.imp_right fun ⟨b, hb, hge, hlt⟩ => ⟨b, hb, hge, Nat.lt_of_lt_of_le hlt hle⟩

/-- From linked handlers the others are within reach. -/
theorem Linked.reaches (h : Linked handlers n m handlers') (hm : m ≤ s.drafts.size)
    (hcovered : s.Covered handlers n) (hkeep : KeepsHandlers s s')
    (hb : ∀ h ∈ handlers', s'.Reaches b h) : ∀ h ∈ handlers, s'.Reaches b h := by
  intro target htarget
  rcases h with hsub | ⟨via, hvia, hge, hlt⟩
  · exact hb target (hsub htarget)
  · have hreach : s.Reaches via target :=
      hcovered via hge (Nat.lt_of_lt_of_le hlt hm) target htarget
    exact (hb via hvia).trans (hkeep.reaches hreach)

end Lowering

namespace Stroke

/-- The handlers that a stroke gives new blocks lead to those of the scope. -/
def Links (handlers : List BlockId) (n m : Nat) : Stroke → Prop
  | .fresh handlers' => Linked handlers n m handlers'
  | .body scope _ => Linked handlers n m scope.handlers
  | _ => True

theorem Plain.links {handlers : List BlockId} {k : Stroke} (h : k.Plain handlers) (n m : Nat) :
    k.Links handlers n m := by
  cases k with
  | fresh handlers' => exact .inl (h ▸ List.Subset.refl _)
  | body scope stmts => exact .inl (h ▸ List.Subset.refl _)
  | enter | close | finish | emit | guard => trivial

variable {handlers : List BlockId} {n m : Nat} {s : Lowering}

/-- A stroke that links handlers keeps every block covered. -/
theorem Links.play {k : Stroke} (hk : k.Links handlers n m) (hm : m ≤ s.drafts.size)
    (hkeep : KeepsHandlers s (k.play s)) (hcovered : s.Covered handlers n)
    (hbody : ∀ scope stmts, k = .body scope stmts →
      ((lowerAll scope stmts).run s).2.Covered scope.handlers s.drafts.size) :
    (k.play s).Covered handlers n := by
  intro b hge hlt
  by_cases hb : b < s.drafts.size
  · exact fun h hh => hkeep.reaches (hcovered b hge hb h hh)
  · rw [Nat.not_lt] at hb
    cases k with
    | fresh handlers' =>
        have hlt' : b < (s.opened handlers').drafts.size := hlt
        rw [size_opened] at hlt'
        obtain rfl : b = s.drafts.size := Nat.le_antisymm (Nat.le_of_lt_succ hlt') hb
        refine Linked.reaches hk hm hcovered hkeep fun h hh => .single ?_
        change h ∈ (s.opened handlers').handlersAt s.drafts.size
        rwa [handlersAt_opened_self]
    | body scope stmts => exact Linked.reaches hk hm hcovered hkeep (hbody scope stmts rfl b hb hlt)
    | enter b' => exact absurd hlt (Nat.not_lt.2 hb)
    | close | finish | emit | guard => exact absurd (size_edited s _ _ ▸ hlt) (Nat.not_lt.2 hb)

/-- After a script whose strokes link handlers, every block since `n` reaches the handlers. -/
theorem covered_playAll {ks : List Stroke} (hsteady : Steady ks s)
    (hlinks : Passes (Links handlers n) m ks) (hm : m ≤ s.drafts.size)
    (hcovered : s.Covered handlers n)
    (hbody : ∀ scope stmts, .body scope stmts ∈ ks → ∀ s : Lowering,
      ((lowerAll scope stmts).run s).2.Covered scope.handlers s.drafts.size) :
    (playAll ks s).Covered handlers n := by
  induction ks generalizing m s with
  | nil => exact hcovered
  | cons k rest ih =>
      have hplay : (k.play s).Covered handlers n :=
        hlinks.1.play hm hsteady.1 hcovered fun scope stmts hk =>
          hbody scope stmts (hk ▸ List.mem_cons_self ..) s
      refine ih hsteady.2 hlinks.2 ?_ hplay fun scope stmts hmem => ?_
      · exact Nat.le_trans (Nat.add_le_add_right hm _) (le_size_play k s)
      · exact hbody scope stmts (List.mem_cons_of_mem k hmem)

end Stroke

/-- A protected region has a catch or a finally block. -/
def Stmt.handled : Stmt → Bool
  | .protect _ catches finally? => !catches.isEmpty || finally?.isSome
  | _ => true

namespace Stroke

variable {scope : Scope} {n : Nat} {body : List Stmt} {catches : List (Catch Stmt)}
  {finally? : Option (List Stmt)}

/-- One of its own blocks leads from a region to the handlers around it. -/
theorem linked_region (scope : Scope) (n : Nat)
    (h : (Stmt.protect body catches finally?).handled = true) :
    Linked scope.handlers n ((Region.numbered n catches finally?).stop + 1)
      (scope.inRegion (Region.numbered n catches finally?).catches
        (Region.numbered n catches finally?).finally?).handlers := by
  refine .inr ?_
  cases catches with
  | cons c rest =>
      have hmem : n ∈ (Region.numbered n (c :: rest) finally?).catches :=
        Region.mem_catches_numbered.2 ⟨Nat.le_refl n, by simp⟩
      have hle : n + (c :: rest).length ≤ (Region.numbered n (c :: rest) finally?).stop :=
        Region.le_stop_numbered
      exact ⟨n, List.mem_append_left _ hmem, Nat.le_refl n,
        Nat.lt_succ_of_le (Nat.le_trans (Nat.le_add_right ..) hle)⟩
  | nil =>
      cases finally? with
      | none => cases h
      | some stmts =>
          refine ⟨n, List.mem_append_right _ ?_, Nat.le_refl n, ?_⟩
          · exact List.mem_singleton_self n
          · exact Nat.lt_succ_of_lt (Nat.lt_succ_self n)

/-- In a region with a catch or a finally block, what is inside leads to the handlers around the
region. -/
theorem passes_links_inside (h : (Stmt.protect body catches finally?).handled = true) :
    Passes (Links scope.handlers n) n (inside scope n body catches finally?) := by
  have hopens {m count : Nat} : Passes (Links scope.handlers n) m (opens scope.handlers count) :=
    passes_of_forall fun k hk m => (plain_opens k hk).links n m
  have hlinked := linked_region scope n h
  refine passes_append (passes_append hopens hopens) ?_
  rw [List.countP_append, countP_gain_opens, countP_gain_opens, ← Nat.add_assoc]
  exact ⟨.inl (List.Subset.refl _), hlinked, trivial, trivial,
    hlinked.mono (Nat.le_succ _), trivial,
    trivial⟩

end Stroke

/-- The blocks of a statement get the handlers of its scope, or those of a region in it. -/
theorem Stmt.passes_links {stmt : Stmt} (scope : Scope) (n : Nat) (h : stmt.handled = true) :
    Stroke.Passes (Stroke.Links scope.handlers n) n (stmt.script scope n) := by
  by_cases hprotect : ∀ body catches finally?, stmt ≠ .protect body catches finally?
  · exact Stroke.passes_of_forall fun k hk m => (Stmt.plain_script scope n hprotect k hk).links n m
  · obtain ⟨body, catches, finally?, rfl⟩ :
        ∃ body catches finally?, stmt = .protect body catches finally? := by simpa using hprotect
    refine Stroke.passes_append (Stroke.passes_append (Stroke.passes_append ?_ ?_) ?_) ?_
    · exact Stroke.passes_links_inside h
    · exact Stroke.passes_catches (fun _ _ _ => trivial) (fun _ _ _ => trivial) (fun _ _ => trivial)
        (fun _ _ => .inl (List.subset_append_left ..)) trivial
    · exact Stroke.passes_of_forall fun k hk m => (Stroke.plain_finals rfl k hk).links n m
    · exact ⟨trivial, trivial⟩

/-- The blocks that lowering opens reach the handlers of the scope. -/
theorem covered_lowerAll {stmts : List Stmt} (h : ∀ s ∈ nestedAll stmts, s.handled = true)
    (scope : Scope) (s : Lowering) :
    ((lowerAll scope stmts).run s).2.Covered scope.handlers s.drafts.size := by
  induction stmts using Stmt.bodies_induction generalizing scope s with
  | nil => exact covered_size scope.handlers s
  | cons stmt rest ihBodies ihRest =>
      have hhead : stmt.handled = true := h stmt (List.mem_append_left _ stmt.mem_nested_self)
      have hscript : (Stroke.playAll (stmt.script scope s.drafts.size) s).Covered scope.handlers
          s.drafts.size := by
        refine Stroke.covered_playAll (stmt.steady_script scope s) (stmt.passes_links scope _ hhead)
          (Nat.le_refl _) (covered_size _ s) fun scope' body hbody s' => ?_
        have hmem : body ∈ stmt.bodies := Stroke.mem_bodies hbody
        refine ihBodies body hmem (fun t ht => h t ?_) scope' s'
        exact List.mem_append_left _ (Stmt.nestedAll_subset hmem ht)
      rw [run_lowerAll_cons]
      generalize Stroke.playAll (stmt.script scope s.drafts.size) s = s₁ at hscript
      intro b hge hlt target htarget
      rcases Nat.lt_or_ge b s₁.drafts.size with hlt₁ | hge₁
      · have hkeep := keepsHandlers_of_eq (framed_lowerAll scope rest s₁).handlers
        exact hkeep.reaches (hscript b hge hlt₁ target htarget)
      · exact ihRest (fun t ht => h t (List.mem_append_right _ ht)) scope s₁ b hge₁ hlt
          target htarget

/-! ### Sites of a protected region -/

namespace Site

variable {x y z : Site} {b : BlockId}

/-- The block that is current at a site has the handlers of its scope. -/
def Homed (x : Site) : Prop :=
  x.scope.handlers ⊆ x.start.handlersAt x.start.current

/-- The handlers that a site has given blocks are there in the end. -/
theorem Within.keepsHandlers (h : x.Within y) : KeepsHandlers x.finish y.finish := by
  induction h with
  | refl => exact .refl x.finish
  | @rest y _ ih => exact finish_rest y ▸ ih
  | @inner y z hz _ ih =>
      refine ih.trans ?_
      obtain ⟨scope, stmts, start⟩ := y
      cases stmts with
      | nil => cases hz
      | cons s stmts =>
          rw [finish_cons]
          exact ((s.steady_script scope start).site hz).trans
            (keepsHandlers_of_eq (framed_lowerAll ..).handlers)

/-- Whatever is lowered at a site, or deeper, reaches the handlers of its scope. -/
theorem Homed.reaches (hhome : x.Homed) (hx : x.Sound)
    (h : ∀ s ∈ nestedAll x.stmts, s.handled = true) (hy : y.Within x) (hb : y.Touches b) :
    ∀ h ∈ x.scope.handlers, x.finish.Reaches b h := by
  intro target htarget
  have hlt : b < x.finish.drafts.size :=
    Nat.lt_of_lt_of_le (hb.lt (hy.sound hx)) hy.size_le
  rcases hy.owned hb with rfl | hge
  · have hkeep : KeepsHandlers x.start x.finish := keepsHandlers_of_eq (framed_lowerAll ..).handlers
    exact .single (hkeep _ (hhome htarget))
  · exact covered_lowerAll h x.scope x.start b hge hlt target htarget

end Site

namespace Stroke

variable {s : Lowering}

theorem sites_opens {handlers : List BlockId} {count : Nat} :
    sites (opens handlers count) s = [] := by
  rw [← List.map_eq_nil_iff, map_stmts_sites, filterMap_inner?_opens]
  rfl

/-- The one site inside a region is that of its body. -/
theorem sites_inside (scope : Scope) (body : List Stmt) (catches : List (Catch Stmt))
    (finally? : Option (List Stmt)) (s : Lowering) :
    ∃ z : Site, sites (inside scope s.drafts.size body catches finally?) s = [z] ∧
      z.scope = scope.inRegion (Region.numbered s.drafts.size catches finally?).catches
        (Region.numbered s.drafts.size catches finally?).finally? ∧ z.stmts = body ∧ z.Homed := by
  let region := Region.numbered s.drafts.size catches finally?
  let inner := scope.inRegion region.catches region.finally?
  rw [inside, sites_append, sites_append, sites_opens, sites_opens]
  generalize hopened : playAll (opens scope.handlers catches.length ++
    opens scope.handlers finally?.toList.length) s = s₁
  have hstop : (s₁.opened scope.handlers).drafts.size = region.stop + 1 := by
    rw [size_opened, ← hopened, playAll_append, size_playAll_opens, size_playAll_opens]
    rfl
  refine ⟨_, rfl, rfl, rfl, ?_⟩
  change inner.handlers ⊆ (((s₁.opened scope.handlers).opened inner.handlers).edited _ _).handlersAt
    (region.stop + 1)
  rw [handlersAt_edited, ← hstop, handlersAt_opened_self]
  · exact List.Subset.refl _
  · exact fun _ => rfl

theorem sites_finals {scope : Scope} {stop b : Nat} {finally? : Option (List Stmt)} :
    sites (finals scope stop b finally?) s =
      (finally?.map fun stmts => ⟨scope, stmts, s.entering b⟩ : Option Site).toList := by
  cases finally? <;> rfl

/-- Each catch is lowered in a block of its own, in their order. -/
theorem sites_catches (scope : Scope) (after : Nat) {b : Nat} {cs : List (Catch Stmt)}
    (hsize : b + cs.length ≤ s.drafts.size) :
    (sites (catches scope after b cs) s).map (fun z => z.start.current) = List.range' b cs.length ∧
      ∀ z ∈ sites (catches scope after b cs) s, z.scope = scope ∧ z.Homed := by
  induction cs generalizing b s with
  | nil => exact ⟨rfl, List.forall_mem_nil _⟩
  | cons c rest ih =>
      rw [List.length_cons] at hsize ⊢
      let ks := [guard b scope.handlers, enter b, emit (.bindException c.var? c.classes),
        Stroke.body scope c.body, finish (.goto after)]
      have hsize' : s.drafts.size ≤ (playAll ks s).drafts.size :=
        le_size_playAll s fun k _ s => Nat.le_of_add_right_le (le_size_play k s)
      obtain ⟨hcurrents, hrest⟩ := ih (b := b + 1) (s := playAll ks s) (by omega)
      refine ⟨congrArg (b :: ·) hcurrents, List.forall_mem_cons.2 ⟨⟨rfl, ?_⟩, hrest⟩⟩
      have hb : b < s.drafts.size := by omega
      change scope.handlers ⊆ (((s.edited b _).entering b).edited b _).handlersAt b
      rw [handlersAt_edited]
      · exact (handlersAt_guarded hb).symm ▸ List.Subset.refl _
      · exact fun _ => rfl

end Stroke

/-- The sites of a protected region: its body, its catches, and what its finally block runs. The
body has the blocks of all others as handlers, and the catches have that of the last. -/
structure Site.Protects (x inside : Site) (clauses : List Site) (final? : Option Site) : Prop where
  inner : x.inner = inside :: (clauses ++ final?.toList)
  homed : ∀ z ∈ inside :: clauses, z.Homed
  mem_inside : ∀ z ∈ clauses ++ final?.toList, z.start.current ∈ inside.scope.handlers
  mem_clause : ∀ clause ∈ clauses, ∀ z ∈ final?, z.start.current ∈ clause.scope.handlers

/-- Every part of a region has a site. -/
theorem Site.exists_protects {scope : Scope} {body : List Stmt} {catches : List (Catch Stmt)}
    {finally? : Option (List Stmt)} {stmts : List Stmt} {start : Lowering} :
    ∃ (inside : Site) (clauses : List Site) (final? : Option Site),
      Site.Protects ⟨scope, .protect body catches finally? :: stmts, start⟩ inside clauses final? ∧
        inside.stmts = body ∧ clauses.map Site.stmts = catches.map Catch.body ∧
        final?.map Site.stmts = finally? := by
  let n := start.drafts.size
  let region := Region.numbered n catches finally?
  let after := region.finally?.getD region.stop
  let s₁ := Stroke.playAll (Stroke.inside scope n body catches finally?) start
  let clauses := Stroke.sites (Stroke.catches (scope.inCatch region.finally?) after n catches) s₁
  let s₂ := Stroke.playAll (Stroke.catches (scope.inCatch region.finally?) after n catches) s₁
  let final? : Option Site :=
    finally?.map fun stmts => ⟨scope, stmts, s₂.entering (n + catches.length)⟩
  obtain ⟨inside, hinside, hscope, hbody, hhome⟩ :=
    Stroke.sites_inside scope body catches finally? start
  obtain ⟨hcurrents, hclauses⟩ :=
    Stroke.sites_catches (scope.inCatch region.finally?) after Stroke.size_inside (s := s₁)
  have hfinal : ∀ z ∈ final?, z.start.current ∈ region.finally?.toList := by
    intro z hz
    obtain ⟨stmts, hstmts, rfl⟩ := Option.map_eq_some_iff.1 hz
    exact Option.mem_toList.2 (Option.map_eq_some_iff.2 ⟨stmts, hstmts, rfl⟩)
  refine ⟨inside, clauses, final?, ⟨?_, ?_, fun z hz => ?_, fun clause hclause z hz => ?_⟩, hbody,
    ?_, ?_⟩
  · change Stroke.sites (Stroke.inside scope n body catches finally? ++ _ ++ _ ++ _) start = _
    rw [Stroke.sites_append, Stroke.sites_append, Stroke.sites_append, hinside,
      Stroke.playAll_append,
      Stroke.sites_finals]
    exact List.append_nil _
  · exact List.forall_mem_cons.2 ⟨hhome, fun z hz => (hclauses z hz).2⟩
  · rw [hscope]
    rcases List.mem_append.1 hz with hclause | hz
    · have hmem := List.mem_map_of_mem (f := fun z : Site => z.start.current) hclause
      rw [hcurrents] at hmem
      exact List.mem_append_left _ hmem
    · exact List.mem_append_right _ (hfinal z (Option.mem_toList.1 hz))
  · rw [(hclauses clause hclause).1]
    exact List.mem_append_right _ (hfinal z hz)
  · rw [Stroke.map_stmts_sites, Stroke.filterMap_inner?_catches, List.map_map]
    rfl
  · rw [Option.map_map]
    exact Option.map_id'

/-- A block lists another one as a handler. -/
def Handles (blocks : Array Block) (b h : BlockId) : Prop :=
  ∃ k, blocks[b]? = some k ∧ h ∈ k.handlers

/-- The handlers of a draft are those of its block. -/
theorem handles_of_mem_handlersAt {s : Lowering} {b h : BlockId} (hmem : h ∈ s.handlersAt b) :
    Handles s.blocks b h := by
  cases hd : s.drafts[b]? with
  | none => simp [handlersAt, hd] at hmem
  | some d =>
      rw [handlersAt, hd] at hmem
      exact ⟨⟨b, d.actions, d.edge?.getD (.ret none), d.handlers⟩, by simp [blocks, hd], hmem⟩

/-- What is within reach of a draft is within reach of its block. -/
theorem Lowering.Reaches.handles {s : Lowering} {b h : BlockId} (hreach : s.Reaches b h) :
    Relation.TransGen (Handles s.blocks) b h :=
  Relation.TransGen.mono (fun _ _ => handles_of_mem_handlersAt) _ _ hreach

/-- Wherever something is lowered at a site, at any depth, a throw may come to a block. -/
def Site.ThrowsTo (blocks : Array Block) (x : Site) (h : BlockId) : Prop :=
  ∀ y : Site, y.Within x → ∀ b, y.Touches b → Relation.TransGen (Handles blocks) b h

/-- Whatever is lowered at a site may throw to each handler of its scope. -/
theorem Site.Homed.throwsTo {stmts : List Stmt} {x : Site} {h : BlockId} (hhome : x.Homed)
    (hhandled : ∀ s ∈ nestedAll stmts, s.handled = true) (hx : x.Within (.root stmts))
    (hmem : h ∈ x.scope.handlers) : x.ThrowsTo (Stmt.blocks stmts) h := by
  intro y hy b hb
  have hsound : x.Sound := hx.sound (Site.sound_root stmts)
  have hreach : x.finish.Reaches b h :=
    hhome.reaches hsound (fun s hs => hhandled s (hx.nested hs)) hy hb h hmem
  exact (hx.keepsHandlers.reaches hreach).handles

/-- If each protected region has a catch or a finally block, then what is in the body of a region,
at any depth, may throw to its catch blocks and to its finally block, and what is in a catch to the
finally block. -/
theorem handlers_reached {stmts : List Stmt} (hhandled : ∀ s ∈ nestedAll stmts, s.handled = true)
    {x : Site} (hx : x.Within (.root stmts)) {body : List Stmt} {catches : List (Catch Stmt)}
    {finally? : Option (List Stmt)} {rest : List Stmt}
    (hprotect : x.stmts = .protect body catches finally? :: rest) :
    ∃ (inside : Site) (clauses : List Site) (final? : Option Site),
      x.inner = inside :: (clauses ++ final?.toList) ∧ inside.stmts = body ∧
        clauses.map Site.stmts = catches.map Catch.body ∧ final?.map Site.stmts = finally? ∧
        (∀ z ∈ x.inner, ∀ t ∈ nestedAll z.stmts, ∃ y : Site, y.Within z ∧ y.stmts.head? = some t) ∧
        (∀ z ∈ clauses ++ final?.toList, inside.ThrowsTo (Stmt.blocks stmts) z.start.current) ∧
        ∀ clause ∈ clauses, ∀ z ∈ final?, clause.ThrowsTo (Stmt.blocks stmts) z.start.current := by
  obtain ⟨scope, _, start⟩ := x
  subst hprotect
  obtain ⟨inside, clauses, final?, hsites, hbody, hclauses, hfinal⟩ := Site.exists_protects
  have hwithin : ∀ z ∈ inside :: (clauses ++ final?.toList), z.Within (.root stmts) := fun z hz =>
    (Site.Within.inner (hsites.inner ▸ hz) .refl).trans hx
  refine ⟨inside, clauses, final?, hsites.inner, hbody, hclauses, hfinal, ?_, ?_, ?_⟩
  · exact fun z _ t ht => Site.exists_within z.scope z.start ht
  · intro z hz
    exact (hsites.homed inside (List.mem_cons_self ..)).throwsTo hhandled
      (hwithin inside (List.mem_cons_self ..)) (hsites.mem_inside z hz)
  · intro clause hclause z hz
    exact (hsites.homed clause (List.mem_cons_of_mem _ hclause)).throwsTo hhandled
      (hwithin clause (List.mem_cons_of_mem _ (List.mem_append_left _ hclause)))
      (hsites.mem_clause clause hclause z hz)

namespace Sample

/-- A region without catches, in a loop, in a region with a catch and a finally block. -/
def attempts : List Stmt :=
  [.protect [.whileLoop 0 [.protect [.act (.eval 1)] [] (some [])]] [⟨[], none, [.ret none]⟩]
    (some [])]

end Sample

/-- In the sample, the innermost block may throw to the handlers of both regions. -/
theorem handlers_reached_attempts :
    (∀ s ∈ nestedAll Sample.attempts, s.handled = true) ∧
      Relation.TransGen (Handles (Stmt.blocks Sample.attempts)) 10 1 ∧
      Relation.TransGen (Handles (Stmt.blocks Sample.attempts)) 10 2 := by
  have hhandled : ∀ s ∈ nestedAll Sample.attempts, s.handled = true := by decide
  obtain ⟨inside, clauses, final?, hinner, -, hclauses, hfinal, -, hreach, -⟩ :=
    handlers_reached hhandled (x := .root Sample.attempts) .refl rfl
  obtain ⟨clause, rfl, -⟩ := List.map_eq_singleton_iff.1 hclauses
  obtain ⟨final, rfl, -⟩ := Option.map_eq_some_iff.1 hfinal
  have hdeep : ∃ y : Site, y.Within inside ∧ y.Touches 10 := by
    cases hinner
    refine ⟨_, .inner (List.mem_cons_self ..) (.inner (List.mem_cons_self ..) .refl), ?_, .inl ?_⟩
    · exact List.cons_ne_nil _ _
    · rfl
  obtain ⟨y, hy, hb⟩ := hdeep
  have hclause := hreach clause (by simp) y hy 10 hb
  have hfinally := hreach final (by simp) y hy 10 hb
  cases hinner
  exact ⟨hhandled, hclause, hfinally⟩

end FlowTyping
