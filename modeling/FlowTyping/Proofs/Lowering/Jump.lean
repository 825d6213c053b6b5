import FlowTyping.Proofs.Lowering.Open
import Mathlib.Data.List.Chain

/-!
# Jumps out of protected regions

A jump leads from its block straight to the block that its loop or `switch` set aside for it. So a
jump out of the body or of a catch of a protected region, to a loop around the region, leaves the
finally block of the region out, although what falls out of the body or the catch goes there.

Main statement: `jump_skips_finally`.
-/

namespace FlowTyping

open Lowering

/-- Control may pass from one block to another. -/
def Steps (blocks : Array Block) (b c : BlockId) : Prop :=
  ∃ k, blocks[b]? = some k ∧ c ∈ k.edge.successors

/-- Every path from a block to a target goes through another block. -/
def Separates (blocks : Array Block) (via b target : BlockId) : Prop :=
  ∀ path : List BlockId, path.IsChain (Steps blocks) → path.head? = some b →
    path.getLast? = some target → via ∈ path

/-- A step from one block to another one goes through no third. -/
theorem Steps.not_separates {blocks : Array Block} {via b target : BlockId}
    (h : Steps blocks b target) (hb : b ≠ via) (htarget : target ≠ via) :
    ¬Separates blocks via b target := by
  intro hseparates
  have hmem := hseparates [b, target] (List.isChain_pair.2 h) rfl rfl
  simp [hb.symm, htarget.symm] at hmem

/-! ### Jumps -/

/-- Where a jump leads. -/
def Scope.target? (scope : Scope) : Stmt → Option BlockId
  | .brk => scope.jumps?.map Jumps.onBreak
  | .cont => scope.jumps?.map Jumps.onContinue
  | _ => none

/-- A jump that has a target ends the current block, and goes on with dead code. -/
theorem Scope.script_of_target? {scope : Scope} {jump : Stmt} {target : BlockId}
    (h : scope.target? jump = some target) (n : Nat) :
    jump.script scope n = [.finish (.leave target), .fresh scope.handlers, .enter n] := by
  cases jump with
  | brk =>
      have hbreak : scope.jumps?.map Jumps.onBreak = some target := h
      rw [Stmt.script, hbreak]
      rfl
  | cont =>
      have hcontinue : scope.jumps?.map Jumps.onContinue = some target := h
      rw [Stmt.script, hcontinue]
      rfl
  | _ => cases h

/-- In a sound scope the target of a jump exists. -/
theorem Scope.Sound.target?_lt {scope : Scope} {n : Nat} {jump : Stmt} {target : Nat}
    (hs : scope.Sound n) (h : scope.target? jump = some target) : target < n := by
  cases jump with
  | brk =>
      obtain ⟨jumps, hjumps, rfl⟩ := Option.map_eq_some_iff.1 h
      exact (hs.jumps jumps hjumps).1
  | cont =>
      obtain ⟨jumps, hjumps, rfl⟩ := Option.map_eq_some_iff.1 h
      exact (hs.jumps jumps hjumps).2
  | _ => cases h

/-- A jump ends the block that is current at its site. -/
theorem Site.ended_of_jump {x : Site} {jump : Stmt} {target : BlockId}
    (hhead : x.stmts.head? = some jump) (htarget : x.scope.target? jump = some target)
    (hopen : x.start.IsOpen) : x.finish.Ended x.start.current (.leave target) := by
  obtain ⟨scope, stmts, start⟩ := x
  cases stmts with
  | nil => cases hhead
  | cons stmt rest =>
      cases hhead
      rw [finish_cons, Scope.script_of_target? htarget]
      apply ended_lowerAll
      exact (hopen.ended_closed (.leave target)).opened scope.handlers

/-! ### The blocks of a region -/

section Region

variable {scope : Scope} {body : List Stmt} {catches : List (Catch Stmt)}
  {finally? : Option (List Stmt)}
  {rest : List Stmt} {start : Lowering} {region : Region}

/-- To open blocks leaves the current one open. -/
theorem Stroke.playAll_opens (handlers : List BlockId) (count : Nat) (h : start.IsOpen) :
    (playAll (opens handlers count) start).IsOpen ∧
      (playAll (opens handlers count) start).current = start.current := by
  induction count generalizing start with
  | zero => exact ⟨h, rfl⟩
  | succ count ih => exact ih (h.opened handlers)

/-- The block before a region leads into it. -/
theorem Site.ended_of_protect (hregion : region = .numbered start.drafts.size catches finally?)
    (h : start.IsOpen) :
    (finish ⟨scope, .protect body catches finally? :: rest, start⟩).Ended start.current
      (.protect (region.stop + 1) region.catches region.finally? region.stop) := by
  subst hregion
  rw [finish_cons]
  apply ended_lowerAll
  simp only [Stmt.script, Stroke.inside, List.append_assoc, Stroke.playAll_append]
  obtain ⟨hopen, hcurrent⟩ := Stroke.playAll_opens scope.handlers catches.length h
  obtain ⟨hopen', hcurrent'⟩ := Stroke.playAll_opens scope.handlers finally?.toList.length hopen
  rw [← hcurrent, ← hcurrent']
  have hkeep (ks : List Stroke) {s : Lowering} {b : BlockId} {edge : Edge} (hs : s.Ended b edge) :
      (Stroke.playAll ks s).Ended b edge :=
    Stroke.ended_playAll hs fun scope stmts _ _ hs' => ended_lowerAll scope stmts hs'
  apply hkeep
  apply hkeep
  apply hkeep
  apply hkeep [.enter _, .body _ _, .finish _]
  exact ((hopen'.opened _).opened _).ended_closed _

/-- The blocks in which the parts of a region are lowered. -/
theorem Site.map_current_inner (hregion : region = .numbered start.drafts.size catches finally?) :
    (inner ⟨scope, .protect body catches finally? :: rest, start⟩).map (fun z => z.start.current) =
      (region.stop + 1) :: (region.catches ++ region.finally?.toList) := by
  have hinside :
    (Stroke.sites (Stroke.inside scope start.drafts.size body catches finally?) start).map
      (fun z => z.start.current) = [region.stop + 1] := by
    rw [Stroke.inside, Stroke.sites_append, Stroke.sites_append, Stroke.sites_opens,
      Stroke.sites_opens,
      hregion]
    rfl
  have hfinal (s : Lowering) : (Stroke.sites (Stroke.finals scope region.stop
      (start.drafts.size + catches.length) finally?) s).map (fun z => z.start.current) =
        region.finally?.toList := by
    rw [hregion]
    cases finally? <;> rfl
  subst hregion
  simp only [inner_cons, Stmt.script, Stroke.sites_append, List.map_append, hinside, hfinal,
    (Stroke.sites_catches _ _ Stroke.size_inside).1]
  simp [Stroke.sites, Stroke.inner?, Region.numbered]

/-- The parts of a region with a finally block, and the numbers of their blocks. -/
theorem Site.exists_numbered {final : List Stmt} :
    ∃ (inside : Site) (clauses : List Site) (last : Site),
      Site.Protects ⟨scope, .protect body catches (some final) :: rest, start⟩ inside clauses
        (some last) ∧
        inside.stmts = body ∧ clauses.map Site.stmts = catches.map Catch.body ∧ last.stmts = final ∧
        inside.start.current = start.drafts.size + catches.length + 2 ∧
        clauses.map (fun z => z.start.current) = List.range' start.drafts.size catches.length ∧
        last.start.current = start.drafts.size + catches.length := by
  obtain ⟨inside, clauses, final?, hsites, hbody, hclauses, hfinal⟩ :=
    @Site.exists_protects scope body catches (some final) rest start
  obtain ⟨last, rfl, hlast⟩ := Option.map_eq_some_iff.1 hfinal
  have hinner : inner ⟨scope, .protect body catches (some final) :: rest, start⟩ =
      inside :: (clauses ++ [last]) := hsites.inner
  have hcurrents := @Site.map_current_inner scope body catches (some final) rest start _ rfl
  rw [hinner, List.map_cons, List.map_append] at hcurrents
  obtain ⟨hinside, htail⟩ := List.cons.inj hcurrents
  obtain ⟨hcatches, hblock⟩ := List.append_inj' htail rfl
  exact ⟨inside, clauses, last, hsites, hbody, hclauses, hlast, hinside, hcatches,
    (List.cons.inj hblock).1⟩

/-- A region with a finally block is entered from the block before it, and each of its parts is
lowered in a block of its own, which is opened together with the others. -/
theorem Site.exists_region {p : Site} (hopen : p.start.IsOpen) (hsound : p.Sound)
    {final : List Stmt} (hprotect : p.stmts = .protect body catches (some final) :: rest) :
    ∃ (inside : Site) (clauses : List Site) (last : Site),
      p.inner = inside :: (clauses ++ [last]) ∧ inside.stmts = body ∧
        clauses.map Site.stmts = catches.map Catch.body ∧ last.stmts = final ∧
        (∃ stop, p.finish.Ended p.start.current (.protect inside.start.current
          (clauses.map fun z => z.start.current) (some last.start.current) stop)) ∧
        p.start.drafts.size ≤ last.start.current ∧
        ∀ z ∈ inside :: clauses, z.start.current ≠ last.start.current ∧
          last.start.current < z.start.drafts.size := by
  obtain ⟨scope, _, start⟩ := p
  subst hprotect
  obtain ⟨inside, clauses, last, hsites, hbody, hclauses, hlast, hinside, hcatches, hcurrent⟩ :=
    @Site.exists_numbered scope body catches rest start final
  refine ⟨inside, clauses, last, hsites.inner, hbody, hclauses, hlast,
    ⟨start.drafts.size + catches.length + 1, ?_⟩, ?_, fun z hz => ⟨?_, ?_⟩⟩
  · rw [hinside, hcatches, hcurrent]
    exact Site.ended_of_protect rfl hopen
  · rw [hcurrent]
    exact Nat.le_add_right ..
  · rw [hcurrent]
    rcases List.mem_cons.1 hz with rfl | hclause
    · rw [hinside]
      exact Nat.ne_of_gt (by omega)
    · have hrange : z.start.current ∈ List.range' start.drafts.size catches.length :=
        hcatches ▸ List.mem_map_of_mem (f := fun z : Site => z.start.current) hclause
      exact Nat.ne_of_lt (List.mem_range'_1.1 hrange).2
  · have hmem : last.start.current ∈ z.scope.handlers := by
      rcases List.mem_cons.1 hz with rfl | hclause
      · exact hsites.mem_inside last (List.mem_append_right _ List.mem_cons_self)
      · exact hsites.mem_clause z hclause last rfl
    have hpart : z ∈ inside :: (clauses ++ [last]) := by
      rw [← List.cons_append]
      exact List.mem_append_left _ hz
    exact (hsound.inner (hsites.inner ▸ hpart)).scope.handlers _ hmem

end Region

/-- Every jump out of the body or a catch of a region with a finally block, to where such a jump
would lead from before the region, goes there directly, so that there is a path without the finally
block. -/
theorem jump_skips_finally {stmts : List Stmt} {p : Site} (hp : p.Within (.root stmts))
    {body : List Stmt} {catches : List (Catch Stmt)} {final rest : List Stmt}
    (hprotect : p.stmts = .protect body catches (some final) :: rest) :
    ∃ (inside : Site) (clauses : List Site) (last : Site),
      p.inner = inside :: (clauses ++ [last]) ∧ inside.stmts = body ∧
        clauses.map Site.stmts = catches.map Catch.body ∧ last.stmts = final ∧
        (∃ block stop, (Stmt.blocks stmts)[p.start.current]? = some block ∧
          block.edge = .protect inside.start.current (clauses.map fun z => z.start.current)
            (some last.start.current) stop) ∧
        ∀ z ∈ inside :: clauses, ∀ x : Site, x.Within z → ∀ jump target,
          x.stmts.head? = some jump → x.scope.target? jump = some target →
          p.scope.target? jump = some target →
          (∃ block, (Stmt.blocks stmts)[x.start.current]? = some block ∧
            block.edge = .leave target) ∧
            ¬Separates (Stmt.blocks stmts) last.start.current x.start.current target := by
  have hopen : p.start.IsOpen := hp.isOpen (Site.isOpen_root stmts)
  have hsound : p.Sound := hp.sound (Site.sound_root stmts)
  obtain ⟨inside, clauses, last, hinner, hbody, hclauses, hfinal, ⟨stop, hended⟩, hsize, hparts⟩ :=
    Site.exists_region hopen hsound hprotect
  obtain ⟨block, hblock, hedge⟩ := (hp.ended hended).block
  refine ⟨inside, clauses, last, hinner, hbody, hclauses, hfinal, ⟨block, stop, hblock, hedge⟩, ?_⟩
  intro z hz x hx jump target hhead htarget hout
  have hzp : z ∈ p.inner := by
    rw [hinner, ← List.cons_append]
    exact List.mem_append_left _ hz
  have hxp : x.Within p := .inner hzp hx
  have hleave := hxp.ended (Site.ended_of_jump hhead htarget (hxp.isOpen hopen))
  obtain ⟨block, hblock, hedge⟩ := (hp.ended hleave).block
  refine ⟨⟨block, hblock, hedge⟩, ?_⟩
  obtain ⟨hne, hlt⟩ := hparts z hz
  have hstep : Steps (Stmt.blocks stmts) x.start.current target :=
    ⟨block, hblock, hedge ▸ List.mem_cons_self⟩
  apply hstep.not_separates
  · rcases hx.framed.current with heq | hge
    · rwa [heq]
    · exact Nat.ne_of_gt (Nat.lt_of_lt_of_le hlt hge)
  · exact Nat.ne_of_lt (Nat.lt_of_lt_of_le (hsound.scope.target?_lt hout) hsize)

namespace Sample

/-- In a loop, a region that is left from its body and from its catch. -/
def exits : List Stmt :=
  [.whileLoop 0 [.protect [.brk] [⟨[], none, [.cont]⟩] (some [])]]

end Sample

/-- In the sample, a jump out of the body and one out of a catch miss the finally block. -/
theorem jump_skips_finally_exits :
    ¬Separates (Stmt.blocks Sample.exits) 5 7 3 ∧ ¬Separates (Stmt.blocks Sample.exits) 5 4 1 := by
  obtain ⟨inside, clauses, last, hinner, -, hclauses, -, -, hjumps⟩ :=
    @jump_skips_finally Sample.exits _ (.inner (List.mem_cons_self ..) .refl) _ _ _ _ rfl
  obtain ⟨clause, rfl, -⟩ := List.map_eq_singleton_iff.1 hclauses
  cases hinner
  constructor
  · exact (hjumps _ (List.mem_cons_self ..) _ .refl .brk 3 rfl rfl rfl).2
  · exact (hjumps _ (List.mem_cons_of_mem _ (List.mem_cons_self ..)) _ .refl .cont 1 rfl rfl rfl).2

namespace Sample

/-- A loop that is left from a region without catches. -/
def quits : List Stmt :=
  [.whileLoop 0 [.protect [.brk] [] (some [])]]

end Sample

/-- The body of the region leaves for the end of the loop, and not for the finally block. -/
theorem not_separates_quits :
    (Stmt.blocks Sample.quits)[2]?.map Block.edge = some (.protect 6 [] (some 4) 5) ∧
      (Stmt.blocks Sample.quits)[6]?.map Block.edge = some (.leave 3) ∧
      ¬Separates (Stmt.blocks Sample.quits) 4 6 3 := by
  have hleave : (Stmt.blocks Sample.quits)[6]?.map Block.edge = some (.leave 3) := by decide +kernel
  refine ⟨by decide +kernel, hleave, ?_⟩
  obtain ⟨block, hblock, hedge⟩ := Option.map_eq_some_iff.1 hleave
  have hstep : Steps (Stmt.blocks Sample.quits) 6 3 := ⟨block, hblock, hedge ▸ List.mem_cons_self⟩
  exact hstep.not_separates (by decide) (by decide)

end FlowTyping
