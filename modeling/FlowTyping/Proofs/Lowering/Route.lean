import FlowTyping.Proofs.Lowering.Trace
import Mathlib.Data.List.Forall2

/-!
# Code that realizes a behaviour

`Realizes blocks jumps? p q A` says that the blocks between two points do exactly what `A` says: a
run from `p` on is a run of `A` that goes on at `q`, at the target of a jump, or nowhere. There is
one lemma for each way to compose behaviours. Runs are counted in steps, so that a loop can be taken
apart round by round.
-/

namespace FlowTyping

open Behaviour

/-- A place in a block: so many of its actions are done. -/
structure Point where
  block : BlockId
  done : Nat

namespace Point

/-- The next thing to do is an action. -/
def Acts (blocks : Array Block) (p : Point) (a : Action) : Prop :=
  ∃ block, blocks[p.block]? = some block ∧ block.actions[p.done]? = some a

/-- All actions are done, and the block ends in an edge. -/
def Ends (blocks : Array Block) (p : Point) (edge : Edge) : Prop :=
  ∃ block, blocks[p.block]? = some block ∧ block.actions.length = p.done ∧ block.edge = edge

/-- The point after one more action of the block. -/
def next (p : Point) : Point :=
  ⟨p.block, p.done + 1⟩

variable {blocks : Array Block} {p : Point} {a a' : Action} {edge edge' : Edge}

/-- At most one action comes next. -/
theorem Acts.unique (h : p.Acts blocks a) (h' : p.Acts blocks a') : a = a' := by
  obtain ⟨block, hblock, ha⟩ := h
  obtain ⟨block', hblock', ha'⟩ := h'
  rw [hblock] at hblock'
  cases hblock'
  rw [ha] at ha'
  exact Option.some.inj ha'

theorem Ends.unique (h : p.Ends blocks edge) (h' : p.Ends blocks edge') : edge = edge' := by
  obtain ⟨block, hblock, -, hedge⟩ := h
  obtain ⟨block', hblock', -, hedge'⟩ := h'
  rw [hblock] at hblock'
  cases hblock'
  exact hedge.symm.trans hedge'

/-- Where an action comes next, the block does not end. -/
theorem Acts.not_ends (h : p.Acts blocks a) : ¬ p.Ends blocks edge := by
  rintro ⟨block', hblock', hdone, -⟩
  obtain ⟨block, hblock, ha⟩ := h
  rw [hblock] at hblock'
  cases hblock'
  rw [List.getElem?_eq_none (Nat.le_of_eq hdone)] at ha
  cases ha

end Point

/-- A run of so many steps from a point to an end, with its trace. -/
inductive Route (blocks : Array Block) : Nat → Point → Trace → Ending → Prop
  | act {n : Nat} {p : Point} {a : Action} {t : Trace} {e : Ending} : p.Acts blocks a →
      Route blocks n p.next t e → Route blocks (n + 1) p (.act a :: t) e
  | step {n : Nat} {p : Point} {edge : Edge} {b : BlockId} {t t' : Trace} {e : Ending} :
      p.Ends blocks edge → edge.Leads t b → Route blocks n ⟨b, 0⟩ t' e →
      Route blocks (n + 1) p (t ++ t') e
  | stop {n : Nat} {p : Point} {edge : Edge} {e : Ending} : p.Ends blocks edge →
      edge.ending? = some e → Route blocks (n + 1) p [] e

namespace Route

variable {blocks : Array Block} {n : Nat} {p : Point} {t : Trace} {e : Ending}

/-- A route through an action goes on after it. -/
theorem exists_of_acts {a : Action} (h : Route blocks n p t e) (ha : p.Acts blocks a) :
    ∃ m t', n = m + 1 ∧ t = .act a :: t' ∧ Route blocks m p.next t' e := by
  cases h with
  | act ha' hrest =>
      cases ha.unique ha'
      exact ⟨_, _, rfl, rfl, hrest⟩
  | step hends | stop hends => exact absurd hends ha.not_ends

/-- A route through the end of a block follows its edge. -/
theorem exists_of_ends {edge : Edge} (h : Route blocks n p t e) (hends : p.Ends blocks edge)
    (hnone : edge.ending? = none) :
    ∃ m t₁ b t₂, n = m + 1 ∧ t = t₁ ++ t₂ ∧ edge.Leads t₁ b ∧ Route blocks m ⟨b, 0⟩ t₂ e := by
  cases h with
  | act ha => exact absurd hends ha.not_ends
  | step hends' hleads hrest =>
      cases hends.unique hends'
      exact ⟨_, _, _, _, rfl, rfl, hleads, hrest⟩
  | stop hends' hending =>
      cases hends.unique hends'
      rw [hnone] at hending
      cases hending

/-- Where the code ends, a route ends. -/
theorem eq_of_ending {edge : Edge} {e' : Ending} (h : Route blocks n p t e)
    (hends : p.Ends blocks edge) (hsome : edge.ending? = some e') : t = [] ∧ e = e' := by
  cases h with
  | act ha => exact absurd hends ha.not_ends
  | step hends' hleads =>
      cases hends.unique hends'
      cases hleads <;> cases hsome
  | stop hends' hending =>
      cases hends.unique hends'
      rw [hsome] at hending
      cases hending
      exact ⟨rfl, rfl⟩

/-- The actions of a block that are still to do come first. -/
theorem through {b : BlockId} {block : Block} (hblock : blocks[b]? = some block)
    (h : Route blocks n ⟨b, block.actions.length⟩ t e) :
    ∃ m, Route blocks m ⟨b, 0⟩ (block.actions.map .act ++ t) e := by
  -- Backwards over the actions, the last one first.
  suffices hall : ∀ k ≤ block.actions.length,
      ∃ m, Route blocks m ⟨b, block.actions.length - k⟩
        ((block.actions.drop (block.actions.length - k)).map .act ++ t) e by
    simpa using hall block.actions.length (Nat.le_refl _)
  intro k hk
  induction k with
  | zero => exact ⟨n, by simpa using h⟩
  | succ k ih =>
      obtain ⟨m, hm⟩ := ih (by omega)
      have hlt : block.actions.length - (k + 1) < block.actions.length := by omega
      have hsucc : block.actions.length - (k + 1) + 1 = block.actions.length - k := by omega
      refine ⟨m + 1, ?_⟩
      rw [List.drop_eq_getElem_cons hlt, hsucc]
      refine .act ⟨block, hblock, List.getElem?_eq_getElem hlt⟩ ?_
      rw [Point.next, hsucc]
      exact hm

/-- What is left of a path from the middle of its first block on. -/
theorem path (h : Route blocks n p t e) {block : Block} (hblock : blocks[p.block]? = some block) :
    Path blocks p.block ((block.actions.take p.done).map .act ++ t) e := by
  induction h generalizing block with
  | act ha _ ih =>
      obtain ⟨block', hblock', ha⟩ := ha
      cases hblock.symm.trans hblock'
      have hpath := ih hblock
      rw [Point.next, List.take_add_one, ha] at hpath
      simpa using hpath
  | @step n p edge b t t' e hends hleads hrest ih =>
      obtain ⟨block', hblock', hdone, rfl⟩ := hends
      cases hblock.symm.trans hblock'
      obtain ⟨next, hnext⟩ : ∃ next, blocks[b]? = some next := by
        cases hrest with
        | act h | step h | stop h => exact h.imp fun _ h => h.1
      rw [List.take_of_length_le (Nat.le_of_eq hdone), ← List.append_assoc]
      exact .step hblock hleads (by simpa using ih hnext)
  | stop hends hending =>
      obtain ⟨block', hblock', hdone, rfl⟩ := hends
      cases hblock.symm.trans hblock'
      rw [List.take_of_length_le (Nat.le_of_eq hdone), List.append_nil]
      exact .stop hblock hending

end Route

/-- Every path is a route of some length. -/
theorem Path.route {blocks : Array Block} {b : BlockId} {t : Trace} {e : Ending}
    (h : Path blocks b t e) : ∃ n, Route blocks n ⟨b, 0⟩ t e := by
  induction h with
  | @stop b block e hblock hending =>
      have hstop : Route blocks 1 ⟨b, block.actions.length⟩ [] e :=
        .stop ⟨block, hblock, rfl, rfl⟩ hending
      simpa using hstop.through hblock
  | step hblock hleads _ ih =>
      obtain ⟨n, hn⟩ := ih
      rw [List.append_assoc]
      exact (Route.step ⟨_, hblock, rfl, rfl⟩ hleads hn).through hblock

/-- Paths are the runs from the start of a block. -/
theorem path_iff {blocks : Array Block} {b : BlockId} {t : Trace} {e : Ending} :
    Path blocks b t e ↔ ∃ n, Route blocks n ⟨b, 0⟩ t e := by
  constructor
  · exact Path.route
  · rintro ⟨n, h⟩
    obtain ⟨block, hblock⟩ : ∃ block, blocks[b]? = some block := by
      cases h with
      | act h | step h | stop h => exact h.imp fun _ h => h.1
    simpa using h.path hblock

namespace Behaviour

variable {A : Behaviour} {t t₀ : Trace} {c : Completion}

/-- To do something for certain and then something else. -/
theorem seq_just_iff : Seq (Just t₀ .normal) A t c ↔ ∃ t', t = t₀ ++ t' ∧ A t' c := by
  constructor
  · intro h
    cases h with
    | next h hA =>
        obtain ⟨rfl, -⟩ := h
        exact ⟨_, rfl, hA⟩
    | early h hc => exact absurd h.2 hc
  · rintro ⟨t', rfl, hA⟩
    exact .next ⟨rfl, rfl⟩ hA

theorem seq_nil_iff : Seq (Just [] .normal) A t c ↔ A t c := by
  simp [seq_just_iff]

theorem seq_just_nil_iff : Seq A (Just [] .normal) t c ↔ A t c := by
  constructor
  · intro h
    cases h with
    | next hA h =>
        obtain ⟨rfl, rfl⟩ := h
        rwa [List.append_nil]
    | early hA _ => exact hA
  · intro h
    by_cases hc : c = .normal
    · subst hc
      have hseq : Seq A (Just [] .normal) (t ++ []) .normal := .next h ⟨rfl, rfl⟩
      rwa [List.append_nil] at hseq
    · exact .early h hc

end Behaviour

namespace Edge

variable {b b' : BlockId} {t : Trace}

/-- A jump leads to one block, without an event. -/
theorem goto_leads_iff : (goto b).Leads t b' ↔ t = [] ∧ b' = b := by
  constructor
  · intro h
    cases h
    exact ⟨rfl, rfl⟩
  · rintro ⟨rfl, rfl⟩
    exact .goto b'

theorem iterate_leads_iff {collection : ExprId} {byRef : Bool} :
    (iterate collection byRef b).Leads t b' ↔ t = [.iterate collection byRef] ∧ b' = b := by
  constructor
  · intro h
    cases h
    exact ⟨rfl, rfl⟩
  · rintro ⟨rfl, rfl⟩
    exact .iterate collection byRef b'

/-- A `switch` has a default arm just if an arm has no label. -/
theorem hasDefault_eq_false_iff {arms : List Arm} :
    hasDefault arms = false ↔ none ∉ arms.map Arm.label? := by
  simp [hasDefault]

end Edge

namespace Head

/-- The edge at the head of a loop. -/
def edge (body stop : BlockId) : Head → Edge
  | .test cond => .branch cond body stop
  | .always => .goto body
  | .advance collection key? value byRef => .advance collection key? value byRef body stop

theorem ending?_edge (head : Head) (body stop : BlockId) :
    (head.edge body stop).ending? = none := by
  cases head <;> rfl

theorem leads_onRound (head : Head) (body stop : BlockId) :
    (head.edge body stop).Leads head.onRound body := by
  cases head <;> constructor

theorem leads_onStop {head : Head} {t : Trace} (h : head.onStop? = some t) (body stop : BlockId) :
    (head.edge body stop).Leads t stop := by
  cases head <;> cases h <;> constructor

/-- The edge of a loop goes on with a round or leaves the loop. -/
theorem eq_of_leads {head : Head} {body stop b : BlockId} {t : Trace}
    (h : (head.edge body stop).Leads t b) :
    t = head.onRound ∧ b = body ∨ head.onStop? = some t ∧ b = stop := by
  cases head with
  | test =>
      cases h with
      | ifTrue => exact .inl ⟨rfl, rfl⟩
      | ifFalse => exact .inr ⟨rfl, rfl⟩
  | always =>
      cases h
      exact .inl ⟨rfl, rfl⟩
  | advance =>
      cases h with
      | more => exact .inl ⟨rfl, rfl⟩
      | done => exact .inr ⟨rfl, rfl⟩

end Head

/-- What comes after a jump. Without a target, the run returns without a value. -/
def Follows (blocks : Array Block) (n : Nat) (target? : Option BlockId) (t : Trace) (e : Ending) :
    Prop :=
  match target? with
  | some b => Route blocks n ⟨b, 0⟩ t e
  | none => t = [] ∧ e = .ret none

/-- What comes after a piece of code that ends in some way, where `q` is its normal end. -/
def After (blocks : Array Block) (jumps? : Option Jumps) (q : Point) (n : Nat) (t : Trace)
    (e : Ending) : Completion → Prop
  | .normal => Route blocks n q t e
  | .brk => Follows blocks n (jumps?.map Jumps.onBreak) t e
  | .cont => Follows blocks n (jumps?.map Jumps.onContinue) t e
  | .stop e' => t = [] ∧ e = e'

/-- The code between two points does what a behaviour says, and nothing else. -/
structure Realizes (blocks : Array Block) (jumps? : Option Jumps) (p q : Point) (A : Behaviour) :
    Prop where
  complete : ∀ {t c n t' e}, A t c → After blocks jumps? q n t' e c →
    ∃ m, Route blocks m p (t ++ t') e
  sound : ∀ {n t e}, Route blocks n p t e →
    ∃ t₁ c m t₂, A t₁ c ∧ After blocks jumps? q m t₂ e c ∧ m ≤ n ∧ t = t₁ ++ t₂

namespace Realizes

variable {blocks : Array Block} {jumps? : Option Jumps} {p q r : Point} {A B : Behaviour}

/-- Only what is done counts, not how it is said. -/
theorem congr (h : Realizes blocks jumps? p q A) (hAB : ∀ t c, A t c ↔ B t c) :
    Realizes blocks jumps? p q B where
  complete hB hafter := h.complete ((hAB _ _).2 hB) hafter
  sound hroute := by
    obtain ⟨t₁, c, m, t₂, hA, hrest⟩ := h.sound hroute
    exact ⟨t₁, c, m, t₂, (hAB _ _).1 hA, hrest⟩

/-- No code does nothing. -/
theorem refl (p : Point) : Realizes blocks jumps? p p (Just [] .normal) where
  complete := by
    rintro t c n t' e ⟨rfl, rfl⟩ hafter
    exact ⟨n, hafter⟩
  sound {n t e} hroute := ⟨[], .normal, n, t, ⟨rfl, rfl⟩, hroute, Nat.le_refl n, rfl⟩

/-- An action is done on the way to the next point. -/
theorem act {a : Action} (ha : p.Acts blocks a) :
    Realizes blocks jumps? p p.next (Just [.act a] .normal) where
  complete := by
    rintro t c n t' e ⟨rfl, rfl⟩ hafter
    exact ⟨n + 1, .act ha hafter⟩
  sound hroute := by
    obtain ⟨m, t', rfl, rfl, hrest⟩ := hroute.exists_of_acts ha
    exact ⟨_, _, m, t', ⟨rfl, rfl⟩, hrest, Nat.le_succ m, rfl⟩

/-- Code that goes on with other code does the one after the other. -/
theorem seq (hA : Realizes blocks jumps? p q A) (hB : Realizes blocks jumps? q r B) :
    Realizes blocks jumps? p r (Seq A B) where
  complete := by
    rintro t c n t' e hAB hafter
    cases hAB with
    | next ha hb =>
        obtain ⟨m, hm⟩ := hB.complete hb hafter
        rw [List.append_assoc]
        exact hA.complete ha hm
    | early ha hc =>
        refine hA.complete ha (n := n) ?_
        cases c with
        | normal => exact absurd rfl hc
        | brk | cont | stop => exact hafter
  sound hroute := by
    obtain ⟨t₁, c, m, t₂, ha, hafter, hm, rfl⟩ := hA.sound hroute
    cases c with
    | normal =>
        obtain ⟨t₃, c, k, t₄, hb, hafter', hk, rfl⟩ := hB.sound hafter
        exact ⟨_, c, k, t₄, .next ha hb, hafter', Nat.le_trans hk hm, (List.append_assoc ..).symm⟩
    | brk | cont | stop =>
        exact ⟨t₁, _, m, t₂, .early ha (by nofun), hafter, hm, rfl⟩

/-- An edge at which a behaviour splits up into those from the blocks on that it leads to. -/
theorem choose {edge : Edge} (hends : p.Ends blocks edge) (hnone : edge.ending? = none)
    (hout : ∀ {t b}, edge.Leads t b → ∃ B, Realizes blocks jumps? ⟨b, 0⟩ q B ∧
      ∀ {t' c}, B t' c → A (t ++ t') c)
    (hin : ∀ {t c}, A t c → ∃ t₁ b B t₂, edge.Leads t₁ b ∧ Realizes blocks jumps? ⟨b, 0⟩ q B ∧
      B t₂ c ∧ t = t₁ ++ t₂) : Realizes blocks jumps? p q A where
  complete ha hafter := by
    obtain ⟨t₁, b, B, t₂, hleads, hB, hb, rfl⟩ := hin ha
    obtain ⟨m, hm⟩ := hB.complete hb hafter
    rw [List.append_assoc]
    exact ⟨m + 1, .step hends hleads hm⟩
  sound hroute := by
    obtain ⟨m, t₁, b, t₂, rfl, rfl, hleads, hrest⟩ := hroute.exists_of_ends hends hnone
    obtain ⟨B, hB, hBA⟩ := hout hleads
    obtain ⟨t₃, c, k, t₄, hb, hafter, hk, rfl⟩ := hB.sound hrest
    exact ⟨_, c, k, t₄, hBA hb, hafter, Nat.le_trans hk (Nat.le_succ m),
      (List.append_assoc ..).symm⟩

/-- An edge that leads to one block only. -/
theorem move {edge : Edge} {t : Trace} {b : BlockId} (hends : p.Ends blocks edge)
    (hleads : ∀ {t' b'}, edge.Leads t' b' ↔ t' = t ∧ b' = b) (hnone : edge.ending? = none) :
    Realizes blocks jumps? p ⟨b, 0⟩ (Just t .normal) := by
  refine choose hends hnone ?_ ?_
  · intro t' b' h
    obtain ⟨rfl, rfl⟩ := hleads.1 h
    refine ⟨_, .refl _, ?_⟩
    rintro t₁ c ⟨rfl, rfl⟩
    exact ⟨List.append_nil _, rfl⟩
  · rintro t' c ⟨rfl, rfl⟩
    exact ⟨t', b, _, [], hleads.2 ⟨rfl, rfl⟩, .refl _, ⟨rfl, rfl⟩, (List.append_nil _).symm⟩

/-- Code that goes on somewhere else without doing anything there. -/
theorem goto {b : BlockId} (h : Realizes blocks jumps? p q A) (hends : q.Ends blocks (.goto b)) :
    Realizes blocks jumps? p ⟨b, 0⟩ A :=
  (h.seq (move hends Edge.goto_leads_iff rfl)).congr fun _ _ => seq_just_nil_iff

/-- Code that something leads to without doing anything. -/
theorem of_goto {b : BlockId} (hends : p.Ends blocks (.goto b))
    (h : Realizes blocks jumps? ⟨b, 0⟩ q A) : Realizes blocks jumps? p q A :=
  ((move hends Edge.goto_leads_iff rfl).seq h).congr fun _ _ => seq_nil_iff

/-- Where the code ends, only the ending is seen. -/
theorem stop {edge : Edge} {e : Ending} (hends : p.Ends blocks edge)
    (hending : edge.ending? = some e) : Realizes blocks jumps? p q (Just [] (.stop e)) where
  complete := by
    rintro t c n t' e' ⟨rfl, rfl⟩ ⟨rfl, rfl⟩
    exact ⟨1, .stop hends hending⟩
  sound {n t e'} hroute := by
    obtain ⟨rfl, rfl⟩ := hroute.eq_of_ending hends hending
    exact ⟨[], _, n, [], ⟨rfl, rfl⟩, ⟨rfl, rfl⟩, Nat.le_refl n, rfl⟩

/-- A jump. Where there is no target, the block was left open. -/
theorem jump {target? : Option BlockId} {c : Completion}
    (hends : p.Ends blocks ((target?.map Edge.leave).getD (.ret none)))
    (hafter : ∀ {n t e}, After blocks jumps? q n t e c ↔ Follows blocks n target? t e) :
    Realizes blocks jumps? p q (Just [] c) := by
  cases target? with
  | none =>
      refine ⟨?_, ?_⟩
      · rintro t c' n t' e ⟨rfl, rfl⟩ h
        obtain ⟨rfl, rfl⟩ := hafter.1 h
        exact ⟨1, .stop hends rfl⟩
      · intro n t e hroute
        exact ⟨[], c, n, t, ⟨rfl, rfl⟩, hafter.2 (hroute.eq_of_ending hends rfl),
          Nat.le_refl n, rfl⟩
  | some b =>
      refine ⟨?_, ?_⟩
      · rintro t c' n t' e ⟨rfl, rfl⟩ h
        exact ⟨n + 1, .step hends (.leave b) (hafter.1 h)⟩
      · intro n t e hroute
        obtain ⟨m, t₁, b', t₂, rfl, rfl, hleads, hrest⟩ := hroute.exists_of_ends hends rfl
        cases hleads
        exact ⟨[], c, m, t₂, ⟨rfl, rfl⟩, hafter.2 hrest, Nat.le_succ m, rfl⟩

/-- A branch does what one of the two sides does, after the test with this outcome. -/
theorem ifElse {cond : ExprId} {b b' : BlockId} (hends : p.Ends blocks (.branch cond b b'))
    (hA : Realizes blocks jumps? ⟨b, 0⟩ q A) (hB : Realizes blocks jumps? ⟨b', 0⟩ q B) :
    Realizes blocks jumps? p q (Either (Seq (Just [.test cond true] .normal) A)
      (Seq (Just [.test cond false] .normal) B)) := by
  refine choose hends rfl ?_ ?_
  · intro t b₁ h
    cases h with
    | ifTrue => exact ⟨A, hA, fun h => .inl (.next ⟨rfl, rfl⟩ h)⟩
    | ifFalse => exact ⟨B, hB, fun h => .inr (.next ⟨rfl, rfl⟩ h)⟩
  · rintro t c (h | h) <;> obtain ⟨t', rfl, h'⟩ := seq_just_iff.1 h
    · exact ⟨_, b, A, t', .ifTrue .., hA, h', rfl⟩
    · exact ⟨_, b', B, t', .ifFalse .., hB, h', rfl⟩

section Loops

variable {head : Head} {body : Behaviour} {step : Trace} {header start next stop : BlockId}

/-- A loop from the start of a round on, given the code of the body, of what follows it, and of the
head. -/
theorem rounds (hhead : Point.Ends blocks ⟨header, 0⟩ (head.edge start stop))
    (hbody : Realizes blocks (some ⟨stop, next⟩) ⟨start, 0⟩ ⟨next, 0⟩ body)
    (hstep : Realizes blocks jumps? ⟨next, 0⟩ ⟨header, 0⟩ (Just step .normal)) :
    Realizes blocks jumps? ⟨start, 0⟩ ⟨stop, 0⟩ (Rounds head body step) where
  complete := by
    intro t c n t' e hrounds
    have hturn : ∀ {t₁ c₁ t₂ b t₃ k}, body t₁ c₁ → c₁ = .normal ∨ c₁ = .cont →
        (head.edge start stop).Leads t₂ b → Route blocks k ⟨b, 0⟩ t₃ e →
        ∃ m, Route blocks m ⟨start, 0⟩ (t₁ ++ step ++ t₂ ++ t₃) e := by
      intro t₁ c₁ t₂ b t₃ k hb hc hleads hroute
      obtain ⟨m, hm⟩ := hstep.complete ⟨rfl, rfl⟩ (Route.step hhead hleads hroute)
      simp only [List.append_assoc]
      rcases hc with rfl | rfl
      · exact hbody.complete hb hm
      · exact hbody.complete hb hm
    induction hrounds generalizing n t' with
    | brk hb => exact fun hafter => hbody.complete hb hafter
    | stop hb => exact fun hafter => hbody.complete (n := n) hb hafter
    | last hb hc hstop =>
        exact fun hafter => hturn hb hc (Head.leads_onStop hstop start stop) hafter
    | again hb hc _ ih =>
        intro hafter
        obtain ⟨m, hm⟩ := ih hafter
        rw [List.append_assoc]
        exact hturn hb hc (head.leads_onRound start stop) hm
  sound := by
    intro n
    induction n using Nat.strongRecOn with
    | ind n ih =>
        intro t e hroute
        obtain ⟨t₁, c, m, t₂, hb, hafter, hm, rfl⟩ := hbody.sound hroute
        have hturn : c = .normal ∨ c = .cont → Route blocks m ⟨next, 0⟩ t₂ e →
            ∃ t₃ c₃ m₃ t₄, Rounds head body step t₃ c₃ ∧ After blocks jumps? ⟨stop, 0⟩ m₃ t₄ e c₃ ∧
              m₃ ≤ n ∧ t₁ ++ t₂ = t₃ ++ t₄ := by
          intro hc hnext
          obtain ⟨_, _, k, t₃, ⟨rfl, rfl⟩, hheader, hk, rfl⟩ := hstep.sound hnext
          obtain ⟨k, t₄, b, t₅, rfl, rfl, hleads, hrest⟩ :=
            Route.exists_of_ends hheader hhead (head.ending?_edge start stop)
          rcases Head.eq_of_leads hleads with ⟨rfl, rfl⟩ | ⟨hstop, rfl⟩
          · obtain ⟨t₆, c', l, t₇, hrounds, hafter', hl, rfl⟩ := ih k (by omega) hrest
            exact ⟨_, c', l, t₇, .again hb hc hrounds, hafter', by omega, by simp⟩
          · exact ⟨_, .normal, k, t₅, .last hb hc hstop, hrest, by omega, by simp⟩
        cases c with
        | normal => exact hturn (.inl rfl) hafter
        | cont => exact hturn (.inr rfl) hafter
        | brk => exact ⟨t₁, .normal, m, t₂, .brk hb, hafter, hm, rfl⟩
        | stop e' => exact ⟨t₁, .stop e', m, t₂, .stop hb, hafter, hm, rfl⟩

/-- A loop does what its rounds do, as often as its head allows. -/
theorem loop (hhead : Point.Ends blocks ⟨header, 0⟩ (head.edge start stop))
    (hbody : Realizes blocks (some ⟨stop, next⟩) ⟨start, 0⟩ ⟨next, 0⟩ body)
    (hstep : Realizes blocks jumps? ⟨next, 0⟩ ⟨header, 0⟩ (Just step .normal)) :
    Realizes blocks jumps? ⟨header, 0⟩ ⟨stop, 0⟩ (Loop head body step) := by
  have hrounds : Realizes blocks jumps? ⟨start, 0⟩ ⟨stop, 0⟩ (Rounds head body step) :=
    rounds hhead hbody hstep
  refine choose hhead (head.ending?_edge start stop) ?_ ?_
  · intro t b hleads
    rcases Head.eq_of_leads hleads with ⟨rfl, rfl⟩ | ⟨hstop, rfl⟩
    · exact ⟨_, hrounds, .start⟩
    · refine ⟨_, .refl _, ?_⟩
      rintro t' c ⟨rfl, rfl⟩
      rw [List.append_nil]
      exact .skip hstop
  · intro t c hloop
    cases hloop with
    | skip hstop =>
        exact ⟨t, stop, _, [], Head.leads_onStop hstop start stop, .refl _, ⟨rfl, rfl⟩,
          (List.append_nil t).symm⟩
    | start h => exact ⟨_, start, _, _, head.leads_onRound start stop, hrounds, h, rfl⟩

end Loops

/-- A jump out of a case is the end of the `switch`. -/
theorem ofCase {stop : BlockId} (h : Realizes blocks (some ⟨stop, stop⟩) p ⟨stop, 0⟩ A) :
    Realizes blocks jumps? p ⟨stop, 0⟩ (fun t c => ∃ c', A t c' ∧ c = c'.ofCase) where
  complete := by
    rintro t c n t' e ⟨c', hA, rfl⟩ hafter
    refine h.complete (n := n) hA ?_
    cases c' <;> exact hafter
  sound hroute := by
    obtain ⟨t₁, c, m, t₂, hA, hafter, hrest⟩ := h.sound hroute
    refine ⟨t₁, c.ofCase, m, t₂, ⟨c, hA, rfl⟩, ?_, hrest⟩
    cases c <;> exact hafter

/-- A `switch` does what its arms do from the one it takes on. -/
theorem switch {value : ExprId} {arms : List Arm} {stop : BlockId} {cases : List Behaviour}
    (hends : p.Ends blocks (.switch value arms stop))
    (hcases : List.Forall₂
      (fun arm A => Realizes blocks (some ⟨stop, stop⟩) ⟨arm.body, 0⟩ ⟨stop, 0⟩ A) arms cases) :
    Realizes blocks jumps? p ⟨stop, 0⟩ (Switch value (arms.map Arm.label?) cases) := by
  obtain ⟨hlength, hcase⟩ := List.forall₂_iff_get.1 hcases
  refine choose hends rfl ?_ ?_
  · intro t b hleads
    cases hleads with
    | @arm _ _ _ i arm harm =>
        obtain ⟨hi, rfl⟩ := List.getElem?_eq_some_iff.1 harm
        refine ⟨_, (hcase i hi (hlength ▸ hi)).ofCase, ?_⟩
        rintro t c ⟨c', hA, rfl⟩
        exact .case (List.getElem?_eq_getElem (hlength ▸ hi)) hA
    | past _ _ hno =>
        refine ⟨_, .refl _, ?_⟩
        rintro t c ⟨rfl, rfl⟩
        exact .past (Edge.hasDefault_eq_false_iff.1 hno)
  · intro t c hswitch
    cases hswitch with
    | @case i A t c hA h =>
        obtain ⟨hi, rfl⟩ := List.getElem?_eq_some_iff.1 hA
        have harm : arms[i]? = some (arms.get ⟨i, hlength ▸ hi⟩) :=
          List.getElem?_eq_getElem (hlength ▸ hi)
        exact ⟨_, _, _, t, .arm value stop harm, (hcase i (hlength ▸ hi) hi).ofCase,
          ⟨c, h, rfl⟩, rfl⟩
    | past hno =>
        exact ⟨_, stop, _, [], .past value stop (Edge.hasDefault_eq_false_iff.2 hno), .refl _,
          ⟨rfl, rfl⟩, rfl⟩

end Realizes

end FlowTyping
