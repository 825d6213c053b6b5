import FlowTyping.Declaration.Hierarchy
import Mathlib.Logic.Relation

/-!
# Reachability in class hierarchies

A class extends another one when steps from a declared class to its base or to an interface lead
there. The search up a hierarchy keeps a stack and the names that it has looked at; at every turn, a
name that was looked at is not the one it looks for, and the parents of that name have been looked
at or are on the stack. So a search that runs out of names has missed nothing, also where
hierarchies run in circles or name undeclared classes.

Main statement: `isSubclass_iff`.
-/

namespace FlowTyping

namespace Declarations

variable {d : Declarations} {key parent : String}

/-- A declared class has a parent as its base or as an interface. -/
def HasParent (d : Declarations) (key parent : String) : Prop :=
  ∃ c, d.classes.find? key = some c ∧ ∃ p ∈ c.base?.toList ++ c.interfaces, p.key = parent

/-- Zero or more steps to a parent lead from one class to the other. -/
def Extends (d : Declarations) (cls base : Name) : Prop :=
  Relation.ReflTransGen d.HasParent cls.key base.key

namespace Extends

variable {a b c : Name}

theorem of_beq (h : (a == b) = true) : d.Extends a b := by
  rw [Extends, Name.beq_iff.1 h]

theorem trans (hab : d.Extends a b) (hbc : d.Extends b c) : d.Extends a c :=
  Relation.ReflTransGen.trans hab hbc

end Extends

/-- The parents of a name are what one step leads to. -/
theorem exists_mem_parentsOf {cls : Name} :
    (∃ p ∈ d.parentsOf cls, p.key = parent) ↔ d.HasParent cls.key parent := by
  rw [parentsOf, HasParent, class?]
  cases d.classes.find? cls.key with
  | none => simp
  | some c => simp only [ClassDecl.parents, Option.some.injEq, exists_eq_left']

namespace Search

variable {base : Name} {s next : Search} {found : Bool}

/-! ### One turn -/

/-- The name with a key has been looked at or is on the stack. -/
def Knows (s : Search) (key : String) : Prop :=
  key ∈ s.visited ∨ ∃ name ∈ s.stack, name.key = key

/-- What has been looked at is not what the search looks for, and its parents are known. -/
structure Thorough (d : Declarations) (base : Name) (s : Search) : Prop where
  missed : ∀ key ∈ s.visited, key ≠ base.key
  parents : ∀ key ∈ s.visited, ∀ parent, d.HasParent key parent → s.Knows parent

/-- Nothing is forgotten from turn to turn. -/
theorem Knows.turn (hkey : s.Knows key) (h : s.turn d base = .inr next) : next.Knows key := by
  obtain ⟨current, rest, hstack, -, ⟨hold, rfl⟩ | ⟨-, rfl⟩⟩ := of_turn h
  · rcases hkey with hkey | ⟨name, hname, rfl⟩
    · exact Or.inl hkey
    · rw [hstack, List.mem_cons] at hname
      rcases hname with rfl | hname
      · exact Or.inl hold
      · exact Or.inr ⟨name, hname, rfl⟩
  · rcases hkey with hkey | ⟨name, hname, rfl⟩
    · exact Or.inl (List.mem_cons_of_mem _ hkey)
    · rw [hstack, List.mem_cons] at hname
      rcases hname with rfl | hname
      · exact Or.inl List.mem_cons_self
      · exact Or.inr ⟨name, List.mem_append_right _ hname, rfl⟩

theorem Thorough.turn (hs : s.Thorough d base) (h : s.turn d base = .inr next) :
    next.Thorough d base := by
  have hknown {key parent : String} (hkey : key ∈ s.visited) (hparent : d.HasParent key parent) :
      next.Knows parent := (hs.parents key hkey parent hparent).turn h
  obtain ⟨current, rest, hstack, hmissed, ⟨-, rfl⟩ | ⟨-, rfl⟩⟩ := of_turn h
  · exact ⟨hs.missed, fun key hkey parent hparent => hknown hkey hparent⟩
  · constructor
    · intro key hkey heq
      rcases List.mem_cons.1 hkey with rfl | hkey
      · rw [Name.beq_iff.2 heq] at hmissed
        cases hmissed
      · exact hs.missed key hkey heq
    · intro key hkey parent hparent
      rcases List.mem_cons.1 hkey with rfl | hkey
      · obtain ⟨p, hp, hpkey⟩ := exists_mem_parentsOf.2 hparent
        exact Or.inr ⟨p, List.mem_append_left _ (List.mem_reverse.2 hp), hpkey⟩
      · exact hknown hkey hparent

/-- What the names on the stack extend after a turn, they extended before. -/
theorem extends_of_turn (h : s.turn d base = .inr next)
    (hnext : ∃ name ∈ next.stack, d.Extends name base) : ∃ name ∈ s.stack, d.Extends name base := by
  obtain ⟨name, hname, hextends⟩ := hnext
  obtain ⟨current, rest, hstack, -, ⟨-, rfl⟩ | ⟨-, rfl⟩⟩ := of_turn h
  · exact ⟨name, hstack ▸ List.mem_cons_of_mem current hname, hextends⟩
  · rcases List.mem_append.1 hname with hname | hname
    · have hparent : d.HasParent current.key name.key :=
        exists_mem_parentsOf.1 ⟨name, List.mem_reverse.1 hname, rfl⟩
      exact ⟨current, hstack ▸ List.mem_cons_self, .head hparent hextends⟩
    · exact ⟨name, hstack ▸ List.mem_cons_of_mem current hname, hextends⟩

/-- A search that has an answer has found the name, or has no further names. -/
theorem turn_eq_inl (h : s.turn d base = .inl found) :
    found = true ∧ (∃ name ∈ s.stack, (name == base) = true) ∨ found = false ∧ s.stack = [] := by
  rw [Search.turn] at h
  split at h
  · rename_i hstack
    cases h
    exact Or.inr ⟨rfl, hstack⟩
  rename_i current rest hstack
  split at h
  · rename_i hfound
    cases h
    exact Or.inl ⟨rfl, current, hstack ▸ List.mem_cons_self, hfound⟩
  · split at h <;> cases h

/-! ### The whole search -/

theorem run_of_inl (h : s.turn d base = .inl found) : s.run d base = found := by
  rw [run]
  split
  · rename_i hturn
    cases h.symm.trans hturn
    rfl
  · rename_i hturn
    cases h.symm.trans hturn

theorem run_of_inr (h : s.turn d base = .inr next) : s.run d base = next.run d base := by
  rw [run]
  split
  · rename_i hturn
    cases h.symm.trans hturn
  · rename_i hturn
    cases h.symm.trans hturn
    rfl

/-- What is found is extended by a name on the stack. -/
theorem extends_of_run (h : s.run d base = true) : ∃ name ∈ s.stack, d.Extends name base := by
  fun_induction run d base s with
  | case1 s found hturn =>
      rcases turn_eq_inl hturn with ⟨-, name, hname, hbeq⟩ | ⟨hfalse, -⟩
      · exact ⟨name, hname, .of_beq hbeq⟩
      · rw [hfalse] at h
        cases h
  | case2 s next hturn ih => exact extends_of_turn hturn (ih h)

/-- A thorough search that has run out of names knows nothing that leads to what it looks for. -/
theorem Thorough.not_path_of_stack (hs : s.Thorough d base) (hstack : s.stack = [])
    (hkey : s.Knows key) : ¬Relation.ReflTransGen d.HasParent key base.key := by
  have hvisited {k : String} (hk : s.Knows k) : k ∈ s.visited := by
    rcases hk with hk | ⟨name, hname, -⟩
    · exact hk
    · rw [hstack] at hname
      cases hname
  have hreached {k : String} (hpath : Relation.ReflTransGen d.HasParent key k) : k ∈ s.visited := by
    induction hpath with
    | refl => exact hvisited hkey
    | tail _ hparent ih => exact hvisited (hs.parents _ ih _ hparent)
  intro hpath
  exact hs.missed _ (hreached hpath) rfl

/-- A thorough search that finds nothing has missed nothing. -/
theorem Thorough.not_path_of_run (hs : s.Thorough d base) (hkey : s.Knows key)
    (h : s.run d base = false) : ¬Relation.ReflTransGen d.HasParent key base.key := by
  fun_induction run d base s with
  | case1 s found hturn =>
      rcases turn_eq_inl hturn with ⟨htrue, -⟩ | ⟨-, hstack⟩
      · rw [htrue] at h
        cases h
      · exact hs.not_path_of_stack hstack hkey
  | case2 s next hturn ih => exact ih (hs.turn hturn) (hkey.turn hturn) h

/-- A search, taken turn after turn, comes to an answer. -/
inductive Answers (d : Declarations) (base : Name) : Search → Bool → Prop
  | ends {s : Search} {found : Bool} (h : s.turn d base = .inl found) : Answers d base s found
  | goesOn {s next : Search} {found : Bool} (h : s.turn d base = .inr next)
      (later : Answers d base next found) : Answers d base s found

/-- Every search comes to an answer, and to one only. -/
theorem answers_iff : Answers d base s found ↔ found = s.run d base := by
  constructor
  · intro hanswers
    induction hanswers with
    | ends h => exact (run_of_inl h).symm
    | goesOn h later ih => rw [run_of_inr h, ih]
  · rintro rfl
    fun_induction run d base s with
    | case1 s found hturn => exact .ends hturn
    | case2 s next hturn ih => exact .goesOn hturn ih

end Search

/-- The search up the hierarchy finds exactly the classes that a class extends. -/
theorem isSubclass_iff {cls base : Name} : d.isSubclass cls base = true ↔ d.Extends cls base := by
  constructor
  · intro h
    obtain ⟨name, hname, hextends⟩ := Search.extends_of_run h
    rwa [List.mem_singleton.1 hname] at hextends
  · intro hextends
    have hstart : Search.Thorough d base ⟨[cls], []⟩ :=
      ⟨List.forall_mem_nil _, List.forall_mem_nil _⟩
    cases h : d.isSubclass cls base with
    | true => rfl
    | false =>
        exact absurd hextends
          (hstart.not_path_of_run (Or.inr ⟨cls, List.mem_singleton.2 rfl, rfl⟩) h)

/-- Whatever is declared, the search up the hierarchy comes to an answer turn by turn, and it finds
exactly what steps from declared classes to their bases and interfaces lead to. So the answers make
a preorder of the classes, in which spellings of one name stand for each other. -/
theorem subclass_search_iff_reachable (d : Declarations) :
    (∀ (cls base : Name) (found : Bool),
      Search.Answers d base ⟨[cls], []⟩ found ↔ found = d.isSubclass cls base) ∧
    (∀ cls base : Name, d.isSubclass cls base = true ↔
      Relation.ReflTransGen d.HasParent cls.key base.key) ∧
    (∀ a b : Name, (a == b) = true → d.isSubclass a b = true) ∧
    (∀ a b c : Name, d.isSubclass a b = true → d.isSubclass b c = true →
      d.isSubclass a c = true) := by
  refine ⟨fun _ _ _ => Search.answers_iff, fun _ _ => isSubclass_iff, ?_, ?_⟩
  · intro a b h
    exact isSubclass_iff.2 (.of_beq h)
  · intro a b c hab hbc
    exact isSubclass_iff.2 ((isSubclass_iff.1 hab).trans (isSubclass_iff.1 hbc))

/-- Two classes that extend each other; one of them also implements an undeclared interface. -/
def circle : Declarations :=
  (empty.declareClass { ClassDecl.new ⟨"Left"⟩ with base? := some ⟨"right"⟩ }).declareClass
    { ClassDecl.new ⟨"Right"⟩ with base? := some ⟨"LEFT"⟩, interfaces := [⟨"Shape"⟩] }

/-- The search around the circle ends and passes the interface. -/
theorem subclass_search_iff_reachable_circle :
    Search.Answers circle ⟨"Other"⟩ ⟨[⟨"LEFT"⟩], []⟩ false ∧
    Relation.ReflTransGen circle.HasParent "left" "shape" ∧
    circle.isSubclass ⟨"Left"⟩ ⟨"SHAPE"⟩ = true ∧ circle.isSubclass ⟨"Shape"⟩ ⟨"Left"⟩ = false := by
  obtain ⟨hends, hfinds, -, htrans⟩ := subclass_search_iff_reachable circle
  exact ⟨(hends ⟨"LEFT"⟩ ⟨"Other"⟩ false).2 (by decide +kernel),
    (hfinds ⟨"Left"⟩ ⟨"Shape"⟩).1 (by decide +kernel),
    htrans ⟨"Left"⟩ ⟨"RIGHT"⟩ ⟨"SHAPE"⟩ (by decide +kernel) (by decide +kernel), by decide +kernel⟩

end Declarations

end FlowTyping
