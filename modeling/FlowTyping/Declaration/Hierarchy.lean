import FlowTyping.Declaration.Table

/-!
# Class hierarchies

Whether a class derives from another one, and the nearest method or property of a name. Hierarchies
may run in circles or name undeclared classes, so what goes up a hierarchy keeps the names that it
has visited: every class is looked at once.
-/

namespace FlowTyping

namespace Declarations

/-- The base and the interfaces of a class; an undeclared class has none. -/
def parentsOf (d : Declarations) (cls : Name) : List Name :=
  match d.class? cls with
  | some c => c.parents
  | none => []

/-- A search for a class among the ancestors of others. -/
structure Search where
  /-- The names that are still to be looked at, the next one first. -/
  stack : List Name
  /-- The keys of the names that have been looked at. -/
  visited : List String
  deriving Repr

/-- How many names classes that have not been looked at can still bring in, themselves included. -/
def namesBeyond (visited : List String) : List (String × ClassDecl) → Nat
  | [] => 0
  | (key, c) :: rest =>
    (if key ∈ visited then 0 else c.parents.length + 1) + namesBeyond visited rest

namespace Search

/-- How many names a search can still come to. -/
def load (d : Declarations) (s : Search) : Nat :=
  s.stack.length + namesBeyond s.visited d.classes.entries

/-- One turn of a search: the answer, or how it goes on. A name is compared before it counts as
looked at, and its parents come before what else is on the stack. -/
def turn (d : Declarations) (base : Name) (s : Search) : Bool ⊕ Search :=
  match s.stack with
  | [] => .inl false
  | current :: rest =>
    if current == base then .inl true
    else if current.key ∈ s.visited then .inr ⟨rest, s.visited⟩
    else .inr ⟨(d.parentsOf current).reverse ++ rest, current.key :: s.visited⟩

end Search

/-- Looking at one more name brings in no further names. -/
theorem namesBeyond_cons_le (key : String) (visited : List String)
    (entries : List (String × ClassDecl)) :
    namesBeyond (key :: visited) entries ≤ namesBeyond visited entries := by
  induction entries with
  | nil => exact Nat.le_refl 0
  | cons entry rest ih =>
      rw [namesBeyond, namesBeyond]
      by_cases hkey : entry.1 ∈ visited
      · simp only [hkey, List.mem_cons_of_mem, if_true]
        omega
      · simp only [hkey, if_false]
        split <;> omega

/-- A declared class that is looked at for the first time no longer brings in its parents. -/
theorem namesBeyond_cons_lt {key : String} {visited : List String} {c : ClassDecl}
    {entries : List (String × ClassDecl)} (hnew : key ∉ visited)
    (hc : OrderedMap.lookup key entries = some c) :
    c.parents.length + namesBeyond (key :: visited) entries < namesBeyond visited entries := by
  induction entries with
  | nil => cases hc
  | cons entry rest ih =>
      obtain ⟨key', c'⟩ := entry
      rw [OrderedMap.lookup] at hc
      rw [namesBeyond, namesBeyond]
      split at hc
      · rename_i hkey
        cases hc
        have hle := namesBeyond_cons_le key visited rest
        simp only [hkey, hnew, List.mem_cons_self, if_true, if_false]
        omega
      · rename_i hkey
        have hlt := ih hc
        simp only [List.mem_cons, hkey, false_or]
        omega

namespace Search

/-- A search that goes on takes a name that is not the one it looks for from the stack. If the name
is looked at for the first time, its parents take its place. -/
theorem of_turn {d : Declarations} {base : Name} {s next : Search}
    (h : s.turn d base = .inr next) :
    ∃ current rest, s.stack = current :: rest ∧ (current == base) = false ∧
      (current.key ∈ s.visited ∧ next = ⟨rest, s.visited⟩ ∨
        current.key ∉ s.visited ∧
          next = ⟨(d.parentsOf current).reverse ++ rest, current.key :: s.visited⟩) := by
  rw [turn] at h
  split at h
  · cases h
  rename_i current rest hstack
  split at h
  · cases h
  rename_i hmissed
  refine ⟨current, rest, hstack, Bool.eq_false_iff.2 hmissed, ?_⟩
  split at h
  · rename_i hold
    cases h
    exact Or.inl ⟨hold, rfl⟩
  · rename_i hnew
    cases h
    exact Or.inr ⟨hnew, rfl⟩

/-- A search that goes on has less in front of it. -/
theorem load_lt_of_turn {d : Declarations} {base : Name} {s next : Search}
    (h : s.turn d base = .inr next) : next.load d < s.load d := by
  obtain ⟨current, rest, hstack, -, ⟨-, rfl⟩ | ⟨hnew, rfl⟩⟩ := of_turn h
  · simp only [load, hstack, List.length_cons]
    omega
  · simp only [load, hstack, List.length_cons, List.length_append, List.length_reverse, parentsOf]
    cases hc : d.class? current with
    | some c =>
        have hlt := namesBeyond_cons_lt hnew hc
        simp only
        omega
    | none =>
        have hle := namesBeyond_cons_le current.key s.visited d.classes.entries
        simp only [List.length_nil]
        omega

-- Open to unfolding, so that what is said of given hierarchies can be evaluated.
/-- The answer of a search: turn after turn until there is one. -/
@[semireducible]
def run (d : Declarations) (base : Name) (s : Search) : Bool :=
  match _h : s.turn d base with
  | .inl found => found
  | .inr next => next.run d base
termination_by s.load d
decreasing_by exact load_lt_of_turn ‹_›

end Search

/-- Whether `cls` is `base`, derives from it or implements it. -/
def isSubclass (d : Declarations) (cls base : Name) : Bool :=
  Search.run d base ⟨[cls], []⟩

/-- Whether objects of a kind are instances of a class. -/
def isInstance (d : Declarations) (cls : Name) : Kind → Bool
  | .object own => d.isSubclass own cls
  | _ => false

/-- Every value of a mask is an instance of a class. -/
def isA (d : Declarations) (t : KindTable) (m : Mask) (cls : Name) : Except Fault Bool :=
  t.allKinds m (d.isInstance cls)

-- Open to unfolding, as `Search.run` is.
/-- The declared classes along the chain of bases, up to the first class that is undeclared or has
been visited before. -/
@[semireducible]
def lineageBeyond (d : Declarations) (visited : List String) (cls : Name) : List ClassDecl :=
  if _hnew : cls.key ∈ visited then []
  else
    match _hc : d.class? cls with
    | none => []
    | some c =>
      c :: match c.base? with
        | some base => d.lineageBeyond (cls.key :: visited) base
        | none => []
termination_by namesBeyond visited d.classes.entries
decreasing_by exact Nat.lt_of_le_of_lt (Nat.le_add_left _ _) (namesBeyond_cons_lt ‹_› ‹_›)

/-- The class itself, its base, the base of that, as far as classes are declared. -/
def lineage (d : Declarations) (cls : Name) : List ClassDecl :=
  d.lineageBeyond [] cls

/-- The nearest method of a name in a class or its bases. -/
def method? (d : Declarations) (cls : Name) (method : String) : Option RoutineId :=
  (d.lineage cls).findSome? fun c => c.methods.find? (Name.foldCase method)

/-- The nearest property of a name in a class or its bases. -/
def field? (d : Declarations) (cls : Name) (field : String) : Option FieldDecl :=
  (d.lineage cls).findSome? fun c => c.fields.find? field

end Declarations

end FlowTyping
