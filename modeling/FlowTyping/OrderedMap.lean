/-!
# Maps that remember insertion order

A key keeps the place of its first insertion; a later insertion under the same key changes the value
only. Main statement: `find?_insert`.
-/

namespace FlowTyping

/-- A map that keeps its keys in the order in which they were first put in. -/
structure OrderedMap (κ β : Type) where
  entries : List (κ × β)
  deriving Repr

namespace OrderedMap

variable {κ β : Type}

/-- A map without keys. -/
def empty : OrderedMap κ β :=
  ⟨[]⟩

instance : Inhabited (OrderedMap κ β) :=
  ⟨empty⟩

/-- The keys, in the order in which they were first put in. -/
def keys (m : OrderedMap κ β) : List κ :=
  m.entries.map Prod.fst

/-- The values, in the order of their keys. -/
def values (m : OrderedMap κ β) : List β :=
  m.entries.map Prod.snd

variable [DecidableEq κ]

/-- The first value listed under a key. -/
def lookup (k : κ) : List (κ × β) → Option β
  | [] => none
  | (k', v) :: rest => if k' = k then some v else lookup k rest

/-- Replaces the value under a key, or lists the key last. -/
def put (k : κ) (v : β) : List (κ × β) → List (κ × β)
  | [] => [(k, v)]
  | (k', v') :: rest => if k' = k then (k', v) :: rest else (k', v') :: put k v rest

/-- The value of a key. -/
def find? (m : OrderedMap κ β) (k : κ) : Option β :=
  lookup k m.entries

/-- The map with a value for a key. A key that is there keeps its place. -/
def insert (m : OrderedMap κ β) (k : κ) (v : β) : OrderedMap κ β :=
  ⟨put k v m.entries⟩

/-- Adds an entry unless the key is already there. -/
def insertNew (m : OrderedMap κ β) (k : κ) (v : β) : OrderedMap κ β :=
  match m.find? k with
  | some _ => m
  | none => m.insert k v

/-- The map with some entries, of which later ones win. -/
def ofList (entries : List (κ × β)) : OrderedMap κ β :=
  entries.foldl (fun m e => m.insert e.1 e.2) empty

theorem lookup_put (k k' : κ) (v : β) (l : List (κ × β)) :
    lookup k' (put k v l) = if k = k' then some v else lookup k' l := by
  induction l with
  | nil => simp [put, lookup]
  | cons e rest ih =>
      obtain ⟨j, w⟩ := e
      by_cases hj : j = k
      · subst hj
        by_cases hk : j = k' <;> simp [put, lookup, hk]
      · by_cases hk : j = k'
        · subst hk
          simp [put, lookup, hj, Ne.symm hj]
        · simp [put, lookup, hj, hk, ih]

@[simp]
theorem find?_empty (k : κ) : (empty : OrderedMap κ β).find? k = none :=
  rfl

/-- Inserting changes the value of one key. -/
@[simp]
theorem find?_insert (m : OrderedMap κ β) (k k' : κ) (v : β) :
    (m.insert k v).find? k' = if k = k' then some v else m.find? k' :=
  lookup_put k k' v m.entries

/-- A key that is there keeps its place; a new one comes last. -/
theorem map_fst_put (k : κ) (v : β) (l : List (κ × β)) :
    (put k v l).map Prod.fst =
      if k ∈ l.map Prod.fst then l.map Prod.fst else l.map Prod.fst ++ [k] := by
  induction l with
  | nil => simp [put]
  | cons e rest ih =>
      obtain ⟨j, w⟩ := e
      by_cases hj : j = k
      · simp [put, hj]
      · simp only [put, hj, if_false, List.map_cons, ih, List.mem_cons, Ne.symm hj, false_or]
        split <;> simp

/-- Insertion lists a new key last and moves none. -/
theorem keys_insert (m : OrderedMap κ β) (k : κ) (v : β) :
    (m.insert k v).keys = if k ∈ m.keys then m.keys else m.keys ++ [k] :=
  map_fst_put k v m.entries

/-- The keys of a map are those under which a value is found. -/
theorem mem_keys_iff {m : OrderedMap κ β} {k : κ} : k ∈ m.keys ↔ (m.find? k).isSome := by
  rw [keys, find?]
  induction m.entries with
  | nil => simp [lookup]
  | cons e rest ih =>
      obtain ⟨j, w⟩ := e
      rw [lookup, List.map_cons, List.mem_cons]
      split
      · rename_i h
        simp [h]
      · rename_i h
        rw [ih]
        simp [Ne.symm h]

end OrderedMap

end FlowTyping
