/-!
# Ordered maps

Finite maps that remember the order in which their keys were first written.
Writing a key again replaces its value and leaves the key in its place. Every
attribute map, the node table, the table of subgraphs and the index of edges
are ordered maps, because their order is visible in all output.

The main facts are the two views of `insert`: what it does to the keys
(`keys_insert`) and what it does to look-up (`get?_insert`).
-/

namespace DotLang

/-- A finite map that keeps the order in which keys were first written. -/
structure OrderedMap (κ α : Type) where
  /-- The keys with their values, in order of first writing. -/
  entries : List (κ × α)
  /-- No key is listed twice. -/
  keys_nodup : (entries.map Prod.fst).Nodup

namespace OrderedMap

variable {κ α β : Type}

/-- The map without keys. -/
def empty : OrderedMap κ α :=
  ⟨[], List.nodup_nil⟩

instance : EmptyCollection (OrderedMap κ α) := ⟨empty⟩
instance : Inhabited (OrderedMap κ α) := ⟨empty⟩

@[ext]
theorem ext {left right : OrderedMap κ α} (same : left.entries = right.entries) :
    left = right := by
  cases left
  cases right
  simp_all

/-- The keys in order of first writing. -/
def keys (map : OrderedMap κ α) : List κ :=
  map.entries.map Prod.fst

/-- The values in the order of their keys. -/
def values (map : OrderedMap κ α) : List α :=
  map.entries.map Prod.snd

/-- The number of keys. -/
def size (map : OrderedMap κ α) : Nat :=
  map.entries.length

/-- Whether the map has no key. -/
def isEmpty (map : OrderedMap κ α) : Bool :=
  map.entries.isEmpty

/-- The same keys in the same order with new values. -/
def mapValues (change : κ → α → β) (map : OrderedMap κ α) : OrderedMap κ β where
  entries := map.entries.map fun (key, value) => (key, change key value)
  keys_nodup := by
    have same : (map.entries.map fun (key, value) => (key, change key value)).map Prod.fst =
        map.entries.map Prod.fst := by
      simp [List.map_map, Function.comp_def]
    exact same ▸ map.keys_nodup

variable [DecidableEq κ]

/-- The value stored under a key. -/
def get? (map : OrderedMap κ α) (key : κ) : Option α :=
  map.entries.lookup key

/-- Whether a key is present. -/
def contains (map : OrderedMap κ α) (key : κ) : Bool :=
  (map.get? key).isSome

/-- Replaces the value of a listed key, or lists the key at the end. -/
def insertEntry (key : κ) (value : α) : List (κ × α) → List (κ × α)
  | [] => [(key, value)]
  | (other, old) :: rest =>
      if other = key then (key, value) :: rest
      else (other, old) :: insertEntry key value rest

theorem map_fst_insertEntry (key : κ) (value : α) (entries : List (κ × α)) :
    (insertEntry key value entries).map Prod.fst =
      if key ∈ entries.map Prod.fst then entries.map Prod.fst
      else entries.map Prod.fst ++ [key] := by
  induction entries with
  | nil => simp [insertEntry]
  | cons entry rest ih =>
      obtain ⟨other, old⟩ := entry
      by_cases same : other = key
      · simp [insertEntry, same]
      · have differ : key ≠ other := fun equal => same equal.symm
        simp only [insertEntry, if_neg same, List.map_cons, List.mem_cons, differ, false_or, ih]
        split <;> simp_all

theorem nodup_insertEntry (key : κ) (value : α) {entries : List (κ × α)}
    (nodup : (entries.map Prod.fst).Nodup) :
    ((insertEntry key value entries).map Prod.fst).Nodup := by
  rw [map_fst_insertEntry]
  split
  · exact nodup
  · next absent =>
      refine List.nodup_append.mpr ⟨nodup, by simp, ?_⟩
      intro listed listed_mem last last_mem equal
      simp only [List.mem_singleton] at last_mem
      subst last_mem
      subst equal
      exact absent listed_mem

/-- Writes a value: a present key keeps its place, a new key comes last. -/
def insert (map : OrderedMap κ α) (key : κ) (value : α) : OrderedMap κ α :=
  ⟨insertEntry key value map.entries, nodup_insertEntry key value map.keys_nodup⟩

/-- Changes the value of a present key; a map without the key is left as it is. -/
def modify (map : OrderedMap κ α) (key : κ) (change : α → α) : OrderedMap κ α :=
  map.mapValues fun other value => if other = key then change value else value

/-- Writes entries from left to right, so that a later value of a key wins. -/
def insertAll (map : OrderedMap κ α) (entries : List (κ × α)) : OrderedMap κ α :=
  entries.foldl (fun written (key, value) => written.insert key value) map

/-- The map that results from writing entries from left to right. -/
def ofList (entries : List (κ × α)) : OrderedMap κ α :=
  empty.insertAll entries

/-- Writes every entry of `source` over `target`. -/
def override (target source : OrderedMap κ α) : OrderedMap κ α :=
  target.insertAll source.entries

/-- Writes the entries of `source` whose keys `target` lacks or holds with a `blank` value. -/
def fill (blank : α → Bool) (target source : OrderedMap κ α) : OrderedMap κ α :=
  source.entries.foldl
    (fun filled (key, value) =>
      if (filled.get? key).all blank then filled.insert key value else filled)
    target

theorem keys_insert (map : OrderedMap κ α) (key : κ) (value : α) :
    (map.insert key value).keys =
      if key ∈ map.keys then map.keys else map.keys ++ [key] :=
  map_fst_insertEntry key value map.entries

theorem lookup_cons_eq_ite (key wanted : κ) (value : α) (entries : List (κ × α)) :
    ((key, value) :: entries).lookup wanted =
      if wanted = key then some value else entries.lookup wanted := by
  by_cases found : wanted = key
  · simp [found]
  · have differ : (wanted == key) = false := by simpa using found
    simp [List.lookup_cons, differ, found]

theorem lookup_insertEntry (key : κ) (value : α) (entries : List (κ × α)) (wanted : κ) :
    (insertEntry key value entries).lookup wanted =
      if wanted = key then some value else entries.lookup wanted := by
  induction entries with
  | nil => simp [insertEntry, lookup_cons_eq_ite]
  | cons entry rest ih =>
      obtain ⟨other, old⟩ := entry
      by_cases same : other = key
      · subst same
        by_cases found : wanted = other <;> simp [insertEntry, lookup_cons_eq_ite, found]
      · by_cases found : wanted = other
        · subst found
          simp [insertEntry, same]
        · simp [insertEntry, lookup_cons_eq_ite, same, found, ih]

theorem get?_insert (map : OrderedMap κ α) (key : κ) (value : α) (wanted : κ) :
    (map.insert key value).get? wanted =
      if wanted = key then some value else map.get? wanted :=
  lookup_insertEntry key value map.entries wanted

omit [DecidableEq κ] in
@[simp]
theorem keys_mapValues (change : κ → α → β) (map : OrderedMap κ α) :
    (map.mapValues change).keys = map.keys := by
  simp [keys, mapValues, Function.comp_def]

@[simp]
theorem keys_modify (map : OrderedMap κ α) (key : κ) (change : α → α) :
    (map.modify key change).keys = map.keys := by
  simp [modify]

end OrderedMap

end DotLang
