import DotLang.Value
import Mathlib.Data.List.Perm.Basic
import Mathlib.Data.List.Nodup

/-!
# Laws of ordered maps

Two views describe an ordered map completely: the list of its keys and look-up
(`ext_get?`). This file says what every operation does to the two views, so that
later proofs about attribute maps, the node table and the table of subgraphs
never look at entries.

Overriding and filling list the same keys: those of the target in their place,
then the new keys of the source in their order. They differ in the values only.
-/

namespace DotLang

namespace OrderedMap

variable {κ α β : Type}

@[simp]
theorem keys_empty : (∅ : OrderedMap κ α).keys = [] :=
  rfl

theorem nodup_keys (map : OrderedMap κ α) : map.keys.Nodup :=
  map.keys_nodup

theorem isEmpty_iff (map : OrderedMap κ α) : map.isEmpty = true ↔ map = ∅ := by
  constructor
  · intro isEmpty
    apply OrderedMap.ext
    exact List.isEmpty_iff.mp isEmpty
  · rintro rfl
    rfl

variable [DecidableEq κ]

/-! ### Look-up -/

@[simp]
theorem get?_empty (key : κ) : (∅ : OrderedMap κ α).get? key = none :=
  rfl

theorem get?_eq_none_iff (map : OrderedMap κ α) (key : κ) :
    map.get? key = none ↔ key ∉ map.keys := by
  simp only [get?, keys, List.lookup_eq_none_iff, List.mem_map, not_exists, not_and]
  constructor
  · intro differs entry entry_mem same
    simpa [same] using differs entry entry_mem
  · intro absent entry entry_mem
    simpa using fun same : key = entry.1 => absent entry entry_mem same.symm

theorem mem_keys_iff (map : OrderedMap κ α) (key : κ) :
    key ∈ map.keys ↔ ∃ value, map.get? key = some value := by
  rw [← Option.ne_none_iff_exists', ne_eq, get?_eq_none_iff, not_not]

theorem mem_keys_of_get? {map : OrderedMap κ α} {key : κ} {value : α}
    (found : map.get? key = some value) : key ∈ map.keys :=
  (map.mem_keys_iff key).mpr ⟨value, found⟩

theorem contains_iff (map : OrderedMap κ α) (key : κ) :
    map.contains key = true ↔ key ∈ map.keys := by
  rw [contains, Option.isSome_iff_exists, mem_keys_iff]

theorem get?_eq_some_iff (map : OrderedMap κ α) (key : κ) (value : α) :
    map.get? key = some value ↔ (key, value) ∈ map.entries := by
  have nodup := map.keys_nodup
  simp only [get?]
  generalize map.entries = entries at nodup ⊢
  induction entries with
  | nil => simp
  | cons entry rest ih =>
      rcases entry with ⟨other, old⟩
      simp only [List.map_cons, List.nodup_cons, List.mem_map, not_exists, not_and] at nodup
      rw [lookup_cons_eq_ite, List.mem_cons, Prod.mk.injEq]
      by_cases same : key = other
      · subst same
        have absent : (key, value) ∉ rest := fun listed => nodup.1 _ listed rfl
        simp [absent, eq_comm]
      · simp [same, ih nodup.2]

theorem filterMap_get?_keys (map : OrderedMap κ α) : map.keys.filterMap map.get? = map.values := by
  rw [keys, List.filterMap_map, values, ← List.filterMap_eq_map]
  apply List.filterMap_congr
  intro entry entry_mem
  exact (map.get?_eq_some_iff entry.1 entry.2).mpr entry_mem

/-- A map is known by its keys and by what it stores under them. -/
theorem ext_get? {left right : OrderedMap κ α} (sameKeys : left.keys = right.keys)
    (sameValues : ∀ key, left.get? key = right.get? key) : left = right := by
  have entries_eq (map : OrderedMap κ α) :
      map.entries = map.keys.filterMap fun key => (map.get? key).map (Prod.mk key) := by
    rw [keys, List.filterMap_map]
    symm
    calc
      map.entries.filterMap _ = map.entries.filterMap some := by
        apply List.filterMap_congr
        intro entry entry_mem
        simp [(map.get?_eq_some_iff entry.1 entry.2).mpr entry_mem]
      _ = map.entries := List.filterMap_some
  apply OrderedMap.ext
  rw [entries_eq left, entries_eq right, sameKeys]
  simp [sameValues]

/-! ### Single changes -/

omit [DecidableEq κ] in
@[simp]
theorem mapValues_empty (change : κ → α → β) : (∅ : OrderedMap κ α).mapValues change = ∅ :=
  rfl

omit [DecidableEq κ] in
@[simp]
theorem mapValues_mapValues {γ : Type} (first : κ → α → β) (second : κ → β → γ)
    (map : OrderedMap κ α) :
    (map.mapValues first).mapValues second =
      map.mapValues fun key value => second key (first key value) := by
  apply OrderedMap.ext
  simp [mapValues, Function.comp_def]

@[simp]
theorem get?_mapValues (change : κ → α → β) (map : OrderedMap κ α) (key : κ) :
    (map.mapValues change).get? key = (map.get? key).map (change key) := by
  simp only [get?, mapValues]
  induction map.entries with
  | nil => rfl
  | cons entry rest ih =>
      rcases entry with ⟨other, value⟩
      simp only [List.map_cons, lookup_cons_eq_ite]
      by_cases same : key = other
      · simp [same]
      · simpa [same] using ih

theorem get?_modify (map : OrderedMap κ α) (key : κ) (change : α → α) (wanted : κ) :
    (map.modify key change).get? wanted =
      if wanted = key then (map.get? wanted).map change else map.get? wanted := by
  rw [modify, get?_mapValues]
  by_cases same : wanted = key
  · simp [same]
  · cases map.get? wanted <;> simp [same]

theorem mapValues_congr {map : OrderedMap κ α} {change change' : κ → α → β}
    (same : ∀ {key value}, map.get? key = some value → change key value = change' key value) :
    map.mapValues change = map.mapValues change' := by
  apply ext_get?
  · rw [keys_mapValues, keys_mapValues]
  · intro key
    rw [get?_mapValues, get?_mapValues]
    cases found : map.get? key with
    | none => rfl
    | some value => simp [same found]

@[simp]
theorem mapValues_id (map : OrderedMap κ α) : (map.mapValues fun _ value => value) = map := by
  apply ext_get?
  · rw [keys_mapValues]
  · intro key
    rw [get?_mapValues, Option.map_id']

/-- A change does not show where it leaves what is looked at. -/
theorem map_get?_modify (view : α → β) {change : α → α}
    (keeps : ∀ value, view (change value) = view value) (map : OrderedMap κ α) (key wanted : κ) :
    ((map.modify key change).get? wanted).map view = (map.get? wanted).map view := by
  rw [get?_modify]
  split
  · simp only [Option.map_map, Function.comp_def, keeps]
  · rfl

theorem modify_congr {map : OrderedMap κ α} {key : κ} {change change' : α → α}
    (same : ∀ {value}, map.get? key = some value → change value = change' value) :
    map.modify key change = map.modify key change' := by
  apply mapValues_congr
  intro other value found
  split
  · next isKey => exact same (isKey ▸ found)
  · rfl

theorem modify_eq_self {map : OrderedMap κ α} {key : κ} {change : α → α}
    (same : ∀ {value}, map.get? key = some value → change value = value) :
    map.modify key change = map := by
  calc
    map.modify key change = map.modify key fun value => value := modify_congr same
    _ = map := by simp [modify]

theorem keys_insert_of_mem {map : OrderedMap κ α} {key : κ} (value : α)
    (key_mem : key ∈ map.keys) : (map.insert key value).keys = map.keys := by
  rw [keys_insert, if_pos key_mem]

theorem keys_insert_of_not_mem {map : OrderedMap κ α} {key : κ} (value : α)
    (absent : key ∉ map.keys) : (map.insert key value).keys = map.keys ++ [key] := by
  rw [keys_insert, if_neg absent]

/-- Writing what is there already changes nothing. -/
theorem insert_eq_self {map : OrderedMap κ α} {key : κ} {value : α}
    (found : map.get? key = some value) : map.insert key value = map := by
  apply ext_get?
  · exact keys_insert_of_mem value (mem_keys_of_get? found)
  · intro other
    rw [get?_insert]
    split
    · next same => rw [same, found]
    · rfl

theorem mem_keys_insert (map : OrderedMap κ α) (key : κ) (value : α) (wanted : κ) :
    wanted ∈ (map.insert key value).keys ↔ wanted = key ∨ wanted ∈ map.keys := by
  rw [mem_keys_iff, mem_keys_iff, get?_insert]
  by_cases same : wanted = key <;> simp [same]

theorem mapValues_insert (change : κ → α → β) (map : OrderedMap κ α) (key : κ) (value : α) :
    (map.insert key value).mapValues change =
      (map.mapValues change).insert key (change key value) := by
  apply ext_get?
  · simp only [keys_mapValues, keys_insert]
  · intro wanted
    simp only [get?_mapValues, get?_insert]
    split
    · next same => rw [same, Option.map_some]
    · rfl

theorem mapValues_modify {change : κ → α → β} {map : OrderedMap κ α} {key : κ} {first : α → α}
    {second : β → β} (commutes : ∀ value, change key (first value) = second (change key value)) :
    (map.modify key first).mapValues change = (map.mapValues change).modify key second := by
  rw [modify, modify, mapValues_mapValues, mapValues_mapValues]
  apply mapValues_congr
  intro other value _
  by_cases same : other = key
  · subst same
    rw [if_pos rfl, if_pos rfl, commutes]
  · rw [if_neg same, if_neg same]

/-! ### Writing many entries -/

/-- One more listed key makes no difference to keys among which it does not occur. -/
theorem filter_not_mem_concat {keys listed : List κ} {key : κ} (absent : key ∉ keys) :
    keys.filter (· ∉ listed ++ [key]) = keys.filter (· ∉ listed) := by
  apply List.filter_congr
  intro other other_mem
  have differs : other ≠ key := fun same => absent (same ▸ other_mem)
  simp [differs]

theorem get?_insertAll (entries : List (κ × α)) (map : OrderedMap κ α) (key : κ) :
    (map.insertAll entries).get? key = (entries.reverse.lookup key).or (map.get? key) := by
  induction entries generalizing map with
  | nil => rfl
  | cons entry rest ih =>
      change ((map.insert entry.1 entry.2).insertAll rest).get? key = _
      rw [ih, get?_insert, List.reverse_cons, List.lookup_append, Option.or_assoc,
        lookup_cons_eq_ite]
      by_cases same : key = entry.1 <;> simp [same]

theorem get?_ofList (entries : List (κ × α)) (key : κ) :
    (ofList entries).get? key = entries.reverse.lookup key :=
  (get?_insertAll entries empty key).trans Option.or_none

theorem keys_insertAll {entries : List (κ × α)} (nodup : (entries.map Prod.fst).Nodup)
    (map : OrderedMap κ α) :
    (map.insertAll entries).keys =
      map.keys ++ (entries.map Prod.fst).filter (· ∉ map.keys) := by
  induction entries generalizing map with
  | nil => simp [insertAll]
  | cons entry rest ih =>
      rw [List.map_cons, List.nodup_cons] at nodup
      change ((map.insert entry.1 entry.2).insertAll rest).keys = _
      rw [ih nodup.2]
      by_cases listed : entry.1 ∈ map.keys
      · rw [keys_insert_of_mem entry.2 listed, List.map_cons, List.filter_cons_of_neg (by simpa)]
      · rw [keys_insert_of_not_mem entry.2 listed, filter_not_mem_concat nodup.1, List.map_cons,
          List.filter_cons_of_pos (by simpa), List.append_assoc, List.singleton_append]

theorem get?_override (target source : OrderedMap κ α) (key : κ) :
    (target.override source).get? key = (source.get? key).or (target.get? key) := by
  have reversed : source.entries.reverse.lookup key = source.entries.lookup key := by
    apply Option.ext
    intro value
    have nodup : (source.entries.reverse.map Prod.fst).Nodup := by
      rw [List.map_reverse, List.nodup_reverse]
      exact source.keys_nodup
    have left := get?_eq_some_iff ⟨source.entries.reverse, nodup⟩ key value
    have right := get?_eq_some_iff source key value
    simp only [get?, List.mem_reverse] at left right
    rw [left, right]
  rw [override, get?_insertAll, reversed]
  rfl

theorem keys_override (target source : OrderedMap κ α) :
    (target.override source).keys =
      target.keys ++ source.keys.filter (· ∉ target.keys) :=
  keys_insertAll source.keys_nodup target

/-- Overriding a map by one with the same keys in the same order gives the latter. -/
theorem override_eq_of_keys_eq {target source : OrderedMap κ α}
    (sameKeys : target.keys = source.keys) : target.override source = source := by
  apply ext_get?
  · rw [keys_override, sameKeys]
    simp
  · intro key
    rw [get?_override]
    cases found : source.get? key with
    | some value => rfl
    | none =>
        rw [get?_eq_none_iff, ← sameKeys, ← get?_eq_none_iff] at found
        simp [found]

@[simp]
theorem override_self (map : OrderedMap κ α) : map.override map = map :=
  override_eq_of_keys_eq rfl

@[simp]
theorem override_empty (map : OrderedMap κ α) : map.override ∅ = map :=
  rfl

@[simp]
theorem empty_override (map : OrderedMap κ α) : (∅ : OrderedMap κ α).override map = map := by
  apply ext_get?
  · rw [keys_override]
    simp
  · intro key
    simp [get?_override]

theorem ofList_entries (map : OrderedMap κ α) : ofList map.entries = map :=
  empty_override map

/-- Overriding by a map with one more entry is writing that entry last. -/
theorem override_insert (target source : OrderedMap κ α) (key : κ) (value : α) :
    target.override (source.insert key value) = (target.override source).insert key value := by
  apply ext_get?
  · by_cases inTarget : key ∈ target.keys
    · rw [keys_insert_of_mem value (by simp [keys_override, inTarget]), keys_override,
        keys_override, keys_insert]
      split <;> simp [List.filter_append, inTarget]
    · by_cases inSource : key ∈ source.keys
      · rw [keys_insert_of_mem value (by simp [keys_override, inTarget, inSource]), keys_override,
          keys_override, keys_insert_of_mem value inSource]
      · rw [keys_insert_of_not_mem value (by simp [keys_override, inTarget, inSource]),
          keys_override, keys_override, keys_insert_of_not_mem value inSource]
        simp [List.filter_append, inTarget]
  · intro other
    rw [get?_override, get?_insert, get?_insert, get?_override]
    split <;> rfl

theorem override_insertAll (entries : List (κ × α)) (target source : OrderedMap κ α) :
    target.override (source.insertAll entries) = (target.override source).insertAll entries := by
  induction entries generalizing source with
  | nil => rfl
  | cons entry rest ih =>
      rw [insertAll, List.foldl_cons]
      exact (ih (source.insert entry.1 entry.2)).trans (by rw [override_insert]; rfl)

/-- Entries written one after the other override what is written by the first of them. -/
theorem ofList_append (first rest : List (κ × α)) :
    ofList (first ++ rest) = (ofList first).override (ofList rest) := by
  rw [ofList, insertAll, List.foldl_append]
  exact (override_insertAll rest (ofList first) ∅).symm

/-! ### Filling -/

variable (blank : α → Bool)

@[simp]
theorem fill_empty (map : OrderedMap κ α) : map.fill blank ∅ = map :=
  rfl

/-- What filling with a list of entries does to look-up: the first entry of a key counts, and
later ones do if the earlier ones are blank. -/
theorem get?_fill (target source : OrderedMap κ α) (key : κ) :
    (target.fill blank source).get? key =
      if (target.get? key).all blank then (source.get? key).or (target.get? key)
      else target.get? key := by
  rcases source with ⟨entries, nodup⟩
  change (entries.foldl _ target).get? key =
    if _ then (entries.lookup key).or (target.get? key) else _
  induction entries generalizing target with
  | nil => simp
  | cons entry rest ih =>
      rcases entry with ⟨other, value⟩
      rw [List.map_cons, List.nodup_cons] at nodup
      rw [List.foldl_cons, ih _ nodup.2, lookup_cons_eq_ite]
      by_cases same : key = other
      · subst same
        have absent : rest.lookup key = none := by
          rw [List.lookup_eq_none_iff]
          intro entry entry_mem
          simp only [bne_iff_ne, ne_eq]
          intro same
          exact nodup.1 (List.mem_map.mpr ⟨entry, entry_mem, same.symm⟩)
        by_cases open' : (target.get? key).all blank = true
        · simp [open', get?_insert, absent]
        · simp [open']
      · have unchanged : (if (target.get? other).all blank = true
            then target.insert other value else target).get? key = target.get? key := by
          split
          · rw [get?_insert, if_neg same]
          · rfl
        simp [unchanged, same]

theorem keys_fill (target source : OrderedMap κ α) :
    (target.fill blank source).keys =
      target.keys ++ source.keys.filter (· ∉ target.keys) := by
  rcases source with ⟨entries, nodup⟩
  change (entries.foldl _ target).keys =
    target.keys ++ (entries.map Prod.fst).filter (· ∉ target.keys)
  induction entries generalizing target with
  | nil => simp
  | cons entry rest ih =>
      rcases entry with ⟨other, value⟩
      rw [List.map_cons, List.nodup_cons] at nodup
      rw [List.foldl_cons, ih _ nodup.2, List.map_cons]
      dsimp only at nodup ⊢
      by_cases listed : other ∈ target.keys
      · have same_keys : (if (target.get? other).all blank = true
            then target.insert other value else target).keys = target.keys := by
          split
          · exact keys_insert_of_mem value listed
          · rfl
        rw [same_keys, List.filter_cons_of_neg (by simpa)]
      · have missing := (target.get?_eq_none_iff other).mpr listed
        have inserted : (if (target.get? other).all blank = true
            then target.insert other value else target) = target.insert other value := by
          simp [missing]
        simp only [inserted, keys_insert_of_not_mem value listed]
        rw [filter_not_mem_concat nodup.1, List.filter_cons_of_pos (by simpa), List.append_assoc,
          List.singleton_append]

@[simp]
theorem empty_fill (map : OrderedMap κ α) : (∅ : OrderedMap κ α).fill blank map = map := by
  apply ext_get?
  · rw [keys_fill]
    simp
  · intro key
    simp [get?_fill]

/-- What has been filled in stays filled: filling from the same source again changes nothing. -/
@[simp]
theorem fill_fill_self (target source : OrderedMap κ α) :
    (target.fill blank source).fill blank source = target.fill blank source := by
  apply ext_get?
  · have nothing_new : source.keys.filter (· ∉ (target.fill blank source).keys) = [] := by
      rw [List.filter_eq_nil_iff]
      intro key key_mem
      by_cases listed : key ∈ target.keys <;> simp [keys_fill, listed, key_mem]
    rw [keys_fill, nothing_new, List.append_nil]
  · intro key
    rw [get?_fill, get?_fill]
    by_cases open' : (target.get? key).all blank = true
    · cases source.get? key <;> simp [open']
    · simp [open']

end OrderedMap

end DotLang
