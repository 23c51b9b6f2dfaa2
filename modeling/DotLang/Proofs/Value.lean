import DotLang.Proofs.OrderedMap
import DotLang.Value
import Mathlib.Data.List.Perm.Subperm

/-!
# Equality of values

Structural equality compares objects regardless of the order of their fields, so
it is only what one expects if no object has two fields of one key. For such
values it is reflexive (`same_refl`), and equal values are equally deep
(`depth_le_of_same`). The latter tells an object from anything inside it.
-/

namespace DotLang

/-- A double equals itself unless it is NaN. -/
theorem float_beq_self (number : Float) : (number == number || number.isNaN) = true := by
  have unpacked : ∀ parts : Float.Model.UnpackedFloat, (parts.beq parts || parts.isNaN) = true := by
    intro parts
    cases parts with
    | notANumber => rfl
    | infinity sign => cases sign <;> rfl
    | zero sign => rfl
    | finite sign mantissa exponent positive =>
        have order_eq : (compare exponent exponent).then (compare mantissa mantissa) = .eq := by
          simp
        have equal (order : Ordering) (isEq : order = .eq) : (some order == some .eq || false) := by
          rw [isEq]
          rfl
        cases sign with
        | positive => exact equal _ order_eq
        | negative => exact equal _ (congrArg Ordering.swap order_eq)
  exact unpacked number.toModel.unpack

namespace Value

mutual

/-- Whether every object in a value has one field for each of its keys. -/
def hasDistinctKeys : Value → Bool
  | .list items => allHaveDistinctKeys items
  | .object fields => decide (fields.map Prod.fst).Nodup && fieldsHaveDistinctKeys fields
  | _ => true

def allHaveDistinctKeys : List Value → Bool
  | [] => true
  | item :: rest => hasDistinctKeys item && allHaveDistinctKeys rest

def fieldsHaveDistinctKeys : List (String × Value) → Bool
  | [] => true
  | (_, value) :: rest => hasDistinctKeys value && fieldsHaveDistinctKeys rest

end

mutual

/-- How deep the lists and objects of a value are nested. -/
def depth : Value → Nat
  | .list items => depthOfItems items + 1
  | .object fields => depthOfFields fields + 1
  | _ => 0

def depthOfItems : List Value → Nat
  | [] => 0
  | item :: rest => max item.depth (depthOfItems rest)

def depthOfFields : List (String × Value) → Nat
  | [] => 0
  | (_, value) :: rest => max value.depth (depthOfFields rest)

end

theorem allHaveDistinctKeys_iff {items : List Value} :
    allHaveDistinctKeys items = true ↔ ∀ item ∈ items, item.hasDistinctKeys = true := by
  induction items with
  | nil => simp [allHaveDistinctKeys]
  | cons item rest ih => simp [allHaveDistinctKeys, ih]

theorem fieldsHaveDistinctKeys_iff {fields : List (String × Value)} :
    fieldsHaveDistinctKeys fields = true ↔
      ∀ entry ∈ fields, entry.2.hasDistinctKeys = true := by
  induction fields with
  | nil => simp [fieldsHaveDistinctKeys]
  | cons entry rest ih => simp [fieldsHaveDistinctKeys, ih]

theorem hasDistinctKeys_object {fields : List (String × Value)} :
    (Value.object fields).hasDistinctKeys = true ↔
      (fields.map Prod.fst).Nodup ∧ ∀ entry ∈ fields, entry.2.hasDistinctKeys = true := by
  rw [hasDistinctKeys, Bool.and_eq_true, decide_eq_true_eq, fieldsHaveDistinctKeys_iff]

theorem depth_le_of_mem_items {item : Value} {items : List Value} (item_mem : item ∈ items) :
    item.depth ≤ depthOfItems items := by
  induction items with
  | nil => cases item_mem
  | cons first rest ih =>
      rw [depthOfItems]
      rcases List.mem_cons.mp item_mem with rfl | later
      · exact Nat.le_max_left _ _
      · exact Nat.le_trans (ih later) (Nat.le_max_right _ _)

theorem depth_le_of_mem_fields {entry : String × Value} {fields : List (String × Value)}
    (entry_mem : entry ∈ fields) : entry.2.depth ≤ depthOfFields fields := by
  induction fields with
  | nil => cases entry_mem
  | cons first rest ih =>
      rw [depthOfFields]
      rcases List.mem_cons.mp entry_mem with rfl | later
      · exact Nat.le_max_left _ _
      · exact Nat.le_trans (ih later) (Nat.le_max_right _ _)

/-- Among fields with distinct keys a look-up finds the field that there is. -/
theorem lookup_eq_some_iff {fields : List (String × Value)} (nodup : (fields.map Prod.fst).Nodup)
    (key : String) (value : Value) :
    fields.lookup key = some value ↔ (key, value) ∈ fields :=
  OrderedMap.get?_eq_some_iff ⟨fields, nodup⟩ key value

theorem mem_of_lookup {fields : List (String × Value)} {key : String} {value : Value}
    (found : fields.lookup key = some value) : (key, value) ∈ fields := by
  rcases List.lookup_eq_some_iff.mp found with ⟨before, after, rfl, _⟩
  simp

/-! ### Equality is reflexive -/

mutual

theorem same_refl : ∀ value : Value, value.hasDistinctKeys = true → value.same value = true
  | .list items, distinct => sameItems_refl items distinct
  | .object fields, distinct => by
      rw [hasDistinctKeys_object] at distinct
      rw [same, beq_self_eq_true, Bool.true_and]
      apply sameFields_of_lookup fields fields
      · exact fun entry => (lookup_eq_some_iff distinct.1 entry.1 entry.2).mpr
      · exact fieldsHaveDistinctKeys_iff.mpr distinct.2
  | .null, _ => rfl
  | .bool truth, _ => by simp [same, sameNumber, truthAsNumber]
  | .int number, _ => by simp [same, sameNumber, truthAsNumber]
  | .float number, _ => by
      have equal := float_beq_self number
      simpa [same, sameNumber, truthAsNumber] using equal
  | .text content, _ => by simp [same]
  | .markup content, _ => by simp [same]
  | .edgePos position, _ => by simp [same]

theorem sameItems_refl : ∀ items : List Value, allHaveDistinctKeys items = true →
    sameItems items items = true
  | [], _ => rfl
  | item :: rest, distinct => by
      rw [allHaveDistinctKeys, Bool.and_eq_true] at distinct
      rw [sameItems, same_refl item distinct.1, sameItems_refl rest distinct.2, Bool.and_self]

theorem sameFields_of_lookup : ∀ fields others : List (String × Value),
    (∀ entry ∈ fields, others.lookup entry.1 = some entry.2) →
    fieldsHaveDistinctKeys fields = true → sameFields fields others = true
  | [], _, _, _ => rfl
  | (key, value) :: rest, others, found, distinct => by
      rw [fieldsHaveDistinctKeys, Bool.and_eq_true] at distinct
      rw [sameFields, found (key, value) List.mem_cons_self]
      dsimp only
      rw [same_refl value distinct.1, Bool.true_and]
      exact sameFields_of_lookup rest others
        (fun entry later => found entry (List.mem_cons_of_mem _ later)) distinct.2

end

/-! ### Equal values are equally deep -/

theorem exists_of_sameItems {left right : List Value} (same : sameItems left right = true) :
    ∀ item ∈ right, ∃ other ∈ left, other.same item = true := by
  induction left generalizing right with
  | nil =>
      cases right with
      | nil => exact fun _ => nofun
      | cons item rest => cases same
  | cons first others ih =>
      cases right with
      | nil => cases same
      | cons item rest =>
          rw [sameItems, Bool.and_eq_true] at same
          intro wanted wanted_mem
          rcases List.mem_cons.mp wanted_mem with rfl | later
          · exact ⟨first, List.mem_cons_self, same.1⟩
          · rcases ih same.2 wanted later with ⟨other, other_mem, equal⟩
            exact ⟨other, List.mem_cons_of_mem _ other_mem, equal⟩

theorem lookup_of_sameFields {left right : List (String × Value)}
    (same : sameFields left right = true) :
    ∀ entry ∈ left, ∃ other, right.lookup entry.1 = some other ∧ entry.2.same other = true := by
  induction left with
  | nil => exact fun _ => nofun
  | cons first rest ih =>
      rcases first with ⟨key, value⟩
      rw [sameFields, Bool.and_eq_true] at same
      intro entry entry_mem
      rcases List.mem_cons.mp entry_mem with rfl | later
      · cases found : right.lookup key with
        | none => simp [found] at same
        | some other =>
            rw [found] at same
            exact ⟨other, rfl, same.1⟩
      · exact ih same.2 entry later

/-- As many fields with distinct keys: no field on the right is left over. -/
theorem exists_of_sameFields {left right : List (String × Value)}
    (nodup : (left.map Prod.fst).Nodup) (length_eq : left.length = right.length)
    (same : sameFields left right = true) :
    ∀ entry ∈ right, ∃ other ∈ left, other.2.same entry.2 = true := by
  have matched := lookup_of_sameFields same
  have listed : left.map Prod.fst ⊆ right.map Prod.fst := by
    intro key key_mem
    rcases List.mem_map.mp key_mem with ⟨entry, entry_mem, rfl⟩
    rcases matched entry entry_mem with ⟨other, found, _⟩
    exact List.mem_map.mpr ⟨(entry.1, other), mem_of_lookup found, rfl⟩
  have sameKeys : (left.map Prod.fst).Perm (right.map Prod.fst) := by
    apply (List.subperm_of_subset nodup listed).perm_of_length_le
    simp [length_eq]
  intro entry entry_mem
  have key_mem := sameKeys.mem_iff.mpr (List.mem_map_of_mem (f := Prod.fst) entry_mem)
  rcases List.mem_map.mp key_mem with ⟨other, other_mem, key_eq⟩
  rcases matched other other_mem with ⟨value, found, equal⟩
  rw [key_eq, (lookup_eq_some_iff (sameKeys.nodup_iff.mp nodup) entry.1 entry.2).mpr entry_mem,
    Option.some.injEq] at found
  exact ⟨other, other_mem, found ▸ equal⟩

theorem eq_list_of_same {left : Value} {items : List Value}
    (same : left.same (.list items) = true) :
    ∃ others, left = .list others ∧ sameItems others items = true := by
  cases left with
  | list others => exact ⟨others, rfl, same⟩
  | _ => simp [Value.same, sameNumber, truthAsNumber] at same

theorem eq_object_of_same {left : Value} {fields : List (String × Value)}
    (same : left.same (.object fields) = true) :
    ∃ others, left = .object others ∧ others.length = fields.length ∧
      sameFields others fields = true := by
  cases left with
  | object others =>
      rw [Value.same, Bool.and_eq_true, beq_iff_eq] at same
      exact ⟨others, rfl, same⟩
  | _ => simp [Value.same, sameNumber, truthAsNumber] at same

mutual

theorem depth_le_of_same : ∀ right left : Value, left.hasDistinctKeys = true →
    left.same right = true → right.depth ≤ left.depth
  | .list items, left, distinct, same => by
      rcases eq_list_of_same same with ⟨others, rfl, same⟩
      rw [hasDistinctKeys, allHaveDistinctKeys_iff] at distinct
      apply Nat.succ_le_succ
      apply depthOfItems_le items
      intro item item_mem
      rcases exists_of_sameItems same item item_mem with ⟨other, other_mem, equal⟩
      exact ⟨other, distinct other other_mem, equal, depth_le_of_mem_items other_mem⟩
  | .object fields, left, distinct, same => by
      rcases eq_object_of_same same with ⟨others, rfl, length_eq, same⟩
      rw [hasDistinctKeys_object] at distinct
      apply Nat.succ_le_succ
      apply depthOfFields_le fields
      intro entry entry_mem
      rcases exists_of_sameFields distinct.1 length_eq same entry entry_mem with
        ⟨other, other_mem, equal⟩
      exact ⟨other.2, distinct.2 other other_mem, equal, depth_le_of_mem_fields other_mem⟩
  | .null, _, _, _ => Nat.zero_le _
  | .bool _, _, _, _ => Nat.zero_le _
  | .int _, _, _, _ => Nat.zero_le _
  | .float _, _, _, _ => Nat.zero_le _
  | .text _, _, _, _ => Nat.zero_le _
  | .markup _, _, _, _ => Nat.zero_le _
  | .edgePos _, _, _, _ => Nat.zero_le _

theorem depthOfItems_le {bound : Nat} : ∀ items : List Value,
    (∀ item ∈ items, ∃ other : Value, other.hasDistinctKeys = true ∧ other.same item = true ∧
      other.depth ≤ bound) → depthOfItems items ≤ bound
  | [], _ => Nat.zero_le _
  | item :: rest, matched => by
      rcases matched item List.mem_cons_self with ⟨other, distinct, equal, bounded⟩
      rw [depthOfItems]
      apply Nat.max_le.mpr
      constructor
      · exact Nat.le_trans (depth_le_of_same item other distinct equal) bounded
      · exact depthOfItems_le rest fun item later => matched item (List.mem_cons_of_mem _ later)

theorem depthOfFields_le {bound : Nat} : ∀ fields : List (String × Value),
    (∀ entry ∈ fields, ∃ other : Value, other.hasDistinctKeys = true ∧
      other.same entry.2 = true ∧ other.depth ≤ bound) → depthOfFields fields ≤ bound
  | [], _ => Nat.zero_le _
  | (key, value) :: rest, matched => by
      rcases matched (key, value) List.mem_cons_self with ⟨other, distinct, equal, bounded⟩
      rw [depthOfFields]
      apply Nat.max_le.mpr
      constructor
      · exact Nat.le_trans (depth_le_of_same value other distinct equal) bounded
      · exact depthOfFields_le rest fun entry later => matched entry (List.mem_cons_of_mem _ later)

end

/-- What stands in a field of an object does not equal the object. -/
theorem same_object_of_mem {fields : List (String × Value)} {entry : String × Value}
    (entry_mem : entry ∈ fields) (distinct : entry.2.hasDistinctKeys = true) :
    entry.2.same (.object fields) = false := by
  by_contra equal
  rw [Bool.not_eq_false] at equal
  have deeper := depth_le_of_same (.object fields) entry.2 distinct equal
  have inside := depth_le_of_mem_fields entry_mem
  rw [depth] at deeper
  omega

end Value

end DotLang
