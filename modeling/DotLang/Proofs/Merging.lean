import DotLang.Proofs.OrderedMap

/-!
# Merging attribute maps

There are two ways to merge a source into a target. Overriding writes every entry
of the source; filling writes those only for which the target has no value. A key
that is listed without a value therefore counts as missing for the one and as
written for the other.

Both list the same keys, and both are associative: of several layers that are
merged one after the other, any neighbours can be merged first (`merge_laws`).
-/

namespace DotLang

namespace OrderedMap

variable {κ α : Type} [DecidableEq κ]

/-- Three lists, each without what is listed before it, can be appended in any grouping. -/
theorem append_unlisted_assoc (first second third : List κ) :
    (first ++ second.filter (· ∉ first)) ++
        third.filter (· ∉ first ++ second.filter (· ∉ first)) =
      first ++ (second ++ third.filter (· ∉ second)).filter (· ∉ first) := by
  rw [List.append_assoc, List.filter_append, List.filter_filter]
  congr 2
  apply List.filter_congr
  intro key _
  by_cases listed : key ∈ first <;> simp [listed]

theorem override_assoc (target first second : OrderedMap κ α) :
    (target.override first).override second = target.override (first.override second) := by
  apply ext_get?
  · simp only [keys_override]
    exact append_unlisted_assoc target.keys first.keys second.keys
  · intro key
    simp only [get?_override, Option.or_assoc]

/-- What has been written stays written: overriding by the same source again changes nothing. -/
theorem override_override_self (target source : OrderedMap κ α) :
    (target.override source).override source = target.override source := by
  rw [override_assoc, override_self]

section Filling

variable (blank : α → Bool)

/-- The first value that is not blank counts. Where there is none, the last blank one does. -/
theorem fill_assoc (target first second : OrderedMap κ α) :
    (target.fill blank first).fill blank second =
      target.fill blank (first.fill blank second) := by
  apply ext_get?
  · simp only [keys_fill]
    exact append_unlisted_assoc target.keys first.keys second.keys
  · intro key
    simp only [get?_fill]
    cases target.get? key with
    | none => simp
    | some old =>
        by_cases isOpen : blank old = true
        · cases first.get? key with
          | none => simp [isOpen]
          | some value =>
              by_cases stillOpen : blank value = true
              · cases second.get? key <;> simp [isOpen, stillOpen]
              · simp [isOpen, stillOpen]
        · simp [isOpen]

variable {blank} {target : OrderedMap κ α} {key : κ} {value : α}

theorem get?_fill_of_value (found : target.get? key = some value) (isValue : blank value = false)
    (source : OrderedMap κ α) : (target.fill blank source).get? key = some value := by
  rw [get?_fill, found]
  simp [isValue]

/-- A key has no value but a blank one after filling if it is listed and neither map has another
value for it. -/
theorem exists_blank_get?_fill_iff (target source : OrderedMap κ α) (key : κ) :
    (∃ value, (target.fill blank source).get? key = some value ∧ blank value = true) ↔
      (key ∈ target.keys ∨ key ∈ source.keys) ∧
        (target.get? key).all blank = true ∧ (source.get? key).all blank = true := by
  rw [get?_fill, mem_keys_iff, mem_keys_iff]
  cases target.get? key with
  | none => cases source.get? key <;> simp
  | some old =>
      by_cases isOpen : blank old = true
      · cases source.get? key <;> simp [isOpen]
      · simp [isOpen]

end Filling

end OrderedMap

namespace Attributes

open OrderedMap (override_assoc override_override_self fill_assoc fill_fill_self keys_override
  keys_fill)

theorem all_isNull_iff (attrs : Attributes) (name : String) :
    (attrs.get? name).all Value.isNull = true ↔
      ∀ value, attrs.get? name = some value → value = .null := by
  cases attrs.get? name with
  | none => simp
  | some value => cases value <;> simp [Value.isNull]

/-- Merging is associative, and merging the same source again changes nothing. The merged map lists
the names of the target in their order and then the new names of the source in theirs. Filling keeps
all values of the target, and leaves a name without value exactly if it is listed and neither map
has a value for it. -/
theorem merge_laws (target first second : Attributes) :
    fill (fill target first) second = fill target (fill first second) ∧
      (target.override first).override second = target.override (first.override second) ∧
      fill (fill target first) first = fill target first ∧
      (target.override first).override first = target.override first ∧
      (fill target first).keys = target.keys ++ first.keys.filter (· ∉ target.keys) ∧
      (target.override first).keys = target.keys ++ first.keys.filter (· ∉ target.keys) ∧
      ∀ name,
        (∀ value, target.get? name = some value → value ≠ .null →
          (fill target first).get? name = some value) ∧
        ((fill target first).get? name = some .null ↔
          (name ∈ target.keys ∨ name ∈ first.keys) ∧
            (∀ value, target.get? name = some value → value = .null) ∧
            ∀ value, first.get? name = some value → value = .null) := by
  refine ⟨fill_assoc _ target first second, override_assoc target first second,
    fill_fill_self _ target first, override_override_self target first, keys_fill _ target first,
    keys_override target first, fun name => ⟨?kept, ?missing⟩⟩
  case kept =>
    intro value found isValue
    refine OrderedMap.get?_fill_of_value found ?_ first
    cases value <;> first | rfl | exact absurd rfl isValue
  case missing =>
    rw [← all_isNull_iff, ← all_isNull_iff, ← OrderedMap.exists_blank_get?_fill_iff]
    constructor
    · intro found
      exact ⟨.null, found, rfl⟩
    · rintro ⟨value, found, isNull⟩
      cases value <;> first | exact found | cases isNull

/-- A name that both maps list without a value, which a second source still fills. -/
theorem merge_laws_of_missing_values :
    let target : Attributes := .ofList [("color", .null), ("label", .text "a")]
    let first : Attributes := .ofList [("shape", .null), ("color", .null)]
    let second : Attributes := .ofList [("color", .text "red"), ("label", .text "b")]
    target.get? "label" = some (.text "a") ∧ Value.text "a" ≠ .null ∧
      (fill target first).get? "label" = some (.text "a") ∧
      (fill target first).get? "color" = some .null ∧
      (fill target first).keys = ["color", "label", "shape"] ∧
      fill (fill target first) second = fill target (fill first second) ∧
      (fill (fill target first) second).get? "color" = some (.text "red") := by
  intro target first second
  obtain ⟨filled, _, _, _, keys, _, values⟩ := merge_laws target first second
  have found : target.get? "label" = some (.text "a") := rfl
  have isValue : Value.text "a" ≠ .null := nofun
  have missing {attrs : Attributes} (listed : attrs.get? "color" = some .null) (value : Value)
      (found : attrs.get? "color" = some value) : value = .null :=
    Option.some.inj (found.symm.trans listed)
  refine ⟨found, isValue, (values "label").1 _ found isValue, (values "color").2.mpr ?_, keys,
    filled, ?_⟩
  · exact ⟨Or.inl (OrderedMap.mem_keys_of_get? rfl), missing rfl, missing rfl⟩
  · rfl

end Attributes

end DotLang
