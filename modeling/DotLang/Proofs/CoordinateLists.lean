import DotLang.Proofs.CoordinateText
import DotLang.Proofs.ReEncoding

/-!
# Lists of coordinates are read back

A typed list of coordinates is written as a row, with nothing but commas between
the coordinates. Such a row is not blank and does not open like the course of an
edge, so it is read as a list again (`parse_rowText`), and each coordinate of it
is what is read back from its own text. A list without coordinates is the
exception: its row is the empty text, which stands for no value.
-/

namespace DotLang

theorem rowText_cons_cons (first second : Float) (rest : List Float) :
    (rowText (first :: second :: rest)).toList =
      (coordinateText first).toList ++ ',' :: (rowText (second :: rest)).toList := by
  simp [rowText, String.intercalate_cons_cons]

/-- A row starts like its first coordinate. -/
theorem exists_rowText_eq (first : Float) (rest : List Float) :
    ∃ behind, (rowText (first :: rest)).toList = (coordinateText first).toList ++ behind := by
  cases rest with
  | nil => exact ⟨[], by simp [rowText, String.intercalate_singleton]⟩
  | cons second others => exact ⟨_, rowText_cons_cons first second others⟩

theorem not_isBlank_of_mem_rowText {numbers : List Float} {char : Char}
    (char_mem : char ∈ (rowText numbers).toList) : Text.isBlank char = false := by
  have within (number : Float) (char_mem : char ∈ (coordinateText number).toList) :
      Text.isBlank char = false :=
    (numeral_coordinateText number).isWord.not_isBlank char_mem
  induction numbers with
  | nil => simp [rowText] at char_mem
  | cons first rest ih =>
      cases rest with
      | nil =>
          rw [rowText, List.map_singleton, String.intercalate_singleton] at char_mem
          exact within first char_mem
      | cons second others =>
          rw [rowText_cons_cons, List.mem_append, List.mem_cons] at char_mem
          rcases char_mem with char_mem | rfl | char_mem
          · exact within first char_mem
          · decide
          · exact ih char_mem

theorem strip_rowText (numbers : List Float) : Text.strip (rowText numbers) = rowText numbers := by
  rw [Text.strip, Text.trim_eq_self fun _ char_mem => not_isBlank_of_mem_rowText char_mem,
    String.ofList_toList]

section Filled

variable {numbers : List Float}

theorem not_isBlankText_rowText (filled : numbers ≠ []) :
    Text.isBlankText (rowText numbers) = false := by
  cases numbers with
  | nil => exact absurd rfl filled
  | cons first rest =>
      rcases (numeral_coordinateText first).head with ⟨char, others, text_eq, _⟩
      rcases exists_rowText_eq first rest with ⟨behind, row_eq⟩
      have char_mem : char ∈ (rowText (first :: rest)).toList := by simp [row_eq, text_eq]
      exact (Text.isBlankText_eq_false_iff _).mpr
        ⟨char, char_mem, not_isBlank_of_mem_rowText char_mem⟩

/-- A row of coordinates is not taken for the course of an edge. -/
theorem not_opensEdgePos_rowText (numbers : List Float) :
    Value.opensEdgePos (rowText numbers) = false := by
  cases numbers with
  | nil => rfl
  | cons first rest =>
      rcases (numeral_coordinateText first).head with ⟨char, others, text_eq, kind⟩
      rcases exists_rowText_eq first rest with ⟨behind, row_eq⟩
      have not_end : 'e' ≠ char := by
        rintro rfl
        exact absurd kind (by decide)
      have not_start : 's' ≠ char := by
        rintro rfl
        exact absurd kind (by decide)
      simp [Value.opensEdgePos, EdgePos.markers, row_eq, text_eq, List.isPrefixOf_cons_cons,
        not_end, not_start]

/-- A row of coordinates reads as its coordinates, each as it is read back. -/
theorem readFloats?_rowText (filled : numbers ≠ []) :
    (Value.text (rowText numbers)).readFloats? = some (numbers.map reread) := by
  have written : (Value.text (rowText numbers)).isBlank = false := not_isBlankText_rowText filled
  rw [Value.readFloats?, written, Value.display, tokens_rowText]
  rfl

theorem readPosition_rowText (filled : numbers ≠ []) :
    (Value.text (rowText numbers)).readPosition = Value.ofFloats (numbers.map reread) := by
  have written : (Value.text (rowText numbers)).isBlank = false := not_isBlankText_rowText filled
  simp [Value.readPosition, written, Value.display, strip_rowText, not_opensEdgePos_rowText,
    readFloats?_rowText filled]

end Filled

namespace Value

/-- Lists of doubles are equal if they are so item by item. -/
theorem same_ofFloats_iff (left right : List Float) :
    (ofFloats left).same (ofFloats right) = true ↔ List.Forall₂ SameCoordinate left right := by
  have items_iff : sameItems (left.map .float) (right.map .float) = true ↔
      List.Forall₂ SameCoordinate left right := by
    induction left generalizing right with
    | nil => cases right <;> simp [sameItems]
    | cons first rest ih =>
        cases right with
        | nil => simp [sameItems]
        | cons other others =>
            have first_iff : same (.float first) (.float other) = true ↔
                SameCoordinate first other := by
              simp only [same]
              rfl
            simp [sameItems, first_iff, ih]
  rw [ofFloats, ofFloats, same, items_iff]

end Value

namespace Geometry

variable {name : String}

theorem not_mem_sizeNames (listed : name ∈ listNames ∨ name = positionName) :
    name ∉ sizeNames := by
  rcases listed with listed | rfl
  · revert name
    decide
  · decide

/-- A list of coordinates is written as a row. -/
theorem encode_ofFloats (scale : Number) (listed : name ∈ listNames ∨ name = positionName)
    (numbers : List Float) :
    (typed scale).encode name (Value.ofFloats numbers) = .ok (.text (rowText numbers)) := by
  simp only [encode, if_neg (not_mem_sizeNames listed), Value.ofFloats, if_pos listed,
    listText_floats]
  rfl

/-- A row is read as a list again. -/
theorem parse_rowText (scale : Number) (listed : name ∈ listNames ∨ name = positionName)
    {numbers : List Float} (filled : numbers ≠ []) :
    (typed scale).parse name (.text (rowText numbers)) =
      .ok (Value.ofFloats (numbers.map reread)) := by
  simp only [parse, if_neg (not_mem_sizeNames listed)]
  by_cases coordinates : name ∈ listNames
  · rw [if_pos coordinates, readFloats?_rowText filled]
    rfl
  · rw [if_neg coordinates, if_pos (listed.resolve_left coordinates),
      readPosition_rowText filled]

/-- The empty text stands for no value. -/
theorem parse_empty (scale : Number) (listed : name ∈ listNames ∨ name = positionName) :
    (typed scale).parse name (.text "") = .ok .null := by
  simp only [parse, if_neg (not_mem_sizeNames listed)]
  by_cases coordinates : name ∈ listNames
  · rw [if_pos coordinates]
    rfl
  · rw [if_neg coordinates, if_pos (listed.resolve_left coordinates)]
    rfl

/-- The items of a list that is read are doubles. -/
theorem coordinates_of_parse {scale : Number} (listed : name ∈ listNames ∨ name = positionName)
    {value : Value} {items : List Value}
    (parsed : (typed scale).parse name value = .ok (.list items)) :
    ∃ numbers : List Float, items = numbers.map .float := by
  have form_eq : (typed scale).typedForm name value = .list items := by rw [typedForm, parsed]
  exact coordinates_of_typedForm (not_mem_sizeNames listed) form_eq listed

/-- A list of coordinates that are each read back from their own text is read back from the text
that it is written as. The list without items, which is read from a text of separators, is not: it
is written as the empty text. -/
theorem parse_encode_coordinates (scale : Number)
    (listed : name ∈ listNames ∨ name = positionName) {value : Value} {items : List Value}
    (parsed : (typed scale).parse name value = .ok (.list items))
    (faithful : ∀ number, .float number ∈ items → SameCoordinate (reread number) number) :
    ∃ (numbers : List Float) (written : String) (again : Value),
      items = numbers.map .float ∧
      (typed scale).encode name (.list items) = .ok (.text written) ∧
      (typed scale).parse name (.text written) = .ok again ∧
      if items = [] then written = "" ∧ again = .null
      else again.same (.list items) = true := by
  rcases coordinates_of_parse listed parsed with ⟨numbers, rfl⟩
  have encoded := encode_ofFloats scale listed numbers
  by_cases filled : numbers = []
  · subst filled
    exact ⟨[], "", .null, rfl, encoded, parse_empty scale listed, rfl, rfl⟩
  · refine ⟨numbers, rowText numbers, Value.ofFloats (numbers.map reread), rfl, encoded,
      parse_rowText scale listed filled, ?_⟩
    rw [if_neg (by simpa using filled)]
    have each : List.Forall₂ SameCoordinate (numbers.map reread) numbers := by
      rw [List.forall₂_map_left_iff, List.forall₂_same]
      exact fun number number_mem => faithful number (List.mem_map_of_mem number_mem)
    exact (Value.same_ofFloats_iff _ _).mpr each

/-- A box whose text has a blank before it, two separators in a row, an exponent and a word. -/
theorem parse_encode_coordinates_of_box :
    let geometry := typed defaultScale
    let items : List Value := [.float 0.0, .float 0.5, .float (0.0 / 0.0), .float 108.0]
    geometry.parse "bb" (.text " 0, ,5e-1\twide,108.0") = .ok (.list items) ∧
      ∃ written again, geometry.encode "bb" (.list items) = .ok (.text written) ∧
        geometry.parse "bb" (.text written) = .ok again ∧ again.same (.list items) = true := by
  intro geometry items
  have parsed : geometry.parse "bb" (.text " 0, ,5e-1\twide,108.0") = .ok (.list items) := rfl
  have each : ∀ number ∈ [0.0, 0.5, 0.0 / 0.0, 108.0], SameCoordinate (reread number) number := by
    decide +kernel
  have faithful : ∀ number, .float number ∈ items → SameCoordinate (reread number) number := by
    intro number number_mem
    exact each number (by simpa [items] using number_mem)
  rcases parse_encode_coordinates defaultScale (.inl (by decide)) parsed faithful with
    ⟨_, written, again, _, encoded, parsed_again, same⟩
  exact ⟨parsed, written, again, encoded, parsed_again, same⟩

/-- A text of separators is read as a list without items. It is written as the empty text, and that
is read as no value. -/
theorem parse_encode_separators :
    let geometry := typed defaultScale
    geometry.parse "bb" (.text ",") = .ok (.list []) ∧
      geometry.encode "bb" (.list []) = .ok (.text "") ∧
      geometry.parse "bb" (.text "") = .ok .null ∧
      ¬∀ (name content : String) (items : List Value), name ∈ listNames ∨ name = positionName →
        geometry.parse name (.text content) = .ok (.list items) →
        (∀ number, .float number ∈ items → SameCoordinate (reread number) number) →
        ∃ written again, geometry.encode name (.list items) = .ok written ∧
          geometry.parse name written = .ok again ∧ again.same (.list items) = true := by
  intro geometry
  refine ⟨rfl, rfl, rfl, fun survives => ?_⟩
  rcases survives "bb" "," [] (.inl (by decide)) rfl (by simp) with
    ⟨written, again, encoded, parsed, same⟩
  cases encoded
  cases parsed
  cases same

end Geometry

end DotLang
