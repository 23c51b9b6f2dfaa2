import DotLang.Json.Reader
import DotLang.Text.Blank

/-!
# Blank documents are not JSON

Whatever counts as blank anywhere, a document of nothing but blanks has no value
(`read_blank`). So nothing that can be read is taken for empty input.
-/

namespace DotLang

namespace Json

/-- No word begins with a blank or a digit. -/
theorem words_start : ∀ word ∈ words.map Prod.fst, ∃ first more, word.toList = first :: more ∧
    Text.isBlank first = false ∧ first.isDigit = false := by
  intro word word_mem
  simp only [words, List.map_cons, List.map_nil, List.mem_cons, List.not_mem_nil, or_false]
    at word_mem
  rcases word_mem with rfl | rfl | rfl | rfl | rfl | rfl <;> exact ⟨_, _, rfl, rfl, rfl⟩

/-- Where a blank or a digit stands, the only scalar can be a number. -/
theorem readScalar_eq {input : Input}
    (noLetter : ∀ char ∈ input.rest.head?, Text.isBlank char = true ∨ char.isDigit = true) :
    readScalar.run input = readNumber.run input := by
  have noWord : words.find? (fun entry => input.startsWith entry.1.toList) = none := by
    rw [List.find?_eq_none]
    intro entry entry_mem starts
    rcases words_start entry.1 (List.mem_map_of_mem entry_mem) with
      ⟨first, more, word_eq, notBlank, notDigit⟩
    rw [Input.startsWith, word_eq] at starts
    cases rest_eq : input.rest with
    | nil => simp [rest_eq] at starts
    | cons char rest =>
        simp only [rest_eq, List.isPrefixOf, Bool.and_eq_true, beq_iff_eq] at starts
        rw [rest_eq] at noLetter
        have letter := noLetter char rfl
        simp [← starts.1, notBlank, notDigit] at letter
  simp only [readScalar, StateT.run_bind, StateT.run_get, pure_bind, noWord]

theorem isDigit_of_isBlank {char : Char} (blank : Text.isBlank char = true) :
    char.isDigit = false := by
  simp only [Text.isBlank, Text.isWhiteSpace, Bool.or_eq_true, Bool.and_eq_true, beq_iff_eq,
    decide_eq_true_eq] at blank
  rw [← Bool.not_eq_true, Char.isDigit_iff_toNat]
  have zero : '0'.toNat = 48 := rfl
  have nine : '9'.toNat = 57 := rfl
  omega

theorem numberParts?_blank {chars : List Char}
    (blank : ∀ char ∈ chars.head?, Text.isBlank char = true) :
    numberParts? chars = none := by
  cases chars with
  | nil => rfl
  | cons char rest =>
      have charBlank := blank char rfl
      have notDigit := isDigit_of_isBlank charBlank
      have notMinus : char ≠ '-' := by
        rintro rfl
        cases charBlank
      have notZero : char ≠ '0' := by
        rintro rfl
        cases charBlank
      simp [numberParts?, notMinus, wholeChars, notZero, notDigit]

theorem readScalar_blank {input : Input}
    (blank : ∀ char ∈ input.rest.head?, Text.isBlank char = true) :
    readScalar.run input = .error ⟨.value, input.position⟩ := by
  rw [readScalar_eq fun char char_mem => Or.inl (blank char char_mem)]
  simp only [readNumber, StateT.run_bind, StateT.run_get, pure_bind, numberParts?_blank blank]
  rfl

/-- Blanks are no value. -/
theorem readValue_blank (fuel : Nat) {input : Input}
    (blank : ∀ char ∈ input.rest.head?, Text.isBlank char = true) :
    (readValue fuel).run input = .error ⟨.value, input.position⟩ := by
  cases fuel with
  | zero => rfl
  | succ fuel =>
      rw [readValue, StateT.run_bind, StateT.run_get, pure_bind]
      split
      · next rest_eq => cases blank '"' (by rw [rest_eq]; rfl)
      · next rest_eq => cases blank '[' (by rw [rest_eq]; rfl)
      · next rest_eq => cases blank '\x7b' (by rw [rest_eq]; rfl)
      · exact readScalar_blank blank

/-- A document of blanks is not JSON. -/
theorem read_blank {text : String} (blank : Text.isBlankText text = true) :
    ∃ error, read text = .error error := by
  let start : Input := ⟨0, text.toList⟩
  let behind := start.advance (start.rest.takeWhile isBlank).length
  have stillBlank : ∀ char ∈ behind.rest.head?, Text.isBlank char = true := by
    intro char char_mem
    have rest_mem : char ∈ text.toList := List.mem_of_mem_drop (List.mem_of_mem_head? char_mem)
    exact List.all_eq_true.mp blank char rest_mem
  have skipped : skipBlanks.run start = .ok ((), behind) := rfl
  rw [read, StateT.run'_eq]
  cases mark : start.startsWith ['\ufeff'] with
  | true =>
      refine ⟨⟨.byteOrderMark, 0⟩, ?_⟩
      simp only [readDocument, StateT.run_bind, StateT.run_get, pure_bind, start, mark]
      rfl
  | false =>
      refine ⟨⟨.value, behind.position⟩, ?_⟩
      have value := readValue_blank (2 * text.toList.length + 2) stillBlank
      change (readDocument (2 * text.toList.length + 2)).run start >>= _ = _
      simp only [readDocument, StateT.run_bind, StateT.run_get, pure_bind, mark,
        Bool.false_eq_true, if_false, skipped]
      simp only [bind, Except.bind, value]

end Json

end DotLang
