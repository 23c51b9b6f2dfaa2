import DotLang.Geometry
import DotLang.Proofs.Results
import Mathlib

/-!
# Rows of coordinates

A written coordinate is a single token: it is not empty, it has no separator in
it, and it does not start like the marker of an edge position (`Numeral`). So the
tokens of a row that is written with commas are the coordinates in it
(`tokens_intercalate`), and what is read from the row is what is read from each of
them.

Equality of doubles is not identity: zero has two signs and NaN differs from
itself. What is written does not see these differences: equal coordinates are
identical or the two zeros (`SameCoordinate.eq_or_zeros`), and these are written
alike (`SameCoordinate.text_eq`). So reading what was written is final after one
round.
-/

namespace DotLang

/-! ### Tokens -/

namespace Text

theorem pieces_eq_splitOnP (separates : Char → Bool) (chars : List Char) :
    pieces separates chars = chars.splitOnP separates := by
  induction chars with
  | nil => rfl
  | cons char rest ih =>
      rw [pieces, ih, List.splitOnP_cons_eq_if_modifyHead]
      split
      · rfl
      · cases split : List.splitOnP separates rest with
        | nil => exact absurd split (List.splitOnP_ne_nil separates rest)
        | cons first others => rfl

/-- A text falls apart at each separator. -/
theorem tokens_append_separator {char : Char} (separator : isSeparator char = true)
    (before behind : List Char) :
    tokens (before ++ char :: behind) = tokens before ++ tokens behind := by
  rw [tokens, pieces_eq_splitOnP, List.splitOnP_append_cons before behind separator,
    List.filter_append]
  simp only [tokens, pieces_eq_splitOnP]

/-- Whether characters make a single token. -/
structure IsWord (chars : List Char) : Prop where
  filled : chars ≠ []
  clean : ∀ char ∈ chars, isSeparator char = false

theorem IsWord.tokens_eq {chars : List Char} (word : IsWord chars) : tokens chars = [chars] := by
  rw [tokens, pieces_eq_splitOnP, List.splitOnP_eq_singleton word.clean]
  simp [word.filled]

theorem IsWord.not_isBlank {chars : List Char} (word : IsWord chars) {char : Char}
    (char_mem : char ∈ chars) : isBlank char = false :=
  (Bool.or_eq_false_iff.mp (word.clean char char_mem)).1

theorem isBlankText_eq_false_iff (text : String) :
    isBlankText text = false ↔ ∃ char ∈ text.toList, isBlank char = false := by
  rw [isBlankText, List.all_eq_false]
  simp

/-- The tokens of words between commas are the words. -/
theorem tokens_intercalate {words : List String} (each : ∀ word ∈ words, IsWord word.toList) :
    tokens (",".intercalate words).toList = words.map String.toList := by
  have comma : isSeparator ',' = true := by decide
  induction words with
  | nil => rfl
  | cons first rest ih =>
      rw [List.forall_mem_cons] at each
      cases rest with
      | nil => rw [String.intercalate_singleton, each.1.tokens_eq]; rfl
      | cons second others =>
          have row_eq : (",".intercalate (first :: second :: others)).toList =
              first.toList ++ ',' :: (",".intercalate (second :: others)).toList := by
            simp [String.intercalate_cons_cons]
          rw [row_eq, tokens_append_separator comma, each.1.tokens_eq, ih each.2]
          rfl

theorem trim_eq_self {dropped : Char → Bool} {chars : List Char}
    (kept : ∀ char ∈ chars, dropped char = false) : trim dropped chars = chars := by
  have same (rest : List Char) (kept : ∀ char ∈ rest, dropped char = false) :
      rest.dropWhile dropped = rest := by
    cases rest with
    | nil => rfl
    | cons char rest => simp [kept char List.mem_cons_self]
  rw [trim, same chars kept, same chars.reverse fun char char_mem =>
    kept char (List.mem_reverse.mp char_mem), List.reverse_reverse]

end Text

/-! ### Numerals -/

/-- The characters of a number beside its digits. -/
def numeralMarks : List Char :=
  ['+', '-', '.', 'a', 'e', 'f', 'i', 'n']

/-- Whether a character can stand in a written number. -/
def IsNumeralChar (char : Char) : Prop :=
  char.isDigit = true ∨ char ∈ numeralMarks

instance (char : Char) : Decidable (IsNumeralChar char) :=
  inferInstanceAs (Decidable (_ ∨ _))

theorem IsNumeralChar.not_isSeparator {char : Char} (numeral : IsNumeralChar char) :
    Text.isSeparator char = false := by
  rcases numeral with digit | mark
  · have code : 48 ≤ char.toNat ∧ char.toNat ≤ 57 := by
      simp only [Char.isDigit, Bool.and_eq_true, decide_eq_true_eq, ge_iff_le,
        UInt32.le_iff_toNat_le] at digit
      exact digit
    have not_comma : char ≠ ',' := by
      rintro rfl
      exact absurd digit (by decide)
    simp [Text.isSeparator, Text.isBlank, Text.isWhiteSpace, not_comma]
    omega
  · have clean : (numeralMarks.all fun mark => !Text.isSeparator mark) = true := by decide
    simpa using List.all_eq_true.mp clean char mark

/-- Whether characters look like a written number: they start with a digit, a minus or the word of a
special value. -/
structure Numeral (chars : List Char) : Prop where
  head : ∃ first rest, chars = first :: rest ∧ (first.isDigit = true ∨ first ∈ ['-', 'i', 'n'])
  each : ∀ char ∈ chars, IsNumeralChar char

namespace Numeral

variable {chars : List Char}

theorem ne_nil (numeral : Numeral chars) : chars ≠ [] := by
  rcases numeral.head with ⟨first, rest, rfl, _⟩
  simp

/-- A written number is a single token. -/
theorem isWord (numeral : Numeral chars) : Text.IsWord chars where
  filled := numeral.ne_nil
  clean := fun char char_mem => (numeral.each char char_mem).not_isSeparator

theorem of_digit {first : Char} {rest : List Char} (digit : first.isDigit = true)
    (each : ∀ char ∈ rest, IsNumeralChar char) : Numeral (first :: rest) where
  head := ⟨first, rest, rfl, .inl digit⟩
  each := List.forall_mem_cons.mpr ⟨.inl digit, each⟩

theorem neg (numeral : Numeral chars) : Numeral ('-' :: chars) where
  head := ⟨'-', chars, rfl, .inr (by decide)⟩
  each := List.forall_mem_cons.mpr ⟨.inr (by decide), numeral.each⟩

theorem neg_if (negative : Prop) [Decidable negative] (numeral : Numeral chars) :
    Numeral (if negative then '-' :: chars else chars) := by
  split
  · exact numeral.neg
  · exact numeral

end Numeral

/-- Whether characters are a row of digits. -/
structure IsDigits (chars : List Char) : Prop where
  filled : chars ≠ []
  each : ∀ char ∈ chars, char.isDigit = true

theorem isDigits_digitsText (number : Nat) : IsDigits (digitsText number) where
  filled := Nat.toDigits_ne_nil
  each := fun _ char_mem => Nat.isDigit_of_mem_toDigits (by decide) (by decide) char_mem

theorem IsDigits.numeral {chars : List Char} (digits : IsDigits chars) : Numeral chars := by
  rcases digits with ⟨filled, each⟩
  cases chars with
  | nil => exact absurd rfl filled
  | cons first rest =>
      rw [List.forall_mem_cons] at each
      exact .of_digit each.1 fun char char_mem => .inl (each.2 char char_mem)

theorem numeral_intText (number : Int) : Numeral (intText number).toList := by
  rw [intText, String.toList_ofList]
  exact (isDigits_digitsText number.natAbs).numeral.neg_if (number < 0)

/-! ### Written doubles -/

namespace Decimal

theorem isDigits_significantDigits (decimal : Decimal) : IsDigits decimal.significantDigits := by
  rw [significantDigits]
  split
  · exact ⟨by decide, by simp⟩
  · next filled =>
      refine ⟨by simpa using filled, fun char char_mem => ?_⟩
      have kept := (List.dropWhile_sublist _).subset (List.mem_reverse.mp char_mem)
      exact (isDigits_digitsText decimal.digits).each char (List.mem_reverse.mp kept)

variable {digits : List Char}

theorem isNumeralChar_zeros (count : Nat) :
    ∀ char ∈ List.replicate count '0', IsNumeralChar char := by
  intro char char_mem
  rw [List.eq_of_mem_replicate char_mem]
  exact .inl (by decide)

theorem numeral_positional (isDigits : IsDigits digits) (point : Int) :
    Numeral (positional digits point) := by
  have dot : IsNumeralChar '.' := .inr (by decide)
  have zero : IsNumeralChar '0' := .inl (by decide)
  rw [positional]
  split
  · exact .of_digit (by decide) (List.forall_mem_cons.mpr ⟨dot, List.forall_mem_append.mpr
      ⟨isNumeralChar_zeros _, isDigits.numeral.each⟩⟩)
  · next positive =>
      obtain ⟨before, before_eq⟩ : ∃ before, point.toNat = before + 1 :=
        ⟨point.toNat - 1, by omega⟩
      rcases isDigits with ⟨filled, each⟩
      cases digits with
      | nil => exact absurd rfl filled
      | cons first rest =>
          rw [List.forall_mem_cons] at each
          have rest_each : ∀ char ∈ rest, IsNumeralChar char :=
            fun char char_mem => .inl (each.2 char char_mem)
          simp only [before_eq]
          split
          · refine .of_digit each.1 ?_
            simp only [List.append_eq, List.forall_mem_append, List.forall_mem_cons]
            exact ⟨⟨rest_each, isNumeralChar_zeros _⟩, dot, zero, by simp⟩
          · refine .of_digit each.1 ?_
            simp only [List.drop_succ_cons, List.append_eq, List.forall_mem_append,
              List.forall_mem_cons]
            exact ⟨fun char char_mem => rest_each char (List.mem_of_mem_take char_mem), dot,
              fun char char_mem => rest_each char (List.mem_of_mem_drop char_mem)⟩

theorem numeral_scientific (isDigits : IsDigits digits) (exponent : Int) :
    Numeral (scientific digits exponent) := by
  have power := (isDigits_digitsText exponent.natAbs).numeral.each
  have mark : IsNumeralChar 'e' := .inr (by decide)
  have sign : IsNumeralChar (if exponent < 0 then '-' else '+') := by
    split
    · exact .inr (by decide)
    · exact .inr (by decide)
  have point : ∀ char ∈ (if 1 < digits.length then ['.'] else []), IsNumeralChar char := by
    split
    · exact List.forall_mem_singleton.mpr (.inr (by decide))
    · simp
  rcases isDigits with ⟨filled, each⟩
  cases digits with
  | nil => exact absurd rfl filled
  | cons first rest =>
      rw [List.forall_mem_cons] at each
      have rest_each : ∀ char ∈ rest, IsNumeralChar char :=
        fun char char_mem => .inl (each.2 char char_mem)
      refine .of_digit each.1 ?_
      simp only [List.append_eq, List.forall_mem_append, List.forall_mem_cons, List.drop_succ_cons,
        List.take_zero, List.drop_zero]
      exact ⟨⟨⟨⟨⟨by simp, point⟩, rest_each⟩, mark, sign, by simp⟩, isNumeralChar_zeros _⟩, power⟩

theorem numeral_text (decimal : Decimal) : Numeral decimal.text := by
  have digits := decimal.isDigits_significantDigits
  rw [text]
  split
  · exact numeral_positional digits _
  · exact numeral_scientific digits _

end Decimal

theorem numeral_floatText (number : Float) : Numeral (floatText number).toList := by
  rw [floatText]
  split
  · split
    · exact ⟨⟨'n', _, rfl, .inr (by decide)⟩, by simp [IsNumeralChar, numeralMarks]⟩
    · split
      · exact ⟨⟨'-', _, rfl, .inr (by decide)⟩, by simp [IsNumeralChar, numeralMarks]⟩
      · exact ⟨⟨'i', _, rfl, .inr (by decide)⟩, by simp [IsNumeralChar, numeralMarks]⟩
  · next binary _ =>
      have magnitude : Numeral (if binary.mantissa = 0 then ['0', '.', '0']
          else (Decimal.shortest binary.mantissa binary.exponent).text) := by
        split
        · exact .of_digit (by decide) (by simp [IsNumeralChar, numeralMarks])
        · exact Decimal.numeral_text _
      rw [String.toList_ofList]
      exact magnitude.neg_if _

theorem numeral_coordinateText (number : Float) : Numeral (coordinateText number).toList := by
  rw [coordinateText]
  split
  · exact numeral_intText _
  · exact numeral_floatText number

/-! ### Equal coordinates -/

/-- Whether two coordinates are equal numbers; NaN counts as equal to itself. -/
def SameCoordinate (left right : Float) : Prop :=
  (left == right || (left.isNaN && right.isNaN)) = true

instance (left right : Float) : Decidable (SameCoordinate left right) :=
  inferInstanceAs (Decidable (_ = true))

namespace SameCoordinate

variable {left right : Float}

protected theorem refl (number : Float) : SameCoordinate number number := by
  rw [SameCoordinate, Bool.or_eq_true, Float.beq_self_iff, Bool.and_self,
    Float.isNaN_eq_decide_eq_nan, decide_eq_true_eq]
  exact (em (number = Float.nan)).symm

/-- Equal coordinates differ in the sign of zero at most. -/
theorem eq_or_zeros (same : SameCoordinate left right) :
    left = right ∨ (left = 0 ∧ right = -0) ∨ (left = -0 ∧ right = 0) := by
  rw [SameCoordinate, Bool.or_eq_true, Bool.and_eq_true] at same
  rcases same with equal | ⟨leftNaN, rightNaN⟩
  · exact (Float.beq_iff_ne_nan_and_eq.mp equal).2.2
  · rw [Float.isNaN_eq_decide_eq_nan, decide_eq_true_eq] at leftNaN rightNaN
    exact .inl (leftNaN.trans rightNaN.symm)

/-- Equal coordinates are written alike. -/
theorem text_eq (same : SameCoordinate left right) :
    coordinateText left = coordinateText right := by
  have zeros : coordinateText 0 = coordinateText (-0) := by decide +kernel
  rcases same.eq_or_zeros with rfl | ⟨rfl, rfl⟩ | ⟨rfl, rfl⟩
  · rfl
  · exact zeros
  · exact zeros.symm

end SameCoordinate

/-- Whether two points have equal coordinates. -/
def SamePoint (left right : Float × Float) : Prop :=
  SameCoordinate left.1 right.1 ∧ SameCoordinate left.2 right.2

protected theorem SamePoint.refl (point : Float × Float) : SamePoint point point :=
  ⟨.refl point.1, .refl point.2⟩

/-! ### Rows -/

/-- The coordinate that is read from what is written for a coordinate. -/
def reread (number : Float) : Float :=
  readCoordinate (coordinateText number).toList

theorem readCoordinate_comp_coordinateText :
    readCoordinate ∘ String.toList ∘ coordinateText = reread := by
  funext number
  rw [Function.comp_apply, Function.comp_apply, reread]

/-- Equal coordinates are read back as the same double. -/
theorem SameCoordinate.reread_eq {left right : Float} (same : SameCoordinate left right) :
    reread left = reread right := by
  rw [reread, reread, same.text_eq]

/-- The text of a row of coordinates. -/
def rowText (numbers : List Float) : String :=
  ",".intercalate (numbers.map coordinateText)

theorem tokens_rowText (numbers : List Float) :
    (Text.tokens (rowText numbers).toList).map readCoordinate = numbers.map reread := by
  have words : ∀ word ∈ numbers.map coordinateText, Text.IsWord word.toList := by
    intro word word_mem
    obtain ⟨number, _, rfl⟩ := List.mem_map.mp word_mem
    exact (numeral_coordinateText number).isWord
  rw [rowText, Text.tokens_intercalate words]
  simp only [List.map_map, readCoordinate_comp_coordinateText]

theorem Geometry.listText_floats (numbers : List Float) :
    listText (numbers.map .float) = .ok (rowText numbers) := by
  have texts_eq : ((numbers.map Value.float).mapM fun item => do numberText (← item.number)) =
      .ok (numbers.map coordinateText) := by
    rw [List.mapM_map]
    exact mapM_of_total (fun _ => rfl) numbers
  rw [listText, texts_eq]
  rfl

end DotLang
