/-!
# Code points

A text can hold lone surrogates: code points that stand for no character. Escapes
of JSON and arguments of a program can name them. A `String` has no place for
them, so they are kept by an escape. The noncharacter U+10FFFF opens a pair whose
second character tells which surrogate is meant; the noncharacter itself is kept
as a pair of two. Any other character stands for itself.

Texts that are made of code points (`ofCodePoints`) are equal exactly if their code
points are, and joining them joins their code points. So most of the library puts
texts together and compares them as they are kept. `codePoints` is for the places
that look at single characters which can belong to a pair.
-/

namespace DotLang

/-- A code point. -/
inductive CodePoint where
  /-- A code point that is a character. -/
  | plain (char : Char)
  /-- A surrogate that is no half of a pair, by its place among the surrogates. -/
  | surrogate (index : Fin 0x800)
deriving DecidableEq, Repr

namespace CodePoint

/-- The number of the first surrogate. -/
def firstSurrogate : Nat := 0xd800

/-- The number of a code point. -/
def number : CodePoint → Nat
  | .plain char => char.toNat
  | .surrogate index => firstSurrogate + index

/-- The code point with a number. -/
def ofNumber (number : Nat) : CodePoint :=
  if isSurrogate : firstSurrogate ≤ number ∧ number < firstSurrogate + 0x800 then
    .surrogate ⟨number - firstSurrogate, by omega⟩
  else .plain (Char.ofNat number)

/-- Whether a code point stands for no character. -/
def isSurrogate : CodePoint → Bool
  | .plain _ => false
  | .surrogate _ => true

/-- The character that a code point is. -/
def plainChar? : CodePoint → Option Char
  | .plain char => some char
  | .surrogate _ => none

/-- The noncharacter that opens a pair. -/
def mark : Char := Char.ofNat 0x10ffff

/-- The number of the character behind the mark that tells the first surrogate. -/
def firstName : Nat := 0xe000

/-- The characters that keep a code point in a text. -/
def chars : CodePoint → List Char
  | .plain char => if char = mark then [mark, mark] else [char]
  | .surrogate index => [mark, Char.ofNat (firstName + index)]

/-- The code point that a pair keeps. -/
def ofPair? (second : Char) : Option CodePoint :=
  if second = mark then some (.plain mark)
  else if named : firstName ≤ second.toNat ∧ second.toNat < firstName + 0x800 then
    some (.surrogate ⟨second.toNat - firstName, by omega⟩)
  else none

theorem toNat_name (index : Fin 0x800) :
    (Char.ofNat (firstName + index)).toNat = firstName + index := by
  have inRange := index.isLt
  have valid : (firstName + index.val).isValidChar := by
    rw [firstName]
    exact Or.inr (by omega)
  rw [Char.ofNat, dif_pos valid]
  rfl

theorem ofPair?_name (index : Fin 0x800) :
    ofPair? (Char.ofNat (firstName + index)) = some (.surrogate index) := by
  have inRange := index.isLt
  have number_eq := toNat_name index
  have unmarked : Char.ofNat (firstName + index) ≠ mark := by
    intro same
    have mark_eq : firstName + index = mark.toNat := number_eq.symm.trans (congrArg Char.toNat same)
    have mark_number : mark.toNat = 0x10ffff := by decide
    rw [mark_number, firstName] at mark_eq
    omega
  rw [ofPair?, if_neg unmarked, dif_pos (by omega)]
  simp [number_eq]

end CodePoint

namespace Text

/-- The code points of the characters that keep a text. -/
def codePoints : List Char → List CodePoint
  | [] => []
  | [last] => [.plain last]
  | first :: second :: rest =>
      match if first = CodePoint.mark then CodePoint.ofPair? second else none with
      | some point => point :: codePoints rest
      | none => .plain first :: codePoints (second :: rest)

/-- The text with the given code points. -/
def ofCodePoints (points : List CodePoint) : String :=
  String.ofList (points.flatMap CodePoint.chars)

theorem codePoints_chars_append (point : CodePoint) (rest : List Char) :
    codePoints (point.chars ++ rest) = point :: codePoints rest := by
  cases point with
  | surrogate index =>
      simp only [CodePoint.chars, List.cons_append, List.nil_append, codePoints, if_true,
        CodePoint.ofPair?_name]
  | plain char =>
      by_cases isMark : char = CodePoint.mark
      · subst isMark
        rfl
      · rw [CodePoint.chars, if_neg isMark]
        cases rest with
        | nil => rfl
        | cons second rest => simp only [List.cons_append, List.nil_append, codePoints, if_neg isMark]

/-- A text keeps the code points that it was made of. -/
theorem codePoints_ofCodePoints (points : List CodePoint) :
    codePoints (ofCodePoints points).toList = points := by
  rw [ofCodePoints, String.toList_ofList]
  induction points with
  | nil => rfl
  | cons point rest ih => rw [List.flatMap_cons, codePoints_chars_append, ih]

/-- The text of plain characters. -/
def ofUnicode (plain : String) : String :=
  ofCodePoints (plain.toList.map CodePoint.plain)

/-- The plain characters of a text, if it has no lone surrogate. -/
def unicode? (text : String) : Option String :=
  ((codePoints text.toList).mapM CodePoint.plainChar?).map String.ofList

theorem unicode?_ofUnicode (plain : String) : unicode? (ofUnicode plain) = some plain := by
  have chars_eq (chars : List Char) :
      (chars.map CodePoint.plain).mapM CodePoint.plainChar? = some chars := by
    induction chars with
    | nil => rfl
    | cons char rest ih => simp [CodePoint.plainChar?, ih]
  rw [unicode?, ofUnicode, codePoints_ofCodePoints, chars_eq, Option.map_some,
    String.ofList_toList]

end Text

end DotLang
