import DotLang.Proofs.Token

/-!
# The lexemes of DOT text

DOT text falls apart into keywords, names and marks, with layout between them
(`Lexeme.scan`). A scan is a small machine: it is between two lexemes, in a word,
in a quoted name, or behind a backslash in a quoted name.

The token of a text without backslashes is one name (`scan_token`), whatever
stands in the text: the quotes in it have backslashes, and reserved words are
quoted.
-/

namespace DotLang

/-- A piece of DOT text. -/
inductive Lexeme where
  /-- A reserved word that is not quoted. -/
  | keyword (word : String)
  /-- A name or value. -/
  | name (text : String)
  /-- Any other character that is no layout. -/
  | mark (char : Char)

namespace Lexeme

/-- What a scan is in the middle of, with what it has seen of it. -/
inductive Mode where
  /-- Nothing. -/
  | between
  /-- A word of letters and digits. -/
  | word (seen : List Char)
  /-- A quoted name. -/
  | quoted (seen : List Char)
  /-- A quoted name, right behind a backslash. -/
  | escaped (seen : List Char)

/-- Whether a character only separates lexemes. -/
def isLayout (char : Char) : Bool :=
  char = ' ' || char = '\t' || char = '\n'

/-- Whether a character is a lexeme of its own. -/
def isMark (char : Char) : Bool :=
  !char.isAlphanum && char ≠ '"' && !isLayout char

/-- What a word means. -/
def ofWord (chars : List Char) : Lexeme :=
  let word := String.ofList chars
  if word ∈ Token.reservedWords then .keyword word else .name word

/-- Begins with a character: the lexeme that it is, and how the scan goes on. -/
def start (char : Char) : List Lexeme × Mode :=
  if char.isAlphanum then ([], .word [char])
  else if char = '"' then ([], .quoted [])
  else if isLayout char then ([], .between)
  else ([.mark char], .between)

/-- Takes one character: the lexemes that end with it, and how the scan goes on. -/
def Mode.take : Mode → Char → List Lexeme × Mode
  | .between, char => start char
  | .word seen, char =>
      if char.isAlphanum then ([], .word (seen ++ [char]))
      else (ofWord seen :: (start char).1, (start char).2)
  | .quoted seen, char =>
      if char = '"' then ([.name (String.ofList seen)], .between)
      else if char = '\\' then ([], .escaped seen)
      else ([], .quoted (seen ++ [char]))
  | .escaped seen, char => ([], .quoted (seen ++ [char]))

/-- The lexemes of a text, from the middle of one on. -/
def scan : Mode → List Char → List Lexeme
  | .word seen, [] => [ofWord seen]
  | _, [] => []
  | mode, char :: rest => (mode.take char).1 ++ scan (mode.take char).2 rest

variable {char : Char}

theorem scan_cons (mode : Mode) (char : Char) (rest : List Char) :
    scan mode (char :: rest) = (mode.take char).1 ++ scan (mode.take char).2 rest := by
  cases mode <;> rfl

theorem scan_layout (layout : isLayout char = true) (rest : List Char) :
    scan .between (char :: rest) = scan .between rest := by
  have cases : char = ' ' ∨ char = '\t' ∨ char = '\n' := by simpa [isLayout, or_assoc] using layout
  rcases cases with rfl | rfl | rfl <;> rfl

theorem scan_mark (mark : isMark char = true) (rest : List Char) :
    scan .between (char :: rest) = .mark char :: scan .between rest := by
  simp only [isMark, Bool.and_eq_true, Bool.not_eq_true', decide_eq_true_eq] at mark
  simp [scan_cons, Mode.take, start, mark]

/-! ### Words -/

/-- A word ends before the first character that is neither letter nor digit. -/
theorem scan_word {more : List Char} (letters : more.all Char.isAlphanum = true)
    (ends : char.isAlphanum = false) (seen rest : List Char) :
    scan (.word seen) (more ++ char :: rest) =
      ofWord (seen ++ more) :: scan .between (char :: rest) := by
  induction more generalizing seen with
  | nil => simp [scan_cons, Mode.take, ends]
  | cons next more ih =>
      rw [List.all_cons, Bool.and_eq_true] at letters
      have step : scan (.word seen) (next :: (more ++ char :: rest)) =
          scan (.word (seen ++ [next])) (more ++ char :: rest) := by
        simp [scan_cons, Mode.take, letters.1]
      rw [List.cons_append, step, ih letters.2, List.append_assoc, List.singleton_append]

theorem scan_bare {first : Char} {more : List Char}
    (letters : (first :: more).all Char.isAlphanum = true) (ends : char.isAlphanum = false)
    (rest : List Char) :
    scan .between (first :: more ++ char :: rest) =
      ofWord (first :: more) :: scan .between (char :: rest) := by
  rw [List.all_cons, Bool.and_eq_true] at letters
  have step : scan .between (first :: (more ++ char :: rest)) =
      scan (.word [first]) (more ++ char :: rest) := by
    simp [scan_cons, Mode.take, start, letters.1]
  rw [List.cons_append, step, scan_word letters.2 ends, List.singleton_append]

/-- A keyword is scanned as one. -/
theorem scan_keyword {keyword : String} (reserved : keyword ∈ Token.reservedWords)
    (ends : char.isAlphanum = false) (rest : List Char) :
    scan .between (keyword.toList ++ char :: rest) =
      .keyword keyword :: scan .between (char :: rest) := by
  have letters : keyword.toList.all Char.isAlphanum = true := by
    revert keyword
    decide
  have filled : keyword.toList ≠ [] := by
    clear letters
    revert keyword
    decide
  cases chars_eq : keyword.toList with
  | nil => exact absurd chars_eq filled
  | cons first more =>
      rw [chars_eq] at letters
      rw [scan_bare letters ends, ← chars_eq, ofWord, String.ofList_toList, if_pos reserved]

/-! ### Quoted names -/

/-- A quoted name without backslashes ends at the closing quote, and the quotes in it are read back
without their backslashes. -/
theorem scan_escaped {text : List Char} (clean : '\\' ∉ text) (seen rest : List Char) :
    scan (.quoted seen) (Token.escapeQuotes text ++ '"' :: rest) =
      .name (String.ofList (seen ++ text)) :: scan .between rest := by
  induction text generalizing seen with
  | nil => simp [Token.escapeQuotes, scan_cons, Mode.take]
  | cons next text ih =>
      rw [List.mem_cons, not_or] at clean
      by_cases quote : next = '"'
      · subst quote
        have step : scan (.quoted seen)
            ('\\' :: '"' :: (Token.escapeQuotes text ++ '"' :: rest)) =
            scan (.quoted (seen ++ ['"'])) (Token.escapeQuotes text ++ '"' :: rest) := rfl
        rw [Token.escapeQuotes_quote, List.cons_append, List.cons_append, step, ih clean.2,
          List.append_assoc, List.singleton_append]
      · have step : scan (.quoted seen) (next :: (Token.escapeQuotes text ++ '"' :: rest)) =
            scan (.quoted (seen ++ [next])) (Token.escapeQuotes text ++ '"' :: rest) := by
          simp [scan_cons, Mode.take, quote, Ne.symm clean.1]
        rw [Token.escapeQuotes_cons_of_ne quote, List.cons_append, step, ih clean.2,
          List.append_assoc, List.singleton_append]

/-- Nothing is added at the end of a text without backslashes. -/
theorem evenBackslashes_escapeQuotes {text : List Char} (clean : '\\' ∉ text) :
    Token.evenBackslashes (Token.escapeQuotes text) = Token.escapeQuotes text := by
  induction text with
  | nil => rfl
  | cons next text ih =>
      rw [List.mem_cons, not_or] at clean
      by_cases quote : next = '"'
      · rw [quote, Token.escapeQuotes_quote, Token.evenBackslashes_pair, ih clean.2]
      · rw [Token.escapeQuotes_cons_of_ne quote,
          Token.evenBackslashes_cons_of_ne (Ne.symm clean.1), ih clean.2]

/-- The token of a text is one name, the text itself. -/
theorem scan_token {text : String} (clean : '\\' ∉ text.toList) (ends : char.isAlphanum = false)
    (rest : List Char) :
    scan .between ((Token.ofText text).toList ++ char :: rest) =
      .name text :: scan .between (char :: rest) := by
  rw [Token.ofText]
  split
  · next bare =>
      simp only [Token.isBare, Bool.and_eq_true, Bool.not_eq_true'] at bare
      rcases bare with ⟨⟨filled, letters⟩, notReserved⟩
      cases chars_eq : text.toList with
      | nil => simp_all
      | cons first more =>
          rw [chars_eq] at letters
          have free : text ∉ Token.reservedWords := by simpa using notReserved
          rw [scan_bare letters ends, ← chars_eq, ofWord, String.ofList_toList, if_neg free]
  · have step (rest : List Char) : scan .between ('"' :: rest) = scan (.quoted []) rest := rfl
    rw [String.toList_ofList, Token.quoted, evenBackslashes_escapeQuotes clean, List.cons_append,
      List.cons_append, List.append_assoc, List.singleton_append, step, scan_escaped clean,
      List.nil_append, String.ofList_toList]

end Lexeme

end DotLang
