import DotLang.Tree.Token

/-!
# Where a quoted token ends

Whoever reads a quoted token takes a backslash together with the character after
it, so the token ends at the first quote that is not the second character of such
a pair (`behindClosing`).

A token is never left open, but it can end too early: a quote in the text gets a
backslash of its own, which the backslashes before it in the text may take. The
token ends where it should exactly if there is an even number of backslashes right
before every quote in the text (`closes_at_end_iff`).
-/

namespace DotLang.Token

/-- What follows the quote that ends a token, seen from behind the opening quote. A backslash is
taken together with the character after it. -/
def behindClosing : List Char → Option (List Char)
  | [] => none
  | '\\' :: _ :: rest => behindClosing rest
  | char :: rest => if char = '"' then some rest else behindClosing rest

/-- Whether a backslash takes a quote in a text that is read like a token. -/
def hasTakenQuote : List Char → Bool
  | [] => false
  | '\\' :: char :: rest => char = '"' || hasTakenQuote rest
  | _ :: rest => hasTakenQuote rest

variable {char : Char} {rest chars : List Char}

/-! ### Runs of backslashes -/

theorem trailingBackslashes_le_length (chars : List Char) :
    trailingBackslashes chars ≤ chars.length := by
  have bound := (List.takeWhile_prefix (l := chars.reverse) (· = '\\')).length_le
  rwa [List.length_reverse] at bound

/-- A character in front matters only to a text that is all backslashes. -/
theorem trailingBackslashes_cons (char : Char) (rest : List Char) :
    trailingBackslashes (char :: rest) =
      if trailingBackslashes rest = rest.length ∧ char = '\\' then rest.length + 1
      else trailingBackslashes rest := by
  simp only [trailingBackslashes, List.reverse_cons, List.takeWhile_append, List.length_reverse]
  split
  · next all_taken => by_cases taken : char = '\\' <;> simp [all_taken, taken]
  · next not_all => simp [not_all]

theorem trailingBackslashes_cons_of_ne (not_taken : char ≠ '\\') (rest : List Char) :
    trailingBackslashes (char :: rest) = trailingBackslashes rest := by
  simp [trailingBackslashes_cons, not_taken]

theorem trailingBackslashes_pair (char : Char) (rest : List Char) :
    trailingBackslashes ('\\' :: char :: rest) % 2 = trailingBackslashes rest % 2 := by
  have bound := trailingBackslashes_le_length rest
  rw [trailingBackslashes_cons, trailingBackslashes_cons char, List.length_cons]
  by_cases all_taken : trailingBackslashes rest = rest.length ∧ char = '\\'
  · rw [if_pos all_taken, if_pos ⟨rfl, rfl⟩, all_taken.1]
    omega
  · rw [if_neg all_taken, if_neg (by omega)]

theorem evenBackslashes_cons_of_ne (not_taken : char ≠ '\\') (rest : List Char) :
    evenBackslashes (char :: rest) = char :: evenBackslashes rest := by
  rw [evenBackslashes, evenBackslashes, trailingBackslashes_cons_of_ne not_taken]
  split <;> rfl

theorem evenBackslashes_pair (char : Char) (rest : List Char) :
    evenBackslashes ('\\' :: char :: rest) = '\\' :: char :: evenBackslashes rest := by
  rw [evenBackslashes, evenBackslashes, trailingBackslashes_pair]
  split <;> rfl

theorem escapeQuotes_quote (rest : List Char) :
    escapeQuotes ('"' :: rest) = '\\' :: '"' :: escapeQuotes rest := rfl

theorem escapeQuotes_cons_of_ne (not_quote : char ≠ '"') (rest : List Char) :
    escapeQuotes (char :: rest) = char :: escapeQuotes rest := by
  simp [escapeQuotes, not_quote]

/-! ### Reading to the closing quote -/

theorem behindClosing_pair (char : Char) (rest : List Char) :
    behindClosing ('\\' :: char :: rest) = behindClosing rest := by
  rw [behindClosing]

theorem behindClosing_cons_of_ne (not_taken : char ≠ '\\') (not_quote : char ≠ '"')
    (rest : List Char) : behindClosing (char :: rest) = behindClosing rest := by
  cases rest <;> simp [behindClosing, not_taken, not_quote]

/-- A token ends somewhere, and it ends too early if a backslash takes a quote. -/
theorem behindClosing_quoted (chars : List Char) :
    ∃ rest, behindClosing (evenBackslashes (escapeQuotes chars) ++ ['"']) = some rest ∧
      (rest = [] ↔ hasTakenQuote chars = false) := by
  fun_induction hasTakenQuote chars with
  | case1 => exact ⟨[], rfl, by simp⟩
  | case2 char rest ih =>
      rw [escapeQuotes_cons_of_ne (by decide)]
      by_cases quote : char = '"'
      · -- The backslash pairs with the one that was put before the quote.
        subst quote
        rw [escapeQuotes_quote, evenBackslashes_pair, evenBackslashes_cons_of_ne (by decide)]
        exact ⟨_, rfl, by simp⟩
      · rw [escapeQuotes_cons_of_ne quote, evenBackslashes_pair]
        simpa [behindClosing_pair, quote] using ih
  | case3 char rest not_pair ih =>
      by_cases quote : char = '"'
      · subst quote
        rw [escapeQuotes_quote, evenBackslashes_pair]
        exact ih
      · rw [escapeQuotes_cons_of_ne quote]
        by_cases taken : char = '\\'
        · cases rest with
          | nil =>
              subst taken
              exact ⟨[], rfl, by simp [hasTakenQuote]⟩
          | cons next rest => exact (not_pair next rest taken rfl).elim
        · rw [evenBackslashes_cons_of_ne taken, List.cons_append,
            behindClosing_cons_of_ne taken quote]
          exact ih

/-- Taken quotes are those with an odd number of backslashes right before them. -/
theorem hasTakenQuote_iff (chars : List Char) :
    hasTakenQuote chars = true ↔
      ∃ before after, chars = before ++ '"' :: after ∧ trailingBackslashes before % 2 = 1 := by
  fun_induction hasTakenQuote chars with
  | case1 => simp
  | case2 char rest ih =>
      rw [Bool.or_eq_true, decide_eq_true_eq, ih]
      constructor
      · rintro (rfl | ⟨before, after, rfl, odd⟩)
        · exact ⟨['\\'], rest, rfl, rfl⟩
        · exact ⟨'\\' :: char :: before, after, rfl, (trailingBackslashes_pair _ _).trans odd⟩
      · rintro ⟨_ | ⟨_, _ | ⟨next, before⟩⟩, after, chars_eq, odd⟩
        · cases chars_eq
        · cases chars_eq
          exact .inl rfl
        · cases chars_eq
          exact .inr ⟨before, after, rfl, (trailingBackslashes_pair _ _).symm.trans odd⟩
  | case3 char rest not_pair ih =>
      rw [ih]
      by_cases taken : char = '\\'
      · -- A last backslash has no quote behind it.
        cases rest with
        | nil =>
            subst taken
            simp [List.cons_eq_append_iff]
        | cons next rest => exact (not_pair next rest taken rfl).elim
      · constructor
        · rintro ⟨before, after, rfl, odd⟩
          refine ⟨char :: before, after, rfl, ?_⟩
          rwa [trailingBackslashes_cons_of_ne taken]
        · rintro ⟨_ | ⟨_, before⟩, after, chars_eq, odd⟩
          · cases odd
          · cases chars_eq
            rw [trailingBackslashes_cons_of_ne taken] at odd
            exact ⟨before, after, rfl, odd⟩

/-- A quoted token always has an end, and this is its last character exactly if an even number of
backslashes stands right before every quote in the text. -/
theorem closes_at_end_iff {text : String} (not_bare : isBare text = false) :
    ∃ body rest, (ofText text).toList = '"' :: body ∧ behindClosing body = some rest ∧
      (rest = [] ↔ ∀ before after, text.toList = before ++ '"' :: after →
        trailingBackslashes before % 2 = 0) := by
  rcases behindClosing_quoted text.toList with ⟨rest, closing, at_end_iff⟩
  refine ⟨evenBackslashes (escapeQuotes text.toList) ++ ['"'], rest, ?_, closing, ?_⟩
  · simp [ofText, not_bare, quoted]
  · rw [at_end_iff, ← Bool.not_eq_true, hasTakenQuote_iff]
    simp only [not_exists, not_and, Nat.mod_two_not_eq_one]

/-- Quotes without backslashes before them, and an odd run of backslashes at the end. -/
theorem closes_at_end_of_odd_run :
    isBare "say \"hi\" \\" = false ∧ ∃ body, (ofText "say \"hi\" \\").toList = '"' :: body ∧
      behindClosing body = some [] := by
  have not_bare : isBare "say \"hi\" \\" = false := by decide
  have untaken : ¬ hasTakenQuote "say \"hi\" \\".toList = true := by decide
  rw [hasTakenQuote_iff] at untaken
  rcases closes_at_end_iff not_bare with ⟨body, rest, token_eq, closing, at_end_iff⟩
  have at_end : rest = [] := at_end_iff.mpr fun before after text_eq =>
    Nat.mod_two_not_eq_one.mp fun odd => untaken ⟨before, after, text_eq, odd⟩
  exact ⟨not_bare, body, token_eq, at_end ▸ closing⟩

/-- The backslash in the text takes the one that was put before the quote, and the token ends at
the quote. -/
theorem closes_early :
    isBare "a\\\"b" = false ∧ ∃ body, (ofText "a\\\"b").toList = '"' :: body ∧
      behindClosing body = some ['b', '"'] := by
  refine ⟨by decide, ['a', '\\', '\\', '"', 'b', '"'], ?_, rfl⟩
  decide

end DotLang.Token
