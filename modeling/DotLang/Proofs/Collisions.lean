import DotLang.Proofs.Token
import Mathlib.Data.List.Induction
import Mathlib.Logic.Function.Basic

/-!
# Texts that are written alike

Two texts have the same token only if one of them is the other with one backslash
more, the one that quoting adds to an odd run (`tokens_eq_iff`). Escaping alone
never makes two texts equal, and it leaves the run of backslashes at the end as it
is, so this backslash is all that can be lost.
-/

namespace DotLang.Token

/-! ### Escaping -/

theorem escapeQuotes_append (chars rest : List Char) :
    escapeQuotes (chars ++ rest) = escapeQuotes chars ++ escapeQuotes rest :=
  List.flatMap_append

theorem escapeQuotes_cons_ne_nil (char : Char) (rest : List Char) :
    escapeQuotes (char :: rest) ≠ [] := by
  by_cases quote : char = '"'
  · rw [quote, escapeQuotes_quote]
    exact List.cons_ne_nil _ _
  · rw [escapeQuotes_cons_of_ne quote]
    exact List.cons_ne_nil _ _

/-- A quote never stands first, as it has a backslash before it. -/
theorem escapeQuotes_ne_quote_cons (chars rest : List Char) : escapeQuotes chars ≠ '"' :: rest := by
  cases chars with
  | nil => exact fun same => absurd same.symm (List.cons_ne_nil _ _)
  | cons char more =>
      by_cases quote : char = '"'
      · rw [quote, escapeQuotes_quote]
        exact fun same => absurd (List.cons.inj same).1 (by decide)
      · rw [escapeQuotes_cons_of_ne quote]
        exact fun same => quote (List.cons.inj same).1

theorem escapeQuotes_injective : Function.Injective escapeQuotes := by
  intro chars
  induction chars with
  | nil =>
      intro chars' same
      cases chars' with
      | nil => rfl
      | cons char' rest' => exact absurd same.symm (escapeQuotes_cons_ne_nil char' rest')
  | cons char rest ih =>
      intro chars' same
      cases chars' with
      | nil => exact absurd same (escapeQuotes_cons_ne_nil char rest)
      | cons char' rest' =>
          by_cases quote : char = '"' <;> by_cases quote' : char' = '"'
          · rw [quote, quote', escapeQuotes_quote, escapeQuotes_quote] at same
            rw [quote, quote', ih (List.cons.inj (List.cons.inj same).2).2]
          · rw [quote, escapeQuotes_quote, escapeQuotes_cons_of_ne quote'] at same
            exact absurd (List.cons.inj same).2.symm (escapeQuotes_ne_quote_cons rest' _)
          · rw [quote', escapeQuotes_quote, escapeQuotes_cons_of_ne quote] at same
            exact absurd (List.cons.inj same).2 (escapeQuotes_ne_quote_cons rest _)
          · rw [escapeQuotes_cons_of_ne quote, escapeQuotes_cons_of_ne quote'] at same
            rw [(List.cons.inj same).1, ih (List.cons.inj same).2]

theorem trailingBackslashes_concat (chars : List Char) (char : Char) :
    trailingBackslashes (chars ++ [char]) =
      if char = '\\' then trailingBackslashes chars + 1 else 0 := by
  by_cases taken : char = '\\' <;> simp [trailingBackslashes, taken]

/-- The backslashes that are put before quotes are not at the end. -/
theorem trailingBackslashes_escapeQuotes (chars : List Char) :
    trailingBackslashes (escapeQuotes chars) = trailingBackslashes chars := by
  induction chars using List.reverseRecOn with
  | nil => rfl
  | append_singleton rest char ih =>
      rw [escapeQuotes_append, trailingBackslashes_concat rest]
      by_cases quote : char = '"'
      · have last_eq : escapeQuotes rest ++ escapeQuotes [char] =
            (escapeQuotes rest ++ ['\\']) ++ ['"'] := by
          rw [quote, List.append_assoc]
          rfl
        rw [last_eq, trailingBackslashes_concat, quote]
        rfl
      · have last_eq : escapeQuotes [char] = [char] := escapeQuotes_cons_of_ne quote []
        rw [last_eq, trailingBackslashes_concat, ih]

/-! ### The added backslash -/

/-- Whether quoting adds a backslash to a text, and another text has it already. -/
def Completes (short long : List Char) : Prop :=
  long = short ++ ['\\'] ∧ trailingBackslashes short % 2 = 1

theorem evenBackslashes_eq_iff (first second : List Char) :
    evenBackslashes first = evenBackslashes second ↔
      first = second ∨ Completes first second ∨ Completes second first := by
  have completed {short long : List Char} (completes : Completes short long) :
      evenBackslashes short = evenBackslashes long := by
    rcases completes with ⟨rfl, odd⟩
    have even : ¬(trailingBackslashes short + 1) % 2 = 1 := by omega
    rw [evenBackslashes, if_pos odd, evenBackslashes, trailingBackslashes_concat, if_pos rfl,
      if_neg even]
  constructor
  · intro same
    rw [evenBackslashes, evenBackslashes] at same
    split at same <;> split at same
    · exact .inl (List.append_cancel_right same)
    · next odd _ => exact .inr (.inl ⟨same.symm, odd⟩)
    · next _ odd => exact .inr (.inr ⟨same, odd⟩)
    · exact .inl same
  · rintro (rfl | completes | completes)
    · rfl
    · exact completed completes
    · exact (completed completes).symm

theorem completes_escapeQuotes_iff (short long : List Char) :
    Completes (escapeQuotes short) (escapeQuotes long) ↔ Completes short long := by
  have longer : escapeQuotes short ++ ['\\'] = escapeQuotes (short ++ ['\\']) := by
    rw [escapeQuotes_append]
    rfl
  rw [Completes, Completes, longer, escapeQuotes_injective.eq_iff,
    trailingBackslashes_escapeQuotes]

theorem quoted_eq_iff (first second : List Char) :
    quoted first = quoted second ↔
      first = second ∨ Completes first second ∨ Completes second first := by
  rw [quoted, quoted, List.cons_append, List.cons_append, List.cons_inj_right,
    List.append_cancel_right_eq, evenBackslashes_eq_iff, escapeQuotes_injective.eq_iff,
    completes_escapeQuotes_iff, completes_escapeQuotes_iff]

/-! ### Bare and quoted tokens -/

theorem all_of_isBare {text : String} (bare : isBare text = true) :
    ∀ char ∈ text.toList, char.isAlphanum = true := by
  simp only [isBare, Bool.and_eq_true, List.all_eq_true] at bare
  exact bare.1.2

theorem trailingBackslashes_of_isBare {text : String} (bare : isBare text = true) :
    trailingBackslashes text.toList = 0 := by
  rcases List.eq_nil_or_concat text.toList with none_eq | ⟨rest, last, text_eq⟩
  · rw [none_eq]
    rfl
  · rw [List.concat_eq_append] at text_eq
    have letter := all_of_isBare bare last (by simp [text_eq])
    have not_taken : last ≠ '\\' := by
      rintro rfl
      cases letter
    rw [text_eq, trailingBackslashes_concat, if_neg not_taken]

/-- A text that stands alone is not part of a pair. -/
theorem not_completes_of_isBare {text : String} (bare : isBare text = true) (other : List Char) :
    ¬Completes text.toList other ∧ ¬Completes other text.toList := by
  have none_left := trailingBackslashes_of_isBare bare
  constructor
  · rintro ⟨_, odd⟩
    omega
  · rintro ⟨text_eq, _⟩
    rw [text_eq, trailingBackslashes_concat, if_pos rfl] at none_left
    omega

theorem ofText_ne_of_isBare {text other : String} (bare : isBare text = true)
    (not_bare : isBare other = false) : ofText text ≠ ofText other := by
  rw [ofText, if_pos bare, ofText, if_neg (by simp [not_bare])]
  intro same
  have letter := all_of_isBare bare '"' (by simp [same, quoted])
  cases letter

theorem ofText_eq_iff (first second : String) :
    ofText first = ofText second ↔ first = second ∨
      Completes first.toList second.toList ∨ Completes second.toList first.toList := by
  cases bare : isBare first <;> cases bare' : isBare second
  · have tokens (text : String) (not_bare : isBare text = false) :
        (ofText text).toList = quoted text.toList := by
      rw [ofText, if_neg (by simp [not_bare]), String.toList_ofList]
    rw [← String.toList_inj, tokens first bare, tokens second bare', quoted_eq_iff,
      String.toList_inj]
  · have apart : first ≠ second := by
      rintro rfl
      cases bare.symm.trans bare'
    simp [(ofText_ne_of_isBare bare' bare).symm, apart, not_completes_of_isBare bare']
  · have apart : first ≠ second := by
      rintro rfl
      cases bare.symm.trans bare'
    simp [ofText_ne_of_isBare bare bare', apart, not_completes_of_isBare bare]
  · simp [ofText, bare, bare', not_completes_of_isBare bare]

/-! ### Values -/

/-- The text that a value is written as; no value is written as an empty text, and markup is not
written as a text. -/
def textOf? : Value → Option String
  | .null => some ""
  | .markup _ => none
  | value => some value.display

theorem textOf?_or_markup (value : Value) :
    (∃ text, textOf? value = some text) ∨ ∃ content, value = .markup content := by
  cases value with
  | markup content => exact .inr ⟨content, rfl⟩
  | _ => exact .inl ⟨_, rfl⟩

theorem ofValue_of_textOf? {value : Value} {text : String} (text_eq : textOf? value = some text) :
    ofValue value = ofText text := by
  cases value with
  | null =>
      cases text_eq
      decide
  | markup content => cases text_eq
  | _ =>
      cases text_eq
      rfl

/-- Markup opens with an angle bracket, and texts do not. -/
theorem ofText_ne_markup (text content : String) : ofText text ≠ "<" ++ content ++ ">" := by
  intro same
  have chars_eq : (ofText text).toList = '<' :: (content ++ ">").toList := by
    rw [same, String.append_assoc]
    simp
  rw [ofText] at chars_eq
  split at chars_eq
  · next bare =>
      have letter := all_of_isBare bare '<' (by simp [chars_eq])
      cases letter
  · simp [quoted] at chars_eq

theorem markup_inj {content content' : String}
    (same : "<" ++ content ++ ">" = "<" ++ content' ++ ">") : content = content' := by
  rw [← String.toList_inj] at same ⊢
  simpa using same

/-- Two texts have the same token exactly if they are equal, or one of them is the other with one
backslash more and the other ends in an odd run of backslashes. Values have the same token only if
they are equal or are written as texts that do. -/
theorem tokens_eq_iff :
    (∀ first second : String, ofText first = ofText second ↔
      first = second ∨
        (second = first ++ "\\" ∧ trailingBackslashes first.toList % 2 = 1) ∨
        (first = second ++ "\\" ∧ trailingBackslashes second.toList % 2 = 1)) ∧
    ∀ first second : Value, ofValue first = ofValue second ↔
      first = second ∨ ∃ text text', textOf? first = some text ∧ textOf? second = some text' ∧
        ofText text = ofText text' := by
  constructor
  · intro first second
    have longer (short long : String) :
        long.toList = short.toList ++ ['\\'] ↔ long = short ++ "\\" := by
      rw [← String.toList_inj, String.toList_append]
      rfl
    rw [ofText_eq_iff, Completes, Completes, longer, longer]
  · intro first second
    constructor
    · intro same
      rcases textOf?_or_markup first with ⟨text, text_eq⟩ | ⟨content, rfl⟩ <;>
        rcases textOf?_or_markup second with ⟨text', text_eq'⟩ | ⟨content', rfl⟩
      · rw [ofValue_of_textOf? text_eq, ofValue_of_textOf? text_eq'] at same
        exact .inr ⟨text, text', text_eq, text_eq', same⟩
      · rw [ofValue_of_textOf? text_eq] at same
        exact absurd same (ofText_ne_markup text content')
      · rw [ofValue_of_textOf? text_eq'] at same
        exact absurd same.symm (ofText_ne_markup text' content)
      · exact .inl (congrArg Value.markup (markup_inj same))
    · rintro (rfl | ⟨text, text', text_eq, text_eq', same⟩)
      · rfl
      · rw [ofValue_of_textOf? text_eq, ofValue_of_textOf? text_eq', same]

/-- A text that ends in one backslash and the same text with two. -/
example : ofText "a\\" = ofText "a\\\\" := by
  decide

end DotLang.Token
