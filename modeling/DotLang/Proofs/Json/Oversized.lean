import DotLang.Json.Writer
import DotLang.Proofs.Json.Blank
import Mathlib.Data.List.TakeWhile

/-!
# Integers that are too long to be read

A document that is a row of digits is refused if there are more of them than
`maxIntegerDigits` (`Oversized.read`). So not all that is written as JSON can be
read again.
-/

namespace DotLang

namespace Json

/-- The characters write an integer with too many digits. -/
structure Oversized (first : Char) (rest : List Char) : Prop where
  nonzero : first ≠ '0'
  digits : ∀ char ∈ first :: rest, char.isDigit = true
  long : maxIntegerDigits < (first :: rest).length

namespace Oversized

variable {first : Char} {rest : List Char}

theorem isDigit (oversized : Oversized first rest) : first.isDigit = true :=
  oversized.digits first List.mem_cons_self

theorem numberParts? (oversized : Oversized first rest) :
    numberParts? (first :: rest) = some ⟨[], first :: rest, [], []⟩ := by
  have notMinus : first ≠ '-' := by
    rintro rfl
    cases oversized.isDigit
  have whole_eq : wholeChars (first :: rest) = first :: rest := by
    rw [wholeChars]
    · exact List.takeWhile_eq_self_iff.mpr oversized.digits
    · rintro _ ⟨⟩
      exact oversized.nonzero rfl
  simp [Json.numberParts?, notMinus, whole_eq, fractionChars, exponentChars]

theorem readNumber (oversized : Oversized first rest) (position : Nat) :
    readNumber.run ⟨position, first :: rest⟩ = .error ⟨.oversizedInteger, position⟩ := by
  simp only [Json.readNumber, StateT.run_bind, StateT.run_get, pure_bind, oversized.numberParts?,
    List.isEmpty_nil, Bool.and_self, if_pos oversized.long, if_true]
  rfl

theorem readValue (oversized : Oversized first rest) (fuel position : Nat) :
    (readValue (fuel + 1)).run ⟨position, first :: rest⟩ =
      .error ⟨.oversizedInteger, position⟩ := by
  have isDigit := oversized.isDigit
  rw [Json.readValue, StateT.run_bind, StateT.run_get, pure_bind]
  split
  case h_4 =>
    rw [readScalar_eq (by simp [isDigit])]
    exact oversized.readNumber position
  all_goals
    next rest_eq =>
      cases rest_eq
      cases isDigit

/-- A document that is an integer with too many digits is refused. -/
theorem read (oversized : Oversized first rest) :
    read (String.ofList (first :: rest)) = .error ⟨.oversizedInteger, 0⟩ := by
  let start : Input := ⟨0, first :: rest⟩
  have isDigit := oversized.isDigit
  have noMark : start.startsWith ['\ufeff'] = false := by
    rw [← Bool.not_eq_true]
    intro starts
    simp only [start, Input.startsWith, List.isPrefixOf, Bool.and_true, beq_iff_eq] at starts
    rw [← starts] at isDigit
    cases isDigit
  have noBlanks : (first :: rest).takeWhile isBlank = [] := by
    rw [List.takeWhile_eq_nil_iff]
    intro _ blank
    simp only [isBlank, Bool.or_eq_true, beq_iff_eq] at blank
    rcases blank with ((rfl | rfl) | rfl) | rfl <;> cases isDigit
  have skipped : skipBlanks.run start = .ok ((), start) := by
    change Except.ok ((), start.advance ((first :: rest).takeWhile isBlank).length) = _
    rw [noBlanks]
    rfl
  have value (fuel : Nat) := oversized.readValue fuel 0
  rw [Json.read, String.toList_ofList, StateT.run'_eq]
  change (readDocument _).run start >>= _ = _
  simp only [readDocument, StateT.run_bind, StateT.run_get, pure_bind, noMark,
    Bool.false_eq_true, if_false, skipped]
  simp only [bind, Except.bind, start, value]

end Oversized

theorem toDigits_tenPow (exponent : Nat) :
    Nat.toDigits 10 (tenPow exponent) = '1' :: List.replicate exponent '0' := by
  induction exponent with
  | zero => rfl
  | succ exponent ih =>
      have positive : 0 < tenPow exponent := Nat.pow_pos (by decide)
      have next : tenPow (exponent + 1) = tenPow exponent * 10 := rfl
      rw [next, Nat.toDigits_of_base_le (by decide) (by omega)]
      simp [ih, List.replicate_succ']

theorem write_tenPow (exponent : Nat) : write .compact (.int (tenPow exponent)) =
    String.ofList ('1' :: List.replicate exponent '0') := by
  have nonneg : ¬(tenPow exponent : Int) < 0 := Int.not_lt.mpr (Int.natCast_nonneg _)
  rw [write, writeAt, intText, if_neg nonneg, digitsText, Int.natAbs_natCast]
  exact congrArg String.ofList (toDigits_tenPow exponent)

/-- A power of ten is written, but it cannot be read again if it is too large. -/
theorem read_write_tenPow {exponent : Nat} (large : maxIntegerDigits ≤ exponent) :
    read (write .compact (.int (tenPow exponent))) = .error ⟨.oversizedInteger, 0⟩ := by
  have oversized : Oversized '1' (List.replicate exponent '0') := by
    refine ⟨by decide, ?_, by simpa using Nat.lt_succ_of_le large⟩
    intro char char_mem
    rcases List.mem_cons.mp char_mem with rfl | zero
    · rfl
    · rw [List.eq_of_mem_replicate zero]
      rfl
  rw [write_tenPow]
  exact oversized.read

end Json

end DotLang
