import Mathlib.Data.List.Basic
import Mathlib.Data.List.Induction

/-!
# First occurrences

A list without its repetitions is known from the order in which its values first
occur (`pairwise_idxOf_eraseDups`). So repetitions can be dropped at the end of a
list, in a part of it or later, with the same result (`eraseDups_append_congr`).
-/

namespace DotLang

variable {α : Type} [BEq α] [LawfulBEq α]

/-- A value at the end counts only if it is new. -/
theorem eraseDups_concat (values : List α) (value : α) :
    (values ++ [value]).eraseDups =
      if value ∈ values then values.eraseDups else values.eraseDups ++ [value] := by
  rw [List.eraseDups_append]
  split
  · next listed => simp [List.removeAll, listed]
  · next absent => simp [List.removeAll, absent, List.eraseDups_cons]

/-- What is kept stands in the order of the first occurrences. -/
theorem pairwise_idxOf_eraseDups (values : List α) :
    values.eraseDups.Pairwise fun earlier later => values.idxOf earlier < values.idxOf later := by
  induction values using List.reverseRecOn with
  | nil => exact .nil
  | append_singleton rest value ih =>
      have before : rest.eraseDups.Pairwise fun earlier later =>
          (rest ++ [value]).idxOf earlier < (rest ++ [value]).idxOf later := by
        refine ih.imp_of_mem fun earlier_mem later_mem ordered => ?_
        rw [List.idxOf_append_of_mem (List.mem_eraseDups.mp earlier_mem),
          List.idxOf_append_of_mem (List.mem_eraseDups.mp later_mem)]
        exact ordered
      rw [eraseDups_concat]
      split
      · exact before
      · next absent =>
          refine List.pairwise_append.mpr ⟨before, List.pairwise_singleton _ _, ?_⟩
          intro earlier earlier_mem later later_mem
          have listed := List.mem_eraseDups.mp earlier_mem
          rw [List.mem_singleton.mp later_mem, List.idxOf_append_of_mem listed,
            List.idxOf_append_of_notMem absent]
          exact Nat.lt_of_lt_of_le (List.idxOf_lt_length_of_mem listed) (Nat.le_add_right _ _)

theorem nodup_eraseDups (values : List α) : values.eraseDups.Nodup := by
  refine (pairwise_idxOf_eraseDups values).imp fun ordered same => ?_
  subst same
  exact Nat.lt_irrefl _ ordered

theorem eraseDups_append_eraseDups (values more : List α) :
    (values ++ more.eraseDups).eraseDups = (values ++ more).eraseDups := by
  induction more using List.reverseRecOn with
  | nil => rfl
  | append_singleton rest value ih =>
      rw [eraseDups_concat, ← List.append_assoc, eraseDups_concat]
      by_cases listed : value ∈ rest
      · rw [if_pos listed, if_pos (List.mem_append_right _ listed), ih]
      · rw [if_neg listed, ← List.append_assoc, eraseDups_concat, ih]
        simp only [List.mem_append, List.mem_eraseDups]

theorem eraseDups_eraseDups_append (values more : List α) :
    (values.eraseDups ++ more).eraseDups = (values ++ more).eraseDups := by
  induction more using List.reverseRecOn with
  | nil =>
      rw [List.append_nil, List.append_nil]
      exact eraseDups_append_eraseDups [] values
  | append_singleton rest value ih =>
      rw [← List.append_assoc, ← List.append_assoc, eraseDups_concat, eraseDups_concat, ih]
      simp only [List.mem_append, List.mem_eraseDups]

/-- The first occurrences in a list are known from those in its parts. -/
theorem eraseDups_append_congr {first first' second second' : List α}
    (same : first.eraseDups = first'.eraseDups) (same' : second.eraseDups = second'.eraseDups) :
    (first ++ second).eraseDups = (first' ++ second').eraseDups := by
  rw [← eraseDups_eraseDups_append first, ← eraseDups_append_eraseDups _ second, same, same',
    eraseDups_append_eraseDups, eraseDups_eraseDups_append]

end DotLang
