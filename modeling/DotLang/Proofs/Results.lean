import Mathlib.Init

/-!
# Computations that may fail

What can be said of the parts of a computation with a result, and of a
computation that fails in one known way only (`Settles`).
-/

namespace DotLang

variable {ε α β : Type}

theorem exists_of_bind_eq_ok {first : Except ε α} {next : α → Except ε β} {made : β}
    (made_eq : first >>= next = .ok made) : ∃ part, first = .ok part ∧ next part = .ok made := by
  cases first with
  | error fault => cases made_eq
  | ok part => exact ⟨part, rfl, made_eq⟩

theorem bind_eq_error_iff {first : Except ε α} {next : α → Except ε β} {fault : ε} :
    first >>= next = .error fault ↔
      first = .error fault ∨ ∃ part, first = .ok part ∧ next part = .error fault := by
  cases first with
  | error other => simp [Bind.bind, Except.bind]
  | ok part => simp [Bind.bind, Except.bind]

/-- If every item has a result, so has a list. -/
theorem mapM_of_total {make : α → Except ε β} {result : α → β}
    (total : ∀ item, make item = .ok (result item)) (items : List α) :
    items.mapM make = .ok (items.map result) := by
  have make_eq : make = fun item => pure (result item) := funext total
  rw [make_eq]
  exact List.mapM_pure

/-- Every item of the result comes from an item. -/
theorem exists_of_mem_mapM {make : α → Except ε β} {items : List α} {made : List β}
    (made_eq : items.mapM make = .ok made) {result : β} (result_mem : result ∈ made) :
    ∃ item ∈ items, make item = .ok result := by
  induction items generalizing made with
  | nil =>
      cases made_eq
      cases result_mem
  | cons item rest ih =>
      rw [List.mapM_cons] at made_eq
      rcases exists_of_bind_eq_ok made_eq with ⟨first, first_eq, made_eq⟩
      rcases exists_of_bind_eq_ok made_eq with ⟨others, others_eq, made_eq⟩
      cases made_eq
      rcases List.mem_cons.mp result_mem with rfl | later
      · exact ⟨item, List.mem_cons_self, first_eq⟩
      · rcases ih others_eq later with ⟨other, other_mem, other_eq⟩
        exact ⟨other, List.mem_cons_of_mem item other_mem, other_eq⟩

theorem length_of_mapM {make : α → Except ε β} {items : List α} {made : List β}
    (made_eq : items.mapM make = .ok made) : made.length = items.length := by
  induction items generalizing made with
  | nil =>
      cases made_eq
      rfl
  | cons item rest ih =>
      rw [List.mapM_cons] at made_eq
      rcases exists_of_bind_eq_ok made_eq with ⟨first, _, made_eq⟩
      rcases exists_of_bind_eq_ok made_eq with ⟨others, others_eq, made_eq⟩
      cases made_eq
      simp [ih others_eq]

section IsOk

variable {γ : Type}

theorem isOk_iff_exists (computation : Except ε α) :
    computation.isOk = true ↔ ∃ made, computation = .ok made := by
  cases computation <;> simp [Except.isOk, Except.toBool]

theorem isOk_map (change : α → β) (computation : Except ε α) :
    (computation.map change).isOk = computation.isOk := by
  cases computation <;> rfl

theorem isOk_bind_pure (first : Except ε α) (next : α → β) :
    (first >>= fun part => pure (next part)).isOk = first.isOk := by
  cases first <;> rfl

theorem isOk_bind_bind_pure (first : Except ε α) (second : Except ε β) (next : α → β → γ) :
    (first >>= fun part => second >>= fun other => pure (next part other)).isOk =
      (first.isOk && second.isOk) := by
  cases first <;> cases second <;> rfl

end IsOk

/-- There is a result unless something fails, and then a known fault in its place. -/
structure Settles (fault : ε) (fails : Prop) (computation : Except ε α) : Prop where
  error : fails → computation = .error fault
  ok : ¬fails → ∃ made, computation = .ok made

namespace Settles

variable {fault : ε} {fails fails' : Prop}

theorem value (made : α) : Settles fault False (.ok made) where
  error := False.elim
  ok _ := ⟨made, rfl⟩

theorem of_ok {computation : Except ε α} (never : ¬fails)
    (made : ∃ made, computation = .ok made) : Settles fault fails computation where
  error failed := absurd failed never
  ok _ := made

theorem of_iff {computation : Except ε α} (settles : Settles fault fails computation)
    (same : fails' ↔ fails) : Settles fault fails' computation where
  error failed := settles.error (same.mp failed)
  ok succeeds := settles.ok (mt same.mpr succeeds)

theorem bind {first : Except ε α} {next : α → Except ε β} (before : Settles fault fails first)
    (after : ∀ part, Settles fault fails' (next part)) :
    Settles fault (fails ∨ fails') (first >>= next) := by
  by_cases failed : fails
  · have first_eq := before.error failed
    refine ⟨fun _ => ?_, fun succeeds => absurd (Or.inl failed) succeeds⟩
    rw [first_eq]
    rfl
  · rcases before.ok failed with ⟨part, rfl⟩
    exact (after part).of_iff (or_iff_right failed)

theorem mapM {make : α → Except ε β} {failsAt : α → Prop} {items : List α}
    (each : ∀ item ∈ items, Settles fault (failsAt item) (make item)) :
    Settles fault (∃ item ∈ items, failsAt item) (items.mapM make) := by
  induction items with
  | nil => exact (value []).of_iff (by simp)
  | cons item rest ih =>
      rw [List.forall_mem_cons] at each
      have others := ih each.2
      have all := each.1.bind fun first => others.bind fun made => value (first :: made)
      rw [List.mapM_cons]
      exact all.of_iff (by simp)

end Settles

end DotLang
