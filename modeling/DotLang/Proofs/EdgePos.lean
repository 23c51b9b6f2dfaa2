import DotLang.EdgePos
import DotLang.Proofs.CoordinateText
import Mathlib.Data.List.Forall2
import Mathlib.Logic.Function.Iterate

/-!
# Writing and reading edge positions

Every number of a row has one place in the position that is read from it: it
belongs to the origin, to a control group or to the arrow, or it stands between
the last group and the arrow and is dropped (`layout_of_text`).

A position is written without the first numbers of its arrow, so reading the row
takes the last control group for the arrow: its first four numbers are lost and
its last two stand before the target (`ofNumbers_writtenNumbers`). Nothing else
changes, and the next round takes the next group. After any number of rounds the
marker, the origin and the target are the same, and as many groups are gone
(`rewritten_iterate`).

The reading of a single coordinate is apart from this: it is applied to every
number of a position (`mapCoordinates`), and a second application changes nothing.
-/

namespace DotLang

namespace EdgePos

/-! ### Groups of six -/

/-- Numbers that leave less than an arrow behind a group fill no group. -/
theorem splitGroups_of_short {numbers : List Float}
    (short : numbers.length < groupSize + arrowSize) : splitGroups numbers = ([], numbers) := by
  fun_cases splitGroups numbers with
  | case1 first second third fourth fifth sixth rest enough =>
      simp only [List.length_cons, groupSize, arrowSize] at short enough
      omega
  | case2 => rfl
  | case3 => rfl

theorem splitGroups_append {group rest : List Float} (sized : group.length = groupSize)
    (enough : arrowSize ≤ rest.length) :
    splitGroups (group ++ rest) = (group :: (splitGroups rest).1, (splitGroups rest).2) := by
  match group, sized with
  | [_, _, _, _, _, _], _ =>
      simp [splitGroups, enough]

/-- Groups before an arrow that leaves no room for another one. -/
theorem splitGroups_flatten {groups : List (List Float)}
    (sized : ∀ group ∈ groups, group.length = groupSize) {tail : List Float}
    (enough : arrowSize ≤ tail.length) (short : tail.length < groupSize + arrowSize) :
    splitGroups (groups.flatten ++ tail) = (groups, tail) := by
  induction groups with
  | nil => exact splitGroups_of_short short
  | cons group rest ih =>
      rw [List.forall_mem_cons] at sized
      have behind : arrowSize ≤ (rest.flatten ++ tail).length := by
        rw [List.length_append]
        omega
      rw [List.flatten_cons, List.append_assoc, splitGroups_append sized.1 behind, ih sized.2]

/-! ### The layout of a row -/

/-- Whether a row falls apart into full groups and a rest, which leaves no room for another group
before its arrow. -/
structure Grouped (numbers : List Float) (groups : List (List Float)) (rest : List Float) :
    Prop where
  row_eq : groups.flatten ++ rest = numbers
  sized : ∀ group ∈ groups, group.length = groupSize
  enough : arrowSize ≤ numbers.length → arrowSize ≤ rest.length
  short : rest.length < groupSize + arrowSize

theorem grouped_splitGroups (numbers : List Float) :
    Grouped numbers (splitGroups numbers).1 (splitGroups numbers).2 := by
  fun_induction splitGroups numbers with
  | case1 first second third fourth fifth sixth rest enough groups tail split_eq ih =>
      rw [split_eq] at ih
      refine ⟨?_, ?_, fun _ => ih.enough enough, ih.short⟩
      · simp [ih.row_eq]
      · exact List.forall_mem_cons.mpr ⟨rfl, ih.sized⟩
  | case2 first second third fourth fifth sixth rest few =>
      refine ⟨rfl, by simp, id, ?_⟩
      simp only [List.length_cons, groupSize]
      omega
  | case3 numbers few =>
      refine ⟨rfl, by simp, id, ?_⟩
      match numbers, few with
      | [], _ | [_], _ | [_, _], _ | [_, _, _], _ | [_, _, _, _], _ | [_, _, _, _, _], _ =>
          simp [groupSize, arrowSize]
      | first :: second :: third :: fourth :: fifth :: sixth :: rest, few =>
          exact (few first second third fourth fifth sixth rest rfl).elim

namespace Grouped

variable {numbers rest : List Float} {groups : List (List Float)}

theorem length_eq (grouped : Grouped numbers groups rest) :
    groupSize * groups.length + rest.length = numbers.length := by
  have lengths_eq : groups.map List.length = List.replicate groups.length groupSize := by
    rw [List.eq_replicate_iff]
    simpa using grouped.sized
  rw [← grouped.row_eq, List.length_append, List.length_flatten, lengths_eq, List.sum_replicate,
    smul_eq_mul, Nat.mul_comm]

/-- With room for an arrow, the sizes of all parts are determined. -/
theorem sizes (grouped : Grouped numbers groups rest) (room : arrowSize ≤ numbers.length) :
    groups.length = (numbers.length - arrowSize) / groupSize ∧
      (rest.length - arrowSize) = (numbers.length - arrowSize) % groupSize := by
  have length_eq := grouped.length_eq
  have enough := grouped.enough room
  have short := grouped.short
  simp only [groupSize, arrowSize] at *
  omega

end Grouped

/-- The last four numbers and those before them, if there are four. -/
theorem exists_lastFour {numbers : List Float} (enough : arrowSize ≤ numbers.length) :
    ∃ before, numbers = before ++ lastFour numbers ∧
      before.length = numbers.length - arrowSize ∧ (lastFour numbers).length = arrowSize := by
  refine ⟨numbers.take (numbers.length - arrowSize), ?_, ?_, ?_⟩
  · exact (List.take_append_drop _ numbers).symm
  · simp
  · rw [lastFour, List.length_drop]
    omega

theorem lastFour_of_short {numbers : List Float} (short : numbers.length ≤ arrowSize) :
    lastFour numbers = numbers := by
  rw [lastFour, Nat.sub_eq_zero_of_le short, List.drop_zero]

theorem ofNumbers_of_short (marker : String) {numbers : List Float} (short : numbers.length < 2) :
    ofNumbers marker numbers = { marker, origin := (0.0 / 0.0, 0.0 / 0.0) } := by
  match numbers, short with
  | [], _ | [_], _ => rfl

theorem ofNumbers_cons_cons (marker : String) (horizontal vertical : Float) (row : List Float) :
    ofNumbers marker (horizontal :: vertical :: row) =
      { marker
        origin := (horizontal, vertical)
        controlPoints := (splitGroups row).1
        arrow := lastFour (splitGroups row).2 } :=
  rfl

theorem ofNumbers_of_few (marker : String) (horizontal vertical : Float) {row : List Float}
    (few : row.length < arrowSize) :
    ofNumbers marker (horizontal :: vertical :: row) =
      { marker, origin := (horizontal, vertical), arrow := row } := by
  have no_group := splitGroups_of_short (few.trans_le (Nat.le_add_left _ groupSize))
  rw [ofNumbers_cons_cons, no_group, lastFour_of_short few.le]

/-- A row with room for an arrow consists of the groups, of what is dropped, and of the arrow. -/
theorem exists_dropped {row : List Float} (room : arrowSize ≤ row.length) :
    let groups := (splitGroups row).1
    let arrow := lastFour (splitGroups row).2
    ∃ dropped, row = groups.flatten ++ dropped ++ arrow ∧
      groups.length = (row.length - arrowSize) / groupSize ∧
      (∀ group ∈ groups, group.length = groupSize) ∧
      dropped.length = (row.length - arrowSize) % groupSize ∧ arrow.length = arrowSize := by
  intro groups arrow
  have grouped := grouped_splitGroups row
  rcases grouped.sizes room with ⟨groups_length, rest_length⟩
  rcases exists_lastFour (grouped.enough room) with
    ⟨dropped, rest_eq, dropped_length, arrow_length⟩
  refine ⟨dropped, ?_, groups_length, grouped.sized, dropped_length.trans rest_length,
    arrow_length⟩
  rw [List.append_assoc, ← rest_eq, grouped.row_eq]

/-- The parts of an edge position that is read from a text. A row without two numbers has no
origin. Of up to five numbers, those behind the origin are the arrow. Of more numbers, the last four
are the arrow, and between origin and arrow stand as many groups of six as there is room for, and
then the numbers that are dropped. -/
theorem layout_of_text {text : String} {marker : List Char} {words : List (List Char)}
    (tokens_eq : Text.tokens text.toList = marker :: words) :
    let position := ofText text
    let numbers := words.map readCoordinate
    let count := numbers.length
    position.marker = String.ofList marker ∧
      (count < 2 → position.origin.1.isNaN ∧ position.origin.2.isNaN ∧
        position.controlPoints = [] ∧ position.arrow = []) ∧
      (2 ≤ count ∧ count ≤ 5 →
        numbers = position.origin.1 :: position.origin.2 :: position.arrow ∧
        position.controlPoints = []) ∧
      (6 ≤ count → ∃ dropped,
        numbers = position.origin.1 :: position.origin.2 ::
          (position.controlPoints.flatten ++ dropped ++ position.arrow) ∧
        position.controlPoints.length = (count - 6) / 6 ∧
        (∀ group ∈ position.controlPoints, group.length = 6) ∧
        dropped.length = (count - 6) % 6 ∧ position.arrow.length = 4) := by
  intro position numbers count
  have position_eq : position = ofNumbers (String.ofList marker) numbers := by
    simp only [position, ofText, tokens_eq, numbers]
  rw [position_eq]
  have no_number : (0.0 / 0.0 : Float).isNaN = true := by decide
  match numbers_eq : numbers with
  | [] | [_] =>
      have short : numbers.length < 2 := by simp [numbers_eq]
      rw [ofNumbers_of_short _ (by simp)]
      exact ⟨rfl, fun _ => ⟨no_number, no_number, rfl, rfl⟩, by omega, by omega⟩
  | horizontal :: vertical :: row =>
      have count_eq : count = row.length + 2 := by simp [count, numbers_eq]
      refine ⟨rfl, by omega, ?_, ?_⟩
      · rintro ⟨_, few⟩
        rw [ofNumbers_of_few _ _ _ (show row.length < arrowSize by rw [arrowSize]; omega)]
        exact ⟨rfl, rfl⟩
      · intro many
        have room : arrowSize ≤ row.length := by
          rw [arrowSize]
          omega
        rcases exists_dropped room with ⟨dropped, row_eq, groups, sized, dropped_length, arrow⟩
        rw [count_eq]
        exact ⟨dropped, congrArg (horizontal :: vertical :: ·) row_eq, groups, sized,
          dropped_length, arrow⟩

/-- Thirteen numbers, one of which fills no group. A word reads as no number. -/
theorem layout_of_text_of_thirteen :
    let text := "e,1,2 3,4,5,6,7,up 9,10,11,12,13"
    let position := ofText text
    position.marker = "e" ∧ ∃ dropped,
      [1.0, 2.0, 3.0, 4.0, 5.0, 6.0, 7.0, 0.0 / 0.0, 9.0, 10.0, 11.0, 12.0, 13.0] =
        position.origin.1 :: position.origin.2 ::
          (position.controlPoints.flatten ++ dropped ++ position.arrow) ∧
      position.controlPoints.length = 1 ∧ dropped.length = 1 ∧ position.arrow.length = 4 := by
  intro text position
  let words := ["1", "2", "3", "4", "5", "6", "7", "up", "9", "10", "11", "12", "13"]
  have tokens_eq : Text.tokens text.toList = ['e'] :: words.map String.toList := by
    decide +kernel
  have numbers_eq : (words.map String.toList).map readCoordinate =
      [1.0, 2.0, 3.0, 4.0, 5.0, 6.0, 7.0, 0.0 / 0.0, 9.0, 10.0, 11.0, 12.0, 13.0] := by
    decide +kernel
  rcases layout_of_text tokens_eq with ⟨marker, _, _, many⟩
  rw [numbers_eq] at many
  rcases many (by decide) with ⟨dropped, row_eq, groups, _, dropped_length, arrow⟩
  exact ⟨marker, dropped, row_eq, groups, dropped_length, arrow⟩

/-! ### The target -/

/-- The target as a row of numbers. -/
def targetNumbers (position : EdgePos) : List Float :=
  match position.target? with
  | some (horizontal, vertical) => [horizontal, vertical]
  | none => []

theorem writtenNumbers_eq (position : EdgePos) :
    position.writtenNumbers =
      [position.origin.1, position.origin.2] ++ position.controlPoints.flatten ++
        position.targetNumbers :=
  rfl

/-- The last two numbers of a row. -/
def lastTwo (numbers : List Float) : List Float :=
  numbers.drop (numbers.length - 2)

theorem target?_of_arrow_eq {position : EdgePos} {before : List Float} {horizontal vertical : Float}
    (arrow_eq : position.arrow = before ++ [horizontal, vertical]) :
    position.target? = some (horizontal, vertical) := by
  simp [target?, arrow_eq]

/-- An arrow of two or more numbers ends in the target. -/
theorem exists_target {position : EdgePos} (enough : 2 ≤ position.arrow.length) :
    ∃ horizontal vertical, position.target? = some (horizontal, vertical) ∧
      position.targetNumbers = [horizontal, vertical] := by
  have last_length : (lastTwo position.arrow).length = 2 := by
    rw [lastTwo, List.length_drop]
    omega
  obtain ⟨horizontal, vertical, last_eq⟩ := List.length_eq_two.mp last_length
  have arrow_eq : position.arrow =
      position.arrow.take (position.arrow.length - 2) ++ [horizontal, vertical] := by
    rw [← last_eq, lastTwo, List.take_append_drop]
  have target_eq := target?_of_arrow_eq arrow_eq
  exact ⟨horizontal, vertical, target_eq, by rw [targetNumbers, target_eq]⟩

/-! ### One round -/

/-- What an edge position becomes when it is written and read. -/
def rewritten (position : EdgePos) : EdgePos :=
  ofText position.toText

/-- Changes every number of an edge position. -/
def mapCoordinates (change : Float → Float) (position : EdgePos) : EdgePos where
  marker := position.marker
  origin := (change position.origin.1, change position.origin.2)
  controlPoints := position.controlPoints.map (List.map change)
  arrow := position.arrow.map change

@[simp]
theorem marker_mapCoordinates (change : Float → Float) (position : EdgePos) :
    (position.mapCoordinates change).marker = position.marker := by
  rw [mapCoordinates]

/-- The arrow after some rounds: the target behind the last two numbers of the group that was taken
last, or the target alone when there was no group left to take. -/
def erodedArrow (position : EdgePos) (rounds : Nat) : List Float :=
  let count := position.controlPoints.length
  (if rounds ≤ count then lastTwo (position.controlPoints[count - rounds]?.getD []) else []) ++
    position.targetNumbers

/-- An edge position without the groups that some rounds take. -/
def eroded (position : EdgePos) (rounds : Nat) : EdgePos where
  marker := position.marker
  origin := position.origin
  controlPoints := position.controlPoints.take (position.controlPoints.length - rounds)
  arrow := position.erodedArrow rounds

@[simp]
theorem marker_eroded (position : EdgePos) (rounds : Nat) :
    (position.eroded rounds).marker = position.marker := by
  rw [eroded]

/-- Whether an edge position has the shape of a written one: its marker is a token, its groups are
full and its arrow has a target. -/
structure Regular (position : EdgePos) : Prop where
  marker : Text.IsWord position.marker.toList
  groups : ∀ group ∈ position.controlPoints, group.length = groupSize
  arrow : 2 ≤ position.arrow.length

/-- The row is read number by number. -/
theorem rewritten_eq_ofNumbers {position : EdgePos} (regular : position.Regular) :
    position.rewritten = ofNumbers position.marker (position.writtenNumbers.map reread) := by
  have words : ∀ word ∈ position.marker :: position.writtenNumbers.map coordinateText,
      Text.IsWord word.toList := by
    rw [List.forall_mem_cons]
    refine ⟨regular.marker, fun word word_mem => ?_⟩
    obtain ⟨number, _, rfl⟩ := List.mem_map.mp word_mem
    exact (numeral_coordinateText number).isWord
  rw [rewritten, ofText, toText, Text.tokens_intercalate words]
  simp only [List.map_cons, String.ofList_toList, List.map_map,
    readCoordinate_comp_coordinateText]

/-- Of the written numbers the last full group becomes the front of the arrow. -/
theorem ofNumbers_writtenNumbers {position : EdgePos} (regular : position.Regular) :
    ofNumbers position.marker position.writtenNumbers = position.eroded 1 := by
  obtain ⟨horizontal, vertical, target_eq, targetNumbers_eq⟩ := exists_target regular.arrow
  have written_eq : position.writtenNumbers =
      position.origin.1 :: position.origin.2 ::
        (position.controlPoints.flatten ++ [horizontal, vertical]) := by
    simp [writtenNumbers, target_eq]
  have groups := regular.groups
  simp only [ofNumbers, eroded, erodedArrow, written_eq, targetNumbers_eq, List.drop_succ_cons,
    List.drop_zero]
  rcases List.eq_nil_or_concat position.controlPoints with none_eq | ⟨others, last, groups_eq⟩
  · have split_eq : splitGroups [horizontal, vertical] = ([], [horizontal, vertical]) :=
      splitGroups_of_short (by simp [groupSize, arrowSize])
    simp [none_eq, split_eq, lastFour, arrowSize]
  · rw [List.concat_eq_append] at groups_eq
    rw [groups_eq, List.forall_mem_append, List.forall_mem_singleton] at groups
    rcases groups with ⟨others_sized, last_sized⟩
    have tail_length : (last ++ [horizontal, vertical]).length = 8 := by
      simp [last_sized, groupSize]
    have split_eq : splitGroups (others.flatten ++ (last ++ [horizontal, vertical])) =
        (others, last ++ [horizontal, vertical]) :=
      splitGroups_flatten others_sized (by simp [tail_length, arrowSize])
        (by simp [tail_length, groupSize, arrowSize])
    have arrow_eq : lastFour (last ++ [horizontal, vertical]) =
        lastTwo last ++ [horizontal, vertical] := by
      rw [lastFour, tail_length, lastTwo, last_sized]
      exact List.drop_append_of_le_length (by simp [last_sized, groupSize, arrowSize])
    simp [groups_eq, split_eq, arrow_eq]

/-! ### Numbers of a position -/

section

variable {change change' : Float → Float}

theorem target?_mapCoordinates (position : EdgePos) :
    (position.mapCoordinates change).target? =
      position.target?.map fun (horizontal, vertical) => (change horizontal, change vertical) := by
  rw [target?, target?, mapCoordinates, ← List.map_reverse]
  match position.arrow.reverse with
  | [] | [_] => rfl
  | _ :: _ :: _ => rfl

theorem targetNumbers_mapCoordinates (position : EdgePos) :
    (position.mapCoordinates change).targetNumbers = position.targetNumbers.map change := by
  rw [targetNumbers, targetNumbers, target?_mapCoordinates]
  cases position.target? <;> rfl

theorem writtenNumbers_mapCoordinates (position : EdgePos) :
    (position.mapCoordinates change).writtenNumbers = position.writtenNumbers.map change := by
  rw [writtenNumbers_eq, writtenNumbers_eq, targetNumbers_mapCoordinates, List.map_append,
    List.map_append, List.map_flatten]
  rfl

theorem eroded_mapCoordinates (position : EdgePos) (rounds : Nat) :
    (position.mapCoordinates change).eroded rounds =
      (position.eroded rounds).mapCoordinates change := by
  have lastTwo_eq (numbers : List Float) :
      lastTwo (numbers.map change) = (lastTwo numbers).map change := by
    rw [lastTwo, lastTwo, List.length_map, List.map_drop]
  have group_eq (index : Nat) :
      (position.controlPoints.map (List.map change))[index]?.getD [] =
        (position.controlPoints[index]?.getD []).map change := by
    rw [List.getElem?_map]
    cases position.controlPoints[index]? <;> rfl
  have arrow_eq : (position.mapCoordinates change).erodedArrow rounds =
      (position.erodedArrow rounds).map change := by
    rw [erodedArrow, erodedArrow, targetNumbers_mapCoordinates, List.map_append]
    simp only [mapCoordinates, List.length_map, group_eq, lastTwo_eq]
    split <;> rfl
  simp only [eroded, arrow_eq]
  simp [mapCoordinates]

/-- All numbers of a position. -/
def coordinates (position : EdgePos) : List Float :=
  [position.origin.1, position.origin.2] ++ position.controlPoints.flatten ++ position.arrow

theorem mapCoordinates_congr {position : EdgePos}
    (same : ∀ number ∈ position.coordinates, change number = change' number) :
    position.mapCoordinates change = position.mapCoordinates change' := by
  simp only [coordinates, List.forall_mem_append, List.forall_mem_cons] at same
  rcases same with ⟨⟨⟨horizontal, vertical, _⟩, groups⟩, arrow⟩
  have groups_eq : position.controlPoints.map (List.map change) =
      position.controlPoints.map (List.map change') :=
    List.map_congr_left fun group group_mem => List.map_congr_left fun number number_mem =>
      groups number (List.mem_flatten_of_mem group_mem number_mem)
  rw [mapCoordinates, mapCoordinates, horizontal, vertical, groups_eq, List.map_congr_left arrow]

/-- If every number stays equal, so does every part of the position. -/
theorem mapCoordinates_same {position : EdgePos}
    (same : ∀ number ∈ position.coordinates, SameCoordinate (change number) number) :
    SamePoint (position.mapCoordinates change).origin position.origin ∧
      List.Forall₂ (List.Forall₂ SameCoordinate) (position.mapCoordinates change).controlPoints
        position.controlPoints ∧
      List.Forall₂ SameCoordinate (position.mapCoordinates change).arrow position.arrow := by
  simp only [coordinates, List.forall_mem_append, List.forall_mem_cons] at same
  rcases same with ⟨⟨⟨horizontal, vertical, _⟩, groups⟩, arrow⟩
  simp only [mapCoordinates, List.forall₂_map_left_iff]
  have groups_same : List.Forall₂ (List.Forall₂ fun left right => SameCoordinate (change left) right)
      position.controlPoints position.controlPoints :=
    List.forall₂_same.mpr fun group group_mem => List.forall₂_same.mpr fun number number_mem =>
      groups number (List.mem_flatten_of_mem group_mem number_mem)
  exact ⟨⟨horizontal, vertical⟩, groups_same, List.forall₂_same.mpr arrow⟩

theorem mapCoordinates_mapCoordinates (position : EdgePos) :
    (position.mapCoordinates change).mapCoordinates change' =
      position.mapCoordinates (change' ∘ change) := by
  simp [mapCoordinates]

end

theorem Regular.mapCoordinates {position : EdgePos} (regular : position.Regular)
    (change : Float → Float) : (position.mapCoordinates change).Regular where
  marker := regular.marker
  groups := by
    intro _ changed_mem
    obtain ⟨group, group_mem, rfl⟩ := List.mem_map.mp changed_mem
    rw [List.length_map, regular.groups group group_mem]
  arrow := by
    rw [EdgePos.mapCoordinates, List.length_map]
    exact regular.arrow

/-- In one round every number is read back and the last group is taken. -/
theorem rewritten_eq {position : EdgePos} (regular : position.Regular) :
    position.rewritten = (position.eroded 1).mapCoordinates reread := by
  rw [rewritten_eq_ofNumbers regular, ← writtenNumbers_mapCoordinates, ← eroded_mapCoordinates,
    ← marker_mapCoordinates reread position, ofNumbers_writtenNumbers (regular.mapCoordinates reread)]

/-! ### Many rounds -/

section

variable {position : EdgePos}

theorem target?_eroded (enough : 2 ≤ position.arrow.length) (rounds : Nat) :
    (position.eroded rounds).target? = position.target? := by
  obtain ⟨horizontal, vertical, target_eq, numbers_eq⟩ := exists_target enough
  rw [target_eq]
  apply target?_of_arrow_eq
  rw [eroded, erodedArrow, numbers_eq]

theorem Regular.eroded (regular : position.Regular) (rounds : Nat) :
    (position.eroded rounds).Regular where
  marker := regular.marker
  groups group group_mem := regular.groups group (List.mem_of_mem_take group_mem)
  arrow := by
    obtain ⟨horizontal, vertical, _, numbers_eq⟩ := exists_target regular.arrow
    simp [EdgePos.eroded, erodedArrow, numbers_eq]

/-- The next round takes the next group. -/
theorem eroded_eroded_one (enough : 2 ≤ position.arrow.length) (rounds : Nat) :
    (position.eroded rounds).eroded 1 = position.eroded (rounds + 1) := by
  have numbers_eq : (position.eroded rounds).targetNumbers = position.targetNumbers := by
    rw [targetNumbers, target?_eroded enough]
    rfl
  have arrow_eq : (position.eroded rounds).erodedArrow 1 = position.erodedArrow (rounds + 1) := by
    rw [erodedArrow, erodedArrow, numbers_eq]
    congr 1
    simp only [eroded, List.length_take]
    by_cases more : rounds + 1 ≤ position.controlPoints.length
    · have index_eq :
          min (position.controlPoints.length - rounds) position.controlPoints.length - 1 =
            position.controlPoints.length - (rounds + 1) := by
        omega
      rw [if_pos more, if_pos (by omega), index_eq, List.getElem?_take_of_lt (by omega)]
    · rw [if_neg more, if_neg (by omega)]
  rw [eroded, arrow_eq]
  simp only [eroded, List.length_take, List.take_take]
  congr 2
  omega

/-- What is left after some rounds was written in the first of them. -/
theorem mem_writtenNumbers_of_mem_eroded {rounds : Nat} {number : Float}
    (number_mem : number ∈ (position.eroded rounds).coordinates) :
    number ∈ position.writtenNumbers := by
  simp only [writtenNumbers_eq, coordinates, eroded, erodedArrow, List.mem_append] at number_mem ⊢
  rcases number_mem with (origin_mem | group_mem) | last_mem | target_mem
  · exact .inl (.inl origin_mem)
  · obtain ⟨group, group_mem, number_mem⟩ := List.mem_flatten.mp group_mem
    exact .inl (.inr (List.mem_flatten_of_mem (List.mem_of_mem_take group_mem) number_mem))
  · split at last_mem
    · cases taken : position.controlPoints[position.controlPoints.length - rounds]? with
      | none => simp [taken, lastTwo] at last_mem
      | some group =>
          rw [taken] at last_mem
          have group_mem := List.mem_of_getElem? taken
          exact .inl (.inr (List.mem_flatten_of_mem group_mem (List.mem_of_mem_drop last_mem)))
    · cases last_mem
  · exact .inr target_mem

/-- After the first round another one only takes another group. -/
theorem rewritten_iterate (regular : position.Regular)
    (faithful : ∀ number ∈ position.writtenNumbers, SameCoordinate (reread number) number)
    (rounds : Nat) :
    rewritten^[rounds + 1] position = (position.eroded (rounds + 1)).mapCoordinates reread := by
  induction rounds with
  | zero => rw [Nat.zero_add, Function.iterate_one, rewritten_eq regular]
  | succ rounds ih =>
      have settled : ∀ number ∈ (position.eroded (rounds + 2)).coordinates,
          (reread ∘ reread) number = reread number := by
        intro number number_mem
        rw [Function.comp_apply,
          (faithful number (mem_writtenNumbers_of_mem_eroded number_mem)).reread_eq]
      have again := (regular.eroded (rounds + 1)).mapCoordinates reread
      rw [Function.iterate_succ_apply', ih, rewritten_eq again, eroded_mapCoordinates,
        eroded_eroded_one regular.arrow, mapCoordinates_mapCoordinates,
        mapCoordinates_congr settled]

/-- Any number of rounds keeps marker, origin and target and takes as many groups, from the last
one on. Every number that is left is equal to what it was. -/
theorem rewritten_iterate_erodes (regular : position.Regular)
    (faithful : ∀ number ∈ position.writtenNumbers, SameCoordinate (reread number) number)
    (rounds : Nat) :
    let left := rewritten^[rounds] position
    let count := position.controlPoints.length
    left.marker = position.marker ∧
      SamePoint left.origin position.origin ∧
      (∃ target kept, position.target? = some target ∧ left.target? = some kept ∧
        SamePoint kept target) ∧
      List.Forall₂ (List.Forall₂ SameCoordinate) left.controlPoints
        (position.controlPoints.take (count - rounds)) ∧
      (1 ≤ rounds → List.Forall₂ SameCoordinate left.arrow (position.erodedArrow rounds)) := by
  intro left count
  obtain ⟨horizontal, vertical, target_eq, targetNumbers_eq⟩ := exists_target regular.arrow
  cases rounds with
  | zero =>
      refine ⟨rfl, .refl _, ⟨_, _, target_eq, target_eq, .refl _⟩, ?_, by simp⟩
      have all_eq : position.controlPoints.take count = position.controlPoints := List.take_length
      rw [Nat.sub_zero, all_eq]
      exact List.forall₂_same.mpr fun group _ => List.forall₂_same.mpr fun number _ => .refl number
  | succ rounds =>
      have left_eq : left = (position.eroded (rounds + 1)).mapCoordinates reread :=
        rewritten_iterate regular faithful rounds
      have same : ∀ number ∈ (position.eroded (rounds + 1)).coordinates,
          SameCoordinate (reread number) number :=
        fun number number_mem => faithful number (mem_writtenNumbers_of_mem_eroded number_mem)
      have kept_eq : left.target? = some (reread horizontal, reread vertical) := by
        rw [left_eq, target?_mapCoordinates, target?_eroded regular.arrow, target_eq]
        rfl
      have target_same : SamePoint (reread horizontal, reread vertical) (horizontal, vertical) := by
        have written : ∀ number ∈ position.targetNumbers, SameCoordinate (reread number) number :=
          fun number number_mem => faithful number (List.mem_append_right _ number_mem)
        simpa [targetNumbers_eq, SamePoint] using written
      rcases mapCoordinates_same same with ⟨origin, groups, arrow⟩
      rw [← left_eq] at origin groups arrow
      have marker : left.marker = position.marker := by
        rw [left_eq, marker_mapCoordinates, marker_eroded]
      exact ⟨marker, origin, ⟨_, _, target_eq, kept_eq, target_same⟩, groups, fun _ => arrow⟩

/-- Two rounds take the two groups of a position, which has a fraction and a word among its
numbers. -/
theorem rewritten_iterate_erodes_of_two_groups :
    let position : EdgePos :=
      { marker := "e", origin := (0.5, 2.0), arrow := [15.0, 16.0, 17.0, 18.0],
        controlPoints := [[3.0, 4.0, 5.0, 6.0, 7.0, 0.0 / 0.0],
          [9.0, 10.0, 11.0, 12.0, 13.0, 14.0]] }
    let left := rewritten^[2] position
    position.Regular ∧
      (∀ number ∈ position.writtenNumbers, SameCoordinate (reread number) number) ∧
      left.marker = "e" ∧ SamePoint left.origin (0.5, 2.0) ∧
      List.Forall₂ (List.Forall₂ SameCoordinate) left.controlPoints [] ∧
      List.Forall₂ SameCoordinate left.arrow [7.0, 0.0 / 0.0, 17.0, 18.0] := by
  intro position left
  have word : Text.IsWord "e".toList := ⟨by decide, List.forall_mem_singleton.mpr (by decide)⟩
  have regular : position.Regular := ⟨word, by decide, by decide⟩
  have faithful : ∀ number ∈ position.writtenNumbers, SameCoordinate (reread number) number := by
    decide +kernel
  rcases rewritten_iterate_erodes regular faithful 2 with ⟨marker, origin, _, groups, arrow⟩
  exact ⟨regular, faithful, marker, origin, groups, arrow (by decide)⟩

end

end EdgePos

end DotLang
