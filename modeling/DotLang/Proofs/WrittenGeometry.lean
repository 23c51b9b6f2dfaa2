import DotLang.Proofs.CoordinateLists
import DotLang.Proofs.EncodedTrees
import DotLang.Proofs.RestatedShape
import DotLang.Proofs.Walk.Values
import Mathlib.Data.List.TakeWhile

/-!
# What writing typed geometry changes

A walk with typed geometry leaves a tree that differs from the tree of the same
walk without it in the values of a few attributes only, those that hold geometry
(`Model.toTree_typed_eq`). A typed value is never left in the tree: it is written
as text, unless there was nothing to read in the attribute (`Geometry.IsLost`).
-/

namespace DotLang

/-! ### Blank texts -/

namespace Text

theorem mem_dropWhile {dropped : Char → Bool} {char : Char} (kept : dropped char = false)
    {chars : List Char} (char_mem : char ∈ chars) : char ∈ chars.dropWhile dropped := by
  induction chars with
  | nil => cases char_mem
  | cons first rest ih =>
      rw [List.dropWhile_cons]
      split
      · next isDropped =>
          rcases List.mem_cons.mp char_mem with rfl | char_mem
          · exact absurd isDropped (by simp [kept])
          · exact ih char_mem
      · exact char_mem

theorem mem_trim {dropped : Char → Bool} {char : Char} (kept : dropped char = false)
    {chars : List Char} (char_mem : char ∈ chars) : char ∈ trim dropped chars := by
  have front := mem_dropWhile kept char_mem
  exact List.mem_reverse.mpr (mem_dropWhile kept (List.mem_reverse.mpr front))

theorem strip_of_blank {text : String} (blank : isBlankText text = true) : strip text = "" := by
  have nothing : text.toList.dropWhile isBlank = [] := by
    rw [List.dropWhile_eq_nil_iff]
    exact List.all_eq_true.mp blank
  rw [strip, trim, nothing]
  rfl

theorem not_isBlankText_strip {text : String} (filled : isBlankText text = false) :
    isBlankText (strip text) = false := by
  obtain ⟨char, char_mem, solid⟩ := (isBlankText_eq_false_iff text).mp filled
  refine (isBlankText_eq_false_iff _).mpr ⟨char, ?_, solid⟩
  rw [strip, String.toList_ofList]
  exact mem_trim solid char_mem

end Text

theorem Numeral.not_isBlankText {text : String} (numeral : Numeral text.toList) :
    Text.isBlankText text = false := by
  obtain ⟨first, rest, text_eq, _⟩ := numeral.head
  have first_mem : first ∈ text.toList := by simp [text_eq]
  exact (Text.isBlankText_eq_false_iff text).mpr
    ⟨first, first_mem, numeral.isWord.not_isBlank first_mem⟩

/-- A value that is shown as a blank text is blank itself or raw markup. -/
theorem Value.isBlank_or_markup {value : Value} (notEdge : ∀ position, value ≠ .edgePos position)
    (blank : Text.isBlankText value.display = true) :
    value.isBlank = true ∨ ∃ content, value = .markup content := by
  have opened (char : Char) (text : String) (char_mem : char ∈ text.toList)
      (solid : Text.isBlank char = false) : Text.isBlankText text = false :=
    (Text.isBlankText_eq_false_iff text).mpr ⟨char, char_mem, solid⟩
  cases value with
  | null => exact .inl rfl
  | bool truth => cases truth <;> exact absurd blank (by decide)
  | int number =>
      have solid := (numeral_intText number).not_isBlankText
      simp [display, literal, solid] at blank
  | float number =>
      have solid := (numeral_floatText number).not_isBlankText
      simp [display, literal, solid] at blank
  | text content => exact .inl blank
  | markup content => exact .inr ⟨content, rfl⟩
  | edgePos position => exact absurd rfl (notEdge position)
  | list items =>
      have solid := opened '[' (literal (.list items)) (by simp [literal]) (by decide)
      simp [display, solid] at blank
  | object fields =>
      have solid := opened '\x7b' (literal (.object fields)) (by simp [literal]) (by decide)
      simp [display, solid] at blank

/-! ### Written values -/

namespace Geometry

/-- The attributes that hold geometry. -/
def names : List String :=
  sizeNames ++ listNames ++ [positionName]

/-- Whether there is nothing to read in an attribute: there is no value or a blank text. In a
position raw markup is read as text. -/
def IsLost (name : String) (value : Value) : Prop :=
  value.isBlank = true ∨
    name = positionName ∧ ∃ content, value = .markup content ∧ Text.isBlankText content = true

/-- What an attribute becomes when it is put into its typed form and written back. -/
def written (geometry : Geometry) (name : String) (value : Value) : Value :=
  match geometry.encode name (geometry.typedForm name value) with
  | .ok form => form
  | .error _ => value

/-- How an attribute is written: nothing but geometry changes, and geometry is text. -/
structure Written (name : String) (value form : Value) : Prop where
  /-- Other attributes keep their value. -/
  kept : name ∉ names → form = value
  /-- Geometry is written as text or as no value. -/
  text : name ∈ names → form ≠ .null → ∃ content, form = .text content
  /-- There is no value exactly if there was nothing to read. -/
  null_iff : name ∈ names → (form = .null ↔ IsLost name value)

variable {scale : Float} {name : String} {value : Value}

theorem encode_typedForm_eq (nonzero : (scale == 0.0) = false) (name : String) (value : Value) :
    let geometry := typed (.float scale)
    geometry.encode name (geometry.typedForm name value) = .ok (geometry.written name value) := by
  intro geometry
  obtain ⟨form, form_eq⟩ := (encode_typedForm scale name value).ok (by simp [nonzero])
  rw [written, form_eq]

theorem Written.of_text (geometric : name ∈ names) (found : ¬IsLost name value) (content : String) :
    Written name value (.text content) where
  kept other := absurd geometric other
  text _ _ := ⟨content, rfl⟩
  null_iff _ := ⟨nofun, fun lost => absurd lost found⟩

theorem Written.of_null (geometric : name ∈ names) (lost : IsLost name value) :
    Written name value .null where
  kept other := absurd geometric other
  text _ nonNull := absurd rfl nonNull
  null_iff _ := ⟨fun _ => lost, fun _ => rfl⟩

theorem isLost_iff_isBlank (other : name ≠ positionName) :
    IsLost name value ↔ value.isBlank = true := by
  simp [IsLost, other]

theorem written_eq_of_encode {geometry : Geometry} {form made : Value}
    (form_eq : geometry.typedForm name value = form)
    (encoded : geometry.encode name form = .ok made) : geometry.written name value = made := by
  rw [written, form_eq, encoded]

theorem written_size (nonzero : (scale == 0.0) = false) (sized : name ∈ sizeNames)
    (value : Value) : Written name value ((typed (.float scale)).written name value) := by
  have geometric : name ∈ names := List.mem_append_left _ (List.mem_append_left _ sized)
  have other : name ≠ positionName := by
    rintro rfl
    exact absurd sized (by decide)
  have lost_iff : IsLost name value ↔ value.isBlank = true := isLost_iff_isBlank other
  by_cases blank : value.isBlank = true
  · have form_eq : (typed (.float scale)).typedForm name value = .null := by
      simp [typedForm, parse, sized, Value.readFloat?, blank]
    have encoded : (typed (.float scale)).encode name .null = .ok .null := by
      simp [encode, Value.number?]
    rw [written_eq_of_encode form_eq encoded]
    exact .of_null geometric (lost_iff.mpr blank)
  · obtain ⟨size, size_eq⟩ : ∃ size, value.readFloat? = some size := by
      simp [Value.readFloat?, blank]
    have form_eq : (typed (.float scale)).typedForm name value = .float (size * scale) := by
      simp only [typedForm, parse, sized, size_eq, if_true]
      rfl
    have quotient_eq : Number.quotient (.float (size * scale)) (.float scale) =
        .ok (size * scale / scale) := by
      change Number.floatQuotient (size * scale) scale = _
      rw [Number.floatQuotient, nonzero]
      rfl
    have encoded : (typed (.float scale)).encode name (.float (size * scale)) =
        .ok (.text (coordinateText (size * scale / scale))) := by
      simp only [encode, sized, Value.number?, if_true, quotient_eq]
      rfl
    rw [written_eq_of_encode form_eq encoded]
    exact .of_text geometric (mt lost_iff.mp blank) _

theorem written_list (scale : Float) (listed : name ∈ listNames) (value : Value) :
    Written name value ((typed (.float scale)).written name value) := by
  have geometric : name ∈ names := List.mem_append_left _ (List.mem_append_right _ listed)
  have notSize := not_mem_sizeNames (.inl listed)
  have other : name ≠ positionName := by
    rintro rfl
    exact absurd listed (by decide)
  have lost_iff : IsLost name value ↔ value.isBlank = true := isLost_iff_isBlank other
  have form_eq : (typed (.float scale)).typedForm name value =
      (value.readFloats?.map Value.ofFloats).getD .null := by
    simp [typedForm, parse, notSize, listed]
  rw [Value.readFloats?] at form_eq
  split at form_eq
  · next blank =>
      have encoded : (typed (.float scale)).encode name .null = .ok .null := by
        simp [encode, Value.number?]
      rw [written_eq_of_encode form_eq encoded]
      exact .of_null geometric (lost_iff.mpr blank)
  · next filled =>
      rw [written_eq_of_encode form_eq (encode_ofFloats (.float scale) (.inl listed) _)]
      exact .of_text geometric (mt lost_iff.mp filled) _

theorem written_position (scale : Float) (notEdge : ∀ position, value ≠ .edgePos position) :
    Written positionName value ((typed (.float scale)).written positionName value) := by
  have geometric : positionName ∈ names := by decide
  have form_eq : (typed (.float scale)).typedForm positionName value = value.readPosition := rfl
  have encoded_null : (typed (.float scale)).encode positionName .null = .ok .null := rfl
  rw [Value.readPosition] at form_eq
  by_cases blank : value.isBlank = true
  · rw [if_pos blank] at form_eq
    rw [written_eq_of_encode form_eq encoded_null]
    exact .of_null geometric (.inl blank)
  · rw [if_neg blank] at form_eq
    cases shown : Text.isBlankText value.display with
    | true =>
        rw [Text.strip_of_blank shown] at form_eq
        rw [written_eq_of_encode form_eq encoded_null]
        rcases Value.isBlank_or_markup notEdge shown with isBlank | ⟨content, rfl⟩
        · exact absurd isBlank blank
        · exact .of_null geometric (.inr ⟨rfl, content, rfl, shown⟩)
    | false =>
        have found : ¬IsLost positionName value := by
          rintro (isBlank | ⟨_, content, rfl, isBlank⟩)
          · exact blank isBlank
          · exact Bool.false_ne_true (shown.symm.trans isBlank)
        have filled : (Value.text (Text.strip value.display)).isBlank = false :=
          Text.not_isBlankText_strip shown
        simp only [Value.readFloats?, filled] at form_eq
        split at form_eq
        · rw [written_eq_of_encode form_eq rfl]
          exact .of_text geometric found _
        · rw [written_eq_of_encode form_eq (encode_ofFloats (.float scale) (.inr rfl) _)]
          exact .of_text geometric found _

theorem written_other (scale : Float) (other : name ∉ names)
    (notEdge : ∀ position, value ≠ .edgePos position) :
    Written name value ((typed (.float scale)).written name value) := by
  have apart : name ∉ sizeNames ∧ name ∉ listNames ∧ name ≠ positionName := by
    simpa [names, not_or, and_assoc] using other
  have form_eq : (typed (.float scale)).typedForm name value = value := by
    simp [typedForm, parse, apart]
  have encoded : (typed (.float scale)).encode name value = .ok value := by
    cases value with
    | edgePos position => exact absurd rfl (notEdge position)
    | _ => simp [encode, apart]
  rw [written_eq_of_encode form_eq encoded]
  exact ⟨fun _ => rfl, fun geometric => absurd geometric other,
    fun geometric => absurd geometric other⟩

/-- What becomes of an attribute that holds no edge position yet. -/
theorem written_written (nonzero : (scale == 0.0) = false) (name : String)
    (notEdge : ∀ position, value ≠ .edgePos position) :
    Written name value ((typed (.float scale)).written name value) := by
  by_cases geometric : name ∈ names
  · rw [names, List.mem_append, List.mem_append, List.mem_singleton] at geometric
    rcases geometric with (sized | listed) | rfl
    · exact written_size nonzero sized value
    · exact written_list scale listed value
    · exact written_position scale notEdge
  · exact written_other scale geometric notEdge

end Geometry

/-! ### Trees with written geometry -/

namespace Tree

theorem allPartsIn_iff (ofNodes : NodeId → Prop) (ofAttrs : Attr → Prop) (trees : List Tree) :
    AllPartsIn ofNodes ofAttrs trees ↔ ∀ tree ∈ trees, tree.AllParts ofNodes ofAttrs := by
  induction trees with
  | nil => simp [AllPartsIn]
  | cons tree rest ih => simp [AllPartsIn, ih]

/-- The attributes of restated statements are those of their lists. -/
theorem Restated.allParts {wording : Wording} {ofAttrs : Attr → Prop}
    (each : ∀ attrs, wording.attrs attrs → ∀ entry ∈ attrs, ofAttrs entry) {tree : Tree}
    (restated : tree.Restated wording) : tree.AllParts (fun _ => True) ofAttrs := by
  induction restated with
  | subgraph named inside ih => exact (allPartsIn_iff _ _ _).mpr ih
  | nodeStmt named listed => exact ⟨trivial, each _ listed⟩
  | edgeStmt tail_named head_named listed => exact ⟨⟨trivial, trivial, trivial⟩, each _ listed⟩
  | attrStmt filled listed => exact each _ listed

end Tree

namespace Model

/-- The attributes in a regenerated tree are those of the model. -/
theorem restatement_allParts {model : Model} {ofAttrs : Attr → Prop}
    (each : ∀ place, ∀ entry ∈ (model.attrsAt place).listed, ofAttrs entry) :
    model.restatement.AllParts (fun _ => True) ofAttrs := by
  let wording : Wording := ⟨fun _ => True, fun attrs => ∀ entry ∈ attrs, ofAttrs entry⟩
  have worded : model.Worded wording Geometry.plain.encode := by
    refine ⟨by simp [wording], by simp [wording], by simp [wording], by simp [wording],
      by simp [wording], ?_⟩
    intro place listed made
    rw [attrList_plain] at made
    cases made
    exact each place
  obtain ⟨children, restatement_eq, restated⟩ := toTree_restated worded model.toTree_plain
  rw [restatement_eq]
  exact (Tree.allPartsIn_iff _ _ _).mpr fun child child_mem =>
    (restated child child_mem).allParts fun _ listed => listed

/-- A lenient walk with typed geometry leads to the tree that the walk without it leads to, with
other values for geometry only: a text, or no value exactly where there was nothing to read. -/
theorem toTree_typed_eq {options : WalkOptions} (lenient : options.isStrict = false) {scale : Float}
    (nonzero : (scale == 0.0) = false) {tree : Tree} (named : tree.namesNodes)
    (noEdges : tree.Values fun value => ∀ position, value ≠ .edgePos position) :
    let geometry := Geometry.typed (.float scale)
    let plain := Model.walk options .plain tree ∅
    let typed := Model.walk options geometry tree ∅
    ∃ stated : Tree,
      plain.failure = none ∧ plain.model.toTree Geometry.plain.encode = .ok stated ∧
      typed.failure = none ∧
      typed.model.toTree geometry.encode = .ok (stated.mapValues geometry.written) ∧
      stated.AllParts (fun _ => True) fun entry =>
        Geometry.Written entry.id entry.value (geometry.written entry.id entry.value) := by
  intro geometry plain typed
  have completes : plain.failure = none := Model.walkPlain_completes lenient named ∅
  have wellFormed : plain.model.WellFormed := wellFormed_empty.walkPlain options tree
  have retyped := wellFormed.retype_eq (Geometry.isTotal_of_float scale)
  have typed_eq : typed = { plain with model := plain.model.mapAttrs geometry.typedForm } := by
    change retypeResult geometry plain = _
    simp only [retypeResult, geometry, completes, retyped, Option.map_none]
  have values : plain.model.Values fun value => ∀ position, value ≠ .edgePos position :=
    Model.walk_values lenient named (by simp) noEdges
  refine ⟨plain.model.restatement, completes, plain.model.toTree_plain, ?_, ?_, ?_⟩
  · rw [typed_eq]
    exact completes
  · rw [typed_eq]
    exact toTree_mapAttrs (Geometry.encode_typedForm_eq nonzero) plain.model
  · apply restatement_allParts
    intro place _ entry_mem
    obtain ⟨⟨name, value⟩, pair_mem, rfl⟩ := List.mem_map.mp entry_mem
    have found := ((plain.model.attrsAt place).get?_eq_some_iff name value).mpr pair_mem
    exact Geometry.written_written nonzero name (values.attrsAt place name value found)

/-- A graph with a box, and a node with a size, a blank size and a list that is no geometry. -/
theorem toTree_typed_eq_of_box :
    let tree := Tree.graph "digraph" (some "g") false [
      .attrStmt "graph" [⟨"bb", .text "0,0,27 36"⟩],
      .nodeStmt (.nodeId { id := "n" })
        [⟨"width", .text "0.75"⟩, ⟨"height", .text " "⟩, ⟨"label", .list [.int 1]⟩]]
    let geometry := Geometry.typed (.float 72.0)
    let typed := Model.walk {} geometry tree ∅
    let expected := Tree.graph "digraph" (some "g") false [
      .nodeStmt (.nodeId { id := "n" })
        [⟨"width", .text "0.75"⟩, ⟨"height", .null⟩, ⟨"label", .list [.int 1]⟩],
      .attrStmt "graph" [⟨"bb", .text "0,0,27,36"⟩]]
    typed.failure = none ∧
      ∃ stated, typed.model.toTree geometry.encode = .ok stated ∧ stated.same expected = true := by
  intro tree geometry typed expected
  have lenient : WalkOptions.isStrict {} = false := rfl
  have nonzero : ((72.0 : Float) == 0.0) = false := by decide +kernel
  have named : tree.namesNodes = true := rfl
  have noEdges : tree.Values fun value => ∀ position, value ≠ .edgePos position := by
    simp [tree, Tree.Values, Tree.AllParts, Tree.AllPartsIn]
  rcases toTree_typed_eq lenient nonzero named noEdges with
    ⟨stated, _, plain_eq, completes, typed_eq, _⟩
  refine ⟨completes, _, typed_eq, ?_⟩
  rw [toTree_plain] at plain_eq
  cases plain_eq
  dsimp only [tree, geometry, expected]
  decide +kernel

/-- Blank markup in a position: the plain tree has this value, which is neither nothing nor a blank
text, and the tree with typed geometry has none. -/
theorem toTree_typed_of_blank_markup :
    let tree := Tree.graph "digraph" (some "g") false [
      .nodeStmt (.nodeId { id := "n" }) [⟨"pos", .markup " "⟩]]
    let geometry := Geometry.typed (.float 72.0)
    let stated (value : Value) := Tree.graph "digraph" (some "g") false [
      .nodeStmt (.nodeId { id := "n" }) [⟨"pos", value⟩]]
    (Model.walk {} .plain tree ∅).model.toTree Geometry.plain.encode =
        .ok (stated (.markup " ")) ∧
      (Model.walk {} geometry tree ∅).model.toTree geometry.encode = .ok (stated .null) ∧
      Value.isBlank (.markup " ") = false := by
  refine ⟨?_, ?_, ?_⟩
  · rfl
  · rfl
  · rfl

end Model

end DotLang
