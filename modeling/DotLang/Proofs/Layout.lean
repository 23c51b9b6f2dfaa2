import DotLang.Proofs.Collisions
import DotLang.Proofs.Results
import DotLang.Tree.Text

/-!
# The layout of written trees

A written tree is a list of rows: texts without indentation, each with the number
of blocks around it. The rows are made without a unit of indentation and without a
level. Writing only puts the indentation before each of them (`lines_eq_rows`), so
a tree at a level is the tree at level zero moved to the right.

A subgraph at the end of an edge is written by the same rows in one line, which
`endpointText_eq_rows` says for every subgraph with something in it. An empty one
is the exception: its braces have a blank between them in a block only.
-/

namespace DotLang

theorem Token.ofText_ne_empty (text : String) : Token.ofText text ≠ "" := by
  rw [ofText]
  split
  · next bare =>
      rintro rfl
      simp [isBare] at bare
  · simp [quoted]

namespace Tree

/-- A line of a written tree without its indentation. -/
structure Row where
  /-- The number of blocks around the line. -/
  depth : Nat
  /-- What stands behind the indentation. -/
  text : String

namespace Row

/-- The row in one more block. -/
def inner (row : Row) : Row :=
  { row with depth := row.depth + 1 }

/-- The row as a line of a tree that is written at a level. -/
def line (indent : String) (level : Nat) (row : Row) : String :=
  indentation indent (level + row.depth : Nat) ++ row.text

end Row

/-- The rows of a block behind its head. -/
def blockRows (head : String) (body : List Row) : List Row :=
  ⟨0, head ++ " \x7b"⟩ :: body.map Row.inner ++ [⟨0, "\x7d"⟩]

mutual

/-- The rows of a tree. -/
def rows (directed : Bool) : Tree → Except MissingNode (List Row)
  | .graph kind id isStrict children => do
      let body ← rowsOfItems (kind == "digraph") children
      return blockRows (graphHead kind id isStrict) body
  | .subgraph id children => do
      let body ← rowsOfItems directed children
      return blockRows (headText "subgraph" id) body
  | .nodeStmt subject attrs => do
      let reference ← referenceText subject
      return [⟨0, reference ++ attrsText attrs ++ ";"⟩]
  | .edgeStmt endpoints attrs => do
      let parts ← endpointTexts directed endpoints
      return [⟨0, (edgeOperator directed).intercalate parts ++ attrsText attrs ++ ";"⟩]
  | .attrStmt target attrs => .ok [⟨0, target ++ attrsText attrs ++ ";"⟩]
  | .nodeId node => .ok [⟨0, nodeIdText node⟩]
  | .attr _ => .ok []
  | .unknown .. => .ok []
  | .raw _ => .ok []
  | .list items => rowsOfItems directed items
termination_by structural tree => tree

/-- The rows of several trees one below the other. -/
def rowsOfItems (directed : Bool) : List Tree → Except MissingNode (List Row)
  | [] => .ok []
  | tree :: rest => do
      let first ← rows directed tree
      return first ++ (← rowsOfItems directed rest)
termination_by structural items => items

end

/-! ### Lines are indented rows -/

theorem indentation_add (indent : String) (outer inner : Nat) :
    indentation indent (outer + inner : Nat) =
      indentation indent outer ++ indentation indent inner := by
  simp only [indentation, Int.toNat_natCast, ← List.replicate_append_replicate,
    String.join_append]

theorem indentation_empty (level : Int) : indentation "" level = "" := by
  rw [indentation]
  induction level.toNat with
  | zero => rfl
  | succ depth ih => rw [List.replicate_succ, String.join_cons, ih, String.append_empty]

namespace Row

theorem line_eq (indent : String) (level : Nat) (row : Row) :
    row.line indent level = indentation indent level ++ row.line indent 0 := by
  rw [line, line, indentation_add, Nat.zero_add, String.append_assoc]

theorem line_unindented (row : Row) : row.line "" 0 = row.text := by
  rw [line, indentation_empty, String.empty_append]

theorem line_inner (indent : String) (level : Nat) (row : Row) :
    row.inner.line indent level = row.line indent (level + 1) := by
  rw [line, line, inner, Nat.add_right_comm, Nat.add_assoc]

/-- The line of a statement is not inside any of its own blocks. -/
theorem line_statement (indent : String) (level : Nat) (subject : String) (attrs : List Attr) :
    line indent level ⟨0, subject ++ attrsText attrs ++ ";"⟩ =
      indentation indent level ++ subject ++ attrsText attrs ++ ";" := by
  simp only [line, Nat.add_zero, String.append_assoc]

end Row

theorem block_eq_blockRows (indent : String) (level : Nat) (head : String) (body : List Row) :
    block indent level head (body.map (Row.line indent (level + 1))) =
      (blockRows head body).map (Row.line indent level) := by
  have inside : Row.line indent level ∘ Row.inner = Row.line indent (level + 1) :=
    funext (Row.line_inner indent level)
  have outside (text : String) :
      Row.line indent level ⟨0, text⟩ = indentation indent level ++ text := rfl
  rw [block, blockRows, List.map_append, List.map_cons, List.map_map, inside, List.map_singleton,
    outside, outside, String.append_assoc]

/-- Where the lines of a body are indented rows, those of a block around it are. -/
theorem block_of_rows (indent : String) (level : Nat) (head : String)
    (body : Except MissingNode (List Row)) :
    (do
      let lines ← body.map (List.map (Row.line indent (level + 1)))
      return block indent level head lines) =
      (do
        let found ← body
        return blockRows head found).map (List.map (Row.line indent level)) := by
  cases body with
  | error missing => rfl
  | ok found => exact congrArg Except.ok (block_eq_blockRows indent level head found)

mutual

/-- The lines of a tree are its rows, each behind its indentation. -/
theorem lines_eq_rows (indent : String) : ∀ (tree : Tree) (level : Nat) (directed : Bool),
    lines indent level directed tree =
      (rows directed tree).map (List.map (Row.line indent level))
  | .graph kind id isStrict children, level, directed => by
      have body := linesOfItems_eq_rows indent children (level + 1) (kind == "digraph")
      rw [Int.natCast_succ] at body
      rw [lines, rows, body]
      exact block_of_rows indent level _ _
  | .subgraph id children, level, directed => by
      have body := linesOfItems_eq_rows indent children (level + 1) directed
      rw [Int.natCast_succ] at body
      rw [lines, rows, body]
      exact block_of_rows indent level _ _
  | .nodeStmt subject attrs, level, directed => by
      rw [lines, rows]
      cases referenceText subject with
      | error missing => rfl
      | ok reference =>
          have line_eq := Row.line_statement indent level reference attrs
          exact congrArg (fun line => Except.ok [line]) line_eq.symm
  | .edgeStmt endpoints attrs, level, directed => by
      rw [lines, rows]
      cases endpointTexts directed endpoints with
      | error missing => rfl
      | ok parts =>
          let subject := (edgeOperator directed).intercalate parts
          have line_eq := Row.line_statement indent level subject attrs
          exact congrArg (fun line => Except.ok [line]) line_eq.symm
  | .attrStmt target attrs, level, _ =>
      congrArg (fun line => Except.ok [line]) (Row.line_statement indent level target attrs).symm
  | .nodeId _, _, _ => rfl
  | .attr _, _, _ => rfl
  | .unknown .., _, _ => rfl
  | .raw _, _, _ => rfl
  | .list items, level, directed => linesOfItems_eq_rows indent items level directed
termination_by structural tree => tree

theorem linesOfItems_eq_rows (indent : String) : ∀ (trees : List Tree) (level : Nat)
    (directed : Bool),
    linesOfItems indent level directed trees =
      (rowsOfItems directed trees).map (List.map (Row.line indent level))
  | [], _, _ => rfl
  | tree :: rest, level, directed => by
      rw [linesOfItems, rowsOfItems, lines_eq_rows indent tree, linesOfItems_eq_rows indent rest]
      cases rows directed tree with
      | error missing => rfl
      | ok first =>
          cases rowsOfItems directed rest with
          | error missing => rfl
          | ok others => exact congrArg Except.ok List.map_append.symm
termination_by structural trees => trees

end

/-- Moving a tree inwards puts the same indentation before each of its lines. -/
theorem lines_indented (indent : String) (level : Nat) (directed : Bool) (tree : Tree) :
    lines indent level directed tree =
      (lines indent 0 directed tree).map (List.map (indentation indent level ++ ·)) := by
  have outermost := lines_eq_rows indent tree 0 directed
  rw [Int.natCast_zero] at outermost
  rw [lines_eq_rows, outermost]
  cases rows directed tree with
  | error missing => rfl
  | ok found =>
      refine congrArg Except.ok ?_
      rw [List.map_map]
      exact List.map_congr_left fun row _ => row.line_eq indent level

/-! ### Trees that can be written -/

mutual

/-- Whether the endpoints of all edges are node references or subgraphs, and the subjects of all
node statements are node references. -/
def isWritable : Tree → Bool
  | .graph _ _ _ children => allWritable children
  | .subgraph _ children => allWritable children
  | .nodeStmt subject _ =>
      match subject with
      | .nodeId _ => true
      | _ => false
  | .edgeStmt endpoints _ => allWritableEndpoints endpoints
  | .list items => allWritable items
  | _ => true
termination_by structural tree => tree

/-- Whether several trees can be written. -/
def allWritable : List Tree → Bool
  | [] => true
  | tree :: rest => tree.isWritable && allWritable rest
termination_by structural trees => trees

/-- Whether a tree can be written at the end of an edge. -/
def isWritableEndpoint : Tree → Bool
  | .subgraph _ children => allWritable children
  | .nodeId _ => true
  | _ => false
termination_by structural tree => tree

/-- Whether several trees can be written along an edge. -/
def allWritableEndpoints : List Tree → Bool
  | [] => true
  | tree :: rest => tree.isWritableEndpoint && allWritableEndpoints rest
termination_by structural trees => trees

end

mutual

theorem isOk_rows : ∀ (tree : Tree) (directed : Bool),
    (rows directed tree).isOk = tree.isWritable
  | .graph kind _ _ children, _ =>
      (isOk_bind_pure _ _).trans (isOk_rowsOfItems children (kind == "digraph"))
  | .subgraph _ children, directed =>
      (isOk_bind_pure _ _).trans (isOk_rowsOfItems children directed)
  | .nodeStmt subject _, _ => by
      refine (isOk_bind_pure _ _).trans ?_
      cases subject <;> rfl
  | .edgeStmt endpoints _, directed =>
      (isOk_bind_pure _ _).trans (isOk_endpointTexts endpoints directed)
  | .attrStmt _ _, _ => rfl
  | .nodeId _, _ => rfl
  | .attr _, _ => rfl
  | .unknown .., _ => rfl
  | .raw _, _ => rfl
  | .list items, directed => isOk_rowsOfItems items directed
termination_by structural tree => tree

theorem isOk_rowsOfItems : ∀ (trees : List Tree) (directed : Bool),
    (rowsOfItems directed trees).isOk = allWritable trees
  | [], _ => rfl
  | tree :: rest, directed => by
      rw [rowsOfItems, allWritable, ← isOk_rows tree directed, ← isOk_rowsOfItems rest directed]
      exact isOk_bind_bind_pure _ _ _
termination_by structural trees => trees

theorem isOk_endpointText : ∀ (tree : Tree) (directed : Bool),
    (endpointText directed tree).isOk = tree.isWritableEndpoint
  | .subgraph _ children, directed => by
      have body := linesOfItems_eq_rows "" children 0 directed
      rw [Int.natCast_zero] at body
      rw [endpointText, isWritableEndpoint, isOk_bind_pure, body, isOk_map]
      exact isOk_rowsOfItems children directed
  | .nodeId _, _ => rfl
  | .graph .., _ => rfl
  | .nodeStmt .., _ => rfl
  | .edgeStmt .., _ => rfl
  | .attrStmt .., _ => rfl
  | .attr _, _ => rfl
  | .unknown .., _ => rfl
  | .raw _, _ => rfl
  | .list _, _ => rfl
termination_by structural tree => tree

theorem isOk_endpointTexts : ∀ (trees : List Tree) (directed : Bool),
    (endpointTexts directed trees).isOk = allWritableEndpoints trees
  | [], _ => rfl
  | tree :: rest, directed => by
      rw [endpointTexts, allWritableEndpoints, ← isOk_endpointText tree directed,
        ← isOk_endpointTexts rest directed]
      exact isOk_bind_bind_pure _ _ _
termination_by structural trees => trees

end

/-! ### Blocks on one line -/

theorem text_ne_empty_of_blockRows {body : List Row} (filled : ∀ row ∈ body, row.text ≠ "")
    (head : String) : ∀ row ∈ blockRows head body, row.text ≠ "" := by
  intro row row_mem
  simp only [blockRows, List.mem_append, List.mem_cons, List.mem_map, List.mem_nil_iff,
    or_false] at row_mem
  rcases row_mem with (rfl | ⟨inside, inside_mem, rfl⟩) | rfl
  · simp
  · exact filled inside inside_mem
  · simp

mutual

/-- No line is without text. -/
theorem text_ne_empty_of_rows : ∀ (tree : Tree) (directed : Bool) {found : List Row},
    rows directed tree = .ok found → ∀ row ∈ found, row.text ≠ ""
  | .graph kind _ _ children, _, found, found_eq => by
      rw [rows] at found_eq
      rcases exists_of_bind_eq_ok found_eq with ⟨body, body_eq, found_eq⟩
      cases found_eq
      exact text_ne_empty_of_blockRows (text_ne_empty_of_rowsOfItems children _ body_eq) _
  | .subgraph _ children, directed, found, found_eq => by
      rw [rows] at found_eq
      rcases exists_of_bind_eq_ok found_eq with ⟨body, body_eq, found_eq⟩
      cases found_eq
      exact text_ne_empty_of_blockRows (text_ne_empty_of_rowsOfItems children _ body_eq) _
  | .nodeStmt subject _, _, found, found_eq => by
      rw [rows] at found_eq
      rcases exists_of_bind_eq_ok found_eq with ⟨reference, _, found_eq⟩
      cases found_eq
      simp
  | .edgeStmt endpoints _, directed, found, found_eq => by
      rw [rows] at found_eq
      rcases exists_of_bind_eq_ok found_eq with ⟨parts, _, found_eq⟩
      cases found_eq
      simp
  | .attrStmt _ _, _, found, found_eq => by
      cases found_eq
      simp
  | .nodeId node, _, found, found_eq => by
      cases found_eq
      simp [nodeIdText, Token.ofText_ne_empty]
  | .attr _, _, found, found_eq => by
      cases found_eq
      simp
  | .unknown .., _, found, found_eq => by
      cases found_eq
      simp
  | .raw _, _, found, found_eq => by
      cases found_eq
      simp
  | .list items, directed, found, found_eq =>
      text_ne_empty_of_rowsOfItems items directed found_eq
termination_by structural tree => tree

theorem text_ne_empty_of_rowsOfItems : ∀ (trees : List Tree) (directed : Bool)
    {found : List Row}, rowsOfItems directed trees = .ok found → ∀ row ∈ found, row.text ≠ ""
  | [], _, found, found_eq => by
      cases found_eq
      simp
  | tree :: rest, directed, found, found_eq => by
      rw [rowsOfItems] at found_eq
      rcases exists_of_bind_eq_ok found_eq with ⟨first, first_eq, found_eq⟩
      rcases exists_of_bind_eq_ok found_eq with ⟨others, others_eq, found_eq⟩
      cases found_eq
      intro row row_mem
      rcases List.mem_append.mp row_mem with here | later
      · exact text_ne_empty_of_rows tree directed first_eq row here
      · exact text_ne_empty_of_rowsOfItems rest directed others_eq row later
termination_by structural trees => trees

end

theorem intercalate_ne_empty {separator first : String} (filled : first ≠ "")
    (rest : List String) : separator.intercalate (first :: rest) ≠ "" := by
  cases rest with
  | nil => rwa [String.intercalate_singleton]
  | cons second rest => simp [String.intercalate_cons_cons, filled]

/-- A block with something in it has the same text on one line as on several, with blanks in the
place of the line breaks. -/
theorem inlineBlock_eq_blockRows {body : List Row} (filled : body ≠ [])
    (texts : ∀ row ∈ body, row.text ≠ "") (head : String) :
    inlineBlock head (body.map Row.text) =
      " ".intercalate ((blockRows head body).map Row.text) := by
  have listed : body.map Row.text ≠ [] := by simpa using filled
  have isFilled : (" ".intercalate (body.map Row.text)).isEmpty = false := by
    rcases body with _ | ⟨first, rest⟩
    · exact absurd rfl filled
    · exact String.isEmpty_eq_false_iff.mpr
        (intercalate_ne_empty (texts first List.mem_cons_self) _)
  have texts_eq : (blockRows head body).map Row.text =
      (head ++ " \x7b") :: (body.map Row.text ++ ["\x7d"]) := by
    simp [blockRows, Row.inner, Function.comp_def]
  have opening : " \x7b" ++ " " = " \x7b " := rfl
  have closing : " " ++ "\x7d" = " \x7d" := rfl
  rw [inlineBlock, isFilled, if_neg Bool.false_ne_true, texts_eq,
    String.intercalate_cons_of_ne_nil (by simp),
    String.intercalate_append_of_ne_nil listed (by simp), String.intercalate_singleton]
  simp only [String.append_assoc, ← opening, ← closing]

/-- At the end of an edge a subgraph with something in it is written like its block, but on one line
and without indentation. -/
theorem endpointText_eq_rows {directed : Bool} {children : List Tree} {body : List Row}
    (body_eq : rowsOfItems directed children = .ok body) (filled : body ≠ [])
    (id : Option String) :
    rows directed (.subgraph id children) = .ok (blockRows (headText "subgraph" id) body) ∧
      endpointText directed (.subgraph id children) =
        .ok (" ".intercalate ((blockRows (headText "subgraph" id) body).map Row.text)) := by
  have inside := linesOfItems_eq_rows "" children 0 directed
  have unindented : Row.line "" 0 = Row.text := funext Row.line_unindented
  rw [Int.natCast_zero, body_eq, unindented] at inside
  constructor
  · rw [rows, body_eq]
    rfl
  · rw [endpointText, inside, ← inlineBlock_eq_blockRows filled
      (text_ne_empty_of_rowsOfItems children directed body_eq)]
    rfl

/-- A tree can be written exactly if its node statements are about node references and its edges run
between node references and subgraphs. Its lines are its rows behind their indentation, so moving it
inwards puts the same indentation before each line. A subgraph with something in it is written at
the end of an edge as its rows are, on one line. -/
theorem lines_layout (directed : Bool) (tree : Tree) :
    ((∃ found, rows directed tree = .ok found) ↔ tree.isWritable = true) ∧
      (∀ (indent : String) (level : Nat),
        lines indent level directed tree =
            (rows directed tree).map (List.map (Row.line indent level)) ∧
          lines indent level directed tree =
            (lines indent 0 directed tree).map (List.map (indentation indent level ++ ·))) ∧
      ∀ id children body, tree = .subgraph id children →
        rowsOfItems directed children = .ok body → body ≠ [] →
        ∃ found, rows directed tree = .ok found ∧
          endpointText directed tree = .ok (" ".intercalate (found.map Row.text)) := by
  refine ⟨?writable, ?indented, ?inline⟩
  case writable => rw [← isOk_iff_exists, isOk_rows]
  case indented =>
    intro indent level
    exact ⟨lines_eq_rows indent tree level directed, lines_indented indent level directed tree⟩
  case inline =>
    rintro id children body rfl body_eq filled
    exact ⟨_, endpointText_eq_rows body_eq filled id⟩

/-- A subgraph at the end of an edge with another such edge and an empty block in it. -/
theorem lines_layout_of_nested_endpoint :
    let inner := Tree.subgraph none [.nodeStmt (.nodeId { id := "y" }) []]
    let children := [Tree.nodeStmt (.nodeId { id := "x" }) [],
      .edgeStmt [inner, .nodeId { id := "z" }] [], .subgraph (some "s") []]
    let tree := Tree.subgraph (some "c") children
    let body : List Row := [⟨0, "x;"⟩, ⟨0, "subgraph \x7b y; \x7d -- z;"⟩, ⟨0, "subgraph s \x7b"⟩,
      ⟨0, "\x7d"⟩]
    rowsOfItems false children = .ok body ∧ body ≠ [] ∧
      endpointText false tree =
        .ok "subgraph c \x7b x; subgraph \x7b y; \x7d -- z; subgraph s \x7b \x7d \x7d" ∧
      lines "\t" 1 false tree = .ok ["\tsubgraph c \x7b", "\t\tx;",
        "\t\tsubgraph \x7b y; \x7d -- z;", "\t\tsubgraph s \x7b", "\t\t\x7d", "\t\x7d"] := by
  intro inner children tree body
  have body_eq : rowsOfItems false children = .ok body := rfl
  have filled : body ≠ [] := List.cons_ne_nil _ _
  have found_eq : rows false tree = .ok (blockRows "subgraph c" body) := rfl
  obtain ⟨_, indented, inline⟩ := lines_layout false tree
  obtain ⟨found, rows_eq, text_eq⟩ := inline (some "c") children body rfl body_eq filled
  obtain rfl := Except.ok.inj (found_eq.symm.trans rows_eq)
  refine ⟨body_eq, filled, text_eq, ?_⟩
  have moved := (indented "\t" 1).1
  rw [found_eq] at moved
  exact moved

end Tree

end DotLang
