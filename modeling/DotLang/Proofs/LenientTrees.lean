import DotLang.Proofs.Leftover
import DotLang.Proofs.RestatedShape
import DotLang.Proofs.Walk.Completion

/-!
# What lenient reading produces can be used

A tree can be handed to four consumers that may fail on it: it gets a tagged form,
it is written as text, it is walked, and what the walk leaves is regenerated and
written again. A tree that is made of statements with node references and subgraphs
for endpoints goes through all of them, whatever stands in its unknown statements.
Lenient reading produces nothing else (`usable_of_lenient_read`).
-/

namespace DotLang

namespace Tree

variable {admits : Value → Value → String → Prop}

/-! ### Text -/

mutual

/-- A proper tree has a text at every level. -/
theorem lines_of_proper (indent : String) : ∀ (tree : Tree) (level : Int) (directed : Bool),
    tree.IsProper admits → ∃ lines, tree.lines indent level directed = .ok lines
  | .graph kind id isStrict children, level, directed, proper => by
      rcases linesOfItems_of_proper indent children (level + 1) (kind == "digraph") proper.2
        with ⟨body, body_eq⟩
      exact ⟨_, by rw [lines, body_eq]; rfl⟩
  | .subgraph id children, level, directed, proper => by
      rcases linesOfItems_of_proper indent children (level + 1) directed proper with ⟨body, body_eq⟩
      exact ⟨_, by rw [lines, body_eq]; rfl⟩
  | .nodeStmt subject attrs, level, directed, proper => by
      rcases nodeId_of_proper proper with ⟨⟨node, rfl⟩, _⟩
      exact ⟨_, rfl⟩
  | .edgeStmt endpoints attrs, level, directed, proper => by
      rcases endpointTexts_of_proper endpoints directed proper.1 with ⟨parts, parts_eq⟩
      exact ⟨_, by rw [lines, parts_eq]; rfl⟩
  | .attrStmt target attrs, level, directed, proper => ⟨_, rfl⟩
  | .unknown kind data reason, level, directed, proper => ⟨[], rfl⟩
  | .list items, level, directed, proper => by
      rw [lines]
      exact linesOfItems_of_proper indent items level directed proper
  | .nodeId _, _, _, proper => proper.elim
  | .attr _, _, _, proper => proper.elim
  | .raw _, _, _, proper => proper.elim
termination_by structural tree => tree

theorem linesOfItems_of_proper (indent : String) : ∀ (trees : List Tree) (level : Int)
    (directed : Bool), AllProper admits trees →
    ∃ lines, linesOfItems indent level directed trees = .ok lines
  | [], _, _, _ => ⟨[], rfl⟩
  | tree :: rest, level, directed, proper => by
      rcases lines_of_proper indent tree level directed proper.1 with ⟨first, first_eq⟩
      rcases linesOfItems_of_proper indent rest level directed proper.2 with ⟨others, others_eq⟩
      exact ⟨first ++ others, by rw [linesOfItems, first_eq, others_eq]; rfl⟩
termination_by structural trees => trees

theorem endpointText_of_proper : ∀ (tree : Tree) (directed : Bool),
    tree.IsProperEndpoint admits → ∃ text, endpointText directed tree = .ok text
  | .subgraph id children, directed, proper => by
      rcases linesOfItems_of_proper "" children 0 directed proper with ⟨body, body_eq⟩
      exact ⟨_, by rw [endpointText, body_eq]; rfl⟩
  | .nodeId node, _, _ => ⟨_, rfl⟩
  | .graph .., _, proper => proper.elim
  | .nodeStmt .., _, proper => proper.elim
  | .edgeStmt .., _, proper => proper.elim
  | .attrStmt .., _, proper => proper.elim
  | .attr _, _, proper => proper.elim
  | .unknown .., _, proper => proper.elim
  | .raw _, _, proper => proper.elim
  | .list _, _, proper => proper.elim
termination_by structural tree => tree

theorem endpointTexts_of_proper : ∀ (trees : List Tree) (directed : Bool),
    AllProperEndpoints admits trees → ∃ texts, endpointTexts directed trees = .ok texts
  | [], _, _ => ⟨[], rfl⟩
  | tree :: rest, directed, proper => by
      rcases endpointText_of_proper tree directed proper.1 with ⟨first, first_eq⟩
      rcases endpointTexts_of_proper rest directed proper.2 with ⟨others, others_eq⟩
      exact ⟨first :: others, by rw [endpointTexts, first_eq, others_eq]; rfl⟩
termination_by structural trees => trees

end

/-! ### Names of nodes -/

mutual

/-- The node statements of a proper tree name their nodes, also those inside endpoints. -/
theorem namesNodes_of_proper : ∀ tree : Tree, tree.IsProper admits → tree.namesNodes = true
  | .graph _ _ _ children, proper => allNameNodes_of_proper children proper.2
  | .subgraph _ children, proper => allNameNodes_of_proper children proper
  | .nodeStmt subject attrs, proper => by
      rcases nodeId_of_proper proper with ⟨⟨node, rfl⟩, _⟩
      rfl
  | .edgeStmt endpoints _, proper => allNameNodes_of_properEndpoints endpoints proper.1
  | .attrStmt .., _ => rfl
  | .unknown .., _ => rfl
  | .list items, proper => allNameNodes_of_proper items proper
  | .nodeId _, _ => rfl
  | .attr _, _ => rfl
  | .raw _, _ => rfl
termination_by structural tree => tree

theorem allNameNodes_of_proper : ∀ trees : List Tree, AllProper admits trees →
    allNameNodes trees = true
  | [], _ => rfl
  | tree :: rest, proper => by
      rw [allNameNodes, namesNodes_of_proper tree proper.1, allNameNodes_of_proper rest proper.2,
        Bool.and_self]
termination_by structural trees => trees

theorem namesNodes_of_properEndpoint : ∀ tree : Tree, tree.IsProperEndpoint admits →
    tree.namesNodes = true
  | .subgraph _ children, proper => allNameNodes_of_proper children proper
  | .nodeId _, _ => rfl
  | .graph .., proper => proper.elim
  | .nodeStmt .., proper => proper.elim
  | .edgeStmt .., proper => proper.elim
  | .attrStmt .., _ => rfl
  | .attr _, _ => rfl
  | .unknown .., _ => rfl
  | .raw _, _ => rfl
  | .list _, proper => proper.elim
termination_by structural tree => tree

theorem allNameNodes_of_properEndpoints : ∀ trees : List Tree, AllProperEndpoints admits trees →
    allNameNodes trees = true
  | [], _ => rfl
  | tree :: rest, proper => by
      rw [allNameNodes, namesNodes_of_properEndpoint tree proper.1,
        allNameNodes_of_properEndpoints rest proper.2, Bool.and_self]
termination_by structural trees => trees

end

/-- Whatever is read leniently, the tree has a tagged form and a text, a lenient walk goes through
it, and the tree that is regenerated from the walk has a text as well. -/
theorem usable_of_lenient_read {value : Value} (distinct : value.hasDistinctKeys = true) :
    ∃ tree, ofValue false value = .ok tree ∧ (∃ form, tree.toValue = .ok form) ∧
      (∀ indent level directed, ∃ text, tree.toText indent level directed = .ok text) ∧
      ∀ options : WalkOptions, options.isStrict = false →
        (Model.walk options .plain tree ∅).failure = none ∧
        ∃ regenerated,
          (Model.walk options .plain tree ∅).model.toTree Geometry.plain.encode =
            .ok regenerated ∧
          ∀ indent level directed, ∃ text, regenerated.toText indent level directed = .ok text := by
  rcases ofValue_lenient value with ⟨tree, read⟩
  have proper := ofValue_proper value distinct read
  refine ⟨tree, read, ?form, ?text, ?walk⟩
  case form =>
    rcases ofValue_toValue (fun _ _ _ left => left.read) tree proper with ⟨form, form_eq, _⟩
    exact ⟨form, form_eq⟩
  case text =>
    intro indent level directed
    rcases lines_of_proper indent tree level directed proper with ⟨lines, lines_eq⟩
    exact ⟨_, by rw [toText, lines_eq]; rfl⟩
  case walk =>
    intro options lenient
    have completes := Model.walkPlain_completes lenient (namesNodes_of_proper tree proper) ∅
    have regenerated := (Model.walk options .plain tree ∅).model.toTree_plain
    exact ⟨completes, _, regenerated, Model.exists_text_of_toTree regenerated⟩

/-- An edge from a number to a subgraph with junk inside, and junk beside it. -/
theorem usable_of_lenient_read_of_junk :
    let inner := Value.object [("type", .text "subgraph"),
      ("children", .list [.text "x", .list [.null]])]
    let label := Value.object [("id", .null), ("eq", .object [("html", .int 1)])]
    let value := Value.list [.bool true, .object [("type", .text "edge_stmt"),
      ("edge_list", .list [.int 5, inner]), ("attr_list", .list [label])]]
    let junk (data : Value) := Tree.unknown .null data ("expected a tagged mapping, got " ++
      data.typeName)
    let tree := Tree.list [junk (.bool true), .edgeStmt [.nodeId { id := "5" },
      .subgraph none [junk (.text "x"), .list [junk .null]]] [⟨"None", .markup ""⟩]]
    value.hasDistinctKeys = true ∧ ofValue false value = .ok tree ∧
      (∃ form, tree.toValue = .ok form) ∧ (∃ text, tree.toText "\t" (-1) false = .ok text) ∧
      ∃ regenerated,
        (Model.walk {} .plain tree ∅).model.toTree Geometry.plain.encode = .ok regenerated ∧
        ∃ text, regenerated.toText "" 2 true = .ok text := by
  intro inner label value junk tree
  have distinct : value.hasDistinctKeys = true := by decide
  rcases usable_of_lenient_read distinct with ⟨read, read_eq, form, text, walk⟩
  have tree_eq : ofValue false value = .ok tree := rfl
  cases tree_eq.symm.trans read_eq
  rcases walk {} rfl with ⟨_, regenerated, regenerated_eq, regeneratedText⟩
  exact ⟨distinct, tree_eq, form, text "\t" (-1) false, regenerated, regenerated_eq,
    regeneratedText "" 2 true⟩

end Tree

end DotLang
