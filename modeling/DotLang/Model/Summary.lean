import DotLang.Model

/-!
# Summary of a model

A model as plain data that JSON can hold: nodes and subgraphs by key, and edges
in the order of the index.
-/

namespace DotLang

mutual

/-- The plain form of an attribute value. Markup becomes an object, and values that JSON has no
form for become their texts. -/
def Value.plain : Value → Value
  | .markup content =>
      .object [("type", .text "id"), ("value", .text content), ("html", .bool true)]
  | .list items => .list (Value.plainItems items)
  | .object fields => .text (Value.object fields).display
  | .edgePos position => .text position.toText
  | value => value

/-- The plain forms of the items of a list. -/
def Value.plainItems : List Value → List Value
  | [] => []
  | item :: rest => item.plain :: Value.plainItems rest

end

/-- Attributes as an object. -/
def Attributes.summary (attrs : Attributes) : Value :=
  .object (attrs.entries.map fun (name, value) => (name, value.plain))

/-- A text if there is one. -/
def Value.ofOption (text : Option String) : Value :=
  match text with
  | some text => .text text
  | none => .null

/-- Several texts as a list. -/
def Value.ofTexts (texts : List String) : Value :=
  .list (texts.map .text)

/-- An edge as an object. -/
def Edge.summary (edge : Edge) : Value :=
  .object [("tail", .text edge.tail), ("head", .text edge.head), ("attrs", edge.attrs.summary)]

/-- A subgraph as an object. -/
def Subgraph.summary (subgraph : Subgraph) : Value :=
  .object [
    ("id", .ofOption subgraph.id),
    ("type", .text subgraph.kind),
    ("parent", .ofOption subgraph.parent),
    ("attrs", subgraph.attrs.summary),
    ("nodes", .ofTexts subgraph.nodes),
    ("children", .ofTexts subgraph.children)]

/-- A model as an object. -/
def Model.summary (model : Model) : Value :=
  .object [
    ("id", .ofOption model.id),
    ("type", .text model.kind),
    ("strict", .bool model.isStrict),
    ("nodes", .object (model.nodes.entries.map fun (id, node) => (id, node.attrs.summary))),
    ("edges", .list (model.edgeList.map Edge.summary)),
    ("graphs", .object (model.graphs.entries.map fun (key, subgraph) => (key, subgraph.summary))),
    ("diagnostics", .ofTexts model.diagnostics)]

end DotLang
