import DotLang.Tree

/-!
# The tagged form of trees

A grammar parser hands over a tree as plain data: lists, and objects that
carry the kind of statement under the key `type`. `Tree.ofValue` reads this
form and `Tree.toValue` produces it.

Reading has two modes. Strict reading stops at the first part that is malformed.
Lenient reading never fails: the smallest statement around a malformed part
becomes an `unknown` statement that remembers its data and the reason.
-/

namespace DotLang

/-- What is wrong with a part of a tagged form, or with a tree that should get one. -/
inductive Fault where
  /-- A statement is not an object. -/
  | untagged (typeName : String)
  /-- The tag of an object names no kind of statement. -/
  | unknownKind (kind : Value)
  /-- An object with the given tag lacks a key, or has no value under it. -/
  | missing (kind : Value) (key : String)
  /-- The children of a graph are no list. -/
  | childrenNotList
  /-- The endpoints of an edge statement are no list. -/
  | endpointsNotList
  /-- The attributes of a statement are no list. -/
  | attrsNotList
  /-- An item of an attribute list is no object or has no name. -/
  | attrWithoutId
  /-- A node reference is neither an object nor a scalar. -/
  | nodeNotObject
  /-- Default attributes are set for something that has none. -/
  | unsupportedTarget (target : Value)
  /-- A foreign value stands in a tree. -/
  | noTaggedForm (typeName : String)

/-- The wording of a fault. -/
def Fault.message : Fault → String
  | .untagged typeName => "expected a tagged mapping, got " ++ typeName
  | .unknownKind kind => "unrecognized node type: " ++ kind.literal
  | .missing kind key => kind.display ++ " is missing " ++ Text.literal key
  | .childrenNotList => "children must be a list"
  | .endpointsNotList => "edge_list must be a list"
  | .attrsNotList => "attr_list must be a list"
  | .attrWithoutId => "attr entry needs an 'id'"
  | .nodeNotObject => "node_id must be a mapping"
  | .unsupportedTarget target => "unsupported attr_stmt target: " ++ target.literal
  | .noTaggedForm typeName => "cannot convert " ++ typeName ++ " to a dict"

/-- A fault and the part that has it. -/
structure Malformed where
  fault : Fault
  culprit : Tree

/-- The wording of the fault. -/
def Malformed.message (malformed : Malformed) : String :=
  malformed.fault.message

namespace Tree

/-- The malformed part is a piece of tagged form. -/
def malformedValue {α : Type} (fault : Fault) (culprit : Value) : Except Malformed α :=
  .error ⟨fault, .raw culprit⟩

/-- The value under a key that must have one. -/
def require (fields : List (String × Value)) (key : String) : Except Malformed Value :=
  match Value.field fields key with
  | .null => malformedValue (.missing (Value.field fields "type") key) (.object fields)
  | value => .ok value

/-- The text of a value, if there is a value. -/
def optionalText : Value → Option String
  | .null => none
  | value => some value.display

/-- Reads a node reference: a name, or an object with name, port and compass point. -/
def nodeIdOfValue : Value → Except Malformed NodeId
  | .text content => .ok { id := content }
  | .bool truth => .ok { id := (Value.bool truth).display }
  | .int number => .ok { id := (Value.int number).display }
  | .float number => .ok { id := (Value.float number).display }
  | .object fields => do
      let id ← require fields "id"
      match Value.field fields "port" with
      | .object port =>
          return {
            id := id.display
            port := optionalText (Value.field port "id")
            compass := optionalText (Value.field port "compass") }
      | port => return { id := id.display, port := optionalText port }
  | value => malformedValue .nodeNotObject value

/-- The value of an attribute; an object stands for the value or the markup inside it. -/
def attrValueOfValue : Value → Value
  | .object fields =>
      let inner := Value.field fields "value"
      if (Value.field fields "html").isTruthy then .markup ((optionalText inner).getD "") else inner
  | value => value

/-- Reads an item of an attribute list. -/
def attrOfValue : Value → Except Malformed Attr
  | .object fields =>
      match fields.lookup "id" with
      | some id => .ok ⟨id.display, attrValueOfValue (Value.field fields "eq")⟩
      | none => malformedValue .attrWithoutId (.object fields)
  | value => malformedValue .attrWithoutId value

/-- Reads an attribute list; it may be left out. -/
def attrsOfValue : Value → Except Malformed (List Attr)
  | .null => .ok []
  | .list items => items.mapM attrOfValue
  | value => malformedValue .attrsNotList value

/-- A statement about a node. -/
def nodeStmtOfFields (fields : List (String × Value)) : Except Malformed Tree := do
  let node ← nodeIdOfValue (← require fields "node_id")
  let attrs ← attrsOfValue (Value.field fields "attr_list")
  return .nodeStmt (.nodeId node) attrs

/-- Default attributes for one of the supported targets. -/
def attrStmtOfFields (fields : List (String × Value)) : Except Malformed Tree := do
  let target ← require fields "target"
  match target with
  | .text name =>
      if name ∈ attrTargets then
        return .attrStmt name (← attrsOfValue (Value.field fields "attr_list"))
      else malformedValue (.unsupportedTarget target) (.object fields)
  | _ => malformedValue (.unsupportedTarget target) (.object fields)

/-- In lenient reading a malformed statement becomes an unknown one. -/
def orUnknown (isStrict : Bool) (data kind : Value) (statement : Except Malformed Tree) :
    Except Malformed Tree :=
  match statement with
  | .ok tree => .ok tree
  | .error malformed =>
      if isStrict then .error malformed else .ok (.unknown kind data malformed.message)

mutual

/-- Reads the tagged form of a statement or of a list of statements. -/
def ofValue (isStrict : Bool) : Value → Except Malformed Tree
  | .list items => do return .list (← ofItems isStrict items)
  | .object fields =>
      let kind := Value.field fields "type"
      orUnknown isStrict (.object fields) kind <|
        match kind with
        | .text tag =>
            if tag ∈ graphKinds then do
              let children ← childrenOfFields isStrict fields fields
              return .graph tag (optionalText (Value.field fields "id"))
                (Value.field fields "strict").isTruthy children
            else if tag = "subgraph" then do
              let children ← childrenOfFields isStrict fields fields
              return .subgraph (optionalText (Value.field fields "id")) children
            else if tag = "node_stmt" then nodeStmtOfFields fields
            else if tag = "edge_stmt" then do
              let endpoints ← endpointsOfFields isStrict fields fields
              return .edgeStmt endpoints (← attrsOfValue (Value.field fields "attr_list"))
            else if tag = "attr_stmt" then attrStmtOfFields fields
            else if tag = "node_id" then do
              return .nodeStmt (.nodeId (← nodeIdOfValue (.object fields))) []
            else malformedValue (.unknownKind kind) (.object fields)
        | _ => malformedValue (.unknownKind kind) (.object fields)
  | value =>
      orUnknown isStrict value .null (malformedValue (.untagged value.typeName) value)
termination_by structural value => value

/-- Reads a list of statements. -/
def ofItems (isStrict : Bool) : List Value → Except Malformed (List Tree)
  | [] => .ok []
  | item :: rest => do
      let tree ← ofValue isStrict item
      return tree :: (← ofItems isStrict rest)
termination_by structural items => items

/-- Looks for the children among the fields of the object `whole` and reads them. -/
def childrenOfFields (isStrict : Bool) (whole : List (String × Value)) :
    List (String × Value) → Except Malformed (List Tree)
  | [] => .ok []
  | (key, value) :: rest =>
      if key = "children" then childrenOfValue isStrict whole value
      else childrenOfFields isStrict whole rest
termination_by structural fields => fields

/-- Reads the children of the object `whole`; nothing and anything empty is no children. -/
def childrenOfValue (isStrict : Bool) (whole : List (String × Value)) :
    Value → Except Malformed (List Tree)
  | .list items => ofItems isStrict items
  | value => if value.isTruthy then malformedValue .childrenNotList (.object whole) else .ok []
termination_by structural value => value

/-- Looks for the endpoints among the fields of the object `whole` and reads them. -/
def endpointsOfFields (isStrict : Bool) (whole : List (String × Value)) :
    List (String × Value) → Except Malformed (List Tree)
  | [] => malformedValue (.missing (Value.field whole "type") "edge_list") (.object whole)
  | (key, value) :: rest =>
      if key = "edge_list" then endpointsOfValue isStrict whole value
      else endpointsOfFields isStrict whole rest
termination_by structural fields => fields

/-- Reads the endpoints of the edge statement `whole`. -/
def endpointsOfValue (isStrict : Bool) (whole : List (String × Value)) :
    Value → Except Malformed (List Tree)
  | .list items => endpointsOfItems isStrict items
  | .null => malformedValue (.missing (Value.field whole "type") "edge_list") (.object whole)
  | _ => malformedValue .endpointsNotList (.object whole)
termination_by structural value => value

/-- Reads a list of endpoints. -/
def endpointsOfItems (isStrict : Bool) : List Value → Except Malformed (List Tree)
  | [] => .ok []
  | item :: rest => do
      let endpoint ← endpointOfValue isStrict item
      return endpoint :: (← endpointsOfItems isStrict rest)
termination_by structural items => items

/-- Reads an endpoint: a subgraph or a node reference. -/
def endpointOfValue (isStrict : Bool) : Value → Except Malformed Tree
  | .object fields =>
      match Value.field fields "type" with
      | .text "subgraph" => do
          let children ← childrenOfFields isStrict fields fields
          return .subgraph (optionalText (Value.field fields "id")) children
      | _ => do return .nodeId (← nodeIdOfValue (.object fields))
  | value => do return .nodeId (← nodeIdOfValue value)
termination_by structural value => value

end

mutual

/-- Reads the foreign values in a tree of lists as tagged forms; a tree that is already typed is
no tagged form. -/
def interpret (isStrict : Bool) : Tree → Except Malformed Tree
  | .list items => do return .list (← interpretItems isStrict items)
  | .raw value => ofValue isStrict value
  | tree => orUnknown isStrict .null .null (.error ⟨.untagged tree.typeName, tree⟩)

/-- Reads the foreign values in a list of trees as tagged forms. -/
def interpretItems (isStrict : Bool) : List Tree → Except Malformed (List Tree)
  | [] => .ok []
  | item :: rest => do
      let tree ← interpret isStrict item
      return tree :: (← interpretItems isStrict rest)

end

/-- Whether a tree is a foreign object. -/
def isObject : Tree → Bool
  | .raw (.object _) => true
  | _ => false

/-- Whether a tree is an object or a list with an object among its items. -/
def isTaggedForm : Tree → Bool
  | .list items => items.any isObject
  | tree => tree.isObject

/-- The tagged form of a node reference; a compass point is kept with a port only. -/
def nodeIdToValue (node : NodeId) : Value :=
  let port :=
    match node.port, node.compass with
    | none, _ => []
    | some port, none => [("port", .object [("type", .text "port"), ("id", .text port)])]
    | some port, some compass =>
        [("port", .object [("type", .text "port"), ("id", .text port), ("compass", .text compass)])]
  .object ([("type", .text "node_id"), ("id", .text node.id)] ++ port)

/-- The tagged form of an attribute's value. -/
def attrValueToValue : Value → Value
  | .markup content =>
      .object [("type", .text "id"), ("value", .text content), ("html", .bool true)]
  | value => value

/-- The tagged form of an attribute. -/
def attrToValue (entry : Attr) : Value :=
  .object [("type", .text "attr"), ("id", .text entry.id), ("eq", attrValueToValue entry.value)]

/-- The tagged form of an attribute list. -/
def attrsToValue (attrs : List Attr) : Value :=
  .list (attrs.map attrToValue)

/-- The field for a declared id. -/
def idField (id : Option String) : List (String × Value) :=
  match id with
  | some id => [("id", .text id)]
  | none => []

mutual

/-- The tagged form of a tree. An unknown statement gives back its data. -/
def toValue : Tree → Except Malformed Value
  | .graph kind id isStrict children => do
      let children ← toValues children
      let strictField := if isStrict then [("strict", .bool true)] else []
      return .object
        ([("type", .text kind), ("children", .list children)] ++ idField id ++ strictField)
  | .subgraph id children => do
      let children ← toValues children
      return .object ([("type", .text "subgraph"), ("children", .list children)] ++ idField id)
  | .nodeStmt subject attrs => do
      let subject ← toValue subject
      return .object [("type", .text "node_stmt"), ("node_id", subject),
        ("attr_list", attrsToValue attrs)]
  | .edgeStmt endpoints attrs => do
      let endpoints ← toValues endpoints
      return .object [("type", .text "edge_stmt"), ("edge_list", .list endpoints),
        ("attr_list", attrsToValue attrs)]
  | .attrStmt target attrs =>
      .ok (.object [("type", .text "attr_stmt"), ("target", .text target),
        ("attr_list", attrsToValue attrs)])
  | .nodeId node => .ok (nodeIdToValue node)
  | .attr entry => .ok (attrToValue entry)
  | .unknown _ data _ => .ok data
  | .raw value => .error ⟨.noTaggedForm value.typeName, .raw value⟩
  | .list items => do return .list (← toValues items)

/-- The tagged forms of a list of trees. -/
def toValues : List Tree → Except Malformed (List Value)
  | [] => .ok []
  | tree :: rest => do
      let value ← toValue tree
      return value :: (← toValues rest)

end

end Tree

end DotLang
