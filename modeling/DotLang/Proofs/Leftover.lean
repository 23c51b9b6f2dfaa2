import DotLang.Proofs.Rereading
import DotLang.Proofs.Results

/-!
# What lenient reading leaves over

Lenient reading makes proper trees out of anything (`ofValue_proper`). The parts
that it does not understand are left over as unknown statements, and strict reading
fails where there are any (`strict_read_iff`). Each of them remembers data that is
read as that statement again (`IsLeftover`). So the tree that reading produces comes
back from its tagged form up to what gets lost in any tree (`read_reread_iff`).
-/

namespace DotLang

namespace Tree

variable {admits : Value → Value → String → Prop}

/-- An unknown statement as lenient reading leaves it: its data is read as the statement itself. -/
structure IsLeftover (kind data : Value) (reason : String) : Prop where
  kind_distinct : kind.hasDistinctKeys = true
  data_distinct : data.hasDistinctKeys = true
  read : ofValue false data = .ok (.unknown kind data reason)

theorem field_hasDistinctKeys {fields : List (String × Value)}
    (distinct : (Value.object fields).hasDistinctKeys = true) (key : String) :
    (Value.field fields key).hasDistinctKeys = true := by
  rw [Value.field]
  cases found : fields.lookup key with
  | none => rfl
  | some value => exact (Value.hasDistinctKeys_object.mp distinct).2 _ (Value.mem_of_lookup found)

theorem attrValueOfValue_distinct {value : Value} (distinct : value.hasDistinctKeys = true) :
    (attrValueOfValue value).hasDistinctKeys = true := by
  cases value with
  | object fields =>
      simp only [attrValueOfValue]
      split
      · rfl
      · exact field_hasDistinctKeys distinct "value"
  | _ => exact distinct

theorem attrOfValue_distinct {value : Value} {entry : Attr}
    (distinct : value.hasDistinctKeys = true) (read : attrOfValue value = .ok entry) :
    entry.value.hasDistinctKeys = true := by
  cases value with
  | object fields =>
      simp only [attrOfValue] at read
      split at read
      · cases read
        exact attrValueOfValue_distinct (field_hasDistinctKeys distinct "eq")
      · cases read
  | _ => cases read

theorem attrsOfValue_distinct {value : Value} {attrs : List Attr}
    (distinct : value.hasDistinctKeys = true) (read : attrsOfValue value = .ok attrs) :
    HaveDistinctKeys attrs := by
  cases value with
  | null =>
      cases read
      exact List.forall_mem_nil _
  | list items =>
      rw [Value.hasDistinctKeys, Value.allHaveDistinctKeys_iff] at distinct
      rw [attrsOfValue] at read
      induction items generalizing attrs with
      | nil =>
          cases read
          exact List.forall_mem_nil _
      | cons item rest ih =>
          rw [List.mapM_cons] at read
          rcases exists_of_bind_eq_ok read with ⟨entry, entry_eq, read⟩
          rcases exists_of_bind_eq_ok read with ⟨entries, entries_eq, read⟩
          cases read
          rw [List.forall_mem_cons] at distinct
          exact List.forall_mem_cons.mpr
            ⟨attrOfValue_distinct distinct.1 entry_eq, ih distinct.2 entries_eq⟩
  | _ => cases read

theorem nodeStmtOfFields_proper {fields : List (String × Value)} {tree : Tree}
    (distinct : (Value.object fields).hasDistinctKeys = true)
    (read : nodeStmtOfFields fields = .ok tree) : tree.IsProper admits := by
  rcases exists_of_bind_eq_ok read with ⟨required, _, read⟩
  rcases exists_of_bind_eq_ok read with ⟨node, _, read⟩
  rcases exists_of_bind_eq_ok read with ⟨attrs, attrs_eq, read⟩
  cases read
  exact attrsOfValue_distinct (field_hasDistinctKeys distinct "attr_list") attrs_eq

theorem attrStmtOfFields_proper {fields : List (String × Value)} {tree : Tree}
    (distinct : (Value.object fields).hasDistinctKeys = true)
    (read : attrStmtOfFields fields = .ok tree) : tree.IsProper admits := by
  rcases exists_of_bind_eq_ok read with ⟨target, _, read⟩
  cases target with
  | text name =>
      dsimp only at read
      split at read
      · next isTarget =>
          rcases exists_of_bind_eq_ok read with ⟨attrs, attrs_eq, read⟩
          cases read
          exact ⟨isTarget,
            attrsOfValue_distinct (field_hasDistinctKeys distinct "attr_list") attrs_eq⟩
      · cases read
  | _ => cases read

theorem orUnknown_proper {data kind : Value} {statement : Except Malformed Tree} {tree : Tree}
    (kind_distinct : kind.hasDistinctKeys = true) (data_distinct : data.hasDistinctKeys = true)
    (form : ofValue false data = orUnknown false data kind statement)
    (proper : ∀ tree, statement = .ok tree → tree.IsProper IsLeftover)
    (read : ofValue false data = .ok tree) : tree.IsProper IsLeftover := by
  cases statement with
  | ok statement =>
      cases form.symm.trans read
      exact proper _ rfl
  | error malformed =>
      cases form.symm.trans read
      exact ⟨kind_distinct, data_distinct, read⟩

theorem untagged_proper {value : Value} {tree : Tree} (distinct : value.hasDistinctKeys = true)
    (form : ofValue false value =
      orUnknown false value .null (malformedValue (.untagged value.typeName) value))
    (read : ofValue false value = .ok tree) : tree.IsProper IsLeftover :=
  orUnknown_proper rfl distinct form (fun _ => nofun) read

theorem properEndpoint_of_nodeId {reading : Except Malformed NodeId} {tree : Tree}
    (read : (do return .nodeId (← reading)) = Except.ok tree) : tree.IsProperEndpoint admits := by
  rcases exists_of_map_eq_ok read with ⟨node, rfl⟩
  trivial

/-- What is no list stands for no children if it stands for any. -/
theorem childrenOfScalar_proper {whole : List (String × Value)} {value : Value}
    {trees : List Tree}
    (read : (if value.isTruthy then malformedValue .childrenNotList (.object whole) else .ok []) =
      Except.ok trees) : AllProper admits trees := by
  split at read <;> cases read
  trivial

mutual

theorem ofValue_proper : ∀ value : Value, value.hasDistinctKeys = true →
    ∀ {tree}, ofValue false value = .ok tree → tree.IsProper IsLeftover
  | .list items, distinct => by
      intro read
      rw [ofValue] at read
      rcases exists_of_bind_eq_ok read with ⟨trees, trees_eq, read⟩
      cases read
      exact ofItems_proper items distinct trees_eq
  | .object fields, distinct => by
      intro read
      refine orUnknown_proper (field_hasDistinctKeys distinct "type") distinct (by rw [ofValue])
        ?_ read
      have inside : Value.fieldsHaveDistinctKeys fields = true :=
        Value.fieldsHaveDistinctKeys_iff.mpr (Value.hasDistinctKeys_object.mp distinct).2
      intro tree read
      cases kind_eq : Value.field fields "type" with
      | text tag =>
          -- One case for each tag, in the order in which reading asks for them.
          rw [kind_eq] at read
          dsimp only at read
          split at read
          · next isGraph =>
              rcases exists_of_bind_eq_ok read with ⟨children, children_eq, read⟩
              cases read
              exact ⟨isGraph, childrenOfFields_proper fields fields inside children_eq⟩
          split at read
          · rcases exists_of_bind_eq_ok read with ⟨children, children_eq, read⟩
            cases read
            exact childrenOfFields_proper fields fields inside children_eq
          split at read
          · exact nodeStmtOfFields_proper distinct read
          split at read
          · rcases exists_of_bind_eq_ok read with ⟨endpoints, endpoints_eq, read⟩
            rcases exists_of_bind_eq_ok read with ⟨attrs, attrs_eq, read⟩
            cases read
            exact ⟨endpointsOfFields_proper fields fields inside endpoints_eq,
              attrsOfValue_distinct (field_hasDistinctKeys distinct "attr_list") attrs_eq⟩
          split at read
          · exact attrStmtOfFields_proper distinct read
          split at read
          · rcases exists_of_bind_eq_ok read with ⟨node, _, read⟩
            cases read
            exact fun _ => nofun
          · cases read
      | _ =>
          rw [kind_eq] at read
          cases read
  | .null, distinct => untagged_proper distinct rfl
  | .bool _, distinct => untagged_proper distinct rfl
  | .int _, distinct => untagged_proper distinct rfl
  | .float _, distinct => untagged_proper distinct rfl
  | .text _, distinct => untagged_proper distinct rfl
  | .markup _, distinct => untagged_proper distinct rfl
  | .edgePos _, distinct => untagged_proper distinct rfl
termination_by structural value => value

theorem ofItems_proper : ∀ items : List Value, Value.allHaveDistinctKeys items = true →
    ∀ {trees}, ofItems false items = .ok trees → AllProper IsLeftover trees
  | [], _ => by
      rintro ⟨⟩
      trivial
  | item :: rest, distinct => by
      intro read
      rw [Value.allHaveDistinctKeys, Bool.and_eq_true] at distinct
      rw [ofItems] at read
      rcases exists_of_bind_eq_ok read with ⟨tree, tree_eq, read⟩
      rcases exists_of_bind_eq_ok read with ⟨others, others_eq, read⟩
      cases read
      exact ⟨ofValue_proper item distinct.1 tree_eq, ofItems_proper rest distinct.2 others_eq⟩
termination_by structural items => items

theorem childrenOfFields_proper (whole : List (String × Value)) :
    ∀ fields : List (String × Value), Value.fieldsHaveDistinctKeys fields = true →
      ∀ {trees}, childrenOfFields false whole fields = .ok trees → AllProper IsLeftover trees
  | [], _ => by
      rintro ⟨⟩
      trivial
  | (key, value) :: rest, distinct => by
      intro read
      rw [Value.fieldsHaveDistinctKeys, Bool.and_eq_true] at distinct
      rw [childrenOfFields] at read
      split at read
      · exact childrenOfValue_proper whole value distinct.1 read
      · exact childrenOfFields_proper whole rest distinct.2 read
termination_by structural fields => fields

theorem childrenOfValue_proper (whole : List (String × Value)) :
    ∀ value : Value, value.hasDistinctKeys = true →
      ∀ {trees}, childrenOfValue false whole value = .ok trees → AllProper IsLeftover trees
  | .list items, distinct => ofItems_proper items distinct
  | .object _, _ => childrenOfScalar_proper
  | .null, _ => by
      rintro ⟨⟩
      trivial
  | .bool _, _ => childrenOfScalar_proper
  | .int _, _ => childrenOfScalar_proper
  | .float _, _ => childrenOfScalar_proper
  | .text _, _ => childrenOfScalar_proper
  | .markup _, _ => nofun
  | .edgePos _, _ => nofun
termination_by structural value => value

theorem endpointsOfFields_proper (whole : List (String × Value)) :
    ∀ fields : List (String × Value), Value.fieldsHaveDistinctKeys fields = true →
      ∀ {trees}, endpointsOfFields false whole fields = .ok trees →
        AllProperEndpoints IsLeftover trees
  | [], _ => nofun
  | (key, value) :: rest, distinct => by
      intro read
      rw [Value.fieldsHaveDistinctKeys, Bool.and_eq_true] at distinct
      rw [endpointsOfFields] at read
      split at read
      · exact endpointsOfValue_proper whole value distinct.1 read
      · exact endpointsOfFields_proper whole rest distinct.2 read
termination_by structural fields => fields

theorem endpointsOfValue_proper (whole : List (String × Value)) :
    ∀ value : Value, value.hasDistinctKeys = true →
      ∀ {trees}, endpointsOfValue false whole value = .ok trees →
        AllProperEndpoints IsLeftover trees
  | .list items, distinct => endpointsOfItems_proper items distinct
  | .object _, _ => nofun
  | .null, _ => nofun
  | .bool _, _ => nofun
  | .int _, _ => nofun
  | .float _, _ => nofun
  | .text _, _ => nofun
  | .markup _, _ => nofun
  | .edgePos _, _ => nofun
termination_by structural value => value

theorem endpointsOfItems_proper : ∀ items : List Value, Value.allHaveDistinctKeys items = true →
    ∀ {trees}, endpointsOfItems false items = .ok trees → AllProperEndpoints IsLeftover trees
  | [], _ => by
      rintro ⟨⟩
      trivial
  | item :: rest, distinct => by
      intro read
      rw [Value.allHaveDistinctKeys, Bool.and_eq_true] at distinct
      rw [endpointsOfItems] at read
      rcases exists_of_bind_eq_ok read with ⟨tree, tree_eq, read⟩
      rcases exists_of_bind_eq_ok read with ⟨others, others_eq, read⟩
      cases read
      exact ⟨endpointOfValue_proper item distinct.1 tree_eq,
        endpointsOfItems_proper rest distinct.2 others_eq⟩
termination_by structural items => items

theorem endpointOfValue_proper : ∀ value : Value, value.hasDistinctKeys = true →
    ∀ {tree}, endpointOfValue false value = .ok tree → tree.IsProperEndpoint IsLeftover
  | .object fields, distinct => by
      intro read
      have inside : Value.fieldsHaveDistinctKeys fields = true :=
        Value.fieldsHaveDistinctKeys_iff.mpr (Value.hasDistinctKeys_object.mp distinct).2
      rw [endpointOfValue] at read
      split at read
      · rcases exists_of_bind_eq_ok read with ⟨children, children_eq, read⟩
        cases read
        exact childrenOfFields_proper fields fields inside children_eq
      · exact properEndpoint_of_nodeId read
  | .list _, _ => properEndpoint_of_nodeId
  | .null, _ => properEndpoint_of_nodeId
  | .bool _, _ => properEndpoint_of_nodeId
  | .int _, _ => properEndpoint_of_nodeId
  | .float _, _ => properEndpoint_of_nodeId
  | .text _, _ => properEndpoint_of_nodeId
  | .markup _, _ => properEndpoint_of_nodeId
  | .edgePos _, _ => properEndpoint_of_nodeId
termination_by structural value => value

end

/-- Anything is read leniently to a proper tree. Strict reading fails exactly if something unknown
is left in that tree, at any depth, and it produces the same tree otherwise. -/
theorem strict_read_iff {value : Value} (distinct : value.hasDistinctKeys = true) :
    ∃ tree, ofValue false value = .ok tree ∧ tree.IsProper IsLeftover ∧
      ((∃ malformed, ofValue true value = .error malformed) ↔ tree.hasUnknown = true) ∧
      (tree.hasUnknown = false → ofValue true value = .ok tree) := by
  rcases ofValue_lenient value with ⟨tree, read⟩
  refine ⟨tree, read, ofValue_proper value distinct read, ?_⟩
  have modes := ofValue_modes value
  rw [read] at modes
  generalize ofValue true value = strict at modes
  cases modes with
  | agree _ known =>
      refine ⟨⟨nofun, fun unknown => ?_⟩, fun _ => rfl⟩
      rw [known] at unknown
      cases unknown
  | refuse _ unknown =>
      have left : tree.hasUnknown = true := unknown tree rfl
      refine ⟨⟨fun _ => left, fun _ => ⟨_, rfl⟩⟩, fun known => ?_⟩
      rw [left] at known
      cases known

/-- A malformed statement inside an endpoint is left there as unknown. A malformed attribute takes
the whole edge statement with it, and what was already read of its endpoints. -/
theorem strict_read_of_malformed_parts :
    let inner := Value.object [("type", .text "subgraph"), ("children", .list [.int 1])]
    let deep := Value.list [.object [("type", .text "graph"), ("children", .list [
      .object [("type", .text "edge_stmt"), ("edge_list", .list [.text "a", inner])]])]]
    let whole := Value.object [("type", .text "edge_stmt"), ("edge_list", .list [inner]),
      ("attr_list", .list [.null])]
    (deep.hasDistinctKeys = true ∧
      ofValue false deep = .ok (.list [.graph "graph" none false [.edgeStmt [.nodeId { id := "a" },
        .subgraph none [.unknown .null (.int 1) "expected a tagged mapping, got int"]] []]]) ∧
      ∃ malformed, ofValue true deep = .error malformed) ∧
    whole.hasDistinctKeys = true ∧
      ofValue false whole = .ok (.unknown (.text "edge_stmt") whole "attr entry needs an 'id'") ∧
      ∃ malformed, ofValue true whole = .error malformed := by
  intro inner deep whole
  have deep_distinct : deep.hasDistinctKeys = true := by decide
  have whole_distinct : whole.hasDistinctKeys = true := by decide
  obtain ⟨deepTree, deep_read, _, deep_iff, _⟩ := strict_read_iff deep_distinct
  obtain ⟨wholeTree, whole_read, _, whole_iff, _⟩ := strict_read_iff whole_distinct
  cases deep_read
  cases whole_read
  exact ⟨⟨deep_distinct, rfl, deep_iff.mpr rfl⟩, whole_distinct, rfl, whole_iff.mpr rfl⟩

/-- Anything is read leniently to a tree that has a tagged form, and what is read from that is the
tree again exactly if every compass point stands behind a port and no attribute has an object for
its value. -/
theorem read_reread_iff {value : Value} (distinct : value.hasDistinctKeys = true) :
    ∃ tree form reread, ofValue false value = .ok tree ∧ tree.toValue = .ok form ∧
      ofValue false form = .ok reread ∧ (reread.same tree = true ↔ tree.IsLossless) ∧
      (tree.IsLossless → reread = tree) := by
  rcases ofValue_lenient value with ⟨tree, read⟩
  have proper := ofValue_proper value distinct read
  have known (kind data : Value) (reason : String) (left : IsLeftover kind data reason) :=
    left.read
  rcases ofValue_toValue known tree proper with ⟨form, form_eq, reread⟩
  refine ⟨tree, form, tree.reread, read, form_eq, reread, ?_, reread_eq_self tree⟩
  apply same_reread_iff _ tree proper
  exact fun _ _ _ left => ⟨left.kind_distinct, left.data_distinct⟩

/-- Unknown statements at two depths, a port with a compass point and markup all come back. -/
theorem read_reread_of_leftovers :
    let node := Value.object [("id", .text "a"),
      ("port", .object [("id", .text "p"), ("compass", .text "n")])]
    let label := Value.object [("id", .text "label"),
      ("eq", .object [("value", .text "b"), ("html", .bool true)])]
    let value := Value.list [.null, .list [.object [("type", .text "graph"), ("children", .list [
      .object [("type", .text "node_stmt"), ("node_id", node), ("attr_list", .list [label])],
      .object [("type", .text "edge_stmt"), ("edge_list", .text "a")]])]]]
    value.hasDistinctKeys = true ∧ ∃ tree form reread, ofValue false value = .ok tree ∧
      tree.toValue = .ok form ∧ ofValue false form = .ok reread ∧ reread.same tree = true := by
  intro node label value
  have distinct : value.hasDistinctKeys = true := by decide
  rcases read_reread_iff distinct with ⟨tree, form, reread, read, form_eq, reread_eq, same_iff, _⟩
  refine ⟨distinct, tree, form, reread, read, form_eq, reread_eq, same_iff.mpr ?_⟩
  cases read
  simp [AllParts, AllPartsIn, Value.field, optionalText, List.lookup_cons, attrValueOfValue,
    Value.isTruthy]

/-- A compass point without a port is read and lost again, and so is an object inside the object
of an attribute. -/
theorem read_reread_differs :
    let node := Value.object [("type", .text "node_id"), ("id", .text "a"),
      ("port", .object [("compass", .text "n")])]
    let entry := Value.object [("id", .text "x"),
      ("eq", .object [("value", .object [("y", .int 1)])])]
    let stated := Value.object [("type", .text "node_stmt"), ("node_id", .text "a"),
      ("attr_list", .list [entry])]
    (∃ tree form reread, ofValue false node = .ok tree ∧ tree.toValue = .ok form ∧
      ofValue false form = .ok reread ∧ reread.same tree = false) ∧
    ∃ tree form reread, ofValue false stated = .ok tree ∧ tree.toValue = .ok form ∧
      ofValue false form = .ok reread ∧ reread.same tree = false :=
  ⟨⟨_, _, _, rfl, rfl, rfl, rfl⟩, ⟨_, _, _, rfl, rfl, rfl, rfl⟩⟩

end Tree

end DotLang
