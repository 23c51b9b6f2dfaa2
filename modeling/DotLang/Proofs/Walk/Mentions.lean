import DotLang.Proofs.Walk.Consistency
import DotLang.Proofs.Walk.Completion

/-!
# Attributes of nodes from their mentions

The final attributes of a node can be read off the tree. A tree mentions nodes by
node statements and by endpoints of edges, and every mention has the defaults
that precede it at its own level and at the levels around it. Walking a tree does
to the node table what recording its mentions one after the other does
(`statement_records`), and for one attribute of one node that comes to this: the
last listed value counts, and as long as there is no value, defaults fill it in
(`nodeAttr_eq`).
-/

namespace DotLang

/-- What a document says about a node at one place. -/
structure Mention where
  id : String
  /-- Endpoints of edges count only if they are about new nodes. -/
  isEndpoint : Bool
  /-- The attributes that are listed with the node. -/
  listed : List Attr
  /-- The defaults for nodes that precede, from the outermost level to the innermost. -/
  defaults : List Attr

namespace Tree

/-- The defaults for nodes that a statement sets. -/
def nodeDefaults : Tree → List Attr
  | .attrStmt target attrs => if target = "node" then attrs else []
  | _ => []

mutual

/-- The mentions of nodes in a statement with the given defaults before it. -/
def mentions (defaults : List Attr) : Tree → List Mention
  | .graph _ _ _ children => mentionsIn defaults children
  | .subgraph _ children => mentionsIn defaults children
  | .nodeStmt subject attrs =>
      match subject.name? with
      | some id => [{ id, isEndpoint := false, listed := attrs, defaults }]
      | none => []
  | .edgeStmt endpoints _ => endpointMentions defaults endpoints
  | _ => []
termination_by structural tree => tree

def mentionsIn (defaults : List Attr) : List Tree → List Mention
  | [] => []
  | tree :: rest => tree.mentions defaults ++ mentionsIn (defaults ++ tree.nodeDefaults) rest
termination_by structural trees => trees

def endpointMention (defaults : List Attr) : Tree → List Mention
  | .subgraph _ children => mentionsIn defaults children
  | .nodeId node => [{ id := node.id, isEndpoint := true, listed := [], defaults }]
  | _ => []
termination_by structural tree => tree

def endpointMentions (defaults : List Attr) : List Tree → List Mention
  | [] => []
  | tree :: rest => tree.endpointMention defaults ++ endpointMentions defaults rest
termination_by structural trees => trees

end

/-- The mentions in a whole document. -/
def documentMentions : Tree → List Mention
  | .list items => mentionsIn [] items
  | tree => tree.mentions []

end Tree

namespace Mention

/-- The mentions of one node. Once there is the node, endpoints of edges do not mention it. -/
def about (id : String) (mentions : List Mention) : List Mention :=
  match mentions.filter fun mention => mention.id = id with
  | [] => []
  | first :: rest => first :: rest.filter fun mention => !mention.isEndpoint

/-- The last value of a name in a list of attributes. -/
def lastValue? (name : String) (attrs : List Attr) : Option Value :=
  (attrs.reverse.find? fun entry => entry.id = name).map Attr.value

def listed? (mention : Mention) (name : String) : Option Value :=
  lastValue? name mention.listed

def default? (mention : Mention) (name : String) : Option Value :=
  lastValue? name mention.defaults

/-- The first default of an attribute that has a value, or null. -/
def firstDefault (name : String) (mentions : List Mention) : Value :=
  (mentions.findSome? fun mention => (mention.default? name).filter fun value => !value.isNull).getD
    .null

/-- The attributes of a node after a mention: what is listed wins, defaults fill the rest. -/
def apply (mention : Mention) (attrs : Attributes) : Attributes :=
  Attributes.fill (attrs.override (Attributes.ofAttrs mention.listed))
    (Attributes.ofAttrs mention.defaults)

def record (nodes : OrderedMap String Node) (mention : Mention) : OrderedMap String Node :=
  if mention.isEndpoint ∧ mention.id ∈ nodes.keys then nodes
  else
    let node := (nodes.get? mention.id).getD { id := mention.id }
    nodes.insert node.id { node with attrs := mention.apply node.attrs }

end Mention

theorem Attributes.ofAttrs_append (first rest : List Attr) :
    ofAttrs (first ++ rest) = (ofAttrs first).override (ofAttrs rest) := by
  rw [ofAttrs, List.map_append]
  exact OrderedMap.ofList_append _ _

theorem Attributes.get?_ofAttrs (attrs : List Attr) (name : String) :
    (ofAttrs attrs).get? name = Mention.lastValue? name attrs := by
  have looked (entries : List Attr) :
      (entries.map fun entry => (entry.id, entry.value)).lookup name =
        (entries.find? fun entry => entry.id = name).map Attr.value := by
    induction entries with
    | nil => rfl
    | cons entry rest ih =>
        rw [List.map_cons, OrderedMap.lookup_cons_eq_ite, List.find?_cons, ih]
        by_cases same : name = entry.id
        · simp [same]
        · simp [same, Ne.symm same]
  rw [ofAttrs, OrderedMap.get?_ofList, ← List.map_reverse, looked]
  rfl

theorem Scope.node_set? {scope changed : Scope} {target : String} {attrs defaults : List Attr}
    (node_eq : scope.node = Attributes.ofAttrs defaults)
    (set_eq : scope.set? target (Attributes.ofAttrs attrs) = some changed) :
    changed.node = Attributes.ofAttrs (defaults ++ (Tree.attrStmt target attrs).nodeDefaults) := by
  rw [Scope.set?] at set_eq
  rw [Tree.nodeDefaults]
  split_ifs at set_eq with isNode isEdge isGraph
  · cases set_eq
    rw [if_pos isNode, Attributes.ofAttrs_append, node_eq]
  · cases set_eq
    rw [if_neg isNode, List.append_nil]
    exact node_eq
  · cases set_eq
    rw [if_neg isNode, List.append_nil]
    exact node_eq

theorem Scope.nodeDefaults_of_set?_none {scope : Scope} {target : String} {attrs : List Attr}
    (set_eq : scope.set? target (Attributes.ofAttrs attrs) = none) :
    (Tree.attrStmt target attrs).nodeDefaults = [] := by
  rw [Scope.set?] at set_eq
  rw [Tree.nodeDefaults]
  split_ifs at set_eq with isNode
  exact if_neg isNode

/-! ### Walking records the mentions -/

namespace Walk

variable {α β : Type} {options : WalkOptions}

/-- From every state a walk goes through, records the mentions and returns what is promised. -/
def Records (walk : Walk α) (mentions : List Mention) (promise : α → Prop) : Prop :=
  ∀ state, ∃ result final, walk.run state = .ok result final ∧ promise result ∧
    final.model.nodes = mentions.foldl Mention.record state.model.nodes

namespace Records

variable {promise : α → Prop} {promise' : β → Prop}

theorem pure {result : α} (kept : promise result) : Records (Pure.pure result) [] promise :=
  fun state => ⟨result, state, rfl, kept, rfl⟩

theorem bind {walk : Walk α} {next : α → Walk β} {first rest : List Mention}
    (early : Records walk first promise)
    (late : ∀ result, promise result → Records (next result) rest promise') :
    Records (walk >>= next) (first ++ rest) promise' := by
  intro state
  rcases early state with ⟨result, middle, run, kept, nodes_eq⟩
  rcases late result kept middle with ⟨result', final, run', kept', nodes_eq'⟩
  refine ⟨result', final, ?_, kept', ?_⟩
  · rw [EStateM.run_bind, run]
    exact run'
  · rw [nodes_eq', nodes_eq, List.foldl_append]

theorem map {walk : Walk α} {mentions : List Mention} (result : α → β)
    (walked : Records walk mentions promise)
    (kept : ∀ value, promise value → promise' (result value)) :
    Records (do return result (← walk)) mentions promise' := by
  have all := walked.bind fun value holds => pure (kept value holds)
  rw [List.append_nil] at all
  exact all

/-- A step after which there are the same nodes goes unnoticed. -/
theorem unnoticed {walk : Walk α} {next : α → Walk β} {mentions : List Mention}
    (keeps : ∀ state, ∃ result final, walk.run state = .ok result final ∧
      final.model.nodes = state.model.nodes)
    (late : ∀ result, Records (next result) mentions promise') :
    Records (walk >>= next) mentions promise' := by
  have early : Records walk [] fun _ => True := by
    intro state
    rcases keeps state with ⟨result, final, run, nodes_eq⟩
    exact ⟨result, final, run, trivial, nodes_eq⟩
  exact early.bind fun result _ => late result

theorem skip (lenient : options.isStrict = false) (tree : Tree) {result : α}
    (kept : promise result) :
    Records (do Walk.skip options tree; return result) [] promise := by
  apply unnoticed
  · intro state
    refine ⟨(), _, run_skip_of_lenient lenient tree state, ?_⟩
    rw [model_after_skip]
    simp [lenient]
  · exact fun _ => .pure kept

theorem enter {mentions : List Mention} (parent id : Option String) {next : String → Walk α}
    (late : ∀ key, Records (next key) mentions promise) :
    Records (Walk.enter options parent id >>= next) mentions promise := by
  apply unnoticed _ late
  intro state
  refine ⟨_, _, run_enter parent id state, ?_⟩
  rw [model_after_enter]
  dsimp only
  split <;> rfl

theorem promote {mentions : List Mention} (key kind : String) (isStrict : Bool) {next : Walk α}
    (late : Records next mentions promise) :
    Records (do Walk.promote key kind isStrict; next) mentions promise := by
  apply unnoticed _ fun _ => late
  intro state
  refine ⟨(), _, run_promote key kind isStrict state, ?_⟩
  rw [model_after_promote, promoted, Model.nodes_setRoot]

theorem body {mentions : List Mention} (key : String) {inner : Walk Scope} {next : Walk α}
    {kept : Scope → Prop} (walked : Records inner mentions kept) (late : Records next [] promise) :
    Records (do let scope ← inner; settle key scope.graph; next) mentions promise := by
  have settled (scope : Scope) : Records (do settle key scope.graph; next) [] promise :=
    unnoticed (fun state => ⟨(), _, rfl, rfl⟩) fun _ => late
  have all := walked.bind fun scope _ => settled scope
  rw [List.append_nil] at all
  exact all

theorem mention {scope : Scope} {defaults : List Attr}
    (node_eq : scope.node = Attributes.ofAttrs defaults) (id : String) (attrs : List Attr)
    (parent : Option String) :
    Records (Walk.mention id (Attributes.ofAttrs attrs) scope.node parent)
      [{ id, isEndpoint := false, listed := attrs, defaults }] fun _ => True := by
  intro state
  refine ⟨(), after (Walk.mention id _ scope.node parent) state, rfl, trivial, ?_⟩
  rw [nodes_after_mention, node_eq]
  simp [Mention.record, Mention.apply]

theorem resolveNode {scope : Scope} {defaults : List Attr}
    (node_eq : scope.node = Attributes.ofAttrs defaults) (node : NodeId)
    (parent : Option String) :
    Records (Walk.resolveNode node scope parent)
      [{ id := node.id, isEndpoint := true, listed := [], defaults }] fun _ => True := by
  intro state
  refine ⟨_, _, run_resolveNode node scope parent state, trivial, ?_⟩
  by_cases known : node.id ∈ state.model.nodes.keys
  · simp [Mention.record, known]
  · rw [if_neg known, nodes_after_mention, node_eq]
    simp only [List.foldl_cons, List.foldl_nil, Mention.record, known, and_false, if_false]
    rfl

end Records

theorem kept_defaults {defaults : List Attr} {scope : Scope}
    (node_eq : scope.node = Attributes.ofAttrs defaults) :
    scope.node = Attributes.ofAttrs (defaults ++ []) := by
  rw [List.append_nil]
  exact node_eq

mutual

/-- Walking a statement records its mentions and collects its defaults. -/
theorem statement_records (lenient : options.isStrict = false) : ∀ (tree : Tree)
    (parent : Option String) (scope : Scope) (defaults : List Attr), tree.namesNodes →
    scope.node = Attributes.ofAttrs defaults →
    Records (statement options parent scope tree) (tree.mentions defaults)
      fun changed => changed.node = Attributes.ofAttrs (defaults ++ tree.nodeDefaults)
  | .graph kind id isStrict children, parent, scope, defaults, named, node_eq => by
      rw [Tree.namesNodes] at named
      rw [statement, Tree.mentions]
      apply Records.enter
      intro key
      have inner := statements_records lenient children (some key) scope defaults named node_eq
      dsimp only
      split
      · exact .promote key kind isStrict (.body key inner (.pure (kept_defaults node_eq)))
      · exact .body key inner (.pure (kept_defaults node_eq))
  | .subgraph id children, parent, scope, defaults, named, node_eq => by
      rw [Tree.namesNodes] at named
      rw [statement, Tree.mentions]
      apply Records.enter
      intro key
      exact .body key (statements_records lenient children (some key) scope defaults named node_eq)
        (.pure (kept_defaults node_eq))
  | .nodeStmt subject attrs, parent, scope, defaults, named, node_eq => by
      rw [Tree.namesNodes, Option.isSome_iff_exists] at named
      rcases named with ⟨id, id_eq⟩
      simp only [statement, Tree.mentions, id_eq]
      exact (Records.mention node_eq id attrs parent).bind fun _ _ => .pure (kept_defaults node_eq)
  | .edgeStmt chain attrs, parent, scope, defaults, named, node_eq => by
      rw [Tree.namesNodes] at named
      rw [statement, Tree.mentions]
      have walked := endpoints_records lenient chain parent scope defaults named node_eq
      rw [← List.append_nil (Tree.endpointMentions defaults chain)]
      apply walked.bind
      intro groups _
      apply Records.unnoticed
      · exact fun state => ⟨(), _, rfl, by cases parent <;> rfl⟩
      · exact fun _ => .pure (kept_defaults node_eq)
  | .attrStmt target attrs, parent, scope, defaults, _, node_eq => by
      simp only [statement, Tree.mentions]
      cases set_eq : scope.set? target (Attributes.ofAttrs attrs) with
      | some changed => exact .pure (Scope.node_set? node_eq set_eq)
      | none =>
          apply Records.skip lenient
          rw [Scope.nodeDefaults_of_set?_none set_eq]
          exact kept_defaults node_eq
  | .nodeId _, _, _, _, _, node_eq => .skip lenient _ (kept_defaults node_eq)
  | .attr _, _, _, _, _, node_eq => .skip lenient _ (kept_defaults node_eq)
  | .unknown _ _ _, _, _, _, _, node_eq => .skip lenient _ (kept_defaults node_eq)
  | .raw _, _, _, _, _, node_eq => .skip lenient _ (kept_defaults node_eq)
  | .list _, _, _, _, _, node_eq => .skip lenient _ (kept_defaults node_eq)

theorem statements_records (lenient : options.isStrict = false) : ∀ (trees : List Tree)
    (parent : Option String) (scope : Scope) (defaults : List Attr), Tree.allNameNodes trees →
    scope.node = Attributes.ofAttrs defaults →
    Records (statements options parent scope trees) (Tree.mentionsIn defaults trees) fun _ => True
  | [], _, _, _, _, _ => .pure trivial
  | tree :: rest, parent, scope, defaults, named, node_eq => by
      rw [Tree.allNameNodes, Bool.and_eq_true] at named
      rw [statements, Tree.mentionsIn]
      exact (statement_records lenient tree parent scope defaults named.1 node_eq).bind
        fun changed changed_eq =>
          statements_records lenient rest parent changed _ named.2 changed_eq

theorem endpoint_records (lenient : options.isStrict = false) : ∀ (tree : Tree)
    (parent : Option String) (scope : Scope) (defaults : List Attr), tree.namesNodes →
    scope.node = Attributes.ofAttrs defaults →
    Records (endpoint options parent scope tree) (tree.endpointMention defaults) fun _ => True
  | .subgraph id children, parent, scope, defaults, named, node_eq => by
      rw [Tree.namesNodes] at named
      rw [endpoint, Tree.endpointMention]
      apply Records.enter
      intro key
      exact .body key (statements_records lenient children (some key) scope defaults named node_eq)
        fun state => ⟨_, state, rfl, trivial, rfl⟩
  | .nodeId node, parent, _, _, _, node_eq => .resolveNode node_eq node parent
  | .graph _ _ _ _, _, _, _, _, _ => .skip lenient _ trivial
  | .nodeStmt _ _, _, _, _, _, _ => .skip lenient _ trivial
  | .edgeStmt _ _, _, _, _, _, _ => .skip lenient _ trivial
  | .attrStmt _ _, _, _, _, _, _ => .skip lenient _ trivial
  | .attr _, _, _, _, _, _ => .skip lenient _ trivial
  | .unknown _ _ _, _, _, _, _, _ => .skip lenient _ trivial
  | .raw _, _, _, _, _, _ => .skip lenient _ trivial
  | .list _, _, _, _, _, _ => .skip lenient _ trivial

theorem endpoints_records (lenient : options.isStrict = false) : ∀ (trees : List Tree)
    (parent : Option String) (scope : Scope) (defaults : List Attr), Tree.allNameNodes trees →
    scope.node = Attributes.ofAttrs defaults →
    Records (endpoints options parent scope trees) (Tree.endpointMentions defaults trees)
      fun _ => True
  | [], _, _, _, _, _ => .pure trivial
  | tree :: rest, parent, scope, defaults, named, node_eq => by
      rw [Tree.allNameNodes, Bool.and_eq_true] at named
      rw [endpoints, Tree.endpointMentions]
      exact (endpoint_records lenient tree parent scope defaults named.1 node_eq).bind
        fun group _ =>
          (endpoints_records lenient rest parent scope defaults named.2 node_eq).map (group :: ·)
            fun _ _ => trivial

end

theorem document_records (lenient : options.isStrict = false) (tree : Tree)
    (named : tree.namesNodes) :
    Records (document options tree) tree.documentMentions fun _ => True := by
  have start : (∅ : Scope).node = Attributes.ofAttrs [] := rfl
  cases tree with
  | list items => exact statements_records lenient items none ∅ [] named start
  | _ =>
      intro state
      rcases statement_records lenient _ none ∅ [] named start state with
        ⟨result, final, run, _, nodes_eq⟩
      exact ⟨result, final, run, trivial, nodes_eq⟩

end Walk

/-! ### The attributes of one node -/

namespace Mention

def recordAttrs (known : Option Attributes) (mention : Mention) : Option Attributes :=
  if mention.isEndpoint ∧ known.isSome then known else some (mention.apply (known.getD ∅))

def NodesNamed (nodes : OrderedMap String Node) : Prop :=
  ∀ id node, nodes.get? id = some node → node.id = id

variable {nodes : OrderedMap String Node}

theorem get?_record (named : NodesNamed nodes) (mention : Mention) (id : String) :
    (record nodes mention).get? id =
      if mention.id = id then
        (recordAttrs ((nodes.get? id).map Node.attrs) mention).map fun attrs => { id, attrs }
      else nodes.get? id := by
  rw [record]
  cases found : nodes.get? mention.id with
  | none =>
      have isNew := (nodes.get?_eq_none_iff mention.id).mp found
      rw [if_neg (fun both => isNew both.2), Option.getD_none, OrderedMap.get?_insert]
      by_cases same : mention.id = id
      · subst same
        simp [found, recordAttrs]
      · simp [same, Ne.symm same]
  | some node =>
      have known := OrderedMap.mem_keys_of_get? found
      rcases node with ⟨nodeId, attrs⟩
      have id_eq : nodeId = mention.id := named _ _ found
      subst id_eq
      by_cases isEndpoint : mention.isEndpoint = true
      · rw [if_pos ⟨isEndpoint, known⟩]
        by_cases same : mention.id = id
        · subst same
          simp [found, recordAttrs, isEndpoint]
        · rw [if_neg same]
      · rw [if_neg (fun both => isEndpoint both.1), Option.getD_some, OrderedMap.get?_insert]
        by_cases same : mention.id = id
        · subst same
          simp [found, recordAttrs, isEndpoint]
        · simp [same, Ne.symm same]

theorem NodesNamed.record (named : NodesNamed nodes) (mention : Mention) :
    NodesNamed (record nodes mention) := by
  intro id node found
  rw [get?_record named] at found
  split at found
  · rcases Option.map_eq_some_iff.mp found with ⟨attrs, _, rfl⟩
    rfl
  · exact named id node found

/-- Only its own mentions change a node. -/
theorem get?_foldl_record (named : NodesNamed nodes) (mentions : List Mention) (id : String) :
    ((mentions.foldl record nodes).get? id).map Node.attrs =
      (mentions.filter fun mention => mention.id = id).foldl recordAttrs
        ((nodes.get? id).map Node.attrs) := by
  induction mentions generalizing nodes with
  | nil => rfl
  | cons mention rest ih =>
      rw [List.foldl_cons, ih (named.record mention), get?_record named]
      by_cases same : mention.id = id
      · simp [same, Function.comp_def]
      · simp [same]

/-- Once there is the node, endpoints do not change it. -/
theorem foldl_recordAttrs_some (mentions : List Mention) (attrs : Attributes) :
    mentions.foldl recordAttrs (some attrs) =
      some ((mentions.filter fun mention => !mention.isEndpoint).foldl
        (fun attrs mention => mention.apply attrs) attrs) := by
  induction mentions generalizing attrs with
  | nil => rfl
  | cons mention rest ih =>
      rw [List.foldl_cons, recordAttrs]
      cases isEndpoint : mention.isEndpoint with
      | true => simp [isEndpoint, ih]
      | false => simp [isEndpoint, ih]

theorem attrs_of_record (mentions : List Mention) (id : String) :
    ((mentions.foldl record ∅).get? id).map Node.attrs =
      if about id mentions = [] then none
      else some ((about id mentions).foldl (fun attrs mention => mention.apply attrs) ∅) := by
  have named : NodesNamed ∅ := fun _ _ found => nomatch found
  rw [get?_foldl_record named, about]
  cases mentions.filter fun mention => mention.id = id with
  | nil => rfl
  | cons first rest =>
      have applied : recordAttrs none first = some (first.apply ∅) := by simp [recordAttrs]
      rw [OrderedMap.get?_empty, Option.map_none, List.foldl_cons, applied,
        foldl_recordAttrs_some]
      rfl

/-! ### One attribute of one node -/

def settle (name : String) (value : Value) (mention : Mention) : Value :=
  let listed := (mention.listed? name).getD value
  if listed.isNull then (mention.default? name).getD .null else listed

theorem get?_apply (mention : Mention) (attrs : Attributes) (name : String) :
    ((mention.apply attrs).get? name).getD .null =
      settle name ((attrs.get? name).getD .null) mention := by
  rw [apply, Attributes.fill, OrderedMap.get?_fill, OrderedMap.get?_override,
    Attributes.get?_ofAttrs, Attributes.get?_ofAttrs]
  rw [← listed?, ← default?, settle]
  cases mention.listed? name with
  | some value =>
      cases value <;> simp [Value.isNull]
  | none =>
      cases attrs.get? name with
      | none => cases mention.default? name <;> simp [Value.isNull]
      | some value =>
          cases value <;> simp [Value.isNull]

theorem get?_foldl_apply (mentions : List Mention) (attrs : Attributes) (name : String) :
    ((mentions.foldl (fun attrs mention => mention.apply attrs) attrs).get? name).getD .null =
      mentions.foldl (settle name) ((attrs.get? name).getD .null) := by
  induction mentions generalizing attrs with
  | nil => rfl
  | cons mention rest ih => rw [List.foldl_cons, List.foldl_cons, ih, get?_apply]

theorem firstDefault_cons (name : String) (mention : Mention) (rest : List Mention) :
    firstDefault name (mention :: rest) =
      if ((mention.default? name).getD .null).isNull then firstDefault name rest
      else (mention.default? name).getD .null := by
  rw [firstDefault, firstDefault, List.findSome?_cons]
  cases mention.default? name with
  | none => rfl
  | some value => cases value <;> rfl

theorem foldl_settle_of_unlisted {name : String} {mentions : List Mention}
    (unlisted : ∀ mention ∈ mentions, mention.listed? name = none) (value : Value) :
    mentions.foldl (settle name) value =
      if value.isNull then firstDefault name mentions else value := by
  induction mentions generalizing value with
  | nil => cases value <;> rfl
  | cons mention rest ih =>
      have here := unlisted mention List.mem_cons_self
      have behind : ∀ other ∈ rest, other.listed? name = none := fun other other_mem =>
        unlisted other (List.mem_cons_of_mem _ other_mem)
      rw [List.foldl_cons, ih behind, settle, here, Option.getD_none, firstDefault_cons]
      by_cases isNull : value.isNull = true
      · simp [isNull]
      · simp [isNull]

/-- After the last mention that lists an attribute, only defaults can come, and they come if the
listed value is null. -/
theorem foldl_settle_of_last {name : String} {last : Mention} {later : List Mention}
    {listed : Value} (isListed : last.listed? name = some listed)
    (unlisted : ∀ mention ∈ later, mention.listed? name = none) (value : Value) :
    (last :: later).foldl (settle name) value =
      if listed.isNull then firstDefault name (last :: later) else listed := by
  rw [List.foldl_cons, foldl_settle_of_unlisted unlisted, settle, isListed, Option.getD_some,
    firstDefault_cons]
  by_cases isNull : listed.isNull = true <;> simp [isNull]

end Mention

namespace Model

/-- The final attributes of a node, from its mentions in the tree: the value that is listed last
counts. If it is null, or if none is listed, the first default with a value counts, from the last
mention on that lists the attribute or from the first mention. -/
theorem nodeAttr_eq {options : WalkOptions} (lenient : options.isStrict = false) {tree : Tree}
    (namesNodes : tree.namesNodes) (id name : String) :
    let walked := Model.walk options .plain tree ∅
    let mentions := Mention.about id tree.documentMentions
    let value := ((walked.model.attrsAt (.node id)).get? name).getD .null
    walked.failure = none ∧
      (id ∈ walked.model.nodes.keys ↔ mentions ≠ []) ∧
      (∀ earlier last later listed, mentions = earlier ++ last :: later →
        last.listed? name = some listed →
        (∀ mention ∈ later, mention.listed? name = none) →
        value = if listed.isNull then Mention.firstDefault name (last :: later) else listed) ∧
      ((∀ mention ∈ mentions, mention.listed? name = none) →
        value = Mention.firstDefault name mentions) := by
  intro walked mentions value
  rcases Walk.document_records lenient tree namesNodes { model := ∅ } with
    ⟨scope, final, run, _, nodes_eq⟩
  have walked_eq : walked = ⟨final.model, final.events, none⟩ := by
    change walkPlain options tree ∅ = _
    rw [walkPlain, run]
  have attrs_eq : (final.model.nodes.get? id).map Node.attrs = if mentions = [] then none else
      some (mentions.foldl (fun attrs mention => mention.apply attrs) ∅) := by
    rw [nodes_eq]
    exact Mention.attrs_of_record tree.documentMentions id
  have value_eq : value = mentions.foldl (Mention.settle name) .null := by
    have settled := Mention.get?_foldl_apply mentions ∅ name
    simp only [value, walked_eq, attrsAt, attrs_eq]
    split
    · next none_eq =>
        simp only [mentions, none_eq]
        rfl
    · exact settled
  refine ⟨by rw [walked_eq], ?_, ?_, ?_⟩
  · rw [walked_eq, ← not_iff_not, not_not, ← OrderedMap.get?_eq_none_iff, ← Option.map_eq_none_iff,
      attrs_eq]
    split <;> simp_all [mentions]
  · intro earlier last later listed mentions_eq isListed unlisted
    rw [value_eq, mentions_eq, List.foldl_append]
    exact Mention.foldl_settle_of_last isListed unlisted _
  · intro unlisted
    rw [value_eq, Mention.foldl_settle_of_unlisted unlisted]
    rfl

/-- A node with a default from outside, from a subgraph that is an endpoint, and with a listed
value that is taken back. -/
theorem nodeAttr_eq_of_withdrawn :
    let node : Tree := .nodeId { id := "n" }
    let tree := Tree.graph "digraph" (some "g") false [
      .nodeStmt node [⟨"color", .text "red"⟩],
      .attrStmt "node" [⟨"color", .text "blue"⟩, ⟨"shape", .null⟩],
      .edgeStmt [node, .subgraph none [
        .attrStmt "node" [⟨"shape", .text "box"⟩, ⟨"color", .null⟩],
        .nodeStmt node [⟨"color", .text "green"⟩, ⟨"color", .null⟩],
        .attrStmt "node" [⟨"shape", .text "oval"⟩]]] [],
      .nodeStmt node []]
    let walked := Model.walk {} .plain tree ∅
    ((walked.model.attrsAt (.node "n")).get? "color").getD .null = .text "blue" ∧
      ((walked.model.attrsAt (.node "n")).get? "shape").getD .null = .text "box" := by
  intro node tree walked
  have lenient : WalkOptions.isStrict {} = false := rfl
  have namesNodes : tree.namesNodes = true := rfl
  constructor
  · have withdrawn := (nodeAttr_eq lenient namesNodes "n" "color").2.2.1
    exact withdrawn [_] _ [_] .null rfl rfl (by decide)
  · have defaulted := (nodeAttr_eq lenient namesNodes "n" "shape").2.2.2
    exact defaulted (by decide)

end Model

end DotLang
