import DotLang.Proofs.Operations
import DotLang.Proofs.Walk.Mentions
import DotLang.Proofs.Walk.Owners

/-!
# Attributes of subgraphs

The final attributes of a subgraph can be read off the tree. Every statement that
enters the subgraph writes the graph defaults at the end of its body over what is
there, and these defaults are what the statements on the path to this end set:
those before it at each level around it, from the outermost level inwards, and
then those of its own body (`Model.subgraphAttrs_eq`). Bodies inside a body end
first, so the order is that of the ends.

So a statement with an empty body, which only refers to a subgraph, brings the
defaults of the place where it stands (`Walk.run_reference`).
-/

namespace DotLang

/-- Attributes written over each other from left to right. -/
def Attributes.overlay (layers : List Attributes) : Attributes :=
  layers.foldl OrderedMap.override ∅

theorem Attributes.overlay_append (first rest : List Attributes) :
    overlay (first ++ rest) = rest.foldl OrderedMap.override (overlay first) :=
  List.foldl_append

/-- The end of a graph or subgraph statement, with the statements on the path to it: those before
it at each level around it, from the outermost level inwards, and then those of its body. -/
structure Leaving where
  site : Site
  path : List Tree

namespace Tree

/-- The attributes that a statement sets for the graph around it. -/
def graphAttrs? : Tree → Option Attributes
  | .attrStmt target attrs => if target = "graph" then some (Attributes.ofAttrs attrs) else none
  | _ => none

/-- The defaults for graphs behind a path. -/
def graphDefaults (path : List Tree) : Attributes :=
  Attributes.overlay (path.filterMap graphAttrs?)

mutual

/-- The ends of the graphs and subgraphs in a statement behind a path. -/
def leavings (path : List Tree) (site : Site) : Tree → List Leaving
  | .graph _ _ _ children => leavingsIn path site 0 children ++ [⟨site, path ++ children⟩]
  | .subgraph _ children => leavingsIn path site 0 children ++ [⟨site, path ++ children⟩]
  | .edgeStmt endpoints _ => endpointLeavings path site 0 endpoints
  | _ => []
termination_by structural tree => tree

def leavingsIn (path : List Tree) (site : Site) (number : Nat) : List Tree → List Leaving
  | [] => []
  | tree :: rest =>
      tree.leavings path (site ++ [number]) ++
        leavingsIn (path ++ [tree]) site (tree.numberBehind number) rest
termination_by structural trees => trees

def endpointLeaving (path : List Tree) (site : Site) : Tree → List Leaving
  | .subgraph _ children => leavingsIn path site 0 children ++ [⟨site, path ++ children⟩]
  | _ => []
termination_by structural tree => tree

/-- No endpoint is on the path to another one. -/
def endpointLeavings (path : List Tree) (site : Site) (number : Nat) : List Tree → List Leaving
  | [] => []
  | tree :: rest =>
      tree.endpointLeaving path (site ++ [number]) ++ endpointLeavings path site (number + 1) rest
termination_by structural trees => trees

end

def documentLeavings : Tree → List Leaving
  | .list items => leavingsIn [] [] 0 items
  | tree => tree.leavings [] []

mutual

/-- Whatever is entered is left once. -/
theorem leavings_perm : ∀ (tree : Tree) (path : List Tree) (site : Site),
    ((tree.leavings path site).map Leaving.site).Perm ((tree.scopes site).map Prod.fst)
  | .graph _ _ _ children, path, site => by
      simpa [leavings, scopes] using
        (List.perm_append_comm.trans ((leavingsIn_perm children path site 0).cons site))
  | .subgraph _ children, path, site => by
      simpa [leavings, scopes] using
        (List.perm_append_comm.trans ((leavingsIn_perm children path site 0).cons site))
  | .edgeStmt endpoints _, path, site => endpointLeavings_perm endpoints path site 0
  | .nodeStmt _ _, _, _ => .nil
  | .attrStmt _ _, _, _ => .nil
  | .nodeId _, _, _ => .nil
  | .attr _, _, _ => .nil
  | .unknown _ _ _, _, _ => .nil
  | .raw _, _, _ => .nil
  | .list _, _, _ => .nil

theorem leavingsIn_perm : ∀ (trees : List Tree) (path : List Tree) (site : Site) (number : Nat),
    ((leavingsIn path site number trees).map Leaving.site).Perm
      ((scopesIn site number trees).map Prod.fst)
  | [], _, _, _ => .nil
  | tree :: rest, path, site, number => by
      simpa only [leavingsIn, scopesIn, List.map_append] using
        (leavings_perm tree path _).append (leavingsIn_perm rest _ site _)

theorem endpointLeaving_perm : ∀ (tree : Tree) (path : List Tree) (site : Site),
    ((tree.endpointLeaving path site).map Leaving.site).Perm
      ((tree.endpointScope site).map Prod.fst)
  | .subgraph _ children, path, site => by
      simpa [endpointLeaving, endpointScope] using
        (List.perm_append_comm.trans ((leavingsIn_perm children path site 0).cons site))
  | .graph _ _ _ _, _, _ => .nil
  | .nodeStmt _ _, _, _ => .nil
  | .edgeStmt _ _, _, _ => .nil
  | .attrStmt _ _, _, _ => .nil
  | .nodeId _, _, _ => .nil
  | .attr _, _, _ => .nil
  | .unknown _ _ _, _, _ => .nil
  | .raw _, _, _ => .nil
  | .list _, _, _ => .nil

theorem endpointLeavings_perm : ∀ (trees : List Tree) (path : List Tree) (site : Site)
    (number : Nat), ((endpointLeavings path site number trees).map Leaving.site).Perm
      ((endpointScopes site number trees).map Prod.fst)
  | [], _, _, _ => .nil
  | tree :: rest, path, site, number => by
      simpa only [endpointLeavings, endpointScopes, List.map_append] using
        (endpointLeaving_perm tree path _).append (endpointLeavings_perm rest path site _)

end

theorem documentLeavings_perm (tree : Tree) :
    (tree.documentLeavings.map Leaving.site).Perm (tree.documentScopes.map Prod.fst) := by
  cases tree with
  | list items => exact leavingsIn_perm items [] [] 0
  | _ => exact leavings_perm _ [] []

theorem graphDefaults_concat (path : List Tree) (tree : Tree) :
    graphDefaults (path ++ [tree]) =
      match tree.graphAttrs? with
      | some attrs => (graphDefaults path).override attrs
      | none => graphDefaults path := by
  simp only [graphDefaults, List.filterMap_append, Attributes.overlay_append]
  cases isGraph : tree.graphAttrs? <;> simp [isGraph]

end Tree

theorem Scope.graph_behind {scope : Scope} {path : List Tree}
    (graph_eq : scope.graph = Tree.graphDefaults path) (tree : Tree) :
    (scope.behind tree).graph = Tree.graphDefaults (path ++ [tree]) := by
  rw [Tree.graphDefaults_concat, ← graph_eq]
  cases tree with
  | attrStmt target attrs =>
      simp only [behind, set?, Tree.graphAttrs?]
      by_cases isGraph : target = "graph"
      · subst isGraph
        rfl
      · simp only [if_neg isGraph]
        split_ifs <;> rfl
  | _ => rfl

theorem Scope.graph_foldl_behind {scope : Scope} {path : List Tree}
    (graph_eq : scope.graph = Tree.graphDefaults path) (trees : List Tree) :
    (trees.foldl Scope.behind scope).graph = Tree.graphDefaults (path ++ trees) := by
  induction trees generalizing scope path with
  | nil => simpa using graph_eq
  | cons tree rest ih => simpa using ih (Scope.graph_behind graph_eq tree)

/-! ### What the script settles -/

/-- A line at the end of a graph or subgraph statement, with the defaults that count there. -/
def Line.settled? : Line → Option (Site × Attributes)
  | ⟨site, _, .settle attrs⟩ => some (site, attrs)
  | _ => none

def Leaving.settled (leaving : Leaving) : Site × Attributes :=
  (leaving.site, Tree.graphDefaults leaving.path)

namespace Tree

mutual

/-- The script settles what is left, with the defaults behind the path. -/
theorem settled_script : ∀ (tree : Tree) (inside : Option Site) (scope : Scope) (site : Site)
    (path : List Tree), scope.graph = graphDefaults path →
    (tree.script inside scope site).filterMap Line.settled? =
      (tree.leavings path site).map Leaving.settled
  | .graph kind id isStrict children, inside, scope, site, path, graph_eq => by
      simp [script, leavings, List.filterMap_cons, Line.settled?, Leaving.settled,
        settled_scriptIn children _ scope site 0 path graph_eq,
        Scope.graph_foldl_behind graph_eq children]
  | .subgraph id children, inside, scope, site, path, graph_eq => by
      simp [script, leavings, List.filterMap_cons, Line.settled?, Leaving.settled,
        settled_scriptIn children _ scope site 0 path graph_eq,
        Scope.graph_foldl_behind graph_eq children]
  | .nodeStmt subject attrs, inside, scope, site, path, _ => by
      simp only [script, leavings]
      split <;> rfl
  | .edgeStmt endpoints attrs, inside, scope, site, path, graph_eq => by
      simp [script, leavings, Line.settled?,
        settled_endpointScripts endpoints inside scope site 0 path graph_eq]
  | .attrStmt target attrs, inside, scope, site, path, _ => by
      simp only [script, leavings]
      split <;> rfl
  | .nodeId _, _, _, _, _, _ => rfl
  | .attr _, _, _, _, _, _ => rfl
  | .unknown _ _ _, _, _, _, _, _ => rfl
  | .raw _, _, _, _, _, _ => rfl
  | .list _, _, _, _, _, _ => rfl

theorem settled_scriptIn : ∀ (trees : List Tree) (inside : Option Site) (scope : Scope)
    (site : Site) (number : Nat) (path : List Tree), scope.graph = graphDefaults path →
    (scriptIn inside scope site number trees).filterMap Line.settled? =
      (leavingsIn path site number trees).map Leaving.settled
  | [], _, _, _, _, _, _ => rfl
  | tree :: rest, inside, scope, site, number, path, graph_eq => by
      simp only [scriptIn, leavingsIn, List.filterMap_append, List.map_append,
        settled_script tree inside scope _ path graph_eq,
        settled_scriptIn rest inside _ site _ _ (Scope.graph_behind graph_eq tree)]

theorem settled_endpointScript : ∀ (tree : Tree) (inside : Option Site) (scope : Scope)
    (site : Site) (path : List Tree), scope.graph = graphDefaults path →
    (tree.endpointScript inside scope site).filterMap Line.settled? =
      (tree.endpointLeaving path site).map Leaving.settled
  | .subgraph id children, inside, scope, site, path, graph_eq => by
      simp [endpointScript, endpointLeaving, List.filterMap_cons, Line.settled?, Leaving.settled,
        settled_scriptIn children _ scope site 0 path graph_eq,
        Scope.graph_foldl_behind graph_eq children]
  | .nodeId _, _, _, _, _, _ => rfl
  | .graph _ _ _ _, _, _, _, _, _ => rfl
  | .nodeStmt _ _, _, _, _, _, _ => rfl
  | .edgeStmt _ _, _, _, _, _, _ => rfl
  | .attrStmt _ _, _, _, _, _, _ => rfl
  | .attr _, _, _, _, _, _ => rfl
  | .unknown _ _ _, _, _, _, _, _ => rfl
  | .raw _, _, _, _, _, _ => rfl
  | .list _, _, _, _, _, _ => rfl

theorem settled_endpointScripts : ∀ (trees : List Tree) (inside : Option Site) (scope : Scope)
    (site : Site) (number : Nat) (path : List Tree), scope.graph = graphDefaults path →
    (endpointScripts inside scope site number trees).filterMap Line.settled? =
      (endpointLeavings path site number trees).map Leaving.settled
  | [], _, _, _, _, _, _ => rfl
  | tree :: rest, inside, scope, site, number, path, graph_eq => by
      simp only [endpointScripts, endpointLeavings, List.filterMap_append, List.map_append,
        settled_endpointScript tree inside scope _ path graph_eq,
        settled_endpointScripts rest inside scope site _ path graph_eq]

end

theorem settled_documentScript (tree : Tree) :
    tree.documentScript.filterMap Line.settled? = tree.documentLeavings.map Leaving.settled := by
  cases tree with
  | list items => exact settled_scriptIn items none ∅ [] 0 [] rfl
  | _ => exact settled_script _ none ∅ [] [] rfl

end Tree

/-! ### Settled where it was entered -/

/-- Whether a script settles only what it has entered, or what was entered before. -/
inductive Bracketed : List Site → List Line → Prop where
  | nil (entered : List Site) : Bracketed entered []
  | enter {entered : List Site} (site : Site) (inside : Option Site) (id : Option String)
      {rest : List Line} (bracketed : Bracketed (site :: entered) rest) :
      Bracketed entered (⟨site, inside, .enter id⟩ :: rest)
  | settle {entered : List Site} {site : Site} (isEntered : site ∈ entered)
      (inside : Option Site) (attrs : Attributes) {rest : List Line}
      (bracketed : Bracketed entered rest) :
      Bracketed entered (⟨site, inside, .settle attrs⟩ :: rest)
  | other {entered : List Site} {line : Line} (enters : line.scope? = none)
      (settles : line.settled? = none) {rest : List Line} (bracketed : Bracketed entered rest) :
      Bracketed entered (line :: rest)

namespace Bracketed

variable {entered entered' : List Site} {first rest : List Line}

theorem mono (bracketed : Bracketed entered first) (included : entered ⊆ entered') :
    Bracketed entered' first := by
  induction bracketed generalizing entered' with
  | nil => exact .nil _
  | enter site inside id _ ih =>
      exact .enter site inside id (ih (List.cons_subset_cons site included))
  | settle isEntered inside attrs _ ih =>
      exact .settle (included isEntered) inside attrs (ih included)
  | other enters settles _ ih => exact .other enters settles (ih included)

theorem append (before : Bracketed entered first) (behind : Bracketed entered rest) :
    Bracketed entered (first ++ rest) := by
  induction before with
  | nil => exact behind
  | enter site inside id _ ih =>
      exact .enter site inside id (ih (behind.mono (List.subset_cons_self _ _)))
  | settle isEntered inside attrs _ ih => exact .settle isEntered inside attrs (ih behind)
  | other enters settles _ ih => exact .other enters settles (ih behind)

theorem single {line : Line} (enters : line.scope? = none) (settles : line.settled? = none) :
    Bracketed entered [line] :=
  .other enters settles (.nil entered)

theorem body (body : Bracketed [] first) (site : Site) (inside : Option Site) (attrs : Attributes)
    (behind : Bracketed [] rest) :
    Bracketed [site] (first ++ ⟨site, inside, .settle attrs⟩ :: rest) :=
  (body.mono (List.nil_subset _)).append
    (.settle List.mem_cons_self inside attrs (behind.mono (List.nil_subset _)))

end Bracketed

namespace Tree

mutual

theorem bracketed_script : ∀ (tree : Tree) (inside : Option Site) (scope : Scope) (site : Site),
    Bracketed [] (tree.script inside scope site)
  | .graph kind id isStrict children, inside, scope, site => by
      rw [script]
      have body := (bracketed_scriptIn children (some site) scope site 0).body site inside
        (children.foldl Scope.behind scope).graph (.nil _)
      apply Bracketed.enter
      split
      · exact .other rfl rfl body
      · exact body
  | .subgraph id children, inside, scope, site => by
      rw [script]
      exact .enter site inside id
        ((bracketed_scriptIn children _ scope site 0).body site inside _ (.nil _))
  | .nodeStmt subject attrs, inside, scope, site => by
      rw [script]
      split
      · exact .single rfl rfl
      · exact .nil _
  | .edgeStmt endpoints attrs, inside, scope, site => by
      rw [script]
      exact (bracketed_endpointScripts endpoints inside scope site 0).append (.single rfl rfl)
  | .attrStmt target attrs, inside, scope, site => by
      rw [script]
      split
      · exact .nil _
      · exact .single rfl rfl
  | .nodeId _, _, _, _ => .single rfl rfl
  | .attr _, _, _, _ => .single rfl rfl
  | .unknown _ _ _, _, _, _ => .single rfl rfl
  | .raw _, _, _, _ => .single rfl rfl
  | .list _, _, _, _ => .single rfl rfl

theorem bracketed_scriptIn : ∀ (trees : List Tree) (inside : Option Site) (scope : Scope)
    (site : Site) (number : Nat), Bracketed [] (scriptIn inside scope site number trees)
  | [], _, _, _, _ => .nil _
  | tree :: rest, inside, scope, site, _ =>
      (bracketed_script tree inside scope _).append (bracketed_scriptIn rest inside _ site _)

theorem bracketed_endpointScript : ∀ (tree : Tree) (inside : Option Site) (scope : Scope)
    (site : Site), Bracketed [] (tree.endpointScript inside scope site)
  | .subgraph id children, inside, scope, site => by
      rw [endpointScript]
      exact .enter site inside id
        ((bracketed_scriptIn children _ scope site 0).body site inside _ (.single rfl rfl))
  | .nodeId _, _, _, _ => .single rfl rfl
  | .graph _ _ _ _, _, _, _ => .other rfl rfl (.single rfl rfl)
  | .nodeStmt _ _, _, _, _ => .other rfl rfl (.single rfl rfl)
  | .edgeStmt _ _, _, _, _ => .other rfl rfl (.single rfl rfl)
  | .attrStmt _ _, _, _, _ => .other rfl rfl (.single rfl rfl)
  | .attr _, _, _, _ => .other rfl rfl (.single rfl rfl)
  | .unknown _ _ _, _, _, _ => .other rfl rfl (.single rfl rfl)
  | .raw _, _, _, _ => .other rfl rfl (.single rfl rfl)
  | .list _, _, _, _ => .other rfl rfl (.single rfl rfl)

theorem bracketed_endpointScripts : ∀ (trees : List Tree) (inside : Option Site) (scope : Scope)
    (site : Site) (number : Nat), Bracketed [] (endpointScripts inside scope site number trees)
  | [], _, _, _, _ => .nil _
  | tree :: rest, inside, scope, site, _ =>
      (bracketed_endpointScript tree inside scope _).append
        (bracketed_endpointScripts rest inside scope site _)

end

theorem bracketed_documentScript (tree : Tree) : Bracketed [] tree.documentScript := by
  cases tree with
  | list items => exact bracketed_scriptIn items none ∅ [] 0
  | _ => exact bracketed_script _ none ∅ []

end Tree

/-! ### Following the script -/

theorem Model.attrsAt_graph_of_modify {first second : Model} (above : String)
    (change : Subgraph → Subgraph) (graphs_eq : second.graphs = first.graphs.modify above change)
    (keeps : ∀ subgraph, (change subgraph).attrs = subgraph.attrs) (key : String) :
    second.attrsAt (.graph key) = first.attrsAt (.graph key) := by
  simp only [attrsAt, graphs_eq, OrderedMap.map_get?_modify Subgraph.attrs keeps]

theorem Walk.attrsAt_graph_after_enter (options : WalkOptions) (parent id : Option String)
    (state : WalkState) (key : String) :
    (after (enter options parent id) state).model.attrsAt (.graph key) =
      state.model.attrsAt (.graph key) := by
  rw [model_after_enter]
  dsimp only
  split
  · rfl
  · next absent =>
      exact getD_map_get?_plant Subgraph.attrs state.model.graphs parent _ absent
        (fun _ _ => rfl) (fun _ _ => rfl) key

theorem Walk.attrsAt_graph_after_mention (id : String) (attrs defaults : Attributes)
    (parent : Option String) (state : WalkState) (key : String) :
    (after (mention id attrs defaults parent) state).model.attrsAt (.graph key) =
      state.model.attrsAt (.graph key) := by
  cases parent with
  | none => rfl
  | some above =>
      refine Model.attrsAt_graph_of_modify above (·.addNode id) rfl (fun subgraph => ?_) key
      rw [Subgraph.addNode]
      split <;> rfl

theorem Walk.attrsAt_graph_after_createEdges (parent : Option String) (edges : List Edge)
    (state : WalkState) (key : String) :
    (after (createEdges parent edges) state).model.attrsAt (.graph key) =
      state.model.attrsAt (.graph key) := by
  cases parent with
  | none => rfl
  | some above =>
      exact Model.attrsAt_graph_of_modify above (fun subgraph => { subgraph with
        edges := subgraph.edges ++ List.range' state.model.edges.length edges.length }) rfl
        (fun _ => rfl) key

/-- Attributes written at the end of a body reach the subgraph of this body only. -/
theorem Walk.attrsAt_graph_after_settle {state : WalkState} {above : String}
    (listed : above ∈ state.model.graphs.keys) (attrs : Attributes) (key : String) :
    (after (settle above attrs) state).model.attrsAt (.graph key) =
      if key = above then (state.model.attrsAt (.graph key)).override attrs
      else state.model.attrsAt (.graph key) := by
  rcases (OrderedMap.mem_keys_iff _ _).mp listed with ⟨old, found⟩
  have graphs_eq : (after (settle above attrs) state).model.graphs =
    state.model.graphs.modify above fun subgraph =>
      { subgraph with attrs := subgraph.attrs.override attrs } := rfl
  simp only [Model.attrsAt, graphs_eq, OrderedMap.get?_modify]
  by_cases here : key = above
  · simp [here, found]
  · simp [here]

namespace Recorder

variable {options : WalkOptions} {recorder : Recorder}

theorem attrsAt_graph_follow_of_other (options : WalkOptions) (recorder : Recorder)
    (key : String) : ∀ line : Line, line.scope? = none → line.settled? = none →
    (recorder.follow options line).state.model.attrsAt (.graph key) =
      recorder.state.model.attrsAt (.graph key)
  | ⟨site, _, .promote kind isStrict⟩, _, _ => by
      simp only [follow]
      split
      · next above _ =>
          refine Model.attrsAt_graph_of_modify above (fun subgraph => { subgraph with kind }) ?_
            (fun _ => rfl) key
          simp [Walk.promoted]
      · rfl
  | ⟨site, _, .gather⟩, _, _ => by
      simp only [follow]
      split <;> rfl
  | ⟨_, inside, .mention id attrs defaults⟩, _, _ =>
      Walk.attrsAt_graph_after_mention id attrs defaults _ recorder.state key
  | ⟨_, inside, .refer node defaults⟩, _, _ => by
      simp only [follow]
      split
      · rfl
      · exact Walk.attrsAt_graph_after_mention node.id ∅ defaults _ recorder.state key
  | ⟨_, _, .skip _⟩, _, _ => rfl
  | ⟨_, _, .blank⟩, _, _ => rfl
  | ⟨_, _, .connect _ _ _⟩, _, _ => Walk.attrsAt_graph_after_createEdges _ _ recorder.state key

/-- A script writes what it settles over the attributes of the subgraph that was entered there. -/
theorem attrsAt_graph_run {script : List Line} {entered : List Site}
    (bracketed : Bracketed entered script) (sound : recorder.Sound)
    (isEntered : entered ⊆ recorder.entries.map Entry.site)
    (nodup : ((recorder.run options script).entries.map Entry.site).Nodup) (key : String) :
    (recorder.run options script).state.model.attrsAt (.graph key) =
      (((script.filterMap Line.settled?).filter fun settled =>
        (recorder.run options script).keyAt? settled.1 = some key).map Prod.snd).foldl
          OrderedMap.override (recorder.state.model.attrsAt (.graph key)) := by
  induction bracketed generalizing recorder with
  | nil => rfl
  | @enter entered site inside id rest _ ih =>
      let line : Line := ⟨site, inside, .enter id⟩
      have isEntered' :
          site :: entered ⊆ (recorder.follow options line).entries.map Entry.site := by
        simp only [line, follow, List.map_append]
        exact List.cons_subset.mpr ⟨by simp, List.subset_append_of_subset_left _ isEntered⟩
      have later := ih (sound.follow line) isEntered' nodup
      have same := Walk.attrsAt_graph_after_enter options (inside.bind recorder.keyAt?) id
        recorder.state key
      rw [List.filterMap_cons_none (by rfl), ← same]
      exact later
  | @settle entered site site_mem inside attrs rest _ ih =>
      let line : Line := ⟨site, inside, .settle attrs⟩
      -- As no site is visited twice, the key that is found here is the one found in the end.
      rcases List.mem_map.mp (isEntered site_mem) with ⟨entry, entry_mem, rfl⟩
      have later_mem : entry ∈ (recorder.run options (line :: rest)).entries :=
        (entries_prefix_run options recorder _).mem entry_mem
      have foundLater := keyAt?_of_mem nodup later_mem
      have found := recorder.keyAt?_of_mem
        (((entries_prefix_run options recorder _).map Entry.site).sublist.nodup nodup) entry_mem
      have follow_eq : recorder.follow options line =
          { recorder with state := Walk.after (Walk.settle entry.key attrs) recorder.state } := by
        simp only [line, follow, found]
      have later := ih (sound.follow line) (follow_eq ▸ isEntered) nodup
      have settled : (recorder.follow options line).state.model.attrsAt (.graph key) = _ :=
        (congrArg (·.state.model.attrsAt (.graph key)) follow_eq).trans
          (Walk.attrsAt_graph_after_settle (sound.entered entry entry_mem) attrs key)
      rw [List.filterMap_cons_some (by rfl), run_cons, later, settled]
      rw [run_cons] at foundLater
      by_cases here : key = entry.key
      · simp [here, foundLater, line]
      · simp [here, Ne.symm here, foundLater, line]
  | @other entered line enters settles rest _ ih =>
      have entries_eq : (recorder.follow options line).entries = recorder.entries :=
        (follow_of_scope?_none options line enters).1
      have later := ih (sound.follow line) (entries_eq ▸ isEntered) nodup
      rw [List.filterMap_cons_none settles,
        ← attrsAt_graph_follow_of_other options recorder key line enters settles]
      exact later

end Recorder

namespace Model

/-- The final attributes of a subgraph, from the statements that enter it: when such a statement
ends, the graph defaults on the path to its end are written over what is there. Every graph or
subgraph statement ends once. It enters the subgraph with its id as key, and without id a new
one. -/
theorem subgraphAttrs_eq {options : WalkOptions} (lenient : options.isStrict = false) {tree : Tree}
    (named : tree.namesNodes) :
    let walked := Model.walk options .plain tree ∅
    let record := tree.record options
    walked.failure = none ∧
      record.entries.map (fun entry => (entry.site, entry.id)) = tree.documentScopes ∧
      (tree.documentLeavings.map Leaving.site).Perm (record.entries.map Entry.site) ∧
      (∀ entry ∈ record.entries, record.keyAt? entry.site = some entry.key ∧
        entry.key ∈ walked.model.graphs.keys ∧ ∀ name ∈ entry.id, entry.key = name) ∧
      record.entries.Pairwise (fun first second => second.id = none → first.key ≠ second.key) ∧
      ∀ key subgraph, walked.model.graphs.get? key = some subgraph →
        subgraph.attrs = .overlay
          ((tree.documentLeavings.filter fun leaving => record.keyAt? leaving.site = some key).map
            fun leaving => Tree.graphDefaults leaving.path) := by
  intro walked record
  have walked_eq : walked = ⟨record.state.model, _, none⟩ := walk_eq_record lenient named
  have sound : record.Sound := tree.record_sound options
  have identified : record.Identified options := tree.record_identified options
  have nodup := tree.nodup_sites_record options
  have entries_eq : record.entries.map _ = tree.documentScopes := tree.map_entries_record options
  rw [walked_eq]
  refine ⟨rfl, entries_eq, ?_, ?_, identified.opens, ?_⟩
  · have sites_eq := congrArg (List.map Prod.fst) entries_eq
    rw [List.map_map] at sites_eq
    exact sites_eq ▸ tree.documentLeavings_perm
  · intro entry entry_mem
    exact ⟨record.keyAt?_of_mem nodup entry_mem, sound.entered entry entry_mem,
      identified.declared entry entry_mem⟩
  · intro key subgraph found
    have settled := Recorder.attrsAt_graph_run tree.bracketed_documentScript Recorder.sound_empty
      (List.nil_subset _) nodup key
    rw [tree.settled_documentScript, List.filter_map, List.map_map] at settled
    have attrs_eq : record.state.model.attrsAt (.graph key) = subgraph.attrs := by
      simp [attrsAt, found]
    exact attrs_eq.symm.trans settled

/-- A subgraph that is entered again from inside itself, and then as an endpoint behind another
default. The innermost statement ends first. -/
theorem subgraphAttrs_eq_of_reentered :
    let colored (color : String) : Tree := .attrStmt "graph" [⟨"color", .text color⟩]
    let tree := Tree.graph "digraph" (some "g") false [
      colored "red",
      .subgraph (some "s") [
        .attrStmt "graph" [⟨"label", .text "outer"⟩],
        .subgraph (some "s") [.attrStmt "graph" [⟨"label", .text "inner"⟩], colored "blue"],
        colored "green"],
      colored "gray",
      .edgeStmt [.nodeId { id := "a" }, .subgraph (some "s") []] []]
    let walked := Model.walk {} .plain tree ∅
    let ends := tree.documentLeavings.filter fun leaving =>
      (tree.record {}).keyAt? leaving.site = some "s"
    ends.map Leaving.site = [[0, 0], [0], [1, 1]] ∧
      (walked.model.graphs.get? "s").map Subgraph.attrs =
        some (.ofAttrs [⟨"color", .text "gray"⟩, ⟨"label", .text "outer"⟩]) := by
  intro colored tree walked ends
  have lenient : WalkOptions.isStrict {} = false := rfl
  have named : tree.namesNodes = true := rfl
  have ends_eq : ends = tree.documentLeavings.filter (·.site ≠ []) := by
    apply List.filter_congr
    decide +kernel
  have isEntered : (walked.model.graphs.get? "s").isSome := by
    decide +kernel
  rcases Option.isSome_iff_exists.mp isEntered with ⟨subgraph, found⟩
  have attrs_eq : subgraph.attrs =
      .overlay (ends.map fun leaving => Tree.graphDefaults leaving.path) :=
    (subgraphAttrs_eq lenient named).2.2.2.2.2 "s" subgraph found
  refine ⟨by rw [ends_eq]; rfl, ?_⟩
  rw [found, Option.map_some, attrs_eq, ends_eq]
  rfl

end Model

/-! ### References -/

namespace Walk

/-- A statement that only refers to a listed subgraph, or an endpoint that does, writes the graph
defaults of its place over the attributes of this subgraph and changes nothing else. So a value
stays exactly where no default is there for it, or the default is this value. -/
theorem run_reference (options : WalkOptions) (parent : Option String) (scope : Scope)
    (state : WalkState) {key : String} {subgraph : Subgraph}
    (found : state.model.graphs.get? key = some subgraph) :
    let reference := Tree.subgraph (some key) []
    let attrs := subgraph.attrs.override scope.graph
    let graphs : Forest := state.model.graphs.modify key fun subgraph =>
      { subgraph with attrs := subgraph.attrs.override scope.graph }
    ∃ final, (statement options parent scope reference).run state = .ok scope final ∧
      (endpoint options parent scope reference).run state =
        .ok { nodes := graphs.allNodes key } final ∧
      final.model = { state.model with graphs } ∧
      graphs.get? key = some { subgraph with attrs } ∧
      (∀ other, other ≠ key → graphs.get? other = state.model.graphs.get? other) ∧
      (∀ name default, scope.graph.get? name = some default → attrs.get? name = some default) ∧
      (∀ name, scope.graph.get? name = none → attrs.get? name = subgraph.attrs.get? name) ∧
      ∀ name value, subgraph.attrs.get? name = some value →
        (attrs.get? name = some value ↔
          ∀ default, scope.graph.get? name = some default → default = value) := by
  intro reference attrs graphs
  have listed : key ∈ state.model.graphs.keys := OrderedMap.mem_keys_of_get? found
  let entered := after (enter options parent (some key)) state
  have entered_eq : entered.model = state.model := by
    have model_eq : entered.model = _ := model_after_enter parent (some key) state
    exact model_eq.trans (if_pos listed)
  let final := after (settle key scope.graph) entered
  have final_eq : final.model = { state.model with graphs } := by
    let settled (model : Model) : Model :=
      { model with graphs := model.graphs.modify key fun subgraph =>
          { subgraph with attrs := subgraph.attrs.override scope.graph } }
    exact congrArg settled entered_eq
  have attrs_get? (name : String) :
      attrs.get? name = (scope.graph.get? name).or (subgraph.attrs.get? name) :=
    OrderedMap.get?_override _ _ name
  refine ⟨final, ?_, ?_, final_eq, ?_, ?_, ?_, ?_, ?_⟩
  · simp only [reference, statement, EStateM.run_bind, run_enter]
    rfl
  · have nodes_eq : final.model.graphs.allNodes key = graphs.allNodes key := by rw [final_eq]
    rw [← nodes_eq]
    simp only [reference, endpoint, EStateM.run_bind, run_enter]
    rfl
  · simp [graphs, attrs, OrderedMap.get?_modify, found]
  · intro other differs
    simp [graphs, OrderedMap.get?_modify, differs]
  · intro name default isDefault
    simp [attrs_get?, isDefault]
  · intro name noDefault
    simp [attrs_get?, noDefault]
  · intro name value isValue
    cases isDefault : scope.graph.get? name <;> simp [attrs_get?, isDefault, isValue]

/-- A reference behind two defaults, one of which the subgraph has set otherwise. -/
theorem run_reference_of_other_default :
    let document := Tree.subgraph (some "s")
      [.attrStmt "graph" [⟨"color", .text "blue"⟩, ⟨"label", .text "one"⟩]]
    let state : WalkState := { model := (Model.walk {} .plain document ∅).model }
    let scope : Scope := { graph := .ofAttrs [⟨"color", .null⟩, ⟨"rank", .text "same"⟩] }
    ∃ final, (statement {} none scope (.subgraph (some "s") [])).run state = .ok scope final ∧
      ["color", "label", "rank"].map (final.model.attrsAt (.graph "s")).get? =
        [some .null, some (.text "one"), some (.text "same")] := by
  intro document state scope
  let attrs := Attributes.ofAttrs [⟨"color", .text "blue"⟩, ⟨"label", .text "one"⟩]
  let subgraph : Subgraph := { key := "s", id := some "s", attrs }
  have found : state.model.graphs.get? "s" = some subgraph := rfl
  rcases run_reference {} none scope state found with
    ⟨final, run, _, model_eq, newFound, _, replaced, kept, _⟩
  refine ⟨final, run, ?_⟩
  have attrs_eq : final.model.attrsAt (.graph "s") = attrs.override scope.graph := by
    rw [Model.attrsAt, model_eq, newFound]
    rfl
  rw [attrs_eq, List.map_cons, List.map_cons, List.map_cons, List.map_nil,
    replaced "color" .null rfl, kept "label" rfl, replaced "rank" (.text "same") rfl]
  rfl

/-- A subgraph that was declared before a default was set for the graph around it loses its own
value to a reference behind this default. -/
theorem run_reference_overwrites :
    let document := Tree.graph "digraph" (some "g") false
      [.subgraph (some "s") [.attrStmt "graph" [⟨"color", .text "blue"⟩]]]
    let state : WalkState := { model := (Model.walk {} .plain document ∅).model }
    let scope : Scope := { graph := .ofAttrs [⟨"color", .text "red"⟩] }
    let final := after (statement {} (some "g") scope (.subgraph (some "s") [])) state
    state.model.Reachable ∧
      (state.model.attrsAt (.graph "s")).get? "color" = some (.text "blue") ∧
      (final.model.attrsAt (.graph "s")).get? "color" = some (.text "red") := by
  intro document state scope final
  have reachable : state.model.Reachable := .operate (.walk {} .plain document) .empty
  exact ⟨reachable, rfl, rfl⟩

end Walk

end DotLang
