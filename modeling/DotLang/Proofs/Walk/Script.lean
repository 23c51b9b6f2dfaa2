import DotLang.Proofs.Walk.Completion
import DotLang.Proofs.Walk.Consistency

/-!
# The script of a walk

A lenient walk makes no choice that depends on what it has recorded so far. So
what it does can be written down beforehand: the script of a tree lists the
instructions of its walk from left to right. Each line says at which statement it
happens and which statement around it has entered a subgraph last, and holds the
attributes and defaults that count there.

A recorder follows a script line by line. It does to the state of the walk what
the walk does (`walk_eq_record`), and keeps a record of what happened where:
which subgraph a statement entered, which nodes were mentioned, and which edges
were created. What one line keeps is therefore kept by whole walks, and what
happens inside one statement can be told from what happens outside.
-/

namespace DotLang

/-- Where a statement stands in a tree: its number among its neighbours at each level, from the
outermost level inwards. Statements that only set defaults are not counted. -/
abbrev Site := List Nat

def Site.Below (outer inner : Site) : Prop :=
  outer <+: inner ∧ inner ≠ outer

theorem Site.not_below_self (site : Site) : ¬site.Below site :=
  fun below => below.2 rfl

theorem Site.below_of_append {site inner : Site} {number : Nat}
    (within : site ++ [number] <+: inner) : site.Below inner := by
  refine ⟨(List.prefix_append site [number]).trans within, ?_⟩
  rintro rfl
  have shorter := within.length_le
  rw [List.length_append, List.length_singleton] at shorter
  omega

/-- What a lenient walk does on its way. The subgraph that was entered at the same site is promoted,
settled, or gathered as an endpoint, which stands for all its nodes. The other endpoints are node
references, and blanks, which stand for no node. Edges are created along the latest endpoints. -/
inductive Instruction where
  | enter (id : Option String)
  | promote (kind : String) (isStrict : Bool)
  | settle (attrs : Attributes)
  | gather
  | mention (id : String) (attrs defaults : Attributes)
  | refer (node : NodeId) (defaults : Attributes)
  | skip (diagnostic : String)
  | blank
  | connect (count : Nat) (attrs defaults : Attributes)

/-- What happens at a statement inside another one, which is the innermost graph or subgraph around
it. -/
structure Line where
  site : Site
  inside : Option Site
  instruction : Instruction

/-- The scope behind a statement. -/
def Scope.behind (scope : Scope) : Tree → Scope
  | .attrStmt target attrs => (scope.set? target (Attributes.ofAttrs attrs)).getD scope
  | _ => scope

namespace Tree

/-- Whether a statement only sets defaults. -/
def setsDefaults : Tree → Bool
  | .attrStmt target _ => target ∈ attrTargets
  | _ => false

/-- The number of the neighbour behind a statement with the given number. -/
def numberBehind (number : Nat) (tree : Tree) : Nat :=
  if tree.setsDefaults then number else number + 1

mutual

/-- What a lenient walk does at a statement. -/
def script (inside : Option Site) (scope : Scope) (site : Site) : Tree → List Line
  | .graph kind id isStrict children =>
      ⟨site, inside, .enter id⟩ ::
        ((if inside.isNone then [⟨site, inside, .promote kind isStrict⟩] else []) ++
          (scriptIn (some site) scope site 0 children ++
            [⟨site, inside, .settle (children.foldl Scope.behind scope).graph⟩]))
  | .subgraph id children =>
      ⟨site, inside, .enter id⟩ ::
        (scriptIn (some site) scope site 0 children ++
          [⟨site, inside, .settle (children.foldl Scope.behind scope).graph⟩])
  | .nodeStmt subject attrs =>
      match subject.name? with
      | some id => [⟨site, inside, .mention id (Attributes.ofAttrs attrs) scope.node⟩]
      | none => []
  | .edgeStmt endpoints attrs =>
      endpointScripts inside scope site 0 endpoints ++
        [⟨site, inside, .connect endpoints.length (Attributes.ofAttrs attrs) scope.edge⟩]
  | .attrStmt target attrs =>
      match scope.set? target (Attributes.ofAttrs attrs) with
      | some _ => []
      | none => [⟨site, inside, .skip (diagnostic (.attrStmt target attrs))⟩]
  | tree => [⟨site, inside, .skip tree.diagnostic⟩]
termination_by structural tree => tree

def scriptIn (inside : Option Site) (scope : Scope) (site : Site) (number : Nat) :
    List Tree → List Line
  | [] => []
  | tree :: rest =>
      tree.script inside scope (site ++ [number]) ++
        scriptIn inside (scope.behind tree) site (tree.numberBehind number) rest
termination_by structural trees => trees

def endpointScript (inside : Option Site) (scope : Scope) (site : Site) : Tree → List Line
  | .subgraph id children =>
      ⟨site, inside, .enter id⟩ ::
        (scriptIn (some site) scope site 0 children ++
          [⟨site, inside, .settle (children.foldl Scope.behind scope).graph⟩,
            ⟨site, inside, .gather⟩])
  | .nodeId node => [⟨site, inside, .refer node scope.node⟩]
  | tree => [⟨site, inside, .skip tree.diagnostic⟩, ⟨site, inside, .blank⟩]
termination_by structural tree => tree

def endpointScripts (inside : Option Site) (scope : Scope) (site : Site) (number : Nat) :
    List Tree → List Line
  | [] => []
  | tree :: rest =>
      tree.endpointScript inside scope (site ++ [number]) ++
        endpointScripts inside scope site (number + 1) rest
termination_by structural trees => trees

end

def documentScript : Tree → List Line
  | .list items => scriptIn none ∅ [] 0 items
  | tree => tree.script none ∅ []

end Tree

/-- A graph or subgraph statement, with the id that it declares, has entered the subgraph with a
key. -/
structure Entry where
  site : Site
  id : Option String
  key : String

/-- A node statement or an endpoint has mentioned a node. -/
structure Naming where
  site : Site
  node : String

/-- An edge statement has created an edge. Its owner is the subgraph that was entered at the
innermost graph or subgraph around the statement. -/
structure Creation where
  site : Site
  inside : Option Site
  owner : Option String
  edge : Edge

def WalkState.skipped (diagnostic : String) (state : WalkState) : WalkState :=
  { state with
    model := { state.model with diagnostics := state.model.diagnostics ++ [diagnostic] }
    events := state.events ++ [.skipped diagnostic] }

/-- The state of a walk with a record of what has happened where. -/
structure Recorder where
  state : WalkState
  /-- The endpoints that wait for their edges, from the latest back. -/
  groups : List EndpointGroup := []
  entries : List Entry := []
  namings : List Naming := []
  creations : List Creation := []

namespace Recorder

variable {options : WalkOptions} {recorder : Recorder}

/-- The key of the subgraph that was entered at a site. -/
def keyAt? (recorder : Recorder) (site : Site) : Option String :=
  (recorder.entries.reverse.find? fun entry => entry.site = site).map Entry.key

/-- Follows one line of a script. -/
def follow (options : WalkOptions) (recorder : Recorder) (line : Line) : Recorder :=
  let parent := line.inside.bind recorder.keyAt?
  match line.instruction with
  | .enter id =>
      let entry : Entry := { site := line.site, id, key := Walk.entryKey options id recorder.state }
      { recorder with
        state := Walk.after (Walk.enter options parent id) recorder.state
        entries := recorder.entries ++ [entry] }
  | .promote kind isStrict =>
      match recorder.keyAt? line.site with
      | some key =>
          { recorder with state := Walk.after (Walk.promote key kind isStrict) recorder.state }
      | none => recorder
  | .settle attrs =>
      match recorder.keyAt? line.site with
      | some key => { recorder with state := Walk.after (Walk.settle key attrs) recorder.state }
      | none => recorder
  | .gather =>
      match recorder.keyAt? line.site with
      | some key =>
          let nodes := recorder.state.model.graphs.allNodes key
          { recorder with groups := { nodes } :: recorder.groups }
      | none => recorder
  | .mention id attrs defaults =>
      { recorder with
        state := Walk.after (Walk.mention id attrs defaults parent) recorder.state
        namings := recorder.namings ++ [{ site := line.site, node := id }] }
  | .refer node defaults =>
      { recorder with
        state := if node.id ∈ recorder.state.model.nodes.keys then recorder.state
          else Walk.after (Walk.mention node.id ∅ defaults parent) recorder.state
        groups := { nodes := [node.id], reference := some node } :: recorder.groups
        namings := recorder.namings ++ [{ site := line.site, node := node.id }] }
  | .skip diagnostic => { recorder with state := recorder.state.skipped diagnostic }
  | .blank => { recorder with groups := { nodes := [] } :: recorder.groups }
  | .connect count attrs defaults =>
      let edges := edgesAlong attrs defaults (recorder.groups.take count).reverse
      { recorder with
        state := Walk.after (Walk.createEdges parent edges) recorder.state
        groups := recorder.groups.drop count
        creations := recorder.creations ++ edges.map fun edge =>
          { site := line.site, inside := line.inside, owner := parent, edge } }

def run (options : WalkOptions) (recorder : Recorder) (script : List Line) : Recorder :=
  script.foldl (follow options) recorder

@[simp]
theorem run_nil : recorder.run options [] = recorder :=
  rfl

@[simp]
theorem run_cons (line : Line) (rest : List Line) :
    recorder.run options (line :: rest) = (recorder.follow options line).run options rest :=
  rfl

theorem run_append (first rest : List Line) :
    recorder.run options (first ++ rest) = (recorder.run options first).run options rest :=
  List.foldl_append

theorem keyAt?_of_entries {entries : List Entry} {entry : Entry}
    (entries_eq : recorder.entries = entries ++ [entry]) (site : Site) :
    recorder.keyAt? site =
      if entry.site = site then some entry.key else
        (entries.reverse.find? fun entry => entry.site = site).map Entry.key := by
  rw [keyAt?, entries_eq, List.reverse_concat, List.find?_cons]
  by_cases here : entry.site = site <;> simp [here]

/-- Whether the subgraph `parent`, or none, was entered at the given site, if there is one. -/
def Stands (recorder : Recorder) (inside : Option Site) (parent : Option String) : Prop :=
  inside.map recorder.keyAt? = parent.map some

namespace Stands

variable {inside : Option Site} {parent : Option String}

theorem parent_eq (stands : recorder.Stands inside parent) :
    inside.bind recorder.keyAt? = parent := by
  rw [Stands] at stands
  cases inside <;> cases parent <;> simp_all

theorem isNone_eq (stands : recorder.Stands inside parent) : inside.isNone = parent.isNone := by
  rw [Stands] at stands
  cases inside <;> cases parent <;> simp_all

theorem transfer {later : Recorder} (stands : recorder.Stands inside parent)
    (same : ∀ site ∈ inside, later.keyAt? site = recorder.keyAt? site) :
    later.Stands inside parent := by
  rw [Stands] at stands ⊢
  rw [← stands]
  cases inside with
  | none => rfl
  | some site => exact congrArg some (same site rfl)

end Stands

/-- Whether the edges that were created inside a graph or subgraph have an owner, and no others. -/
def Placed (recorder : Recorder) : Prop :=
  ∀ creation ∈ recorder.creations, creation.inside.isNone = creation.owner.isNone

end Recorder

def Tree.record (options : WalkOptions) (tree : Tree) : Recorder :=
  Recorder.run options { state := { model := ∅ } } tree.documentScript

namespace Walk

variable {α β : Type} {options : WalkOptions}

theorem after_skip_of_lenient (lenient : options.isStrict = false) (tree : Tree)
    (state : WalkState) : after (skip options tree) state = state.skipped tree.diagnostic := by
  simp [after, skip, report, modifyModel, lenient, WalkState.skipped]

/-- Following a script does to the state what a walk does, adds the given endpoints, records entries
at the given sites only, and finds the owners of edges. -/
structure Performs (options : WalkOptions) (walk : Walk α) (script : List Line)
    (sites : Site → Prop) (result : α) (groups : List EndpointGroup) (recorder : Recorder) :
    Prop where
  run_eq : walk.run recorder.state = .ok result (recorder.run options script).state
  keyAt_eq : ∀ site, ¬sites site → (recorder.run options script).keyAt? site = recorder.keyAt? site
  groups_eq : (recorder.run options script).groups = groups ++ recorder.groups
  placed : recorder.Placed → (recorder.run options script).Placed

namespace Performs

variable {recorder : Recorder} {walk : Walk α} {script script' : List Line} {sites : Site → Prop}
  {result : α} {result' : β} {groups groups' : List EndpointGroup} {site : Site}
  {inside : Option Site} {parent : Option String} {key : String}

theorem pure (result : α) (recorder : Recorder) :
    Performs options (Pure.pure result) [] sites result [] recorder :=
  ⟨rfl, fun _ _ => rfl, rfl, id⟩

theorem mono (performs : Performs options walk script sites result groups recorder)
    {sites' : Site → Prop} (included : ∀ site, sites site → sites' site) :
    Performs options walk script sites' result groups recorder where
  run_eq := performs.run_eq
  keyAt_eq site outside := performs.keyAt_eq site (mt (included site) outside)
  groups_eq := performs.groups_eq
  placed := performs.placed

theorem bind (first : Performs options walk script sites result groups recorder)
    {next : α → Walk β}
    (second : Performs options (next result) script' sites result' groups'
      (recorder.run options script)) :
    Performs options (walk >>= next) (script ++ script') sites result' (groups' ++ groups)
      recorder where
  run_eq := by
    rw [EStateM.run_bind, first.run_eq, Recorder.run_append]
    exact second.run_eq
  keyAt_eq site outside := by
    rw [Recorder.run_append, second.keyAt_eq site outside, first.keyAt_eq site outside]
  groups_eq := by
    rw [Recorder.run_append, second.groups_eq, first.groups_eq, List.append_assoc]
  placed placed := by
    rw [Recorder.run_append]
    exact second.placed (first.placed placed)

theorem andThen (first : Performs options walk script sites result [] recorder)
    {next : α → Walk β}
    (second : Performs options (next result) script' sites result' groups
      (recorder.run options script)) :
    Performs options (walk >>= next) (script ++ script') sites result' groups recorder :=
  List.append_nil groups ▸ first.bind second

theorem stands (performs : Performs options walk script sites result groups recorder)
    (stands : recorder.Stands inside parent) (outside : ∀ site ∈ inside, ¬sites site) :
    (recorder.run options script).Stands inside parent :=
  stands.transfer fun site site_mem => performs.keyAt_eq site (outside site site_mem)

theorem single {line : Line}
    (run_eq : walk.run recorder.state = .ok result (recorder.follow options line).state)
    (entries_eq : (recorder.follow options line).entries = recorder.entries)
    (groups_eq : (recorder.follow options line).groups = groups ++ recorder.groups)
    (creations_eq : (recorder.follow options line).creations = recorder.creations) :
    Performs options walk [line] sites result groups recorder where
  run_eq := run_eq
  keyAt_eq site _ := by
    rw [Recorder.keyAt?, Recorder.keyAt?, Recorder.run_cons, Recorder.run_nil, entries_eq]
  groups_eq := groups_eq
  placed placed := by
    rw [Recorder.run_cons, Recorder.run_nil, Recorder.Placed, creations_eq]
    exact placed

theorem returning (performs : Performs options walk script sites result groups recorder)
    (next : α → β) :
    Performs options (do let result ← walk; return next result) script sites (next result) groups
      recorder where
  run_eq := by
    rw [EStateM.run_bind, performs.run_eq]
    rfl
  keyAt_eq := performs.keyAt_eq
  groups_eq := performs.groups_eq
  placed := performs.placed

theorem enter (stands : recorder.Stands inside parent) (id : Option String) (site : Site) :
    let line : Line := ⟨site, inside, .enter id⟩
    let key := entryKey options id recorder.state
    Performs options (Walk.enter options parent id) [line] (· = site) key [] recorder ∧
      (recorder.run options [line]).keyAt? site = some key := by
  intro line key
  have keyAt (other : Site) : (recorder.run options [line]).keyAt? other =
      if site = other then some key else recorder.keyAt? other := by
    let entry : Entry := { site, id, key }
    rw [Recorder.keyAt?_of_entries (rfl : _ = recorder.entries ++ [entry])]
    rfl
  refine ⟨⟨?_, ?_, rfl, fun placed => placed⟩, ?_⟩
  · rw [run_enter, Recorder.run_cons, Recorder.follow, stands.parent_eq]
    rfl
  · intro other differs
    rw [keyAt, if_neg fun same => differs same.symm]
  · rw [keyAt, if_pos rfl]

theorem promote (entered : recorder.keyAt? site = some key) (inside : Option Site) (kind : String)
    (isStrict : Bool) :
    Performs options (Walk.promote key kind isStrict) [⟨site, inside, .promote kind isStrict⟩]
      sites () [] recorder := by
  have follow_eq : recorder.follow options ⟨site, inside, .promote kind isStrict⟩ =
      { recorder with state := after (Walk.promote key kind isStrict) recorder.state } := by
    simp only [Recorder.follow, entered]
  apply single <;> rw [follow_eq]
  · exact run_promote key kind isStrict recorder.state
  · rfl

theorem settle (entered : recorder.keyAt? site = some key) (inside : Option Site)
    (attrs : Attributes) :
    Performs options (Walk.settle key attrs) [⟨site, inside, .settle attrs⟩] sites () []
      recorder := by
  have follow_eq : recorder.follow options ⟨site, inside, .settle attrs⟩ =
      { recorder with state := after (Walk.settle key attrs) recorder.state } := by
    simp only [Recorder.follow, entered]
  apply single <;> rw [follow_eq]
  · rfl
  · rfl

theorem gather (entered : recorder.keyAt? site = some key) (inside : Option Site) :
    let group : EndpointGroup := { nodes := recorder.state.model.graphs.allNodes key }
    Performs options
      (do return ({ nodes := (← get).model.graphs.allNodes key } : EndpointGroup))
      [⟨site, inside, .gather⟩] sites group [group] recorder := by
  intro group
  have follow_eq : recorder.follow options ⟨site, inside, .gather⟩ =
      { recorder with groups := group :: recorder.groups } := by
    simp only [Recorder.follow, entered]
    rfl
  apply single <;> rw [follow_eq]
  · rfl
  · rfl

theorem mention (stands : recorder.Stands inside parent) (id : String)
    (attrs defaults : Attributes) (site : Site) :
    Performs options (Walk.mention id attrs defaults parent)
      [⟨site, inside, .mention id attrs defaults⟩] sites () [] recorder := by
  refine single ?_ rfl rfl rfl
  rw [Recorder.follow, stands.parent_eq]
  rfl

theorem refer (stands : recorder.Stands inside parent) (node : NodeId) (scope : Scope)
    (site : Site) :
    Performs options (resolveNode node scope parent) [⟨site, inside, .refer node scope.node⟩]
      sites { nodes := [node.id], reference := some node }
      [{ nodes := [node.id], reference := some node }] recorder := by
  refine single ?_ rfl rfl rfl
  rw [run_resolveNode, Recorder.follow, stands.parent_eq]

theorem skip (lenient : options.isStrict = false) (tree : Tree) (site : Site)
    (inside : Option Site) (recorder : Recorder) :
    Performs options (Walk.skip options tree) [⟨site, inside, .skip tree.diagnostic⟩] sites () []
      recorder := by
  refine single ?_ rfl rfl rfl
  rw [run_skip_of_lenient lenient, after_skip_of_lenient lenient]
  rfl

theorem skipEndpoint (lenient : options.isStrict = false) (tree : Tree) (site : Site)
    (inside : Option Site) (recorder : Recorder) :
    Performs options (do Walk.skip options tree; return ({ nodes := [] } : EndpointGroup))
      [⟨site, inside, .skip tree.diagnostic⟩, ⟨site, inside, .blank⟩] sites { nodes := [] }
      [{ nodes := [] }] recorder := by
  have blank : Performs options (Pure.pure { nodes := [] }) [⟨site, inside, .blank⟩] sites
      ({ nodes := [] } : EndpointGroup) [{ nodes := [] }]
      (recorder.run options [⟨site, inside, .skip tree.diagnostic⟩]) :=
    single rfl rfl rfl rfl
  exact (skip lenient tree site inside recorder).andThen blank

/-- Where a subgraph has just been entered, its body is walked and its attributes are settled. -/
theorem body {scope : Scope} {children : List Tree}
    (walks : ∀ first : Recorder, first.Stands (some site) (some key) →
      Performs options (statements options (some key) scope children)
        (Tree.scriptIn (some site) scope site 0 children) site.Below
        (children.foldl Scope.behind scope) [] first)
    (entered : recorder.keyAt? site = some key) (inside : Option Site) {next : Walk β} :
    let script := Tree.scriptIn (some site) scope site 0 children ++
      [⟨site, inside, .settle (children.foldl Scope.behind scope).graph⟩]
    ((recorder.run options script).keyAt? site = some key →
      Performs options next script' (site <+: ·) result' groups (recorder.run options script)) →
    Performs options (do
      let inner ← statements options (some key) scope children
      Walk.settle key inner.graph
      next) (script ++ script') (site <+: ·) result' groups recorder := by
  intro script behind
  have walked := walks recorder (congrArg some entered)
  have settling : Performs options (do
      let inner ← statements options (some key) scope children
      Walk.settle key inner.graph) script site.Below () [] recorder :=
    walked.andThen (settle ((walked.keyAt_eq site site.not_below_self).trans entered) inside _)
  rw [← bind_assoc]
  exact (settling.mono fun _ => And.left).andThen
    (behind ((settling.keyAt_eq site site.not_below_self).trans entered))

theorem bodyLast {scope : Scope} {children : List Tree}
    (walks : ∀ first : Recorder, first.Stands (some site) (some key) →
      Performs options (statements options (some key) scope children)
        (Tree.scriptIn (some site) scope site 0 children) site.Below
        (children.foldl Scope.behind scope) [] first)
    (entered : recorder.keyAt? site = some key) (inside : Option Site) (result : β) :
    Performs options (do
        let inner ← statements options (some key) scope children
        Walk.settle key inner.graph
        return result)
      (Tree.scriptIn (some site) scope site 0 children ++
        [⟨site, inside, .settle (children.foldl Scope.behind scope).graph⟩])
      (site <+: ·) result [] recorder := by
  have performs := body walks entered inside fun _ => .pure result _
  rwa [List.append_nil] at performs

end Performs

mutual

/-- Following the script of a statement does what walking the statement does. -/
theorem statement_performs (lenient : options.isStrict = false) : ∀ (tree : Tree)
    (inside : Option Site) (parent : Option String) (scope : Scope) (site : Site)
    (recorder : Recorder), tree.namesNodes → recorder.Stands inside parent →
    (∀ outer ∈ inside, ¬site <+: outer) →
    Performs options (statement options parent scope tree) (tree.script inside scope site)
      (site <+: ·) (scope.behind tree) [] recorder
  | .graph kind id isStrict children, inside, parent, scope, site, recorder, named, stands, _ => by
      rw [Tree.namesNodes] at named
      have walks (key : String) (first : Recorder) (stands : first.Stands (some site) (some key)) :=
        statements_performs lenient children (some site) (some key) scope site 0 first named stands
          fun _ same => Option.some.inj same ▸ site.not_below_self
      rw [statement, Tree.script]
      rcases Performs.enter stands id site with ⟨entering, entered⟩
      refine (entering.mono fun _ same => same ▸ List.prefix_refl _).andThen ?_
      rw [stands.isNone_eq]
      cases parent.isNone with
      | true =>
          have promoting : Performs options (promote _ kind isStrict)
              [⟨site, inside, .promote kind isStrict⟩] site.Below () [] _ :=
            .promote entered inside kind isStrict
          exact (promoting.mono fun _ => And.left).andThen (.bodyLast (walks _)
            ((promoting.keyAt_eq site site.not_below_self).trans entered) inside scope)
      | false => exact .bodyLast (walks _) entered inside scope
  | .subgraph id children, inside, parent, scope, site, recorder, named, stands, _ => by
      rw [Tree.namesNodes] at named
      have walks (key : String) (first : Recorder) (stands : first.Stands (some site) (some key)) :=
        statements_performs lenient children (some site) (some key) scope site 0 first named stands
          fun _ same => Option.some.inj same ▸ site.not_below_self
      rw [statement, Tree.script]
      rcases Performs.enter stands id site with ⟨entering, entered⟩
      refine (entering.mono fun _ same => same ▸ List.prefix_refl _).andThen ?_
      exact .bodyLast (walks _) entered inside scope
  | .nodeStmt subject attrs, inside, parent, scope, site, recorder, named, stands, _ => by
      rw [Tree.namesNodes, Option.isSome_iff_exists] at named
      rcases named with ⟨id, id_eq⟩
      simp only [statement, Tree.script, id_eq]
      exact (Performs.mention stands id _ scope.node site).returning fun _ => scope
  | .edgeStmt chain attrs, inside, parent, scope, site, recorder, named, stands, above => by
      rw [Tree.namesNodes] at named
      have notBelow (outer) (outer_mem : outer ∈ inside) : ¬site.Below outer :=
        fun below => above outer outer_mem below.1
      rcases endpoints_performs lenient chain inside parent scope site 0 recorder named stands
        notBelow with ⟨groups, length_eq, walked⟩
      rw [statement, Tree.script]
      let resolved := recorder.run options (Tree.endpointScripts inside scope site 0 chain)
      have latest : resolved.groups.take chain.length = groups.reverse := by
        rw [walked.groups_eq, ← length_eq, ← List.length_reverse, List.take_left]
      have earlier : resolved.groups.drop chain.length = recorder.groups := by
        rw [walked.groups_eq, ← length_eq, ← List.length_reverse, List.drop_left]
      have parent_eq : inside.bind resolved.keyAt? = parent :=
        (walked.stands stands notBelow).parent_eq
      refine ⟨?_, ?_, ?_, ?_⟩
      · rw [EStateM.run_bind, walked.run_eq, Recorder.run_append]
        change _ = EStateM.Result.ok _ (after (createEdges (inside.bind resolved.keyAt?)
          (edgesAlong _ _ (resolved.groups.take chain.length).reverse)) _)
        rw [latest, parent_eq, List.reverse_reverse]
        rfl
      · intro other outside
        rw [Recorder.run_append]
        exact walked.keyAt_eq other fun below => outside below.1
      · rw [Recorder.run_append]
        exact earlier
      · intro placed creation creation_mem
        rw [Recorder.run_append] at creation_mem
        rcases List.mem_append.mp creation_mem with creation_mem | creation_mem
        · exact walked.placed placed creation creation_mem
        · rcases List.mem_map.mp creation_mem with ⟨edge, _, rfl⟩
          change inside.isNone = (inside.bind resolved.keyAt?).isNone
          rw [parent_eq, stands.isNone_eq]
  | .attrStmt target attrs, inside, parent, scope, site, recorder, _, _, _ => by
      rw [statement, Tree.script, Scope.behind]
      cases scope.set? target (Attributes.ofAttrs attrs) with
      | some changed => exact .pure changed recorder
      | none => exact (Performs.skip lenient _ site inside recorder).returning fun _ => scope
  | .nodeId _, inside, _, scope, site, recorder, _, _, _ =>
      (Performs.skip lenient _ site inside recorder).returning fun _ => scope
  | .attr _, inside, _, scope, site, recorder, _, _, _ =>
      (Performs.skip lenient _ site inside recorder).returning fun _ => scope
  | .unknown _ _ _, inside, _, scope, site, recorder, _, _, _ =>
      (Performs.skip lenient _ site inside recorder).returning fun _ => scope
  | .raw _, inside, _, scope, site, recorder, _, _, _ =>
      (Performs.skip lenient _ site inside recorder).returning fun _ => scope
  | .list _, inside, _, scope, site, recorder, _, _, _ =>
      (Performs.skip lenient _ site inside recorder).returning fun _ => scope

theorem statements_performs (lenient : options.isStrict = false) : ∀ (trees : List Tree)
    (inside : Option Site) (parent : Option String) (scope : Scope) (site : Site) (number : Nat)
    (recorder : Recorder), Tree.allNameNodes trees → recorder.Stands inside parent →
    (∀ outer ∈ inside, ¬site.Below outer) →
    Performs options (statements options parent scope trees)
      (Tree.scriptIn inside scope site number trees) site.Below (trees.foldl Scope.behind scope) []
      recorder
  | [], _, _, scope, _, _, recorder, _, _, _ => .pure scope recorder
  | tree :: rest, inside, parent, scope, site, number, recorder, named, stands, above => by
      rw [Tree.allNameNodes, Bool.and_eq_true] at named
      rw [statements, Tree.scriptIn]
      have first := (statement_performs lenient tree inside parent scope (site ++ [number])
        recorder named.1 stands fun outer outer_mem within =>
          above outer outer_mem (Site.below_of_append within)).mono fun _ => Site.below_of_append
      have second := statements_performs lenient rest inside parent (scope.behind tree) site
        (tree.numberBehind number) _ named.2 (first.stands stands above) above
      exact first.andThen second

theorem endpoint_performs (lenient : options.isStrict = false) : ∀ (tree : Tree)
    (inside : Option Site) (parent : Option String) (scope : Scope) (site : Site)
    (recorder : Recorder), tree.namesNodes → recorder.Stands inside parent →
    (∀ outer ∈ inside, ¬site <+: outer) →
    ∃ group, Performs options (endpoint options parent scope tree)
      (tree.endpointScript inside scope site) (site <+: ·) group [group] recorder
  | .subgraph id children, inside, parent, scope, site, recorder, named, stands, _ => by
      rw [Tree.namesNodes] at named
      have walks (key : String) (first : Recorder) (stands : first.Stands (some site) (some key)) :=
        statements_performs lenient children (some site) (some key) scope site 0 first named stands
          fun _ same => Option.some.inj same ▸ site.not_below_self
      rw [endpoint, Tree.endpointScript]
      rcases Performs.enter stands id site with ⟨entering, entered⟩
      have gathering := Performs.body (walks _) entered inside fun entered => .gather entered inside
      rw [List.append_assoc] at gathering
      exact ⟨_, (entering.mono fun _ same => same ▸ List.prefix_refl _).andThen gathering⟩
  | .nodeId node, _, _, scope, site, _, _, stands, _ => ⟨_, .refer stands node scope site⟩
  | .graph _ _ _ _, inside, _, _, site, recorder, _, _, _ =>
      ⟨_, .skipEndpoint lenient _ site inside recorder⟩
  | .nodeStmt _ _, inside, _, _, site, recorder, _, _, _ =>
      ⟨_, .skipEndpoint lenient _ site inside recorder⟩
  | .edgeStmt _ _, inside, _, _, site, recorder, _, _, _ =>
      ⟨_, .skipEndpoint lenient _ site inside recorder⟩
  | .attrStmt _ _, inside, _, _, site, recorder, _, _, _ =>
      ⟨_, .skipEndpoint lenient _ site inside recorder⟩
  | .attr _, inside, _, _, site, recorder, _, _, _ =>
      ⟨_, .skipEndpoint lenient _ site inside recorder⟩
  | .unknown _ _ _, inside, _, _, site, recorder, _, _, _ =>
      ⟨_, .skipEndpoint lenient _ site inside recorder⟩
  | .raw _, inside, _, _, site, recorder, _, _, _ =>
      ⟨_, .skipEndpoint lenient _ site inside recorder⟩
  | .list _, inside, _, _, site, recorder, _, _, _ =>
      ⟨_, .skipEndpoint lenient _ site inside recorder⟩

theorem endpoints_performs (lenient : options.isStrict = false) : ∀ (trees : List Tree)
    (inside : Option Site) (parent : Option String) (scope : Scope) (site : Site) (number : Nat)
    (recorder : Recorder), Tree.allNameNodes trees → recorder.Stands inside parent →
    (∀ outer ∈ inside, ¬site.Below outer) →
    ∃ groups, groups.length = trees.length ∧
      Performs options (endpoints options parent scope trees)
        (Tree.endpointScripts inside scope site number trees) site.Below groups groups.reverse
        recorder
  | [], _, _, _, _, _, recorder, _, _, _ => ⟨[], rfl, .pure [] recorder⟩
  | tree :: rest, inside, parent, scope, site, number, recorder, named, stands, above => by
      rw [Tree.allNameNodes, Bool.and_eq_true] at named
      rw [endpoints, Tree.endpointScripts]
      rcases endpoint_performs lenient tree inside parent scope (site ++ [number]) recorder named.1
        stands fun outer outer_mem within => above outer outer_mem (Site.below_of_append within)
        with ⟨group, walked⟩
      have first := walked.mono fun _ => Site.below_of_append
      rcases endpoints_performs lenient rest inside parent scope site (number + 1) _ named.2
        (first.stands stands above) above with ⟨groups, length_eq, second⟩
      refine ⟨group :: groups, congrArg (· + 1) length_eq, ?_⟩
      rw [List.reverse_cons]
      exact first.bind (second.returning (group :: ·))

end

theorem document_performs (lenient : options.isStrict = false) (tree : Tree)
    (named : tree.namesNodes) :
    ∃ scope, Performs options (document options tree) tree.documentScript (fun _ => True) scope []
      { state := { model := ∅ } } := by
  have anywhere (sites : Site → Prop) (site : Site) (_ : sites site) : True := trivial
  cases tree with
  | list items =>
      rw [Tree.namesNodes] at named
      exact ⟨_, (statements_performs lenient items none none ∅ [] 0 _ named rfl nofun).mono
        (anywhere _)⟩
  | _ => exact ⟨_, (statement_performs lenient _ none none ∅ [] _ named rfl nofun).mono
      (anywhere _)⟩

end Walk

/-- A lenient walk into an empty model leaves behind what the recorder of its script does. -/
theorem Model.walk_eq_record {options : WalkOptions} (lenient : options.isStrict = false)
    {tree : Tree} (named : tree.namesNodes) :
    Model.walk options .plain tree ∅ =
      ⟨(tree.record options).state.model, (tree.record options).state.events, none⟩ := by
  rcases Walk.document_performs lenient tree named with ⟨scope, performs⟩
  change walkPlain options tree ∅ = _
  rw [walkPlain, performs.run_eq]
  rfl

/-- In a whole document every edge inside a graph or subgraph finds its owner. -/
theorem Tree.record_placed {options : WalkOptions} (lenient : options.isStrict = false)
    {tree : Tree} (named : tree.namesNodes) : (tree.record options).Placed := by
  rcases Walk.document_performs lenient tree named with ⟨scope, performs⟩
  exact performs.placed (by simp [Recorder.Placed])

end DotLang
