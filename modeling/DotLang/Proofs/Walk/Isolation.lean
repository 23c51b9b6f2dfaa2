import DotLang.Proofs.Walk.Owners
import DotLang.Proofs.Walk.Strictness
import DotLang.Proofs.Walk.Veil
import Mathlib.Data.List.Forall2

/-!
# Defaults do not leak

Defaults that are set inside a statement count for what happens inside it, and
for nothing else. Two trees that differ only in statements below one site that
set defaults have the same script up to attributes in the lines below that site
(`script_stripped`), and scripts of this kind are followed alike: behind a veil
over what the lines below the site have touched, both walks look the same
(`Alike`). So the two models agree in everything but the attributes of the nodes
that are mentioned, the edges that are created and the subgraphs that are entered
below the site (`Model.walk_isolated`).
-/

namespace DotLang

namespace Tree

mutual

/-- A tree without the statements below a site that only set defaults. -/
def stripped (cut site : Site) : Tree → Tree
  | .graph kind id isStrict children =>
      .graph kind id isStrict (strippedIn cut site 0 children)
  | .subgraph id children => .subgraph id (strippedIn cut site 0 children)
  | .edgeStmt endpoints attrs => .edgeStmt (strippedEndpoints cut site 0 endpoints) attrs
  | .list items => .list (strippedIn cut site 0 items)
  | tree => tree
termination_by structural tree => tree

def strippedIn (cut site : Site) (number : Nat) : List Tree → List Tree
  | [] => []
  | tree :: rest =>
      (if cut <+: site ∧ tree.setsDefaults then [] else [tree.stripped cut (site ++ [number])]) ++
        strippedIn cut site (tree.numberBehind number) rest
termination_by structural trees => trees

def strippedEndpoints (cut site : Site) (number : Nat) : List Tree → List Tree
  | [] => []
  | tree :: rest =>
      tree.stripped cut (site ++ [number]) :: strippedEndpoints cut site (number + 1) rest
termination_by structural trees => trees

end

@[simp]
theorem setsDefaults_stripped (cut site : Site) (tree : Tree) :
    (tree.stripped cut site).setsDefaults = tree.setsDefaults := by
  cases tree <;> rfl

@[simp]
theorem behind_stripped (cut site : Site) (tree : Tree) (scope : Scope) :
    scope.behind (tree.stripped cut site) = scope.behind tree := by
  cases tree <;> rfl

@[simp]
theorem length_strippedEndpoints (cut site : Site) (trees : List Tree) (number : Nat) :
    (strippedEndpoints cut site number trees).length = trees.length := by
  induction trees generalizing number with
  | nil => rfl
  | cons tree rest ih => exact congrArg (· + 1) (ih (number + 1))

/-- Nothing is stripped from a body that is not below the site. -/
theorem foldl_behind_strippedIn {cut site : Site} (outside : ¬cut <+: site) (trees : List Tree)
    (number : Nat) (scope : Scope) :
    (strippedIn cut site number trees).foldl Scope.behind scope =
      trees.foldl Scope.behind scope := by
  induction trees generalizing number scope with
  | nil => rfl
  | cons tree rest ih =>
      rw [strippedIn, if_neg fun both => outside both.1, List.singleton_append, List.foldl_cons,
        List.foldl_cons, behind_stripped, ih]

theorem numberBehind_stripped (cut site : Site) (number : Nat) (tree : Tree) :
    numberBehind number (tree.stripped cut site) = numberBehind number tree := by
  rw [numberBehind, setsDefaults_stripped, numberBehind]

theorem script_attrStmt (inside : Option Site) (scope : Scope) (site : Site) (target : String)
    (attrs : List Attr) :
    (attrStmt target attrs).script inside scope site =
      if (attrStmt target attrs).setsDefaults then []
        else [⟨site, inside, .skip (attrStmt target attrs).diagnostic⟩] := by
  rw [script, setsDefaults, ← scope.set?_isSome target (Attributes.ofAttrs attrs)]
  cases scope.set? target (Attributes.ofAttrs attrs) <;> rfl

theorem script_of_setsDefaults {tree : Tree} (defaults : tree.setsDefaults) (inside : Option Site)
    (scope : Scope) (site : Site) : tree.script inside scope site = [] := by
  cases tree with
  | attrStmt target attrs => rw [script_attrStmt, if_pos defaults]
  | _ => cases defaults

end Tree

/-- Two instructions do the same, perhaps with other attributes if these are free. -/
inductive Instruction.Alike (isFree : Prop) : Instruction → Instruction → Prop where
  | enter (id : Option String) : Alike isFree (.enter id) (.enter id)
  | promote (kind : String) (isStrict : Bool) :
      Alike isFree (.promote kind isStrict) (.promote kind isStrict)
  | settle {attrs attrs' : Attributes} (same : isFree ∨ attrs = attrs') :
      Alike isFree (.settle attrs) (.settle attrs')
  | gather : Alike isFree .gather .gather
  | mention (id : String) {attrs defaults attrs' defaults' : Attributes}
      (same : isFree ∨ attrs = attrs' ∧ defaults = defaults') :
      Alike isFree (.mention id attrs defaults) (.mention id attrs' defaults')
  | refer (node : NodeId) {defaults defaults' : Attributes} (same : isFree ∨ defaults = defaults') :
      Alike isFree (.refer node defaults) (.refer node defaults')
  | skip (diagnostic : String) : Alike isFree (.skip diagnostic) (.skip diagnostic)
  | blank : Alike isFree .blank .blank
  | connect (count : Nat) {attrs defaults attrs' defaults' : Attributes}
      (same : isFree ∨ attrs = attrs' ∧ defaults = defaults') :
      Alike isFree (.connect count attrs defaults) (.connect count attrs' defaults')

/-- Two lines do the same at the same statement, perhaps with other attributes below a site. -/
inductive Line.Alike (cut : Site) : Line → Line → Prop where
  | mk (site : Site) (inside : Option Site) {instruction instruction' : Instruction}
      (same : instruction.Alike (cut <+: site) instruction') :
      Alike cut ⟨site, inside, instruction⟩ ⟨site, inside, instruction'⟩

namespace Tree

variable {cut : Site}

theorem settled_alike {site : Site} {inside : Option Site} {scope scope' : Scope}
    {children : List Tree} (same : cut <+: site ∨ scope = scope') {last : List Line}
    (body : List.Forall₂ (Line.Alike cut) (scriptIn (some site) scope site 0 children)
      (scriptIn (some site) scope' site 0 (strippedIn cut site 0 children)))
    (tail : List.Forall₂ (Line.Alike cut) last last) :
    List.Forall₂ (Line.Alike cut)
      (scriptIn (some site) scope site 0 children ++
        ⟨site, inside, .settle (children.foldl Scope.behind scope).graph⟩ :: last)
      (scriptIn (some site) scope' site 0 (strippedIn cut site 0 children) ++
        ⟨site, inside,
          .settle ((strippedIn cut site 0 children).foldl Scope.behind scope').graph⟩ :: last) := by
  refine List.rel_append body (.cons (.mk site inside (.settle ?_)) tail)
  by_cases within : cut <+: site
  · exact Or.inl within
  · rw [foldl_behind_strippedIn within, same.resolve_left within]
    exact Or.inr rfl

mutual

/-- Without the defaults below a site, a statement has the same script up to the attributes in the
lines below that site. -/
theorem script_stripped : ∀ (tree : Tree) (inside : Option Site) (scope scope' : Scope)
    (site : Site), (cut <+: site ∨ scope = scope') →
    List.Forall₂ (Line.Alike cut) (tree.script inside scope site)
      ((tree.stripped cut site).script inside scope' site)
  | .graph kind id isStrict children, inside, scope, scope', site, same => by
      have body := scriptIn_stripped children (some site) scope scope' site 0 same
      rw [stripped, script, script]
      refine .cons (.mk site inside (.enter id)) (List.rel_append ?_ (settled_alike same body .nil))
      split
      · exact .cons (.mk site inside (.promote kind isStrict)) .nil
      · exact .nil
  | .subgraph id children, inside, scope, scope', site, same => by
      have body := scriptIn_stripped children (some site) scope scope' site 0 same
      rw [stripped, script, script]
      exact .cons (.mk site inside (.enter id)) (settled_alike same body .nil)
  | .nodeStmt subject attrs, inside, scope, scope', site, same => by
      simp only [stripped, script]
      split
      · next id _ =>
          have sameNodes := same.imp_right (congrArg Scope.node)
          exact .cons (.mk site inside (.mention id (sameNodes.imp_right fun eq => ⟨rfl, eq⟩))) .nil
      · exact .nil
  | .edgeStmt endpoints attrs, inside, scope, scope', site, same => by
      have body := endpointScripts_stripped endpoints inside scope scope' site 0 same
      have sameEdges := same.imp_right (congrArg Scope.edge)
      rw [stripped, script, script, length_strippedEndpoints]
      exact List.rel_append body
        (.cons (.mk site inside (.connect _ (sameEdges.imp_right fun eq => ⟨rfl, eq⟩))) .nil)
  | .attrStmt target attrs, inside, scope, scope', site, same => by
      change List.Forall₂ _ _ ((attrStmt target attrs).script inside scope' site)
      rw [script_attrStmt, script_attrStmt]
      split
      · exact .nil
      · exact .cons (.mk site inside (.skip _)) .nil
  | .nodeId _, inside, _, _, site, _ => .cons (.mk site inside (.skip _)) .nil
  | .attr _, inside, _, _, site, _ => .cons (.mk site inside (.skip _)) .nil
  | .unknown _ _ _, inside, _, _, site, _ => .cons (.mk site inside (.skip _)) .nil
  | .raw _, inside, _, _, site, _ => .cons (.mk site inside (.skip _)) .nil
  | .list _, inside, _, _, site, _ => .cons (.mk site inside (.skip _)) .nil

theorem scriptIn_stripped : ∀ (trees : List Tree) (inside : Option Site) (scope scope' : Scope)
    (site : Site) (number : Nat), (cut <+: site ∨ scope = scope') →
    List.Forall₂ (Line.Alike cut) (scriptIn inside scope site number trees)
      (scriptIn inside scope' site number (strippedIn cut site number trees))
  | [], _, _, _, _, _, _ => .nil
  | tree :: rest, inside, scope, scope', site, number, same => by
      rw [strippedIn]
      split
      · next dropped =>
          rw [List.nil_append, scriptIn, script_of_setsDefaults dropped.2, List.nil_append,
            numberBehind, if_pos dropped.2]
          exact scriptIn_stripped rest inside _ scope' site number (Or.inl dropped.1)
      · have sameBehind := same.imp_right (congrArg fun scope => scope.behind tree)
        rw [List.singleton_append, scriptIn, scriptIn, behind_stripped, numberBehind_stripped]
        exact List.rel_append
          (script_stripped tree inside scope scope' (site ++ [number])
            (same.imp_left fun within => within.trans (List.prefix_append site [number])))
          (scriptIn_stripped rest inside _ _ site _ sameBehind)

theorem endpointScript_stripped : ∀ (tree : Tree) (inside : Option Site) (scope scope' : Scope)
    (site : Site), (cut <+: site ∨ scope = scope') →
    List.Forall₂ (Line.Alike cut) (tree.endpointScript inside scope site)
      ((tree.stripped cut site).endpointScript inside scope' site)
  | .subgraph id children, inside, scope, scope', site, same => by
      have body := scriptIn_stripped children (some site) scope scope' site 0 same
      rw [stripped, endpointScript, endpointScript]
      exact .cons (.mk site inside (.enter id))
        (settled_alike same body (.cons (.mk site inside .gather) .nil))
  | .nodeId node, inside, _, _, site, same =>
      .cons (.mk site inside (.refer node (same.imp_right (congrArg Scope.node)))) .nil
  | .graph _ _ _ _, inside, _, _, site, _ =>
      .cons (.mk site inside (.skip _)) (.cons (.mk site inside .blank) .nil)
  | .nodeStmt _ _, inside, _, _, site, _ =>
      .cons (.mk site inside (.skip _)) (.cons (.mk site inside .blank) .nil)
  | .edgeStmt _ _, inside, _, _, site, _ =>
      .cons (.mk site inside (.skip _)) (.cons (.mk site inside .blank) .nil)
  | .attrStmt _ _, inside, _, _, site, _ =>
      .cons (.mk site inside (.skip _)) (.cons (.mk site inside .blank) .nil)
  | .attr _, inside, _, _, site, _ =>
      .cons (.mk site inside (.skip _)) (.cons (.mk site inside .blank) .nil)
  | .unknown _ _ _, inside, _, _, site, _ =>
      .cons (.mk site inside (.skip _)) (.cons (.mk site inside .blank) .nil)
  | .raw _, inside, _, _, site, _ =>
      .cons (.mk site inside (.skip _)) (.cons (.mk site inside .blank) .nil)
  | .list _, inside, _, _, site, _ =>
      .cons (.mk site inside (.skip _)) (.cons (.mk site inside .blank) .nil)

theorem endpointScripts_stripped : ∀ (trees : List Tree) (inside : Option Site)
    (scope scope' : Scope) (site : Site) (number : Nat), (cut <+: site ∨ scope = scope') →
    List.Forall₂ (Line.Alike cut) (endpointScripts inside scope site number trees)
      (endpointScripts inside scope' site number (strippedEndpoints cut site number trees))
  | [], _, _, _, _, _, _ => .nil
  | tree :: rest, inside, scope, scope', site, number, same => by
      rw [strippedEndpoints, endpointScripts, endpointScripts]
      exact List.rel_append
        (endpointScript_stripped tree inside scope scope' (site ++ [number])
          (same.imp_left fun within => within.trans (List.prefix_append site [number])))
        (endpointScripts_stripped rest inside scope scope' site (number + 1) same)

end

end Tree

theorem map_bare_edgesAlong (attrs defaults attrs' defaults' : Attributes)
    (groups : List EndpointGroup) :
    (edgesAlong attrs defaults groups).map Edge.bare =
      (edgesAlong attrs' defaults' groups).map Edge.bare := by
  induction groups with
  | nil => rfl
  | cons tail rest ih =>
      cases rest with
      | nil => rfl
      | cons head rest =>
          have between (attrs defaults : Attributes) :
              (edgesBetween attrs defaults tail head).map Edge.bare =
                tail.nodes.flatMap fun tailNode => head.nodes.map fun headNode =>
                  { tail := tailNode, head := headNode } := by
            rw [edgesBetween, List.map_flatMap]
            simp only [List.map_map]
            rfl
          rw [edgesAlong, edgesAlong, List.map_append, List.map_append, between, between, ih]

def Creation.blurred (cut : Site) (creation : Creation) : Creation :=
  if cut <+: creation.site then { creation with edge := creation.edge.bare } else creation

namespace Recorder

/-- Hides what was mentioned and entered below a site. -/
def veil (cut : Site) (recorder : Recorder) : Veil where
  node id := ∃ naming ∈ recorder.namings, cut <+: naming.site ∧ naming.node = id
  scope key := ∃ entry ∈ recorder.entries, cut <+: entry.site ∧ entry.key = key

/-- Behind the veil two records are the same. -/
structure Alike (cut : Site) (first second : Recorder) : Prop where
  groups_eq : second.groups = first.groups
  entries_eq : second.entries = first.entries
  namings_eq : second.namings = first.namings
  creations_eq : second.creations.map (Creation.blurred cut) =
    first.creations.map (Creation.blurred cut)
  looks_eq : (first.veil cut).showState second.state = (first.veil cut).showState first.state

variable {cut : Site} {options : WalkOptions} {first second : Recorder}

theorem veil_covers (entries : first.entries ⊆ second.entries)
    (namings : first.namings ⊆ second.namings) : (second.veil cut).Covers (first.veil cut) := by
  constructor
  · intro id hidden
    rcases of_decide_eq_true hidden with ⟨naming, naming_mem, within⟩
    exact decide_eq_true ⟨naming, namings naming_mem, within⟩
  · intro key hidden
    rcases of_decide_eq_true hidden with ⟨entry, entry_mem, within⟩
    exact decide_eq_true ⟨entry, entries entry_mem, within⟩

namespace Alike

theorem change (alike : Alike cut first second) {state state' : WalkState}
    (looks_eq : (first.veil cut).showState state' = (first.veil cut).showState state) :
    Alike cut { first with state } { second with state := state' } :=
  ⟨alike.groups_eq, alike.entries_eq, alike.namings_eq, alike.creations_eq, looks_eq⟩

theorem push (alike : Alike cut first second) (group : EndpointGroup) :
    Alike cut { first with groups := group :: first.groups }
      { second with groups := group :: second.groups } :=
  ⟨congrArg (group :: ·) alike.groups_eq, alike.entries_eq, alike.namings_eq, alike.creations_eq,
    alike.looks_eq⟩

theorem looks (alike : Alike cut first second) {veil : Veil}
    (covers : veil.Covers (first.veil cut)) :
    veil.showState second.state = veil.showState first.state := by
  rw [← covers.showState second.state, alike.looks_eq, covers.showState]

theorem keyAt_eq (alike : Alike cut first second) : second.keyAt? = first.keyAt? := by
  funext site
  rw [keyAt?, alike.entries_eq, keyAt?]

theorem keys_nodes (alike : Alike cut first second) :
    second.state.model.nodes.keys = first.state.model.nodes.keys := by
  have keys_eq := congrArg (fun state => state.model.nodes.keys) alike.looks_eq
  simpa [Veil.showState, Veil.showModel] using keys_eq

theorem enter (alike : Alike cut first second) (site : Site) (inside : Option Site)
    (id : Option String) :
    Alike cut (first.follow options ⟨site, inside, .enter id⟩)
      (second.follow options ⟨site, inside, .enter id⟩) := by
  let later := first.follow options ⟨site, inside, .enter id⟩
  have covers : (later.veil cut).Covers (first.veil cut) :=
    veil_covers (List.subset_append_left _ _) (List.Subset.refl _)
  have looks := alike.looks covers
  have key_eq : Walk.entryKey options id second.state = Walk.entryKey options id first.state := by
    rw [← (later.veil cut).entryKey_showState, looks, Veil.entryKey_showState]
  have entries_eq : (second.follow options ⟨site, inside, .enter id⟩).entries = later.entries := by
    simp only [later, Recorder.follow, alike.entries_eq, key_eq]
  refine ⟨alike.groups_eq, entries_eq, alike.namings_eq, alike.creations_eq, ?_⟩
  change (later.veil cut).showState (Walk.after (Walk.enter options (inside.bind second.keyAt?) id)
    second.state) = (later.veil cut).showState (Walk.after (Walk.enter options
    (inside.bind first.keyAt?) id) first.state)
  rw [Veil.showState_after_enter, Veil.showState_after_enter, looks, alike.keyAt_eq]

theorem promote (alike : Alike cut first second) (site : Site) (inside : Option Site)
    (kind : String) (isStrict : Bool) :
    Alike cut (first.follow options ⟨site, inside, .promote kind isStrict⟩)
      (second.follow options ⟨site, inside, .promote kind isStrict⟩) := by
  simp only [Recorder.follow, alike.keyAt_eq]
  cases first.keyAt? site with
  | none => exact alike
  | some key =>
      apply alike.change
      rw [Veil.showState_after_promote, Veil.showState_after_promote, alike.looks_eq]

theorem settle (alike : Alike cut first second) (site : Site) (inside : Option Site)
    {attrs attrs' : Attributes} (same : cut <+: site ∨ attrs = attrs') :
    Alike cut (first.follow options ⟨site, inside, .settle attrs⟩)
      (second.follow options ⟨site, inside, .settle attrs'⟩) := by
  simp only [Recorder.follow, alike.keyAt_eq]
  cases found : first.keyAt? site with
  | none => exact alike
  | some key =>
      apply alike.change
      cases hidden : (first.veil cut).scope key with
      | true =>
          rw [Veil.showState_after_settle_of_hidden _ hidden,
            Veil.showState_after_settle_of_hidden _ hidden, alike.looks_eq]
      | false =>
          have outside : ¬cut <+: site := by
            intro within
            rcases exists_entry_of_keyAt? found with ⟨entry, entry_mem, rfl, rfl⟩
            exact of_decide_eq_false hidden ⟨entry, entry_mem, within, rfl⟩
          rw [Veil.showState_after_settle_of_shown _ hidden,
            Veil.showState_after_settle_of_shown _ hidden, alike.looks_eq,
            same.resolve_left outside]

theorem gather (alike : Alike cut first second) (site : Site) (inside : Option Site) :
    Alike cut (first.follow options ⟨site, inside, .gather⟩)
      (second.follow options ⟨site, inside, .gather⟩) := by
  simp only [Recorder.follow, alike.keyAt_eq]
  cases first.keyAt? site with
  | none => exact alike
  | some key =>
      have nodes_eq := congrArg (fun state => state.model.graphs.allNodes key) alike.looks_eq
      simp only [Veil.showState, Veil.showModel, Veil.allNodes_showGraphs] at nodes_eq
      simp only [nodes_eq]
      exact alike.push _

/-- A node is named, which is hidden then if the naming is below the site. -/
theorem name (alike : Alike cut first second) (naming : Naming) {state state' : WalkState}
    (looks : ∀ veil : Veil, veil.showState second.state = veil.showState first.state →
      (cut <+: naming.site → veil.node naming.node) →
        veil.showState state' = veil.showState state) :
    Alike cut { first with state, namings := first.namings ++ [naming] }
      { second with state := state', namings := second.namings ++ [naming] } := by
  refine ⟨alike.groups_eq, alike.entries_eq, congrArg (· ++ [naming]) alike.namings_eq,
    alike.creations_eq, looks _ (alike.looks ?_) fun within => ?_⟩
  · exact veil_covers (List.Subset.refl _) (List.subset_append_left _ _)
  · have naming_mem := List.mem_append_right first.namings (List.mem_singleton_self naming)
    exact decide_eq_true ⟨naming, naming_mem, within, rfl⟩

theorem mention (alike : Alike cut first second) (wellFormed : first.state.model.WellFormed)
    (wellFormed' : second.state.model.WellFormed) (site : Site) (inside : Option Site) (id : String)
    {attrs defaults attrs' defaults' : Attributes}
    (same : cut <+: site ∨ attrs = attrs' ∧ defaults = defaults') :
    Alike cut (first.follow options ⟨site, inside, .mention id attrs defaults⟩)
      (second.follow options ⟨site, inside, .mention id attrs' defaults'⟩) := by
  simp only [Recorder.follow, alike.keyAt_eq]
  apply alike.name
  intro veil looks hidden
  exact veil.showState_after_mention_eq (same.imp_left hidden) _ wellFormed wellFormed' looks

theorem refer (alike : Alike cut first second) (wellFormed : first.state.model.WellFormed)
    (wellFormed' : second.state.model.WellFormed) (site : Site) (inside : Option Site)
    (node : NodeId) {defaults defaults' : Attributes} (same : cut <+: site ∨ defaults = defaults') :
    Alike cut (first.follow options ⟨site, inside, .refer node defaults⟩)
      (second.follow options ⟨site, inside, .refer node defaults'⟩) := by
  simp only [Recorder.follow, alike.keyAt_eq, alike.keys_nodes]
  apply (alike.push _).name
  intro veil looks hidden
  split
  · exact looks
  · exact veil.showState_after_mention_eq ((same.imp_left hidden).imp_right (And.intro rfl)) _
      wellFormed wellFormed' looks

theorem connect (alike : Alike cut first second) (site : Site) (inside : Option Site) (count : Nat)
    {attrs defaults attrs' defaults' : Attributes}
    (same : cut <+: site ∨ attrs = attrs' ∧ defaults = defaults') :
    Alike cut (first.follow options ⟨site, inside, .connect count attrs defaults⟩)
      (second.follow options ⟨site, inside, .connect count attrs' defaults'⟩) := by
  simp only [Recorder.follow, alike.keyAt_eq, alike.groups_eq]
  refine ⟨rfl, alike.entries_eq, alike.namings_eq, ?_, ?_⟩
  · rw [List.map_append, List.map_append, alike.creations_eq]
    congr 1
    by_cases within : cut <+: site
    · have blurred_eq (edges : List Edge) :
          (edges.map fun edge => ({ site, inside, owner := inside.bind first.keyAt?, edge } :
            Creation)).map (Creation.blurred cut) =
          (edges.map Edge.bare).map fun edge =>
            { site, inside, owner := inside.bind first.keyAt?, edge } := by
        simp [Creation.blurred, within]
      rw [blurred_eq, blurred_eq, map_bare_edgesAlong]
    · rcases same.resolve_left within with ⟨rfl, rfl⟩
      rfl
  · change (first.veil cut).showState _ = (first.veil cut).showState _
    rw [Veil.showState_after_createEdges, Veil.showState_after_createEdges, alike.looks_eq,
      map_bare_edgesAlong]

theorem skip (alike : Alike cut first second) (site : Site) (inside : Option Site)
    (diagnostic : String) :
    Alike cut (first.follow options ⟨site, inside, .skip diagnostic⟩)
      (second.follow options ⟨site, inside, .skip diagnostic⟩) :=
  alike.change (congrArg (WalkState.skipped diagnostic) alike.looks_eq)

/-- Two lines that do the same up to attributes below the site keep two records alike. -/
theorem follow (alike : Alike cut first second) (sound : first.Sound) (sound' : second.Sound)
    {line line' : Line} (same : line.Alike cut line') :
    Alike cut (first.follow options line) (second.follow options line') := by
  have wellFormed := sound.resolved.toWellFormed
  have wellFormed' := sound'.resolved.toWellFormed
  rcases same with ⟨site, inside, same⟩
  cases same with
  | enter id => exact alike.enter site inside id
  | promote kind isStrict => exact alike.promote site inside kind isStrict
  | settle same => exact alike.settle site inside same
  | gather => exact alike.gather site inside
  | mention id same => exact alike.mention wellFormed wellFormed' site inside id same
  | refer node same => exact alike.refer wellFormed wellFormed' site inside node same
  | skip diagnostic => exact alike.skip site inside diagnostic
  | blank => exact alike.push _
  | connect count same => exact alike.connect site inside count same

theorem run (alike : Alike cut first second) (sound : first.Sound) (sound' : second.Sound)
    {script script' : List Line} (same : List.Forall₂ (Line.Alike cut) script script') :
    Alike cut (first.run options script) (second.run options script') := by
  induction same generalizing first second with
  | nil => exact alike
  | cons line _ ih => exact ih (alike.follow sound sound' line) (sound.follow _) (sound'.follow _)

theorem join {third : Recorder} (left : Alike cut first third) (right : Alike cut second third) :
    Alike cut first second where
  groups_eq := right.groups_eq.symm.trans left.groups_eq
  entries_eq := right.entries_eq.symm.trans left.entries_eq
  namings_eq := right.namings_eq.symm.trans left.namings_eq
  creations_eq := right.creations_eq.symm.trans left.creations_eq
  looks_eq := by
    have same_veil : second.veil cut = first.veil cut := by
      rw [veil, ← right.entries_eq, ← right.namings_eq, left.entries_eq, left.namings_eq, veil]
    have looks_eq := right.looks_eq
    rw [same_veil] at looks_eq
    exact looks_eq.symm.trans left.looks_eq

theorem bare_eq (alike : Alike cut first second) :
    second.state.model.bare = first.state.model.bare := by
  let everything : Veil := ⟨fun _ => true, fun _ => true⟩
  have covers : everything.Covers (first.veil cut) := ⟨fun _ _ => rfl, fun _ _ => rfl⟩
  exact congrArg WalkState.model (alike.looks covers)

theorem node_eq (alike : Alike cut first second) {id : String}
    (elsewhere : ∀ naming ∈ first.namings, naming.node = id → ¬cut <+: naming.site) :
    second.state.model.nodes.get? id = first.state.model.nodes.get? id := by
  have shown : (first.veil cut).node id = false := by
    refine decide_eq_false ?_
    rintro ⟨naming, naming_mem, within, node_eq⟩
    exact elsewhere naming naming_mem node_eq within
  have itself : (first.veil cut).showNode id = fun node => node := by
    funext node
    simp [Veil.showNode, shown]
  have looks := congrArg (fun state => state.model.nodes.get? id) alike.looks_eq
  simpa [Veil.showState, Veil.showModel, OrderedMap.get?_mapValues, itself] using looks

theorem subgraph_eq (alike : Alike cut first second) {key : String}
    (elsewhere : ∀ entry ∈ first.entries, entry.key = key → ¬cut <+: entry.site) :
    second.state.model.graphs.get? key = first.state.model.graphs.get? key := by
  have shown : (first.veil cut).scope key = false := by
    refine decide_eq_false ?_
    rintro ⟨entry, entry_mem, within, key_eq⟩
    exact elsewhere entry entry_mem key_eq within
  have itself : (first.veil cut).showScope key = fun subgraph => subgraph := by
    funext subgraph
    simp [Veil.showScope, shown]
  have looks := congrArg (fun state => state.model.graphs.get? key) alike.looks_eq
  simpa [Veil.showState, Veil.showModel, itself] using looks

theorem creation_eq (alike : Alike cut first second) {number : Nat} {creation : Creation}
    (created : first.creations[number]? = some creation) (elsewhere : ¬cut <+: creation.site) :
    second.creations[number]? = some creation := by
  have blurred_eq := congrArg (·[number]?) alike.creations_eq
  rw [List.getElem?_map, List.getElem?_map, created, Option.map_some, Option.map_eq_some_iff]
    at blurred_eq
  rcases blurred_eq with ⟨other, found, same⟩
  have same_site : other.site = creation.site := by
    have site_eq (creation : Creation) : (creation.blurred cut).site = creation.site := by
      rw [Creation.blurred]
      split <;> rfl
    rw [← site_eq other, same, site_eq]
  rw [Creation.blurred, Creation.blurred, same_site, if_neg elsewhere, if_neg elsewhere] at same
  rw [found, same]

end Alike

end Recorder

namespace Tree

/-- Without the defaults below a site, a document has the same record up to the attributes of what
is touched below that site. -/
theorem record_stripped (options : WalkOptions) (cut : Site) (tree : Tree) :
    Recorder.Alike cut (tree.record options) ((tree.stripped cut []).record options) := by
  have same : List.Forall₂ (Line.Alike cut) tree.documentScript
      (tree.stripped cut []).documentScript := by
    cases tree with
    | list items => exact scriptIn_stripped items none ∅ ∅ [] 0 (Or.inr rfl)
    | _ => exact script_stripped _ none ∅ ∅ [] (Or.inr rfl)
  exact Recorder.Alike.run ⟨rfl, rfl, rfl, rfl, rfl⟩ Recorder.sound_empty Recorder.sound_empty same

theorem namesNodes_of_setsDefaults {tree : Tree} (defaults : tree.setsDefaults) :
    tree.namesNodes = true := by
  cases tree with
  | attrStmt target attrs => rfl
  | _ => cases defaults

mutual

theorem namesNodes_stripped (cut : Site) : ∀ (tree : Tree) (site : Site),
    (tree.stripped cut site).namesNodes = tree.namesNodes
  | .graph _ _ _ children, site => allNameNodes_strippedIn cut children site 0
  | .subgraph _ children, site => allNameNodes_strippedIn cut children site 0
  | .list items, site => allNameNodes_strippedIn cut items site 0
  | .edgeStmt endpoints _, site => allNameNodes_strippedEndpoints cut endpoints site 0
  | .nodeStmt _ _, _ | .attrStmt _ _, _ | .nodeId _, _ | .attr _, _ | .unknown _ _ _, _
  | .raw _, _ => rfl

theorem allNameNodes_strippedIn (cut : Site) : ∀ (trees : List Tree) (site : Site) (number : Nat),
    allNameNodes (strippedIn cut site number trees) = allNameNodes trees
  | [], _, _ => rfl
  | tree :: rest, site, number => by
      have behind := allNameNodes_strippedIn cut rest site (tree.numberBehind number)
      rw [strippedIn, allNameNodes, ← behind]
      split
      · next dropped =>
          rw [List.nil_append, namesNodes_of_setsDefaults dropped.2, Bool.true_and]
      · rw [List.singleton_append, allNameNodes, namesNodes_stripped]

theorem allNameNodes_strippedEndpoints (cut : Site) : ∀ (trees : List Tree) (site : Site)
    (number : Nat), allNameNodes (strippedEndpoints cut site number trees) = allNameNodes trees
  | [], _, _ => rfl
  | tree :: rest, site, number => by
      rw [strippedEndpoints, allNameNodes, allNameNodes, namesNodes_stripped,
        allNameNodes_strippedEndpoints]

end

end Tree

namespace Model

/-- Take two documents that differ only in statements that set defaults, in the body of one
statement. Their models are the same up to attributes. The attributes are the same as well for nodes
that this statement does not mention, edges that are not created in its body, and subgraphs that it
does not enter. -/
theorem walk_isolated {options : WalkOptions} (lenient : options.isStrict = false)
    {tree tree' : Tree} (named : tree.namesNodes) (cut : Site)
    (same : tree'.stripped cut [] = tree.stripped cut []) :
    let walked := Model.walk options .plain tree ∅
    let walked' := Model.walk options .plain tree' ∅
    let record := tree.record options
    walked.failure = none ∧ walked'.failure = none ∧
      walked'.model.bare = walked.model.bare ∧
      (∀ id, (∀ naming ∈ record.namings, naming.node = id → ¬cut <+: naming.site) →
        walked'.model.nodes.get? id = walked.model.nodes.get? id) ∧
      (∀ (number : Nat) creation, record.creations[number]? = some creation →
        ¬cut <+: creation.site →
        walked.model.edges[number]? = some creation.edge ∧
          walked'.model.edges[number]? = some creation.edge) ∧
      ∀ key, (∀ entry ∈ record.entries, entry.key = key → ¬cut <+: entry.site) →
        walked'.model.graphs.get? key = walked.model.graphs.get? key := by
  intro walked walked' record
  have named' : tree'.namesNodes := by
    rw [← tree'.namesNodes_stripped cut [], same, tree.namesNodes_stripped]
    exact named
  let record' := tree'.record options
  have walked_eq : walked = ⟨record.state.model, _, none⟩ := walk_eq_record lenient named
  have walked_eq' : walked' = ⟨record'.state.model, _, none⟩ := walk_eq_record lenient named'
  have alike : Recorder.Alike cut record record' :=
    .join (tree.record_stripped options cut) (same ▸ tree'.record_stripped options cut)
  have edges_eq : record.state.model.edges = record.creations.map Creation.edge :=
    (tree.record_owned options).edges_eq
  have edges_eq' : record'.state.model.edges = record'.creations.map Creation.edge :=
    (tree'.record_owned options).edges_eq
  rw [walked_eq, walked_eq']
  refine ⟨rfl, rfl, alike.bare_eq, fun _ => alike.node_eq, ?_, fun _ => alike.subgraph_eq⟩
  intro number creation created elsewhere
  constructor
  · rw [edges_eq, List.getElem?_map, created, Option.map_some]
  · rw [edges_eq', List.getElem?_map, alike.creation_eq created elsewhere, Option.map_some]

/-- Other defaults in a subgraph that is an endpoint. -/
theorem walk_isolated_of_endpoint :
    let node (id : String) : Tree := .nodeStmt (.nodeId { id }) []
    let colored (color : String) : Tree := .attrStmt "node" [⟨"color", .text color⟩]
    let tree (color : String) : Tree := .graph "digraph" (some "g") false [
      colored "red",
      node "a",
      .edgeStmt [.subgraph (some "s") [colored color, node "b"], .nodeId { id := "c" }] [],
      .subgraph (some "t") [node "d"]]
    let model (color : String) := (Model.walk {} .plain (tree color) ∅).model
    (∀ color, ((model color).nodes.get? "b").bind (·.attrs.get? "color") = some (.text color)) ∧
      (model "blue").bare = (model "green").bare ∧
      (∀ id ∈ ["a", "c", "d"], (model "blue").nodes.get? id = (model "green").nodes.get? id) ∧
      (model "blue").edges[0]? = (model "green").edges[0]? ∧
      ∀ key ∈ ["g", "t"], (model "blue").graphs.get? key = (model "green").graphs.get? key := by
  intro node colored tree model
  have isolated := @walk_isolated {} rfl (tree "green") (tree "blue") rfl [1, 0] rfl
  rcases isolated with ⟨-, -, bare_eq, nodes_eq, edges_eq, graphs_eq⟩
  refine ⟨fun _ => rfl, bare_eq, fun id id_mem => nodes_eq id ?_, ?_,
    fun key key_mem => graphs_eq key ?_⟩
  · revert id
    decide +kernel
  · have site_eq : (((tree "green").record {}).creations[0]?).map Creation.site = some [1] := by
      decide +kernel
    rcases Option.map_eq_some_iff.mp site_eq with ⟨creation, created, creation_site⟩
    have elsewhere : ¬[1, 0] <+: creation.site := by
      rw [creation_site]
      decide
    rcases edges_eq 0 creation created elsewhere with ⟨edge_eq, edge_eq'⟩
    exact edge_eq'.trans edge_eq.symm
  · revert key
    decide +kernel

end Model

end DotLang
