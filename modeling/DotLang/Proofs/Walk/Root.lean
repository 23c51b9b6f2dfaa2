import DotLang.Proofs.Walk.Owners

/-!
# Which graph is the root

Every graph at the top level of a document is promoted when it is entered, and
this is all that a walk does about the root: the rest of a script keeps the root
of the model, with its id, its kind and its strictness (`Recorder.run_sameRoot`).

The first promotion makes a root, and the later ones of the same subgraph change
its kind and can make the model strict. So the root of a document can be read off
its promotions (`Model.RootedBy`), and no other statement has a say in it
(`Model.root_of_walk`).
-/

namespace DotLang

/-- A graph at the top level of a document, at its site. -/
structure Promotion where
  site : Site
  kind : String
  isStrict : Bool

/-- The promotions of the subgraph with a key, where a promotion is of the subgraph that was entered
at its site. -/
def Promotion.entering (keyAt? : Site → Option String) (key : String)
    (promotions : List Promotion) : List Promotion :=
  promotions.filter fun promotion => keyAt? promotion.site = some key

theorem Promotion.entering_concat (keyAt? : Site → Option String) (key : String)
    (promotions : List Promotion) (last : Promotion) :
    entering keyAt? key (promotions ++ [last]) =
      entering keyAt? key promotions ++ if keyAt? last.site = some key then [last] else [] := by
  rw [entering, List.filter_append, List.filter_singleton, Bool.cond_decide]
  rfl

namespace Tree

def promotions (site : Site) : Tree → List Promotion
  | .graph kind _ isStrict _ => [{ site, kind, isStrict }]
  | _ => []

def promotionsIn (site : Site) (number : Nat) : List Tree → List Promotion
  | [] => []
  | tree :: rest =>
      tree.promotions (site ++ [number]) ++ promotionsIn site (tree.numberBehind number) rest

/-- The graphs at the top level of a document. -/
def documentPromotions : Tree → List Promotion
  | .list items => promotionsIn [] 0 items
  | tree => tree.promotions []

end Tree

namespace Model

theorem hasOtherRoot_iff (model : Model) {key : String} :
    model.hasOtherRoot key = true ↔ ∃ root, model.root = some root ∧ root ≠ key := by
  rw [hasOtherRoot]
  cases model.root <;> simp

/-- Both models have the same root, with the same id and kind, or both have none. -/
structure SameRoot (first second : Model) : Prop where
  root_eq : second.root = first.root
  id_eq : second.id = first.id
  kind_eq : second.kind = first.kind
  isStrict_eq : second.isStrict = first.isStrict
  subgraph : ∀ key ∈ first.root, ∀ old, first.graphs.get? key = some old →
    ∃ new, second.graphs.get? key = some new ∧ new.id = old.id ∧ new.kind = old.kind

namespace SameRoot

variable {first second third : Model}

theorem refl (model : Model) : model.SameRoot model :=
  ⟨rfl, rfl, rfl, rfl, fun _ _ old found => ⟨old, found, rfl, rfl⟩⟩

theorem trans (early : first.SameRoot second) (late : second.SameRoot third) :
    first.SameRoot third where
  root_eq := late.root_eq.trans early.root_eq
  id_eq := late.id_eq.trans early.id_eq
  kind_eq := late.kind_eq.trans early.kind_eq
  isStrict_eq := late.isStrict_eq.trans early.isStrict_eq
  subgraph key key_mem old found := by
    rcases early.subgraph key key_mem old found with ⟨middle, found', id_eq, kind_eq⟩
    rcases late.subgraph key (early.root_eq ▸ key_mem) middle found' with
      ⟨new, found'', id_eq', kind_eq'⟩
    exact ⟨new, found'', id_eq'.trans id_eq, kind_eq'.trans kind_eq⟩

theorem hasOtherRoot_eq (same : first.SameRoot second) (key : String) :
    second.hasOtherRoot key = first.hasOtherRoot key := by
  rw [hasOtherRoot, hasOtherRoot, same.root_eq]

/-- A change of the nodes, the edges and one subgraph, of which it keeps the id and the kind. -/
theorem of_modify {nodes : OrderedMap String Node} {edges : List Edge} {diagnostics : List String}
    (key : String) (change : Subgraph → Subgraph) (sameId : ∀ old, (change old).id = old.id)
    (sameKind : ∀ old, (change old).kind = old.kind) :
    first.SameRoot
      { first with nodes, edges, diagnostics, graphs := first.graphs.modify key change } := by
  refine ⟨rfl, rfl, rfl, rfl, fun root _ old found => ?_⟩
  simp only [OrderedMap.get?_modify, found]
  split
  · exact ⟨change old, rfl, sameId old, sameKind old⟩
  · exact ⟨old, rfl, rfl, rfl⟩

/-- A change of the nodes, the edges and the diagnostics only. -/
theorem of_sameGraphs {nodes : OrderedMap String Node} {edges : List Edge}
    {diagnostics : List String} : first.SameRoot { first with nodes, edges, diagnostics } :=
  ⟨rfl, rfl, rfl, rfl, fun _ _ old found => ⟨old, found, rfl, rfl⟩⟩

end SameRoot

end Model

namespace Walk

theorem sameRoot_enter (options : WalkOptions) (parent id : Option String) (state : WalkState) :
    state.model.SameRoot (after (enter options parent id) state).model := by
  rw [model_after_enter]
  dsimp only
  split
  · exact .refl _
  · next absent =>
      refine ⟨rfl, rfl, rfl, rfl, fun root _ old found => ?_⟩
      rcases get?_plant_of_found parent { key := entryKey options id state, id } absent found with
        ⟨children, newFound⟩
      exact ⟨_, newFound, rfl, rfl⟩

theorem sameRoot_settle (key : String) (attrs : Attributes) (state : WalkState) :
    state.model.SameRoot (after (settle key attrs) state).model :=
  .of_modify key _ (fun _ => rfl) fun _ => rfl

theorem sameRoot_mention (id : String) (attrs defaults : Attributes) (parent : Option String)
    (state : WalkState) :
    state.model.SameRoot (after (mention id attrs defaults parent) state).model := by
  cases parent with
  | none => exact .of_sameGraphs
  | some above =>
      have same (old : Subgraph) :
          (old.addNode id).id = old.id ∧ (old.addNode id).kind = old.kind := by
        rw [Subgraph.addNode]
        split <;> exact ⟨rfl, rfl⟩
      exact .of_modify above (fun subgraph => subgraph.addNode id) (fun old => (same old).1)
        fun old => (same old).2

theorem sameRoot_createEdges (parent : Option String) (edges : List Edge) (state : WalkState) :
    state.model.SameRoot (after (createEdges parent edges) state).model := by
  cases parent with
  | none => exact .of_sameGraphs
  | some above => exact .of_modify above _ (fun _ => rfl) fun _ => rfl

theorem sameRoot_promoted {model : Model} {key : String} (other : model.hasOtherRoot key = true)
    (kind : String) (isStrict : Bool) : model.SameRoot (promoted key kind isStrict model) := by
  have ignored : promoted key kind isStrict model =
      { model with graphs := model.graphs.modify key fun subgraph => { subgraph with kind } } :=
    if_pos other
  rcases model.hasOtherRoot_iff.mp other with ⟨root, root_eq, differs⟩
  rw [ignored]
  refine ⟨rfl, rfl, rfl, rfl, fun wanted wanted_mem old found => ⟨old, ?_, rfl, rfl⟩⟩
  have same : wanted = root := Option.some.inj (wanted_mem.symm.trans root_eq)
  simp only [OrderedMap.get?_modify, if_neg (same ▸ differs), found]

/-- The promotion of a graph that becomes the root or is the root already. -/
theorem promoted_of_found {model : Model} {key : String} (own : model.hasOtherRoot key = false)
    {old : Subgraph} (found : model.graphs.get? key = some old) (kind : String)
    (isStrict : Bool) :
    promoted key kind isStrict model =
      { model with
        graphs := model.graphs.modify key fun subgraph => { subgraph with kind }
        root := some key
        id := old.id
        kind
        isStrict := model.isStrict || isStrict } := by
  have sameRoot (graphs : Forest) : Model.hasOtherRoot { model with graphs } key = false := own
  simp [promoted, Model.setRoot, sameRoot, OrderedMap.get?_modify, found]

end Walk

/-! ### What keeps the root -/

def Line.promotion? : Line → Option Promotion
  | ⟨site, _, .promote kind isStrict⟩ => some { site, kind, isStrict }
  | _ => none

namespace Tree

mutual

/-- Only a graph at the top level is promoted. -/
theorem promotions_script : ∀ (tree : Tree) (inside : Option Site) (scope : Scope) (site : Site),
    (tree.script inside scope site).filterMap Line.promotion? =
      if inside.isNone then tree.promotions site else []
  | .graph kind id isStrict children, inside, scope, site => by
      simp only [script, promotions, List.filterMap_cons, List.filterMap_append, Line.promotion?,
        promotions_scriptIn children]
      cases inside <;> rfl
  | .subgraph id children, inside, scope, site => by
      simp only [script, promotions, List.filterMap_cons, List.filterMap_append, Line.promotion?,
        promotions_scriptIn children]
      exact (ite_self []).symm
  | .nodeStmt subject attrs, inside, scope, site => by
      simp only [script, promotions]
      split <;> simp [Line.promotion?]
  | .edgeStmt endpoints attrs, inside, scope, site => by
      simp [script, promotions, Line.promotion?, promotions_endpointScripts endpoints]
  | .attrStmt target attrs, inside, scope, site => by
      simp only [script, promotions]
      split <;> simp [Line.promotion?]
  | .nodeId _, _, _, _ => (ite_self []).symm
  | .attr _, _, _, _ => (ite_self []).symm
  | .unknown _ _ _, _, _, _ => (ite_self []).symm
  | .raw _, _, _, _ => (ite_self []).symm
  | .list _, _, _, _ => (ite_self []).symm

theorem promotions_scriptIn : ∀ (trees : List Tree) (inside : Option Site) (scope : Scope)
    (site : Site) (number : Nat),
    (scriptIn inside scope site number trees).filterMap Line.promotion? =
      if inside.isNone then promotionsIn site number trees else []
  | [], _, _, _, _ => (ite_self []).symm
  | tree :: rest, inside, scope, site, number => by
      rw [scriptIn, promotionsIn, List.filterMap_append, promotions_script tree,
        promotions_scriptIn rest]
      cases inside <;> rfl

theorem promotions_endpointScript : ∀ (tree : Tree) (inside : Option Site) (scope : Scope)
    (site : Site), (tree.endpointScript inside scope site).filterMap Line.promotion? = []
  | .subgraph id children, inside, scope, site => by
      simp only [endpointScript, List.filterMap_cons, List.filterMap_append, Line.promotion?,
        promotions_scriptIn children]
      rfl
  | .nodeId _, _, _, _ => rfl
  | .graph _ _ _ _, _, _, _ => rfl
  | .nodeStmt _ _, _, _, _ => rfl
  | .edgeStmt _ _, _, _, _ => rfl
  | .attrStmt _ _, _, _, _ => rfl
  | .attr _, _, _, _ => rfl
  | .unknown _ _ _, _, _, _ => rfl
  | .raw _, _, _, _ => rfl
  | .list _, _, _, _ => rfl

theorem promotions_endpointScripts : ∀ (trees : List Tree) (inside : Option Site) (scope : Scope)
    (site : Site) (number : Nat),
    (endpointScripts inside scope site number trees).filterMap Line.promotion? = []
  | [], _, _, _, _ => rfl
  | tree :: rest, inside, scope, site, number => by
      rw [endpointScripts, List.filterMap_append, promotions_endpointScript tree,
        promotions_endpointScripts rest, List.append_nil]

end

/-- A promotion happens at a statement that enters a subgraph. -/
theorem site_mem_scopes {tree : Tree} {site : Site} {promotion : Promotion}
    (promotion_mem : promotion ∈ tree.promotions site) :
    promotion.site ∈ (tree.scopes site).map Prod.fst := by
  cases tree with
  | graph kind id isStrict children =>
      rw [List.mem_singleton.mp promotion_mem]
      exact List.mem_cons_self
  | _ => cases promotion_mem

theorem site_mem_scopesIn {trees : List Tree} {site : Site} {number : Nat} {promotion : Promotion}
    (promotion_mem : promotion ∈ promotionsIn site number trees) :
    promotion.site ∈ (scopesIn site number trees).map Prod.fst := by
  induction trees generalizing number with
  | nil => cases promotion_mem
  | cons tree rest ih =>
      rw [scopesIn, List.map_append, List.mem_append]
      exact (List.mem_append.mp promotion_mem).imp site_mem_scopes ih

theorem site_mem_documentScopes {tree : Tree} {promotion : Promotion}
    (promotion_mem : promotion ∈ tree.documentPromotions) :
    promotion.site ∈ tree.documentScopes.map Prod.fst := by
  cases tree with
  | list items => exact site_mem_scopesIn promotion_mem
  | _ => exact site_mem_scopes promotion_mem

end Tree

namespace Recorder

variable {options : WalkOptions} {recorder : Recorder}

/-- Only a promotion changes the root. -/
theorem follow_sameRoot (options : WalkOptions) (recorder : Recorder) : ∀ line : Line,
    line.promotion? = none →
    recorder.state.model.SameRoot (recorder.follow options line).state.model
  | ⟨_, _, .enter id⟩, _ => Walk.sameRoot_enter options _ id recorder.state
  | ⟨_, _, .settle attrs⟩, _ => by
      simp only [follow]
      split
      · next key _ => exact Walk.sameRoot_settle key attrs recorder.state
      · exact .refl _
  | ⟨_, _, .gather⟩, _ => by
      simp only [follow]
      split <;> exact .refl _
  | ⟨_, _, .mention id attrs defaults⟩, _ =>
      Walk.sameRoot_mention id attrs defaults _ recorder.state
  | ⟨_, _, .refer node defaults⟩, _ => by
      simp only [follow]
      split
      · exact .refl _
      · exact Walk.sameRoot_mention node.id ∅ defaults _ recorder.state
  | ⟨_, _, .skip _⟩, _ => .of_sameGraphs
  | ⟨_, _, .blank⟩, _ => .refl _
  | ⟨_, _, .connect _ _ _⟩, _ => Walk.sameRoot_createEdges _ _ recorder.state

theorem run_sameRoot {script : List Line} (quiet : script.filterMap Line.promotion? = []) :
    recorder.state.model.SameRoot (recorder.run options script).state.model := by
  induction script generalizing recorder with
  | nil => exact .refl _
  | cons line rest ih =>
      rw [List.filterMap_eq_nil_iff] at quiet
      rcases List.forall_mem_cons.mp quiet with ⟨quietLine, quietRest⟩
      exact (follow_sameRoot options recorder line quietLine).trans
        (ih (List.filterMap_eq_nil_iff.mpr quietRest))

/-- Every statement keeps the root but a graph at the top level. -/
theorem run_script_sameRoot (options : WalkOptions) (recorder : Recorder) (tree : Tree)
    (inside : Option Site) (scope : Scope) (site : Site)
    (silent : inside = none → tree.promotions site = []) :
    recorder.state.model.SameRoot
      (recorder.run options (tree.script inside scope site)).state.model := by
  apply run_sameRoot
  rw [tree.promotions_script]
  cases inside with
  | none => exact silent rfl
  | some _ => rfl

/-- A graph at the top level is entered and promoted, and the rest of its script keeps the root. -/
theorem run_graph (options : WalkOptions) (recorder : Recorder) (kind : String)
    (id : Option String) (isStrict : Bool) (children : List Tree) (scope : Scope) (site : Site) :
    let key := Walk.entryKey options id recorder.state
    let entered := (Walk.after (Walk.enter options none id) recorder.state).model
    let script := (Tree.graph kind id isStrict children).script none scope site
    let final := recorder.run options script
    (Walk.promoted key kind isStrict entered).SameRoot final.state.model ∧
      { site, id, key } ∈ final.entries := by
  intro key entered script final
  let rest := Tree.scriptIn (some site) scope site 0 children ++
    [⟨site, none, .settle (children.foldl Scope.behind scope).graph⟩]
  let entering : Recorder := recorder.follow options ⟨site, none, .enter id⟩
  let promoting : Recorder :=
    { entering with state := Walk.after (Walk.promote key kind isStrict) entering.state }
  have found : entering.keyAt? site = some key := by
    rw [keyAt?_of_entries (rfl : _ = recorder.entries ++ [⟨site, id, key⟩]), if_pos rfl]
  have promoting_eq :
      entering.follow options ⟨site, none, .promote kind isStrict⟩ = promoting := by
    simp only [follow, found, promoting]
  have final_eq : final = promoting.run options rest := by
    rw [← promoting_eq]
    rfl
  rw [final_eq]
  constructor
  · have quiet : rest.filterMap Line.promotion? = [] := by
      simp [rest, Line.promotion?, Tree.promotions_scriptIn]
    have model_eq : promoting.state.model = Walk.promoted key kind isStrict entered :=
      Walk.model_after_promote key kind isStrict entering.state
    exact model_eq ▸ run_sameRoot quiet
  · have entry_mem : ⟨site, id, key⟩ ∈ promoting.entries :=
      List.mem_append_right recorder.entries (List.mem_singleton_self _)
    exact (entries_prefix_run options promoting rest).mem entry_mem

end Recorder

/-! ### The root of a document -/

namespace Model

/-- The promotions have made the root of the model what it is, where a promotion is of the subgraph
that was entered at its site. -/
structure RootedBy (keyAt? : Site → Option String) (promotions : List Promotion)
    (model : Model) : Prop where
  /-- The first promotion makes the root. -/
  root_eq : model.root = promotions.head?.bind fun first => keyAt? first.site
  unrooted : model.root = none →
    promotions = [] ∧ model.id = none ∧ model.kind = "digraph" ∧ model.isStrict = false
  /-- The root and the model have the same id, and the kind of the last promotion of the root. The
  model is strict if one of them is. -/
  rooted : ∀ key ∈ model.root, ∃ root last, model.graphs.get? key = some root ∧
    model.id = root.id ∧
    (Promotion.entering keyAt? key promotions).getLast? = some last ∧
    model.kind = last.kind ∧ root.kind = last.kind ∧
    model.isStrict = (Promotion.entering keyAt? key promotions).any Promotion.isStrict

namespace RootedBy

variable {keyAt? : Site → Option String} {promotions : List Promotion} {model : Model}

theorem empty (keyAt? : Site → Option String) : RootedBy keyAt? [] ∅ where
  root_eq := rfl
  unrooted _ := ⟨rfl, rfl, rfl, rfl⟩
  rooted := nofun

theorem of_sameRoot (rootedBy : model.RootedBy keyAt? promotions) {later : Model}
    (same : model.SameRoot later) : later.RootedBy keyAt? promotions where
  root_eq := same.root_eq.trans rootedBy.root_eq
  unrooted := by
    rw [same.root_eq, same.id_eq, same.kind_eq, same.isStrict_eq]
    exact rootedBy.unrooted
  rooted key key_mem := by
    rw [same.root_eq] at key_mem
    rcases rootedBy.rooted key key_mem with
      ⟨old, last, found, id_eq, isLast, kind_eq, rootKind_eq, strict_eq⟩
    rcases same.subgraph key key_mem old found with ⟨new, newFound, sameId, sameKind⟩
    rw [same.id_eq, same.kind_eq, same.isStrict_eq]
    exact ⟨new, last, newFound, id_eq.trans sameId.symm, isLast, kind_eq,
      sameKind.trans rootKind_eq, strict_eq⟩

theorem first_eq (rootedBy : model.RootedBy keyAt? promotions) {key : String}
    (root_eq : model.root = some key) (later : List Promotion) :
    ((promotions ++ later).head?.bind fun first => keyAt? first.site) = some key := by
  have first_eq := rootedBy.root_eq.symm.trans root_eq
  cases promotions with
  | nil => cases first_eq
  | cons first rest => exact first_eq

variable {key : String}

/-- The first promotion, and every later one of the root. -/
theorem promoted_own (rootedBy : model.RootedBy keyAt? promotions) (promotion : Promotion)
    (entered : keyAt? promotion.site = some key) (own : model.hasOtherRoot key = false)
    {old : Subgraph} (found : model.graphs.get? key = some old) :
    (Walk.promoted key promotion.kind promotion.isStrict model).RootedBy keyAt?
      (promotions ++ [promotion]) := by
  have entering_eq : Promotion.entering keyAt? key (promotions ++ [promotion]) =
      Promotion.entering keyAt? key promotions ++ [promotion] := by
    rw [Promotion.entering_concat, if_pos entered]
  have earlier :
      ((promotions ++ [promotion]).head?.bind fun first => keyAt? first.site) = some key ∧
      model.isStrict = (Promotion.entering keyAt? key promotions).any Promotion.isStrict := by
    cases root_eq : model.root with
    | none =>
        rcases rootedBy.unrooted root_eq with ⟨rfl, _, _, strict_eq⟩
        exact ⟨entered, strict_eq⟩
    | some root =>
        have same : root = key := by
          by_contra differs
          rw [model.hasOtherRoot_iff.mpr ⟨root, root_eq, differs⟩] at own
          cases own
        subst same
        rcases rootedBy.rooted root root_eq with ⟨_, _, _, _, _, _, _, strict_eq⟩
        exact ⟨rootedBy.first_eq root_eq _, strict_eq⟩
  rw [Walk.promoted_of_found own found]
  refine ⟨earlier.1.symm, nofun, ?_⟩
  rintro _ ⟨⟩
  refine ⟨{ old with kind := promotion.kind }, promotion, ?_, rfl, ?_, rfl, rfl, ?_⟩
  · simp [OrderedMap.get?_modify, found]
  · rw [entering_eq, List.getLast?_concat]
  · simp [entering_eq, earlier.2]

theorem promoted_other (rootedBy : model.RootedBy keyAt? promotions) (promotion : Promotion)
    (entered : keyAt? promotion.site = some key) (other : model.hasOtherRoot key = true) :
    (Walk.promoted key promotion.kind promotion.isStrict model).RootedBy keyAt?
      (promotions ++ [promotion]) := by
  refine RootedBy.of_sameRoot ?_ (Walk.sameRoot_promoted other promotion.kind promotion.isStrict)
  rcases model.hasOtherRoot_iff.mp other with ⟨root, root_eq, differs⟩
  refine ⟨root_eq.trans (rootedBy.first_eq root_eq _).symm, fun unrooted => ?_, ?_⟩
  · cases root_eq.symm.trans unrooted
  · intro wanted wanted_mem
    have same : wanted = root := Option.some.inj (wanted_mem.symm.trans root_eq)
    have elsewhere : keyAt? promotion.site ≠ some wanted := by
      rw [entered, same]
      exact fun equal => differs (Option.some.inj equal).symm
    rw [Promotion.entering_concat, if_neg elsewhere, List.append_nil]
    exact rootedBy.rooted wanted wanted_mem

theorem promoted (rootedBy : model.RootedBy keyAt? promotions) (promotion : Promotion)
    (entered : keyAt? promotion.site = some key) (listed : key ∈ model.graphs.keys) :
    (Walk.promoted key promotion.kind promotion.isStrict model).RootedBy keyAt?
      (promotions ++ [promotion]) := by
  cases other : model.hasOtherRoot key with
  | true => exact rootedBy.promoted_other promotion entered other
  | false =>
      rcases (OrderedMap.mem_keys_iff _ _).mp listed with ⟨old, found⟩
      exact rootedBy.promoted_own promotion entered other found

end RootedBy

end Model

namespace Recorder

variable {options : WalkOptions} {recorder : Recorder} {keyAt? : Site → Option String}
  {promotions : List Promotion}

theorem rootedBy_script (rootedBy : recorder.state.model.RootedBy keyAt? promotions)
    (tree : Tree) (scope : Scope) (site : Site)
    (entered : ∀ entry ∈ (recorder.run options (tree.script none scope site)).entries,
      keyAt? entry.site = some entry.key) :
    (recorder.run options (tree.script none scope site)).state.model.RootedBy keyAt?
      (promotions ++ tree.promotions site) := by
  have quiet (silent : tree.promotions site = []) :
      (recorder.run options (tree.script none scope site)).state.model.RootedBy keyAt?
        (promotions ++ tree.promotions site) := by
    rw [silent, List.append_nil]
    exact rootedBy.of_sameRoot
      (run_script_sameRoot options recorder tree none scope site fun _ => silent)
  cases tree with
  | graph kind id isStrict children =>
      rcases run_graph options recorder kind id isStrict children scope site with
        ⟨same, entry_mem⟩
      have entering := rootedBy.of_sameRoot (Walk.sameRoot_enter options none id recorder.state)
      have promoting := entering.promoted ⟨site, kind, isStrict⟩ (entered _ entry_mem)
        (Walk.entered_mem_keys none id recorder.state)
      exact promoting.of_sameRoot same
  | _ => exact quiet rfl

theorem rootedBy_scriptIn (rootedBy : recorder.state.model.RootedBy keyAt? promotions)
    (trees : List Tree) (scope : Scope) (site : Site) (number : Nat)
    (entered : ∀ entry ∈ (recorder.run options
      (Tree.scriptIn none scope site number trees)).entries, keyAt? entry.site = some entry.key) :
    (recorder.run options (Tree.scriptIn none scope site number trees)).state.model.RootedBy keyAt?
      (promotions ++ Tree.promotionsIn site number trees) := by
  -- The look-up is that of the finished record, so the induction leaves it as it is.
  induction trees generalizing recorder promotions scope number with
  | nil => exact (List.append_nil promotions).symm ▸ rootedBy
  | cons tree rest ih =>
      rw [Tree.scriptIn, run_append] at entered ⊢
      rw [Tree.promotionsIn, ← List.append_assoc]
      refine ih (rootedBy_script rootedBy tree scope (site ++ [number]) ?_) _ _ entered
      intro entry entry_mem
      exact entered entry ((entries_prefix_run options _ _).mem entry_mem)

end Recorder

theorem Tree.record_rootedBy (options : WalkOptions) (tree : Tree) :
    (tree.record options).state.model.RootedBy (tree.record options).keyAt?
      tree.documentPromotions := by
  have entered (entry : Entry) (entry_mem : entry ∈ (tree.record options).entries) :
      (tree.record options).keyAt? entry.site = some entry.key :=
    Recorder.keyAt?_of_mem (tree.nodup_sites_record options) entry_mem
  cases tree with
  | list items => exact Recorder.rootedBy_scriptIn (.empty _) items ∅ [] 0 entered
  | _ => exact Recorder.rootedBy_script (.empty _) _ ∅ [] entered

/-- Whether a statement in the subgraph `parent`, or in none, is a graph at the top level that
enters the root, or makes one. -/
def Walk.SetsRoot (options : WalkOptions) (parent : Option String) (state : WalkState) :
    Tree → Prop
  | .graph _ id _ _ =>
      parent = none ∧ state.model.hasOtherRoot (entryKey options id state) = false
  | _ => False

theorem Walk.statement_sameRoot {options : WalkOptions} (lenient : options.isStrict = false)
    (parent : Option String) (scope : Scope) (tree : Tree) (state : WalkState)
    (named : tree.namesNodes) (keeps : ¬SetsRoot options parent state tree) :
    ∃ final, (statement options parent scope tree).run state = .ok (scope.behind tree) final ∧
      state.model.SameRoot final.model := by
  cases parent with
  | some above =>
      -- The statement is taken for the first one in a subgraph that was entered at the outermost
      -- site.
      let recorder : Recorder := { state, entries := [{ site := [], id := none, key := above }] }
      have performs := statement_performs lenient tree (some []) (some above) scope [0] recorder
        named rfl (by simp)
      exact ⟨_, performs.run_eq,
        Recorder.run_script_sameRoot options recorder tree (some []) scope [0] nofun⟩
  | none =>
      let recorder : Recorder := { state }
      have performs := statement_performs lenient tree none none scope [] recorder named rfl nofun
      refine ⟨_, performs.run_eq, ?_⟩
      cases tree with
      | graph kind id isStrict children =>
          have entering := sameRoot_enter options none id state
          have other : (after (enter options none id) state).model.hasOtherRoot
              (entryKey options id state) = true := by
            rw [entering.hasOtherRoot_eq]
            simpa [SetsRoot] using keeps
          rcases Recorder.run_graph options recorder kind id isStrict children scope [] with
            ⟨same, _⟩
          exact (entering.trans (sameRoot_promoted other kind isStrict)).trans same
      | _ => exact Recorder.run_script_sameRoot options recorder _ none scope [] fun _ => rfl

namespace Model

/-- The root of a document is the subgraph that the first graph at its top level enters. The graphs
at the top level that enter the root give it and the model their kind, of which the last one stays,
and one of them that is strict makes the model strict. No other statement changes the root, the id,
the kind or the strictness of a model, whatever state the walk is in. -/
theorem root_of_walk {options : WalkOptions} (lenient : options.isStrict = false) {tree : Tree}
    (named : tree.namesNodes) :
    let walked := Model.walk options .plain tree ∅
    let record := tree.record options
    walked.failure = none ∧
      record.entries.map (fun entry => (entry.site, entry.id)) = tree.documentScopes ∧
      (∀ promotion ∈ tree.documentPromotions, ∃ entry ∈ record.entries,
        entry.site = promotion.site ∧ record.keyAt? promotion.site = some entry.key ∧
        ∀ name ∈ entry.id, entry.key = name) ∧
      walked.model.RootedBy record.keyAt? tree.documentPromotions ∧
      ∀ (parent : Option String) (scope : Scope) (statement : Tree) (state : WalkState),
        statement.namesNodes → ¬Walk.SetsRoot options parent state statement →
        ∃ final, (Walk.statement options parent scope statement).run state =
            .ok (scope.behind statement) final ∧
          state.model.SameRoot final.model := by
  intro walked record
  have walked_eq : walked = ⟨record.state.model, _, none⟩ := walk_eq_record lenient named
  have scopes_eq : record.entries.map (fun entry => (entry.site, entry.id)) =
      tree.documentScopes := tree.map_entries_record options
  rw [walked_eq]
  refine ⟨rfl, scopes_eq, ?_, tree.record_rootedBy options, Walk.statement_sameRoot lenient⟩
  intro promotion promotion_mem
  have site_mem := Tree.site_mem_documentScopes promotion_mem
  rw [← scopes_eq, List.map_map] at site_mem
  rcases List.mem_map.mp site_mem with ⟨entry, entry_mem, site_eq⟩
  refine ⟨entry, entry_mem, site_eq, ?_, ?_⟩
  · rw [← site_eq]
    exact record.keyAt?_of_mem (tree.nodup_sites_record options) entry_mem
  · exact (tree.record_identified options).declared entry entry_mem

/-- The root was entered before as a subgraph, is entered once more by the last graph, and neither
the strict graphs inside it nor the strict one beside it make the model strict. -/
theorem root_of_walk_of_reentered :
    let tree := Tree.list [
      .subgraph (some "g") [.graph "graph" none true []],
      .graph "digraph" (some "g") false [.graph "digraph" (some "g") true []],
      .graph "digraph" (some "h") true [],
      .graph "graph" (some "g") false []]
    let walked := Model.walk {} .plain tree ∅
    walked.model.root = some "g" ∧ walked.model.kind = "graph" ∧
      walked.model.isStrict = false := by
  intro tree walked
  rcases @root_of_walk {} rfl tree rfl with ⟨_, _, _, rootedBy, _⟩
  let entering := Promotion.entering (tree.record {}).keyAt? "g" tree.documentPromotions
  have last_kind : entering.getLast?.map Promotion.kind = some "graph" := by
    decide +kernel
  have noneStrict : entering.any Promotion.isStrict = false := by
    decide +kernel
  have root_eq : walked.model.root = some "g" :=
    rootedBy.root_eq.trans (by decide +kernel)
  rcases rootedBy.rooted "g" root_eq with ⟨root, last, _, _, isLast, kind_eq, _, strict_eq⟩
  change entering.getLast? = some last at isLast
  rw [isLast] at last_kind
  exact ⟨root_eq, kind_eq.trans (Option.some.inj last_kind), strict_eq.trans noneStrict⟩

end Model

end DotLang
