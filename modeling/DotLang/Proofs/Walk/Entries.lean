import DotLang.Proofs.Walk.Naming
import DotLang.Proofs.Walk.Record

/-!
# Which statement enters which subgraph

Every graph or subgraph statement of a document enters one subgraph. A declared
id is the key of that subgraph, and a statement without id always opens a new
one. A statement enters the subgraph of an earlier one exactly if it declares the
key of that subgraph as its id (`Model.walk_entries`).

The earlier statement may be one without id: a generated key is free when it is
generated, but nothing keeps a later statement from declaring it.
-/

namespace DotLang

namespace Tree

mutual

/-- The statements that enter a subgraph, with the ids they declare. -/
def scopes (site : Site) : Tree → List (Site × Option String)
  | .graph _ id _ children => (site, id) :: scopesIn site 0 children
  | .subgraph id children => (site, id) :: scopesIn site 0 children
  | .edgeStmt endpoints _ => endpointScopes site 0 endpoints
  | _ => []
termination_by structural tree => tree

def scopesIn (site : Site) (number : Nat) : List Tree → List (Site × Option String)
  | [] => []
  | tree :: rest =>
      tree.scopes (site ++ [number]) ++ scopesIn site (tree.numberBehind number) rest
termination_by structural trees => trees

def endpointScope (site : Site) : Tree → List (Site × Option String)
  | .subgraph id children => (site, id) :: scopesIn site 0 children
  | _ => []
termination_by structural tree => tree

def endpointScopes (site : Site) (number : Nat) : List Tree → List (Site × Option String)
  | [] => []
  | tree :: rest => tree.endpointScope (site ++ [number]) ++ endpointScopes site (number + 1) rest
termination_by structural trees => trees

end

def documentScopes : Tree → List (Site × Option String)
  | .list items => scopesIn [] 0 items
  | tree => tree.scopes []

end Tree

def Line.scope? : Line → Option (Site × Option String)
  | ⟨site, _, .enter id⟩ => some (site, id)
  | _ => none

namespace Tree

mutual

theorem filterMap_script : ∀ (tree : Tree) (inside : Option Site) (scope : Scope) (site : Site),
    (tree.script inside scope site).filterMap Line.scope? = tree.scopes site
  | .graph kind id isStrict children, inside, scope, site => by
      have promoting : (if inside.isNone then
          [(⟨site, inside, .promote kind isStrict⟩ : Line)]
        else []).filterMap Line.scope? = [] := by
        split <;> rfl
      simp only [script, scopes, List.filterMap_cons, List.filterMap_append, Line.scope?, promoting,
        filterMap_scriptIn children, List.filterMap_nil, List.append_nil, List.nil_append]
  | .subgraph id children, inside, scope, site => by
      simp [script, scopes, Line.scope?, filterMap_scriptIn children]
  | .nodeStmt subject attrs, inside, scope, site => by
      simp only [script, scopes]
      split <;> rfl
  | .edgeStmt endpoints attrs, inside, scope, site => by
      simp [script, scopes, Line.scope?, filterMap_endpointScripts endpoints]
  | .attrStmt target attrs, inside, scope, site => by
      simp only [script, scopes]
      split <;> rfl
  | .nodeId _, _, _, _ => rfl
  | .attr _, _, _, _ => rfl
  | .unknown _ _ _, _, _, _ => rfl
  | .raw _, _, _, _ => rfl
  | .list _, _, _, _ => rfl

theorem filterMap_scriptIn : ∀ (trees : List Tree) (inside : Option Site) (scope : Scope)
    (site : Site) (number : Nat),
    (scriptIn inside scope site number trees).filterMap Line.scope? = scopesIn site number trees
  | [], _, _, _, _ => rfl
  | tree :: rest, inside, scope, site, number => by
      rw [scriptIn, scopesIn, List.filterMap_append, filterMap_script tree, filterMap_scriptIn rest]

theorem filterMap_endpointScript : ∀ (tree : Tree) (inside : Option Site) (scope : Scope)
    (site : Site),
    (tree.endpointScript inside scope site).filterMap Line.scope? = tree.endpointScope site
  | .subgraph id children, inside, scope, site => by
      simp [endpointScript, endpointScope, Line.scope?, filterMap_scriptIn children]
  | .nodeId _, _, _, _ => rfl
  | .graph _ _ _ _, _, _, _ => rfl
  | .nodeStmt _ _, _, _, _ => rfl
  | .edgeStmt _ _, _, _, _ => rfl
  | .attrStmt _ _, _, _, _ => rfl
  | .attr _, _, _, _ => rfl
  | .unknown _ _ _, _, _, _ => rfl
  | .raw _, _, _, _ => rfl
  | .list _, _, _, _ => rfl

theorem filterMap_endpointScripts : ∀ (trees : List Tree) (inside : Option Site) (scope : Scope)
    (site : Site) (number : Nat),
    (endpointScripts inside scope site number trees).filterMap Line.scope? =
      endpointScopes site number trees
  | [], _, _, _, _ => rfl
  | tree :: rest, inside, scope, site, number => by
      rw [endpointScripts, endpointScopes, List.filterMap_append, filterMap_endpointScript tree,
        filterMap_endpointScripts rest]

end

theorem filterMap_documentScript (tree : Tree) :
    tree.documentScript.filterMap Line.scope? = tree.documentScopes := by
  cases tree with
  | list items => exact filterMap_scriptIn items none ∅ [] 0
  | _ => exact filterMap_script _ none ∅ []

/-! ### No site is visited twice -/

/-- The sites of scopes are pairwise different and lie in the given region. -/
structure Apart (region : Site → Prop) (scopes : List (Site × Option String)) : Prop where
  within : ∀ scope ∈ scopes, region scope.1
  nodup : (scopes.map Prod.fst).Nodup

namespace Apart

variable {region region' : Site → Prop} {scopes scopes' : List (Site × Option String)}

theorem nil : Apart region [] :=
  ⟨by simp, List.nodup_nil⟩

theorem mono (apart : Apart region scopes) (included : ∀ site, region site → region' site) :
    Apart region' scopes :=
  ⟨fun scope scope_mem => included _ (apart.within scope scope_mem), apart.nodup⟩

theorem append (first : Apart region scopes) (second : Apart region' scopes')
    (disjoint : ∀ site, region site → ¬region' site) :
    Apart (fun site => region site ∨ region' site) (scopes ++ scopes') := by
  constructor
  · intro scope scope_mem
    exact (List.mem_append.mp scope_mem).imp (first.within scope) (second.within scope)
  · rw [List.map_append]
    apply first.nodup.append second.nodup
    intro site site_mem site_mem'
    rcases List.mem_map.mp site_mem with ⟨scope, scope_mem, rfl⟩
    rcases List.mem_map.mp site_mem' with ⟨scope', scope_mem', site_eq⟩
    exact disjoint _ (first.within scope scope_mem) (site_eq ▸ second.within scope' scope_mem')

end Apart

/-- The sites at and below the neighbours from a number on. -/
def From (site : Site) (number : Nat) (inner : Site) : Prop :=
  ∃ later, number ≤ later ∧ site ++ [later] <+: inner

theorem From.below {site inner : Site} {number : Nat} (behind : From site number inner) :
    site.Below inner := by
  rcases behind with ⟨later, _, within⟩
  exact Site.below_of_append within

theorem From.apart {site inner : Site} {number : Nat} (within : site ++ [number] <+: inner) :
    ¬From site (number + 1) inner := by
  rintro ⟨later, behind, within'⟩
  have same := List.prefix_of_prefix_length_le within within' (by simp)
  have number_eq : number = later := by
    simpa using same.eq_of_length (by simp)
  omega

theorem Apart.cons {site : Site} {number : Nat} {scopes scopes' : List (Site × Option String)}
    (first : Apart (site ++ [number] <+: ·) scopes)
    (second : Apart (From site (number + 1)) scopes') :
    Apart (From site number) (scopes ++ scopes') := by
  refine (first.append second fun _ => From.apart).mono ?_
  rintro inner (within | ⟨later, behind, within⟩)
  · exact ⟨number, Nat.le_refl _, within⟩
  · exact ⟨later, by omega, within⟩

theorem Apart.under {site : Site} {id : Option String} {scopes : List (Site × Option String)}
    (apart : Apart (From site 0) scopes) : Apart (site <+: ·) ((site, id) :: scopes) := by
  have here : Apart (· = site) [(site, id)] := ⟨by simp, by simp⟩
  refine (here.append apart ?_).mono ?_
  · rintro _ rfl behind
    exact Site.not_below_self _ behind.below
  · rintro inner (rfl | behind)
    · exact List.prefix_refl _
    · exact behind.below.1

mutual

theorem scopes_apart : ∀ (tree : Tree) (site : Site), Apart (site <+: ·) (tree.scopes site)
  | .graph _ _ _ children, site => (scopesIn_apart children site 0).under
  | .subgraph _ children, site => (scopesIn_apart children site 0).under
  | .edgeStmt endpoints _, site =>
      (endpointScopes_apart endpoints site 0).mono fun _ behind => behind.below.1
  | .nodeStmt _ _, _ => .nil
  | .attrStmt _ _, _ => .nil
  | .nodeId _, _ => .nil
  | .attr _, _ => .nil
  | .unknown _ _ _, _ => .nil
  | .raw _, _ => .nil
  | .list _, _ => .nil

theorem scopesIn_apart : ∀ (trees : List Tree) (site : Site) (number : Nat),
    Apart (From site number) (scopesIn site number trees)
  | [], _, _ => .nil
  | tree :: rest, site, number => by
      rw [scopesIn, numberBehind]
      split
      · next defaults =>
          have nothing : tree.scopes (site ++ [number]) = [] := by
            cases tree <;> first | rfl | simp [setsDefaults] at defaults
          rw [nothing]
          exact scopesIn_apart rest site number
      · exact (scopes_apart tree _).cons (scopesIn_apart rest site (number + 1))

theorem endpointScope_apart : ∀ (tree : Tree) (site : Site),
    Apart (site <+: ·) (tree.endpointScope site)
  | .subgraph _ children, site => (scopesIn_apart children site 0).under
  | .graph _ _ _ _, _ => .nil
  | .nodeStmt _ _, _ => .nil
  | .edgeStmt _ _, _ => .nil
  | .attrStmt _ _, _ => .nil
  | .nodeId _, _ => .nil
  | .attr _, _ => .nil
  | .unknown _ _ _, _ => .nil
  | .raw _, _ => .nil
  | .list _, _ => .nil

theorem endpointScopes_apart : ∀ (trees : List Tree) (site : Site) (number : Nat),
    Apart (From site number) (endpointScopes site number trees)
  | [], _, _ => .nil
  | tree :: rest, site, number =>
      (endpointScope_apart tree _).cons (endpointScopes_apart rest site (number + 1))

end

theorem nodup_documentScopes (tree : Tree) : (tree.documentScopes.map Prod.fst).Nodup := by
  cases tree with
  | list items => exact (scopesIn_apart items [] 0).nodup
  | _ => exact (scopes_apart _ []).nodup

end Tree

/-! ### The subgraphs that are entered -/

namespace Recorder

variable {options : WalkOptions} {recorder : Recorder}

/-- Only a line that enters a subgraph changes the entries or the ids of subgraphs. -/
theorem follow_of_scope?_none (options : WalkOptions) (line : Line) (quiet : line.scope? = none) :
    (recorder.follow options line).entries = recorder.entries ∧
      ∀ key, ((recorder.follow options line).state.model.graphs.get? key).map Subgraph.id =
        (recorder.state.model.graphs.get? key).map Subgraph.id := by
  rcases line.quiet_or_enter_or_connect with isQuiet |
    ⟨site, inside, id, rfl⟩ | ⟨site, inside, count, attrs, defaults, rfl⟩
  · rcases follow_of_isQuiet options line isQuiet with ⟨same, entries_eq, _⟩
    refine ⟨entries_eq, fun key => ?_⟩
    simpa only [Option.map_map, Function.comp_def, Subgraph.outline] using
      congrArg (Option.map Prod.fst) (same.outline_eq key)
  · cases quiet
  · refine ⟨rfl, fun key => ?_⟩
    simp only [follow]
    generalize inside.bind recorder.keyAt? = parent
    cases parent with
    | none => rfl
    | some above =>
        change ((OrderedMap.modify _ above _).get? key).map _ = _
        rw [OrderedMap.get?_modify]
        split
        · rw [Option.map_map]
          rfl
        · rfl

/-- The entries are to the statements in the script, in their order. -/
theorem map_entries_run (script : List Line) :
    (recorder.run options script).entries.map (fun entry => (entry.site, entry.id)) =
      recorder.entries.map (fun entry => (entry.site, entry.id)) ++
        script.filterMap Line.scope? := by
  induction script generalizing recorder with
  | nil => simp
  | cons line rest ih =>
      rw [run_cons, ih]
      cases scope_eq : line.scope? with
      | none =>
          rw [(follow_of_scope?_none options line scope_eq).1, List.filterMap_cons_none scope_eq]
      | some scope =>
          rcases line with ⟨site, inside, instruction⟩
          cases instruction with
          | enter id =>
              cases scope_eq
              simp [follow, Line.scope?]
          | _ => cases scope_eq

theorem entries_prefix_run (options : WalkOptions) (recorder : Recorder) (script : List Line) :
    recorder.entries <+: (recorder.run options script).entries := by
  induction script generalizing recorder with
  | nil => exact List.prefix_rfl
  | cons line rest ih =>
      refine List.IsPrefix.trans ?_ (ih (recorder.follow options line))
      cases enters : line.scope? with
      | none => exact (follow_of_scope?_none options line enters).1 ▸ List.prefix_rfl
      | some scope =>
          rcases line with ⟨site, inside, instruction⟩
          cases instruction with
          | enter id => exact List.prefix_append _ _
          | _ => cases enters

/-- How the keys of entries go with declared ids. -/
structure Identified (options : WalkOptions) (recorder : Recorder) : Prop where
  /-- A declared id is the key. -/
  declared : ∀ entry ∈ recorder.entries, ∀ name ∈ entry.id, entry.key = name
  generated : ∀ entry ∈ recorder.entries, entry.id = none →
    ∃ number, entry.key = anonymousKey options.anonymousPrefix number
  /-- A statement without id enters no subgraph that was entered before. -/
  opens : recorder.entries.Pairwise fun first second => second.id = none → first.key ≠ second.key
  /-- A subgraph has the id of the statement that entered it first. -/
  id_eq : ∀ key subgraph, recorder.state.model.graphs.get? key = some subgraph →
    ∃ opener, recorder.entries.find? (fun entry => entry.key = key) = some opener ∧
      subgraph.id = opener.id

namespace Identified

/-- A statement that enters a listed subgraph changes no id, and otherwise it opens one with its own
id. -/
theorem id_eq_enter (identified : recorder.Identified options) (sound : recorder.Sound)
    (site : Site) (inside : Option Site) (id : Option String) {key : String} {subgraph : Subgraph}
    (found : (recorder.follow options ⟨site, inside, .enter id⟩).state.model.graphs.get? key =
      some subgraph) :
    ∃ opener, (recorder.follow options ⟨site, inside, .enter id⟩).entries.find?
      (fun entry => entry.key = key) = some opener ∧ subgraph.id = opener.id := by
  let entry : Entry := { site, id, key := Walk.entryKey options id recorder.state }
  change ((Walk.after (Walk.enter options (inside.bind recorder.keyAt?) id) recorder.state)
    |>.model.graphs.get? key) = some subgraph at found
  change ∃ opener, (recorder.entries ++ [entry]).find? _ = _ ∧ _
  rw [List.find?_append]
  have earlier (old : Subgraph) (found : recorder.state.model.graphs.get? key = some old) :
      ∃ opener, (recorder.entries.find? fun entry => entry.key = key).or
        ([entry].find? fun entry => entry.key = key) = some opener ∧ old.id = opener.id := by
    rcases identified.id_eq key old found with ⟨opener, opener_found, id_eq⟩
    exact ⟨opener, by rw [opener_found, Option.some_or], id_eq⟩
  rw [Walk.model_after_enter] at found
  dsimp only at found
  split at found
  · exact earlier subgraph found
  · next absent =>
      refine Walk.forall_get?_plant (fun handle new => handle = key → ∃ opener,
        (recorder.entries.find? fun entry => entry.key = key).or
          ([entry].find? fun entry => entry.key = key) = some opener ∧ new.id = opener.id)
        sound.resolved.nested absent (sound.enclosed inside) ?_ ?_ found rfl
      · intro handle old children oldFound same
        subst same
        exact earlier old oldFound
      · intro same
        change entry.key = key at same
        have unentered : (recorder.entries.find? fun other => other.key = key) = none := by
          rw [List.find?_eq_none]
          intro other other_mem isEntered
          apply absent
          change entry.key ∈ recorder.state.model.graphs.keys
          rw [same.trans (of_decide_eq_true isEntered).symm]
          exact sound.entered other other_mem
        refine ⟨entry, ?_, rfl⟩
        rw [unentered, Option.none_or, List.find?_cons_of_pos (by simpa using same)]

theorem enter (identified : recorder.Identified options) (sound : recorder.Sound)
    (site : Site) (inside : Option Site) (id : Option String) :
    (recorder.follow options ⟨site, inside, .enter id⟩).Identified options := by
  let entry : Entry := { site, id, key := Walk.entryKey options id recorder.state }
  have mem_entries {other : Entry} (other_mem : other ∈ recorder.entries ++ [entry]) :
      other ∈ recorder.entries ∨ other = entry := by
    simpa using other_mem
  constructor
  case declared =>
    intro other other_mem name name_mem
    rcases mem_entries other_mem with other_mem | rfl
    · exact identified.declared other other_mem name name_mem
    · change id = some name at name_mem
      subst name_mem
      rfl
  case generated =>
    intro other other_mem noId
    rcases mem_entries other_mem with other_mem | rfl
    · exact identified.generated other other_mem noId
    · change id = none at noId
      subst noId
      exact ⟨_, rfl⟩
  case opens =>
    refine List.pairwise_append.mpr ⟨identified.opens, List.pairwise_singleton _ _, ?_⟩
    intro first first_mem second second_mem noId same
    cases List.mem_singleton.mp second_mem
    change id = none at noId
    subst noId
    change first.key = Walk.entryKey options none recorder.state at same
    apply Walk.entryKey_none_free options recorder.state
    rw [← same]
    exact sound.entered first first_mem
  case id_eq =>
    intro key subgraph found
    exact identified.id_eq_enter sound site inside id found

theorem follow (identified : recorder.Identified options) (sound : recorder.Sound) (line : Line) :
    (recorder.follow options line).Identified options := by
  cases scope_eq : line.scope? with
  | some scope =>
      rcases line with ⟨site, inside, instruction⟩
      cases instruction with
      | enter id => exact identified.enter sound site inside id
      | _ => cases scope_eq
  | none =>
      rcases follow_of_scope?_none options line scope_eq with ⟨entries_eq, ids⟩
      refine ⟨?_, ?_, ?_, ?_⟩ <;> rw [entries_eq]
      · exact identified.declared
      · exact identified.generated
      · exact identified.opens
      · intro key new found
        have id_eq := ids key
        rw [found, Option.map_some] at id_eq
        rcases Option.map_eq_some_iff.mp id_eq.symm with ⟨old, oldFound, same⟩
        exact same ▸ identified.id_eq key old oldFound

theorem run (identified : recorder.Identified options) (sound : recorder.Sound)
    (script : List Line) : (recorder.run options script).Identified options := by
  induction script generalizing recorder with
  | nil => exact identified
  | cons line rest ih => exact ih (identified.follow sound line) (sound.follow line)

/-- A subgraph is entered again by the statements that declare its key. -/
theorem meets (identified : recorder.Identified options) :
    recorder.entries.Pairwise fun first second =>
      first.key = second.key ↔ second.id = some first.key := by
  refine identified.opens.imp_of_mem ?_
  intro first second _ second_mem opens
  cases second_id : second.id with
  | none => simpa using opens second_id
  | some name =>
      rw [identified.declared second second_mem name second_id, Option.some_inj, eq_comm]

section Free

variable (identified : recorder.Identified options)
  (free : ∀ entry ∈ recorder.entries, ∀ name ∈ entry.id, ∀ number,
    name ≠ anonymousKey options.anonymousPrefix number)
  {entry other : Entry} (entry_mem : entry ∈ recorder.entries)
  (other_mem : other ∈ recorder.entries)

include identified free entry_mem other_mem

theorem ne_of_generated (noId : entry.id = none) : other.id ≠ some entry.key := by
  intro isDeclared
  rcases identified.generated entry entry_mem noId with ⟨number, key_eq⟩
  exact free other other_mem entry.key isDeclared number key_eq

theorem id_eq_of_key_eq (same : entry.key = other.key) : entry.id = other.id := by
  cases entry_id : entry.id with
  | none =>
      cases other_id : other.id with
      | none => rfl
      | some name =>
          have key_eq := identified.declared other other_mem name other_id
          rw [← key_eq, ← same] at other_id
          exact absurd other_id (identified.ne_of_generated free entry_mem other_mem entry_id)
  | some name =>
      have key_eq := identified.declared entry entry_mem name entry_id
      cases other_id : other.id with
      | none =>
          rw [← key_eq, same] at entry_id
          exact absurd entry_id (identified.ne_of_generated free other_mem entry_mem other_id)
      | some name' =>
          rw [← key_eq, same, identified.declared other other_mem name' other_id]

end Free

end Identified

end Recorder

theorem Recorder.identified_empty (options : WalkOptions) :
    Identified options { state := { model := ∅ } } where
  declared _ entry_mem := nomatch entry_mem
  generated _ entry_mem := nomatch entry_mem
  opens := .nil
  id_eq _ _ found := nomatch found

theorem Tree.record_identified (options : WalkOptions) (tree : Tree) :
    (tree.record options).Identified options :=
  (Recorder.identified_empty options).run Recorder.sound_empty tree.documentScript

theorem Tree.map_entries_record (options : WalkOptions) (tree : Tree) :
    (tree.record options).entries.map (fun entry => (entry.site, entry.id)) =
      tree.documentScopes := by
  rw [← tree.filterMap_documentScript]
  exact Recorder.map_entries_run tree.documentScript

namespace Model

/-- Every graph or subgraph statement of a document enters a subgraph, which has the id of the
statement that entered it first. Of two statements, the later one enters the subgraph of the earlier
one exactly if it declares the key of that subgraph as its id. If no declared id looks like a
generated key, then these are the statements that declare the same id. -/
theorem walk_entries {options : WalkOptions} (lenient : options.isStrict = false) {tree : Tree}
    (named : tree.namesNodes) :
    let walked := Model.walk options .plain tree ∅
    let entries := (tree.record options).entries
    walked.failure = none ∧
      entries.map (fun entry => (entry.site, entry.id)) = tree.documentScopes ∧
      (∀ entry ∈ entries, ∃ opener subgraph,
        entries.find? (fun other => other.key = entry.key) = some opener ∧
        walked.model.graphs.get? entry.key = some subgraph ∧ subgraph.id = opener.id) ∧
      entries.Pairwise (fun first second =>
        first.key = second.key ↔ second.id = some first.key) ∧
      ((∀ scope ∈ tree.documentScopes, ∀ name ∈ scope.2, ∀ number,
          name ≠ anonymousKey options.anonymousPrefix number) →
        (∀ entry ∈ entries, ∃ subgraph, walked.model.graphs.get? entry.key = some subgraph ∧
          subgraph.id = entry.id) ∧
        entries.Pairwise fun first second =>
          first.key = second.key ↔ first.id.isSome ∧ first.id = second.id) := by
  intro walked entries
  have walked_eq : walked = ⟨(tree.record options).state.model, _, none⟩ :=
    walk_eq_record lenient named
  have sound := tree.record_sound options
  have identified := tree.record_identified options
  have scopes_eq : entries.map (fun entry => (entry.site, entry.id)) = tree.documentScopes :=
    tree.map_entries_record options
  have opened (entry : Entry) (entry_mem : entry ∈ entries) : ∃ opener subgraph,
      entries.find? (fun other => other.key = entry.key) = some opener ∧
        walked.model.graphs.get? entry.key = some subgraph ∧ subgraph.id = opener.id := by
    rcases (OrderedMap.mem_keys_iff _ _).mp (sound.entered entry entry_mem) with ⟨subgraph, found⟩
    rcases identified.id_eq entry.key subgraph found with ⟨opener, opener_found, id_eq⟩
    exact ⟨opener, subgraph, opener_found, walked_eq ▸ found, id_eq⟩
  refine ⟨by rw [walked_eq], scopes_eq, opened, identified.meets, fun free => ?_⟩
  have freeEntries (entry : Entry) (entry_mem : entry ∈ entries) :=
    free (entry.site, entry.id) (scopes_eq ▸ List.mem_map_of_mem entry_mem)
  constructor
  · intro entry entry_mem
    rcases opened entry entry_mem with ⟨opener, subgraph, opener_found, found, id_eq⟩
    have same : opener.key = entry.key := by simpa using List.find?_some opener_found
    have opener_mem := List.mem_of_find?_eq_some opener_found
    exact ⟨subgraph, found,
      id_eq.trans (identified.id_eq_of_key_eq freeEntries opener_mem entry_mem same)⟩
  · refine identified.meets.imp_of_mem ?_
    intro first second first_mem second_mem meets
    rw [meets]
    cases first_id : first.id with
    | none => simpa using identified.ne_of_generated freeEntries first_mem second_mem first_id
    | some name =>
        rw [identified.declared first first_mem name first_id]
        simp [eq_comm]

/-- A subgraph that is entered again, from inside a later one without id. -/
theorem walk_entries_of_reentered :
    let tree := Tree.graph "digraph" (some "g") false [
      .subgraph none [],
      .subgraph (some "s") [],
      .subgraph none [.edgeStmt [.subgraph (some "s") [], .nodeId { id := "a" }] []]]
    let entries := (tree.record {}).entries
    entries.map (fun entry => (entry.site, entry.id)) =
        [([], some "g"), ([0], none), ([1], some "s"), ([2], none), ([2, 0, 0], some "s")] ∧
      entries.Pairwise fun first second =>
        first.key = second.key ↔ first.id.isSome ∧ first.id = second.id := by
  intro tree entries
  have scopes_eq : tree.documentScopes =
      [([], some "g"), ([0], none), ([1], some "s"), ([2], none), ([2, 0, 0], some "s")] := by
    decide
  have differ : ∀ scope ∈ tree.documentScopes, ∀ name ∈ scope.2,
      ¬"__anon".toList <+: name.toList := by
    decide
  have entered := @walk_entries {} rfl tree rfl
  refine ⟨entered.2.1.trans scopes_eq, (entered.2.2.2.2 ?_).2⟩
  intro scope scope_mem name name_mem
  exact ne_anonymousKey (differ scope scope_mem name name_mem)

/-- The second statement declares the key that was generated for the first, and enters its
subgraph. -/
theorem walk_entries_of_declared_key :
    let tree := Tree.graph "digraph" (some "g") false [
      .subgraph none [.nodeStmt (.nodeId { id := "a" }) []],
      .subgraph (some "__anon1") [.nodeStmt (.nodeId { id := "b" }) []]]
    let walked := Model.walk {} .plain tree ∅
    let entries := (tree.record {}).entries
    (¬entries.Pairwise fun first second =>
        first.key = second.key ↔ first.id.isSome ∧ first.id = second.id) ∧
      entries.map (fun entry => (entry.id, entry.key)) =
        [(some "g", "g"), (none, "__anon1"), (some "__anon1", "__anon1")] ∧
      (walked.model.graphs.get? "__anon1").map (fun subgraph => (subgraph.id, subgraph.nodes)) =
        some (none, ["a", "b"]) := by
  decide +kernel

end Model

end DotLang
