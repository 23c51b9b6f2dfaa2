import DotLang.Proofs.OrderedMap
import DotLang.Walk
import Mathlib.Data.List.Lattice
import Mathlib.Data.List.Nodup
import Mathlib.Logic.Relation

/-!
# Nested subgraphs

The table of subgraphs is a forest if every subgraph stands under its own key,
children and parents refer to each other, and every parent was entered before
its children. The last condition rules out cycles, and it is easy to keep: a
walk lists a new subgraph last, below a parent that is listed already.

In such a table nothing is cut off when a hierarchy is built, so hierarchies
and descendants satisfy the equations of a plain recursion over the children
(`hierarchy?_eq`, `descendants_eq`). The main result is `walk_tops_perm`: going
down from the subgraphs without parent meets every subgraph exactly once.
-/

namespace DotLang

theorem Hierarchy.walkAll_eq_flatMap (hierarchies : List Hierarchy) :
    Hierarchy.walkAll hierarchies = hierarchies.flatMap Hierarchy.walk := by
  induction hierarchies with
  | nil => rfl
  | cons first rest ih => rw [Hierarchy.walkAll, ih, List.flatMap_cons]

theorem sublist_flatMap {α : Type} {f : α → List α} {values : List α}
    (mem : ∀ value ∈ values, value ∈ f value) : values.Sublist (values.flatMap f) := by
  induction values with
  | nil => exact List.Sublist.refl _
  | cons value rest ih =>
      rw [List.flatMap_cons]
      have here := List.singleton_sublist.mpr (mem value List.mem_cons_self)
      exact here.append (ih fun other other_mem => mem other (List.mem_cons_of_mem value other_mem))

namespace Forest

/-- The handle of the parent of a subgraph. -/
def parent? (forest : Forest) (handle : String) : Option String :=
  (forest.get? handle).bind Subgraph.parent

/-- The place of a subgraph in the order in which subgraphs were first entered. -/
def rank (forest : Forest) (handle : String) : Nat :=
  forest.keys.idxOf handle

/-- Going up from one subgraph, parent by parent, leads to the other. -/
def Encloses (forest : Forest) (outer inner : String) : Prop :=
  Relation.ReflTransGen (fun child parent => forest.parent? child = some parent) inner outer

/-- The subgraphs form a forest in which parents were entered before their children. -/
structure Nested (forest : Forest) : Prop where
  /-- Every subgraph stands under its own key. -/
  key_eq : ∀ {handle subgraph}, forest.get? handle = some subgraph → subgraph.key = handle
  /-- No child is listed twice. -/
  children_nodup : ∀ {handle subgraph}, forest.get? handle = some subgraph →
    subgraph.children.Nodup
  /-- A listed child refers back. -/
  parent_of_child : ∀ {handle subgraph child}, forest.get? handle = some subgraph →
    child ∈ subgraph.children → forest.parent? child = some handle
  /-- A parent lists its child. -/
  child_of_parent : ∀ {handle child}, forest.parent? child = some handle →
    ∃ subgraph, forest.get? handle = some subgraph ∧ child ∈ subgraph.children
  /-- A parent was entered before its child. -/
  rank_lt : ∀ {handle child}, forest.parent? child = some handle →
    forest.rank handle < forest.rank child

theorem get?_of_parent? {forest : Forest} {handle parent : String}
    (parent_eq : forest.parent? handle = some parent) :
    ∃ subgraph, forest.get? handle = some subgraph ∧ subgraph.parent = some parent :=
  Option.bind_eq_some_iff.mp parent_eq

theorem rank_lt_size {forest : Forest} {handle : String} {subgraph : Subgraph}
    (found : forest.get? handle = some subgraph) : forest.rank handle < forest.size := by
  have listed := List.idxOf_lt_length_of_mem (OrderedMap.mem_keys_of_get? found)
  simpa [rank, OrderedMap.size, OrderedMap.keys] using listed

theorem mem_tops_iff {forest : Forest} {handle : String} :
    handle ∈ forest.tops ↔
      ∃ subgraph, forest.get? handle = some subgraph ∧ subgraph.parent = none := by
  rw [tops, List.mem_map]
  constructor
  · rintro ⟨⟨handle', subgraph⟩, entry_mem, rfl⟩
    rw [List.mem_filter, Option.isNone_iff_eq_none] at entry_mem
    exact ⟨subgraph, (forest.get?_eq_some_iff _ _).mpr entry_mem.1, entry_mem.2⟩
  · rintro ⟨subgraph, found, parent_eq⟩
    refine ⟨(handle, subgraph), ?_, rfl⟩
    rw [List.mem_filter, Option.isNone_iff_eq_none]
    exact ⟨(forest.get?_eq_some_iff _ _).mp found, parent_eq⟩

theorem nodup_tops {forest : Forest} : forest.tops.Nodup :=
  forest.keys_nodup.sublist (List.filter_sublist.map Prod.fst)

/-- Only itself is around a subgraph without parent. -/
theorem eq_of_encloses_top {forest : Forest} {outer inner : String} {subgraph : Subgraph}
    (found : forest.get? inner = some subgraph) (parent_eq : subgraph.parent = none)
    (encloses : forest.Encloses outer inner) : outer = inner := by
  rcases Relation.ReflTransGen.cases_head encloses with same | ⟨above, up, _⟩
  · exact same.symm
  · simp [parent?, found, parent_eq] at up

namespace Nested

variable {forest : Forest}

/-- What holds of a subgraph whenever it holds of its children holds of every subgraph. -/
theorem induction (nested : forest.Nested) {motive : String → Prop}
    (step : ∀ {handle subgraph}, forest.get? handle = some subgraph →
      (∀ child ∈ subgraph.children, motive child) → motive handle)
    {handle : String} {subgraph : Subgraph} (found : forest.get? handle = some subgraph) :
    motive handle := by
  induction distance : forest.size - forest.rank handle using Nat.strongRecOn
    generalizing handle subgraph with
  | ind distance ih =>
      apply step found
      intro child child_mem
      have parent_eq := nested.parent_of_child found child_mem
      rcases get?_of_parent? parent_eq with ⟨inner, innerFound, _⟩
      have deeper := nested.rank_lt parent_eq
      have bounded := rank_lt_size innerFound
      exact ih (forest.size - forest.rank child) (by omega) innerFound rfl

theorem parent_ne_key (nested : forest.Nested) {handle : String} {subgraph : Subgraph}
    (found : forest.get? handle = some subgraph) : subgraph.parent ≠ some subgraph.key := by
  intro loop
  have up : forest.parent? handle = some handle := by
    rw [parent?, found, Option.bind_some, loop, nested.key_eq found]
  exact absurd (nested.rank_lt up) (Nat.lt_irrefl _)

/-! ### Hierarchies without a limit -/

theorem hierarchyTo_eq (nested : forest.Nested) {handle : String} {subgraph : Subgraph}
    (found : forest.get? handle = some subgraph) {depth depth' : Nat}
    (enough : forest.size ≤ depth + forest.rank handle)
    (enough' : forest.size ≤ depth' + forest.rank handle) :
    forest.hierarchyTo depth subgraph = forest.hierarchyTo depth' subgraph := by
  have bounded := rank_lt_size found
  induction depth generalizing handle subgraph depth' with
  | zero => omega
  | succ depth ih =>
      rcases depth' with _ | depth'
      · omega
      simp only [hierarchyTo, Hierarchy.scope.injEq, true_and]
      apply List.filterMap_congr
      intro child child_mem
      have parent_eq := nested.parent_of_child found child_mem
      rcases get?_of_parent? parent_eq with ⟨inner, innerFound, _⟩
      have deeper := nested.rank_lt parent_eq
      rw [innerFound, Option.map_some, Option.map_some, Option.some_inj]
      exact ih innerFound (by omega) (by omega) (rank_lt_size innerFound)

/-- The hierarchy below a subgraph consists of the hierarchies below its children. -/
theorem hierarchy?_eq (nested : forest.Nested) {handle : String} {subgraph : Subgraph}
    (found : forest.get? handle = some subgraph) :
    forest.hierarchy? handle =
      some (.scope subgraph (subgraph.children.filterMap forest.hierarchy?)) := by
  have bounded := rank_lt_size found
  have oneMore : forest.hierarchyTo forest.size subgraph =
      forest.hierarchyTo (forest.size + 1) subgraph :=
    nested.hierarchyTo_eq found (by omega) (by omega)
  rw [hierarchy?, found, Option.map_some, oneMore]
  rfl

/-- The descendants of a subgraph are itself and the descendants of its children. -/
theorem descendants_eq (nested : forest.Nested) {handle : String} {subgraph : Subgraph}
    (found : forest.get? handle = some subgraph) :
    forest.descendants handle = subgraph :: subgraph.children.flatMap forest.descendants := by
  have ofChildren (children : List String) :
      (children.filterMap forest.hierarchy?).flatMap Hierarchy.walk =
        children.flatMap forest.descendants := by
    induction children with
    | nil => rfl
    | cons child rest ih =>
        rw [List.flatMap_cons, List.filterMap_cons, descendants]
        cases forest.hierarchy? child <;> simp [ih]
  rw [descendants, nested.hierarchy?_eq found]
  simp only [Hierarchy.walk, Hierarchy.walkAll_eq_flatMap, ofChildren]

/-! ### Which subgraphs enclose which -/

theorem encloses_eq_or_rank_lt (nested : forest.Nested) {outer inner : String}
    (encloses : forest.Encloses outer inner) :
    outer = inner ∨ forest.rank outer < forest.rank inner := by
  induction encloses with
  | refl => exact Or.inl rfl
  | tail _ parent_eq ih =>
      have lower := nested.rank_lt parent_eq
      rcases ih with rfl | deeper <;> right <;> omega

/-- Of two subgraphs around a third, one is around the other. -/
theorem encloses_total {outer outer' inner : String} (encloses : forest.Encloses outer inner)
    (encloses' : forest.Encloses outer' inner) :
    forest.Encloses outer' outer ∨ forest.Encloses outer outer' := by
  apply Relation.ReflTransGen.total_of_right_unique _ encloses encloses'
  intro child parent parent' parent_eq parent_eq'
  exact Option.some.inj (parent_eq.symm.trans parent_eq')

/-- What is around a subgraph without being it is around its parent. -/
theorem encloses_parent {outer inner parent : String} (encloses : forest.Encloses outer inner)
    (differs : outer ≠ inner) (parent_eq : forest.parent? inner = some parent) :
    forest.Encloses outer parent := by
  rcases Relation.ReflTransGen.cases_head encloses with same | ⟨above, above_eq, rest⟩
  · exact absurd same.symm differs
  · have same : above = parent := Option.some.inj (above_eq.symm.trans parent_eq)
    exact same ▸ rest

theorem mem_descendants_iff (nested : forest.Nested) {handle : String} {top : Subgraph}
    (found : forest.get? handle = some top) (subgraph : Subgraph) :
    subgraph ∈ forest.descendants handle ↔
      forest.get? subgraph.key = some subgraph ∧ forest.Encloses handle subgraph.key := by
  refine nested.induction (motive := fun handle => ∀ top, forest.get? handle = some top →
    (subgraph ∈ forest.descendants handle ↔
      forest.get? subgraph.key = some subgraph ∧ forest.Encloses handle subgraph.key))
    ?_ found top found
  intro handle top found ih top' found'
  cases found.symm.trans found'
  rw [nested.descendants_eq found, List.mem_cons, List.mem_flatMap]
  constructor
  · rintro (rfl | ⟨child, child_mem, below⟩)
    · rw [nested.key_eq found]
      exact ⟨found, .refl⟩
    · have parent_eq := nested.parent_of_child found child_mem
      rcases get?_of_parent? parent_eq with ⟨inner, innerFound, _⟩
      have ⟨listed, encloses⟩ := (ih child child_mem inner innerFound).mp below
      exact ⟨listed, encloses.tail parent_eq⟩
  · rintro ⟨listed, encloses⟩
    rcases Relation.ReflTransGen.cases_tail encloses with same | ⟨child, inside, parent_eq⟩
    · rw [← same, found, Option.some_inj] at listed
      exact Or.inl listed.symm
    · rcases get?_of_parent? parent_eq with ⟨inner, innerFound, _⟩
      rcases nested.child_of_parent parent_eq with ⟨above, aboveFound, child_mem⟩
      cases found.symm.trans aboveFound
      exact Or.inr ⟨child, child_mem, (ih child child_mem inner innerFound).mpr ⟨listed, inside⟩⟩

theorem mem_keys_descendants_iff (nested : forest.Nested) {handle : String} {top : Subgraph}
    (found : forest.get? handle = some top) (key : String) :
    key ∈ (forest.descendants handle).map Subgraph.key ↔
      key ∈ forest.keys ∧ forest.Encloses handle key := by
  rw [List.mem_map]
  constructor
  · rintro ⟨subgraph, below, rfl⟩
    have ⟨listed, encloses⟩ := (nested.mem_descendants_iff found subgraph).mp below
    exact ⟨OrderedMap.mem_keys_of_get? listed, encloses⟩
  · rintro ⟨key_mem, encloses⟩
    rcases (OrderedMap.mem_keys_iff forest key).mp key_mem with ⟨subgraph, listed⟩
    have key_eq := nested.key_eq listed
    refine ⟨subgraph, (nested.mem_descendants_iff found subgraph).mpr ?_, key_eq⟩
    rw [key_eq]
    exact ⟨listed, encloses⟩

/-! ### Every subgraph is met once -/

theorem rank_child_lt (nested : forest.Nested) {handle child : String} {subgraph : Subgraph}
    (found : forest.get? handle = some subgraph) (child_mem : child ∈ subgraph.children) :
    forest.rank handle < forest.rank child :=
  nested.rank_lt (nested.parent_of_child found child_mem)

theorem nodup_keys_descendants (nested : forest.Nested) {handle : String} {top : Subgraph}
    (found : forest.get? handle = some top) :
    ((forest.descendants handle).map Subgraph.key).Nodup := by
  refine nested.induction (motive := fun handle =>
    ((forest.descendants handle).map Subgraph.key).Nodup) ?_ found
  intro handle top found ih
  rw [nested.descendants_eq found, List.map_cons, nested.key_eq found, List.map_flatMap,
    List.nodup_cons, List.nodup_flatMap]
  refine ⟨?_, ih, ?_⟩
  · intro again
    rcases List.mem_flatMap.mp again with ⟨child, child_mem, below⟩
    rcases get?_of_parent? (nested.parent_of_child found child_mem) with ⟨inner, innerFound, _⟩
    have ⟨_, encloses⟩ := (nested.mem_keys_descendants_iff innerFound handle).mp below
    have deeper := nested.rank_child_lt found child_mem
    rcases nested.encloses_eq_or_rank_lt encloses with rfl | higher <;> omega
  · refine (nested.children_nodup found).imp_of_mem ?_
    intro child child' child_mem child'_mem differs key below below'
    have parent_eq := nested.parent_of_child found child_mem
    have parent_eq' := nested.parent_of_child found child'_mem
    rcases get?_of_parent? parent_eq with ⟨inner, innerFound, _⟩
    rcases get?_of_parent? parent_eq' with ⟨inner', innerFound', _⟩
    have ⟨_, encloses⟩ := (nested.mem_keys_descendants_iff innerFound key).mp below
    have ⟨_, encloses'⟩ := (nested.mem_keys_descendants_iff innerFound' key).mp below'
    have deeper := nested.rank_child_lt found child_mem
    have deeper' := nested.rank_child_lt found child'_mem
    -- One of the two siblings would be around their common parent.
    rcases encloses_total encloses encloses' with around | around
    · rcases nested.encloses_eq_or_rank_lt
        (encloses_parent around (Ne.symm differs) parent_eq) with rfl | higher <;> omega
    · rcases nested.encloses_eq_or_rank_lt
        (encloses_parent around differs parent_eq') with rfl | higher <;> omega

/-- The subgraphs below a subgraph include its children and those that are below one of them. -/
theorem children_sublist (nested : forest.Nested) {handle : String} {top : Subgraph}
    (found : forest.get? handle = some top) {subgraph : Subgraph}
    (subgraph_mem : subgraph ∈ forest.descendants handle) :
    subgraph.children.Sublist ((forest.descendants handle).map Subgraph.key) := by
  refine nested.induction (motive := fun handle => ∀ subgraph ∈ forest.descendants handle,
    subgraph.children.Sublist ((forest.descendants handle).map Subgraph.key)) ?_ found subgraph
    subgraph_mem
  intro handle top found ih subgraph subgraph_mem
  rw [nested.descendants_eq found] at subgraph_mem ⊢
  rw [List.map_cons, List.map_flatMap]
  apply List.Sublist.cons
  rcases List.mem_cons.mp subgraph_mem with rfl | below
  · apply sublist_flatMap
    intro child child_mem
    rcases get?_of_parent? (nested.parent_of_child found child_mem) with ⟨inner, innerFound, _⟩
    rw [nested.descendants_eq innerFound, List.map_cons, nested.key_eq innerFound]
    exact List.mem_cons_self
  · rcases List.mem_flatMap.mp below with ⟨child, child_mem, subgraph_mem⟩
    have inside := ih child child_mem subgraph subgraph_mem
    apply inside.trans
    rw [List.flatMap_def]
    exact List.sublist_flatten_of_mem (List.mem_map_of_mem child_mem)

/-- The children of a subgraph are met in their order. -/
theorem map_key_filter_parent (nested : forest.Nested) {handle : String} {top : Subgraph}
    (found : forest.get? handle = some top) {subgraph : Subgraph}
    (subgraph_mem : subgraph ∈ forest.descendants handle) :
    ((forest.descendants handle).filter fun other => other.parent = some subgraph.key).map
      Subgraph.key = subgraph.children := by
  have listed := (nested.mem_descendants_iff found subgraph).mp subgraph_mem
  have isChild : ∀ child, child ∈ subgraph.children ↔
      forest.parent? child = some subgraph.key := by
    intro child
    constructor
    · exact nested.parent_of_child listed.1
    · intro parent_eq
      rcases nested.child_of_parent parent_eq with ⟨above, aboveFound, child_mem⟩
      cases listed.1.symm.trans aboveFound
      exact child_mem
  have parent_eq : ∀ other ∈ forest.descendants handle,
      decide (other.parent = some subgraph.key) =
        decide (forest.parent? other.key = some subgraph.key) := by
    intro other other_mem
    have otherFound := ((nested.mem_descendants_iff found other).mp other_mem).1
    rw [parent?, otherFound, Option.bind_some]
  let inside (key : String) := decide (forest.parent? key = some subgraph.key)
  have keys_eq := List.filter_map (f := Subgraph.key) (p := inside) (l := forest.descendants handle)
  rw [List.filter_congr parent_eq]
  refine keys_eq.symm.trans ?_
  have sublist := (nested.children_sublist found subgraph_mem).filter inside
  rw [List.filter_eq_self.mpr fun child child_mem =>
    decide_eq_true ((isChild child).mp child_mem)] at sublist
  apply Eq.symm
  apply sublist.eq_of_length_le
  apply ((nested.nodup_keys_descendants found).filter inside).length_le_of_subset
  intro child child_mem
  exact (isChild child).mpr (of_decide_eq_true (List.mem_filter.mp child_mem).2)

theorem exists_top (nested : forest.Nested) {handle : String} {subgraph : Subgraph}
    (found : forest.get? handle = some subgraph) :
    ∃ top ∈ forest.tops, forest.Encloses top handle := by
  induction height : forest.rank handle using Nat.strongRecOn generalizing handle subgraph with
  | ind height ih =>
      cases parent_eq : subgraph.parent with
      | none =>
          refine ⟨handle, ?_, .refl⟩
          rw [mem_tops_iff]
          exact ⟨subgraph, found, parent_eq⟩
      | some parent =>
          have up : forest.parent? handle = some parent := by simp [parent?, found, parent_eq]
          rcases nested.child_of_parent up with ⟨above, aboveFound, _⟩
          have lower := nested.rank_lt up
          rcases ih (forest.rank parent) (by omega) aboveFound rfl with ⟨top, top_mem, encloses⟩
          exact ⟨top, top_mem, encloses.head up⟩

/-- Going down from the subgraphs without parent meets every key exactly once. -/
theorem walk_tops_perm (nested : forest.Nested) :
    ((forest.tops.flatMap forest.descendants).map Subgraph.key).Perm forest.keys := by
  rw [List.map_flatMap]
  refine (List.perm_ext_iff_of_nodup ?_ forest.nodup_keys).mpr ?_
  · rw [List.nodup_flatMap]
    constructor
    · intro top top_mem
      rcases mem_tops_iff.mp top_mem with ⟨subgraph, found, _⟩
      exact nested.nodup_keys_descendants found
    · refine nodup_tops.imp_of_mem ?_
      intro top top' top_mem top'_mem differs key below below'
      rcases mem_tops_iff.mp top_mem with ⟨subgraph, found, parent_eq⟩
      rcases mem_tops_iff.mp top'_mem with ⟨subgraph', found', parent_eq'⟩
      have ⟨_, encloses⟩ := (nested.mem_keys_descendants_iff found key).mp below
      have ⟨_, encloses'⟩ := (nested.mem_keys_descendants_iff found' key).mp below'
      rcases encloses_total encloses encloses' with around | around
      · exact differs (eq_of_encloses_top found parent_eq around).symm
      · exact differs (eq_of_encloses_top found' parent_eq' around)
  · intro key
    rw [List.mem_flatMap]
    constructor
    · rintro ⟨top, top_mem, below⟩
      rcases mem_tops_iff.mp top_mem with ⟨subgraph, found, _⟩
      exact ((nested.mem_keys_descendants_iff found key).mp below).1
    · intro key_mem
      rcases (OrderedMap.mem_keys_iff forest key).mp key_mem with ⟨subgraph, found⟩
      rcases nested.exists_top found with ⟨top, top_mem, encloses⟩
      rcases mem_tops_iff.mp top_mem with ⟨topmost, topFound, _⟩
      exact ⟨top, top_mem, (nested.mem_keys_descendants_iff topFound key).mpr ⟨key_mem, encloses⟩⟩

/-- Going down from the subgraphs without parent meets every subgraph exactly once. -/
theorem walk_tops_perm_values (nested : forest.Nested) :
    (forest.tops.flatMap forest.descendants).Perm forest.values := by
  have listed : ∀ subgraph ∈ forest.tops.flatMap forest.descendants,
      forest.get? subgraph.key = some subgraph := by
    intro subgraph subgraph_mem
    rcases List.mem_flatMap.mp subgraph_mem with ⟨top, top_mem, below⟩
    rcases mem_tops_iff.mp top_mem with ⟨topmost, topFound, _⟩
    exact ((nested.mem_descendants_iff topFound subgraph).mp below).1
  have met : ((forest.tops.flatMap forest.descendants).map Subgraph.key).filterMap forest.get? =
      forest.tops.flatMap forest.descendants := by
    rw [List.filterMap_map]
    calc
      List.filterMap (forest.get? ∘ Subgraph.key) _ = List.filterMap some _ :=
        List.filterMap_congr listed
      _ = _ := List.filterMap_some
  rw [← met, ← forest.filterMap_get?_keys]
  exact nested.walk_tops_perm.filterMap forest.get?

/-- Parent chains are finite. -/
theorem wellFounded_parent (nested : forest.Nested) :
    WellFounded fun parent child => forest.parent? child = some parent :=
  Subrelation.wf nested.rank_lt (measure forest.rank).wf

end Nested

/-! ### Growing a forest -/

theorem nested_empty : Nested ∅ where
  key_eq found := nomatch found
  children_nodup found := nomatch found
  parent_of_child found := nomatch found
  child_of_parent parent_eq := nomatch parent_eq
  rank_lt parent_eq := nomatch parent_eq

/-- A change of the subgraphs that leaves key, children and parent alone keeps the nesting. -/
theorem Nested.mapValues {forest : Forest} (nested : forest.Nested)
    {change : String → Subgraph → Subgraph}
    (key_eq : ∀ handle subgraph, (change handle subgraph).key = subgraph.key)
    (children_eq : ∀ handle subgraph, (change handle subgraph).children = subgraph.children)
    (parent_eq : ∀ handle subgraph, (change handle subgraph).parent = subgraph.parent) :
    Nested (OrderedMap.mapValues change forest) := by
  have sameParent (handle : String) :
      Forest.parent? (OrderedMap.mapValues change forest) handle = forest.parent? handle := by
    rw [parent?, parent?, OrderedMap.get?_mapValues]
    cases forest.get? handle <;> simp [parent_eq]
  have sameRank (handle : String) :
      Forest.rank (OrderedMap.mapValues change forest) handle = forest.rank handle := by
    rw [rank, rank, OrderedMap.keys_mapValues]
  constructor
  case key_eq =>
    intro handle subgraph found
    rw [OrderedMap.get?_mapValues, Option.map_eq_some_iff] at found
    rcases found with ⟨old, oldFound, rfl⟩
    rw [key_eq, nested.key_eq oldFound]
  case children_nodup =>
    intro handle subgraph found
    rw [OrderedMap.get?_mapValues, Option.map_eq_some_iff] at found
    rcases found with ⟨old, oldFound, rfl⟩
    rw [children_eq]
    exact nested.children_nodup oldFound
  case parent_of_child =>
    intro handle subgraph child found child_mem
    rw [OrderedMap.get?_mapValues, Option.map_eq_some_iff] at found
    rcases found with ⟨old, oldFound, rfl⟩
    rw [children_eq] at child_mem
    rw [sameParent]
    exact nested.parent_of_child oldFound child_mem
  case child_of_parent =>
    intro handle child up
    rw [sameParent] at up
    rcases nested.child_of_parent up with ⟨old, oldFound, child_mem⟩
    refine ⟨change handle old, ?_, ?_⟩
    · rw [OrderedMap.get?_mapValues, oldFound, Option.map_some]
    · rw [children_eq]
      exact child_mem
  case rank_lt =>
    intro handle child up
    rw [sameParent] at up
    rw [sameRank, sameRank]
    exact nested.rank_lt up

theorem Nested.modify {forest : Forest} (nested : forest.Nested) (handle : String)
    {change : Subgraph → Subgraph}
    (key_eq : ∀ subgraph, (change subgraph).key = subgraph.key)
    (children_eq : ∀ subgraph, (change subgraph).children = subgraph.children)
    (parent_eq : ∀ subgraph, (change subgraph).parent = subgraph.parent) :
    Nested (OrderedMap.modify forest handle change) := by
  apply nested.mapValues
  all_goals intro other subgraph
  · split <;> simp [key_eq]
  · split <;> simp [children_eq]
  · split <;> simp [parent_eq]

end Forest

namespace Walk

variable {graphs : Forest} {parent : Option String} {subgraph : Subgraph}

@[simp]
theorem keys_plant (graphs : Forest) (parent : Option String) (subgraph : Subgraph) :
    (plant graphs parent subgraph).keys = (graphs.insert subgraph.key subgraph).keys := by
  cases parent <;> simp [plant, Forest.adopt]

/-- What stands in the table after a new subgraph is planted: itself below its parent, its parent
with one more child, and everything else as it was. -/
theorem get?_plant (nested : graphs.Nested) (absent : subgraph.key ∉ graphs.keys)
    (parentListed : ∀ handle ∈ parent, handle ∈ graphs.keys) (handle : String) :
    (plant graphs parent subgraph).get? handle =
      if handle = subgraph.key then
        some { subgraph with parent := parent.or subgraph.parent }
      else if some handle = parent then
        (graphs.get? handle).map fun above =>
          { above with children := above.children ++ [subgraph.key] }
      else graphs.get? handle := by
  cases parent with
  | none =>
      rw [plant, OrderedMap.get?_insert]
      simp
  | some above =>
      have above_mem : above ∈ graphs.keys := parentListed above rfl
      have differs : above ≠ subgraph.key := fun same => absent (same ▸ above_mem)
      rcases (OrderedMap.mem_keys_iff graphs above).mp above_mem with ⟨parent, parentFound⟩
      have noTwin (child : String) (child_mem : child ∈ parent.children) :
          Forest.keyOf? (graphs.insert subgraph.key subgraph) child ≠
            Forest.keyOf? (graphs.insert subgraph.key subgraph) subgraph.key := by
        rcases Forest.get?_of_parent? (nested.parent_of_child parentFound child_mem) with
          ⟨inner, innerFound, _⟩
        have inner_ne : child ≠ subgraph.key := fun same =>
          absent (same ▸ OrderedMap.mem_keys_of_get? innerFound)
        simp [Forest.keyOf?, OrderedMap.get?_insert, inner_ne, innerFound,
          nested.key_eq innerFound]
      have enlisted : Forest.enlist (graphs.insert subgraph.key subgraph) parent.children
          subgraph.key = parent.children ++ [subgraph.key] := by
        rw [Forest.enlist, if_neg]
        simpa using noTwin
      simp only [plant, Forest.adopt, OrderedMap.get?_modify, OrderedMap.get?_insert,
        Option.some_inj]
      by_cases isNew : handle = subgraph.key
      · subst isNew
        simp [differs.symm]
      · by_cases isAbove : handle = above
        · subst isAbove
          simp [isNew, parentFound, enlisted]
        · simp [isNew, isAbove]

theorem rank_plant_of_mem (absent : subgraph.key ∉ graphs.keys) {handle : String}
    (handle_mem : handle ∈ graphs.keys) :
    Forest.rank (plant graphs parent subgraph) handle = graphs.rank handle := by
  rw [Forest.rank, keys_plant, OrderedMap.keys_insert_of_not_mem _ absent,
    List.idxOf_append_of_mem handle_mem, Forest.rank]

theorem rank_plant_self (absent : subgraph.key ∉ graphs.keys) :
    Forest.rank (plant graphs parent subgraph) subgraph.key = graphs.keys.length := by
  rw [Forest.rank, keys_plant, OrderedMap.keys_insert_of_not_mem _ absent,
    List.idxOf_append_of_notMem absent]
  simp

theorem parent?_plant (nested : graphs.Nested) (absent : subgraph.key ∉ graphs.keys)
    (parentListed : ∀ handle ∈ parent, handle ∈ graphs.keys) (noParent : subgraph.parent = none)
    (handle : String) :
    Forest.parent? (plant graphs parent subgraph) handle =
      if handle = subgraph.key then parent else graphs.parent? handle := by
  rw [Forest.parent?, Forest.parent?, get?_plant nested absent parentListed]
  split
  · simp [noParent]
  · split
    · cases graphs.get? handle <;> simp
    · rfl

/-- Planting a new subgraph without children keeps the nesting. -/
theorem nested_plant (nested : graphs.Nested) (absent : subgraph.key ∉ graphs.keys)
    (parentListed : ∀ handle ∈ parent, handle ∈ graphs.keys)
    (noChildren : subgraph.children = []) (noParent : subgraph.parent = none) :
    Forest.Nested (plant graphs parent subgraph) := by
  have lookup := get?_plant nested absent parentListed
  have newParent := parent?_plant nested absent parentListed noParent
  have listed {handle parent' : String} (up : graphs.parent? handle = some parent') :
      handle ∈ graphs.keys := by
    rcases Forest.get?_of_parent? up with ⟨inner, innerFound, _⟩
    exact OrderedMap.mem_keys_of_get? innerFound
  have childListed {handle child : String} {top : Subgraph}
      (found : graphs.get? handle = some top) (child_mem : child ∈ top.children) :
      child ≠ subgraph.key :=
    fun same => absent (same ▸ listed (nested.parent_of_child found child_mem))
  constructor
  case key_eq =>
    intro handle inner found
    rw [lookup] at found
    split at found
    · cases found
      next same => exact same.symm
    · split at found
      · rcases Option.map_eq_some_iff.mp found with ⟨old, oldFound, rfl⟩
        have key_eq := nested.key_eq oldFound
        exact key_eq
      · exact nested.key_eq found
  case children_nodup =>
    intro handle inner found
    rw [lookup] at found
    split at found
    · cases found
      simp [noChildren]
    · split at found
      · rcases Option.map_eq_some_iff.mp found with ⟨old, oldFound, rfl⟩
        refine (nested.children_nodup oldFound).append (List.nodup_singleton _) ?_
        rw [List.disjoint_singleton]
        exact fun child_mem => childListed oldFound child_mem rfl
      · exact nested.children_nodup found
  case parent_of_child =>
    intro handle inner child found child_mem
    rw [lookup] at found
    rw [newParent]
    split at found
    · cases found
      simp [noChildren] at child_mem
    · split at found
      · next isAbove =>
          rcases Option.map_eq_some_iff.mp found with ⟨old, oldFound, rfl⟩
          rcases List.mem_append.mp child_mem with old_mem | isNew
          · rw [if_neg (childListed oldFound old_mem)]
            exact nested.parent_of_child oldFound old_mem
          · rw [List.mem_singleton] at isNew
            rw [if_pos isNew, isAbove]
      · rw [if_neg (childListed found child_mem)]
        exact nested.parent_of_child found child_mem
  case child_of_parent =>
    intro handle child up
    rw [newParent] at up
    split at up
    · next isNew =>
        have handle_mem := parentListed handle up
        rcases (OrderedMap.mem_keys_iff graphs handle).mp handle_mem with ⟨old, oldFound⟩
        have differs : handle ≠ subgraph.key := fun same => absent (same ▸ handle_mem)
        refine ⟨{ old with children := old.children ++ [subgraph.key] }, ?_, ?_⟩
        · rw [lookup, if_neg differs, if_pos up.symm, oldFound, Option.map_some]
        · simp [isNew]
    · rcases nested.child_of_parent up with ⟨old, oldFound, child_mem⟩
      have differs : handle ≠ subgraph.key := fun same =>
        absent (same ▸ OrderedMap.mem_keys_of_get? oldFound)
      by_cases isAbove : some handle = parent
      · refine ⟨{ old with children := old.children ++ [subgraph.key] }, ?_, ?_⟩
        · rw [lookup, if_neg differs, if_pos isAbove, oldFound, Option.map_some]
        · exact List.mem_append_left _ child_mem
      · refine ⟨old, ?_, child_mem⟩
        rw [lookup, if_neg differs, if_neg isAbove, oldFound]
  case rank_lt =>
    intro handle child up
    rw [newParent] at up
    split at up
    · next isNew =>
        have handle_mem := parentListed handle up
        rw [isNew, rank_plant_self absent, rank_plant_of_mem absent handle_mem]
        exact List.idxOf_lt_length_of_mem handle_mem
    · rcases nested.child_of_parent up with ⟨old, oldFound, _⟩
      rw [rank_plant_of_mem absent (OrderedMap.mem_keys_of_get? oldFound),
        rank_plant_of_mem absent (listed up)]
      exact nested.rank_lt up

end Walk

end DotLang
