import DotLang.Proofs.FirstOccurrences
import DotLang.Proofs.Forest

/-!
# Transitive members

The members of a subgraph and of all subgraphs below it are collected level by
level, and repeated names are dropped at every level. The result is the same as if
the members were listed in the order of the walk and repeated names were dropped
once, at the end (`Hierarchy.allNodes_eq`): what counts of a list is the order of
the first occurrences, and dropping repetitions in a part of it keeps this order.
-/

namespace DotLang

namespace Hierarchy

mutual

/-- The transitive members are the members of the subgraphs in the hierarchy, in the order of the
walk, each at its first occurrence. -/
theorem allNodes_eq : ∀ hierarchy : Hierarchy,
    hierarchy.allNodes = (hierarchy.walk.flatMap Subgraph.nodes).eraseDups
  | .scope top children => by
      rw [allNodes, walk, List.flatMap_cons]
      exact eraseDups_append_congr rfl (eraseDups_allNodesOf children)

theorem eraseDups_allNodesOf : ∀ hierarchies : List Hierarchy,
    (allNodesOf hierarchies).eraseDups =
      ((walkAll hierarchies).flatMap Subgraph.nodes).eraseDups
  | [] => rfl
  | first :: rest => by
      have here : first.allNodes.eraseDups = (first.walk.flatMap Subgraph.nodes).eraseDups := by
        rw [allNodes_eq first]
        exact eraseDups_append_eraseDups [] _
      rw [allNodesOf, walkAll, List.flatMap_append]
      exact eraseDups_append_congr here (eraseDups_allNodesOf rest)

end

theorem mem_allNodes_iff (node : String) (hierarchy : Hierarchy) :
    node ∈ hierarchy.allNodes ↔ ∃ subgraph ∈ hierarchy.walk, node ∈ subgraph.nodes := by
  rw [allNodes_eq, List.mem_eraseDups, List.mem_flatMap]

end Hierarchy

theorem Forest.mem_walk_hierarchyTo {forest : Forest} {depth : Nat} {top subgraph : Subgraph}
    (below : subgraph ∈ (forest.hierarchyTo depth top).walk) :
    subgraph = top ∨ ∃ handle, forest.get? handle = some subgraph := by
  induction depth generalizing top with
  | zero =>
      left
      simpa [hierarchyTo, Hierarchy.walk, Hierarchy.walkAll] using below
  | succ depth ih =>
      simp only [hierarchyTo, Hierarchy.walk, Hierarchy.walkAll_eq_flatMap, List.mem_cons,
        List.mem_flatMap, List.mem_filterMap, Option.map_eq_some_iff] at below
      rcases below with here | ⟨_, ⟨child, _, inner, innerFound, rfl⟩, deeper⟩
      · exact Or.inl here
      · rcases ih deeper with rfl | found
        · exact Or.inr ⟨child, innerFound⟩
        · exact Or.inr found

/-- A transitive member of a subgraph is a member of some subgraph. -/
theorem Forest.exists_member_of_mem_allNodes {forest : Forest} {handle node : String}
    (node_mem : node ∈ forest.allNodes handle) :
    ∃ handle' subgraph, forest.get? handle' = some subgraph ∧ node ∈ subgraph.nodes := by
  rw [allNodes, hierarchy?] at node_mem
  cases found : forest.get? handle with
  | none => simp [found] at node_mem
  | some top =>
      simp only [found, Option.map_some] at node_mem
      rcases (Hierarchy.mem_allNodes_iff node _).mp node_mem with ⟨subgraph, below, member⟩
      rcases mem_walk_hierarchyTo below with rfl | ⟨handle', found'⟩
      · exact ⟨handle, subgraph, found, member⟩
      · exact ⟨handle', subgraph, found', member⟩

theorem Forest.allNodes_eq (forest : Forest) (handle : String) :
    forest.allNodes handle =
      ((forest.descendants handle).flatMap Subgraph.nodes).eraseDups := by
  rw [allNodes, descendants]
  cases forest.hierarchy? handle with
  | none => rfl
  | some hierarchy => exact hierarchy.allNodes_eq

/-- The transitive members of a subgraph are the members of the subgraphs that a walk from it meets,
in the order of the walk, and each name stands where it occurs first. No name is repeated, and what
was dropped at lower levels makes no difference. -/
theorem Hierarchy.members_in_order :
    (∀ hierarchy : Hierarchy,
      let members := hierarchy.walk.flatMap Subgraph.nodes
      hierarchy.allNodes = members.eraseDups ∧ hierarchy.allNodes.Nodup ∧
        (∀ node, node ∈ hierarchy.allNodes ↔
          ∃ subgraph ∈ hierarchy.walk, node ∈ subgraph.nodes) ∧
        hierarchy.allNodes.Pairwise fun earlier later =>
          members.idxOf earlier < members.idxOf later) ∧
    ∀ (forest : Forest) (handle : String), forest.allNodes handle =
      ((forest.descendants handle).flatMap Subgraph.nodes).eraseDups := by
  refine ⟨fun hierarchy => ?_, fun forest handle => forest.allNodes_eq handle⟩
  intro members
  have all_eq : hierarchy.allNodes = members.eraseDups := hierarchy.allNodes_eq
  refine ⟨all_eq, ?_, fun node => hierarchy.mem_allNodes_iff node, ?_⟩
  · rw [all_eq]
    exact nodup_eraseDups members
  · rw [all_eq]
    exact pairwise_idxOf_eraseDups members

end DotLang
