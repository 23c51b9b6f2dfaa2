import DotLang.Model
import DotLang.Proofs.FirstOccurrences
import DotLang.Proofs.OrderedMap

/-!
# The index of edges

The index sorts the numbers of the edges into one group for each pair of end
points. Every edge is in the group of its own end points and in no other, so
listing the edges group by group lists each of them once (`edgeOrder_perm`), and
a group holds what a search through all edges finds (`getEdges_eq`).
-/

namespace DotLang

theorem OrderedMap.values_flatten {κ α : Type} [DecidableEq κ] (map : OrderedMap κ (List α)) :
    map.values.flatten = map.keys.flatMap fun key => (map.get? key).getD [] := by
  rw [← map.filterMap_get?_keys]
  induction map.keys with
  | nil => rfl
  | cons key rest ih =>
      rw [List.flatMap_cons, ← ih, List.filterMap_cons]
      cases map.get? key <;> rfl

namespace Model

/-- Indexing edges appends to every group the numbers of the edges with its end points. -/
theorem getD_foldl_indexEdge (numbered : List (Edge × Nat))
    (index : OrderedMap (String × String) (List Nat)) (key : String × String) :
    ((numbered.foldl (fun index (edge, number) => indexEdge index edge number) index).get? key).getD
        [] =
      (index.get? key).getD [] ++
        (numbered.filter fun entry => entry.1.key = key).map Prod.snd := by
  induction numbered generalizing index with
  | nil => simp
  | cons entry rest ih =>
      rcases entry with ⟨edge, number⟩
      rw [List.foldl_cons, ih]
      simp only [indexEdge, OrderedMap.get?_insert]
      by_cases same : edge.key = key
      · subst same
        simp
      · have differs : key ≠ edge.key := Ne.symm same
        simp [same, differs]

/-- The pairs of end points are listed in the order in which they first occur. -/
theorem keys_foldl_indexEdge (numbered : List (Edge × Nat)) :
    (numbered.foldl (fun index (edge, number) => indexEdge index edge number) ∅).keys =
      (numbered.map fun entry => entry.1.key).eraseDups := by
  induction numbered using List.reverseRecOn with
  | nil => rfl
  | append_singleton earlier entry ih =>
      rcases entry with ⟨edge, number⟩
      rw [List.foldl_append, List.foldl_cons, List.foldl_nil]
      change (indexEdge _ edge number).keys = _
      rw [indexEdge, OrderedMap.keys_insert, ih, List.map_append, List.map_singleton,
        eraseDups_concat]
      simp only [List.mem_eraseDups]

theorem keys_edgeIndex (model : Model) :
    model.edgeIndex.keys = (model.edges.map Edge.key).eraseDups := by
  rw [edgeIndex, keys_foldl_indexEdge]
  conv_rhs => rw [← List.zipIdx_map_fst 0 model.edges, List.map_map]
  rfl

/-- The numbers of the edges with the given end points. -/
theorem getD_edgeIndex (model : Model) (key : String × String) :
    (model.edgeIndex.get? key).getD [] =
      (model.edges.zipIdx.filter fun entry => entry.1.key = key).map Prod.snd := by
  rw [edgeIndex, getD_foldl_indexEdge]
  simp

theorem mem_group_iff (model : Model) (key : String × String) (number : Nat) :
    number ∈ (model.edgeIndex.get? key).getD [] ↔
      ∃ edge, model.edges[number]? = some edge ∧ edge.key = key := by
  rw [getD_edgeIndex, List.mem_map]
  constructor
  · rintro ⟨⟨edge, number⟩, entry_mem, rfl⟩
    rw [List.mem_filter, List.mem_zipIdx_iff_getElem?, decide_eq_true_eq] at entry_mem
    exact ⟨edge, entry_mem⟩
  · rintro ⟨edge, found, key_eq⟩
    refine ⟨(edge, number), ?_, rfl⟩
    rw [List.mem_filter, List.mem_zipIdx_iff_getElem?, decide_eq_true_eq]
    exact ⟨found, key_eq⟩

/-- Only pairs of end points that occur are listed. -/
theorem group_ne_nil {model : Model} {key : String × String} {group : List Nat}
    (found : model.edgeIndex.get? key = some group) : group ≠ [] := by
  have listed := OrderedMap.mem_keys_of_get? found
  rw [keys_edgeIndex, List.mem_eraseDups, List.mem_map] at listed
  rcases listed with ⟨edge, edge_mem, key_eq⟩
  rcases List.getElem?_of_mem edge_mem with ⟨number, edge_found⟩
  have number_mem := (model.mem_group_iff key number).mpr ⟨edge, edge_found, key_eq⟩
  rw [found, Option.getD_some] at number_mem
  exact List.ne_nil_of_mem number_mem

theorem nodup_group (model : Model) (key : String × String) :
    ((model.edgeIndex.get? key).getD []).Nodup := by
  have numbers : (model.edges.zipIdx.map Prod.snd).Nodup := by
    rw [List.zipIdx_map_snd]
    exact List.nodup_range'
  rw [getD_edgeIndex]
  exact numbers.sublist (List.filter_sublist.map Prod.snd)

theorem mem_edgeOrder_iff (model : Model) (number : Nat) :
    number ∈ model.edgeOrder ↔ number < model.edges.length := by
  rw [edgeOrder, OrderedMap.values_flatten, List.mem_flatMap]
  constructor
  · rintro ⟨key, _, number_mem⟩
    rcases (model.mem_group_iff key number).mp number_mem with ⟨edge, found, _⟩
    exact (List.getElem?_eq_some_iff.mp found).1
  · intro bounded
    have found := List.getElem?_eq_getElem bounded
    have number_mem := (model.mem_group_iff _ number).mpr ⟨_, found, rfl⟩
    refine ⟨_, ?_, number_mem⟩
    -- A group that is not empty is listed.
    rw [OrderedMap.mem_keys_iff]
    cases group : model.edgeIndex.get? (model.edges[number]).key with
    | none => simp [group] at number_mem
    | some numbers => exact ⟨numbers, rfl⟩

theorem nodup_edgeOrder (model : Model) : model.edgeOrder.Nodup := by
  rw [edgeOrder, OrderedMap.values_flatten, List.nodup_flatMap]
  refine ⟨fun key _ => model.nodup_group key, ?_⟩
  refine model.edgeIndex.nodup_keys.imp ?_
  intro key key' differs number number_mem number_mem'
  rcases (model.mem_group_iff key number).mp number_mem with ⟨edge, found, key_eq⟩
  rcases (model.mem_group_iff key' number).mp number_mem' with ⟨edge', found', key_eq'⟩
  cases found.symm.trans found'
  exact differs (key_eq.symm.trans key_eq')

/-- Group by group, every edge is listed once. -/
theorem edgeOrder_perm (model : Model) :
    model.edgeOrder.Perm (List.range model.edges.length) := by
  refine (List.perm_ext_iff_of_nodup model.nodup_edgeOrder List.nodup_range).mpr ?_
  intro number
  rw [mem_edgeOrder_iff, List.mem_range]

/-- The edges from one node to another are found by looking at all edges. -/
theorem getEdges_eq (model : Model) (tail head : String) :
    model.getEdges tail head = model.edges.filter fun edge => edge.key = (tail, head) := by
  rw [getEdges, edgesAt, getD_edgeIndex, List.filterMap_map]
  calc
    List.filterMap _ _ = List.filterMap (some ∘ Prod.fst)
        (model.edges.zipIdx.filter fun entry => entry.1.key = (tail, head)) := by
      apply List.filterMap_congr
      intro entry entry_mem
      exact List.mem_zipIdx_iff_getElem?.mp (List.mem_of_mem_filter entry_mem)
    _ = (model.edges.zipIdx.map Prod.fst).filter fun edge => edge.key = (tail, head) := by
      rw [List.filterMap_eq_map, List.filter_map]
      rfl
    _ = model.edges.filter fun edge => edge.key = (tail, head) := by
      rw [List.zipIdx_map_fst]

end Model

end DotLang
