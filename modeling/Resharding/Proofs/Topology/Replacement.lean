import Resharding.Proofs.Topology.Built

/-!
Replacing nodes again and again.

A cluster in which nodes were replaced has every node under its id. So replacing nodes once more is
replacing both lists at once (`Cluster.replaceNodes_append`), and nodes that are replaced again need
not have been replaced before (`Cluster.replaceNodes_replaceNodes`). A target that was staged has
nothing left to stage, whatever was replaced since (`Cluster.stage_replaceNodes`). All this holds of
any cluster. Where ids ascend, the node that is found under an id is the last one that was given
under it (`Cluster.node?_replaceNodes_eq`).
-/

namespace Resharding.Cluster

variable {c target : Cluster} {m : SortedMap NodeId Node} {nodes updated again : List Node}
  {id : NodeId} {n : Node}

/-! ### Replacing after replacing -/

/-- Nodes that are under their ids stay there when they are listed and read again. -/
theorem Keyed.byId_values (keyed : Keyed m) : byId m.values = m :=
  SortedMap.ext_get? fun id =>
    (get?_byId (c := ofMap "" m []) keyed.ascending id).trans (keyed.node?_ofMap "" [] id)

theorem zones_ofMap_ofMap (name name' : String) (m m' : SortedMap NodeId Node) (zones : List Zone) :
    ofMap name m (ofMap name' m' zones).zones = ofMap name m zones := by
  simp only [ofMap]
  cases zones <;> rfl

/-- Two replacements in turn are one replacement by both lists. -/
theorem replaceNodes_append (c : Cluster) (first second : List Node) :
    c.replaceNodes (first ++ second) = (c.replaceNodes first).replaceNodes second := by
  -- The nodes were listed in between, but listing and reading them again loses nothing.
  have keyed := (keyed_byId c.nodes).insertAll first
  have read : byId (c.replaceNodes first).nodes =
      (byId c.nodes).insertAll (first.map fun n => (n.id, n)) := keyed.byId_values
  simp only [replaceNodes, List.map_append, SortedMap.insertAll_append] at read ⊢
  rw [read]
  exact (zones_ofMap_ofMap ..).symm

theorem map_fst_pairs (nodes : List Node) :
    (nodes.map fun n => (n.id, n)).map Prod.fst = nodes.map (·.id) := List.map_map

/-- What was replaced can be replaced again. -/
theorem replaceNodes_replaceNodes (covers : updated.map (·.id) ⊆ again.map (·.id)) (c : Cluster) :
    (c.replaceNodes updated).replaceNodes again = c.replaceNodes again := by
  have keys : (updated.map fun n => (n.id, n)).map Prod.fst ⊆
      (again.map fun n => (n.id, n)).map Prod.fst := by
    rw [map_fst_pairs, map_fst_pairs]
    exact covers
  rw [← replaceNodes_append]
  simp only [replaceNodes, List.map_append, SortedMap.insertAll_append]
  rw [SortedMap.insertAll_insertAll keys]

/-! ### What is found after replacing -/

/-- Of several nodes that are given under one id, the last counts. -/
theorem node?_replaceNodes_eq (ascending : c.nodes.Pairwise (·.id < ·.id)) (nodes : List Node)
    (id : NodeId) :
    (c.replaceNodes nodes).node? id =
      (nodes.filter fun n => n.id = id).getLast?.or (c.node? id) := by
  rw [node?_replaceNodes, SortedMap.get?_insertAll, get?_byId ascending, List.filter_map,
    List.getLast?_map, Option.map_map]
  exact congrArg (Option.or · (c.node? id)) Option.map_id'

theorem contains_replaceNodes :
    (c.replaceNodes nodes).contains id ↔ id ∈ nodes.map (·.id) ∨ id ∈ c.nodeIds := by
  simp only [contains, node?_replaceNodes]
  rw [SortedMap.isSome_get?_insertAll, map_fst_pairs, byId, SortedMap.ofList,
    SortedMap.isSome_get?_insertAll, map_fst_pairs]
  exact or_congr_right (or_iff_left Bool.false_ne_true)

/-! ### Staging again -/

/-- Where all nodes of a target are, there is nothing to stage. -/
theorem newcomers_eq_nil (all : ∀ n ∈ target.nodes, c.contains n.id) : c.newcomers target = [] := by
  simp only [newcomers, List.map_eq_nil_iff, List.filter_eq_nil_iff, Bool.not_eq_true',
    Bool.not_eq_false]
  exact all

/-- After staging, whatever is replaced, all nodes of the target are there. -/
theorem contains_staged (c target : Cluster) (nodes : List Node) (mem : n ∈ target.nodes) :
    ((c.stage target).replaceNodes nodes).contains n.id := by
  have stage : c.stage target = c.replaceNodes (c.newcomers target) := rfl
  rw [stage, ← replaceNodes_append, contains_replaceNodes]
  cases here : c.node? n.id with
  | some m =>
    obtain ⟨listed, same⟩ := mem_of_node? here
    exact .inr (List.mem_map.2 ⟨m, listed, same⟩)
  | none =>
    have new : n.owning [] ∈ c.newcomers target := mem_newcomers.2 ⟨here, n, mem, rfl⟩
    exact .inl (List.mem_map.2 ⟨n.owning [], List.mem_append_left nodes new, rfl⟩)

/-- Staging again after any replacements changes nothing. -/
theorem stage_replaceNodes (c target : Cluster) (nodes : List Node) :
    ((c.stage target).replaceNodes nodes).stage target = (c.stage target).replaceNodes nodes := by
  have none := newcomers_eq_nil fun n mem => contains_staged c target nodes mem
  calc ((c.stage target).replaceNodes nodes).stage target
      = ((c.stage target).replaceNodes nodes).replaceNodes [] := congrArg _ none
    _ = (c.stage target).replaceNodes (nodes ++ []) := (replaceNodes_append ..).symm
    _ = (c.stage target).replaceNodes nodes := by rw [List.append_nil]

/-- Staging and replacing twice is staging and replacing once, two replacements are one by both
lists, and under an id the last node that was given is found, or else the one that was there. -/
theorem Built.replacements_compose (built : c.Built) (target : Cluster)
    (first second nodes : List Node) :
    (((c.stage target).replaceNodes nodes).stage target).replaceNodes nodes =
        (c.stage target).replaceNodes nodes ∧
      (c.replaceNodes first).replaceNodes second = c.replaceNodes (first ++ second) ∧
      ∀ id, (c.replaceNodes nodes).node? id =
        (nodes.filter fun n => n.id = id).getLast?.or (c.node? id) := by
  refine ⟨?_, (replaceNodes_append c first second).symm,
    node?_replaceNodes_eq built.wellFormed.ascending nodes⟩
  rw [stage_replaceNodes]
  exact replaceNodes_replaceNodes (List.Subset.refl _) (c.stage target)

/-- Replacements in which node 7 occurs twice, and node 2 stands, which the target has too. -/
def givenTwice : List Node :=
  [.create 7 "first" [9], .create 1 "moved" [], .create 2 "late" [2, 2], .create 7 "last" [8]]

theorem replacements_compose_repeated :
    ((((uniform 2 2).stage (uniform 3 2)).replaceNodes givenTwice).stage (uniform 3 2)).replaceNodes
        givenTwice = ((uniform 2 2).stage (uniform 3 2)).replaceNodes givenTwice ∧
      ((uniform 2 2).replaceNodes givenTwice).replaceNodes [.create 7 "new" []] =
        (uniform 2 2).replaceNodes (givenTwice ++ [.create 7 "new" []]) ∧
      ((uniform 2 2).replaceNodes givenTwice).node? 7 = some (.create 7 "last" [8]) ∧
      ((uniform 2 2).replaceNodes givenTwice).node? 0 = some (.uniform 2 0) := by
  obtain ⟨settled, appended, found⟩ :=
    (Built.uniform 2 2).replacements_compose (uniform 3 2) givenTwice [.create 7 "new" []] givenTwice
  exact ⟨settled, appended, (found 7).trans (by decide +kernel), (found 0).trans (by decide +kernel)⟩

end Resharding.Cluster
