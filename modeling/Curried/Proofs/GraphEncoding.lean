import Curried.Graph
import Curried.Proofs.Addresses
import Mathlib.Data.List.Induction
import Mathlib.Data.List.Sort
import Mathlib.Logic.Relation

/-!
# The graph of a tree says all but the texts

**Names.**  The name of a node joins the indices of its address by dots.  Digits
are no dots, so the name can be taken apart again, and different addresses have
different names.

**Nodes and edges.**  Both lists follow `Tree.places`: a node for each place,
and an edge to each place but the root.  `mem_nodes_iff` and `mem_edges_iff` say
what is in them.

**Result.**  `graph_encodes_tree`: the graph of a tree is a tree over the names
of its nodes, and two trees have the same graph exactly if they are the same but
for their texts.
-/

namespace Curried

namespace Graph

section Names

/-- The name of the node at an address. -/
def nameAt (p : List Nat) : String :=
  p.foldl (fun id i => id ++ "." ++ toString i) "0"

theorem nameAt_concat
    (p : List Nat) (i : Nat) :
    nameAt (p ++ [i]) = nameAt p ++ "." ++ toString i := by
  simp [nameAt]

/-- What stands between the dots of a name. -/
def components (id : String) : List (List Char) :=
  id.toList.splitOn '.'

/-- A name without its last component. -/
def withoutLast (id : String) : String :=
  String.ofList (['.'].intercalate (components id).dropLast)

theorem toList_foldl_childId
    (id : String) (p : List Nat) :
    (p.foldl childId id).toList =
      ['.'].intercalate (id.toList :: p.map (Nat.toDigits 10)) := by
  induction p generalizing id with
  | nil => simp
  | cons i p ih =>
      have hchild : (childId id i).toList = id.toList ++ ['.'] ++
          Nat.toDigits 10 i := by
        simp [childId]
      rw [List.foldl_cons, ih, hchild, List.map_cons, List.intercalate_cons_cons]
      cases p with
      | nil => simp
      | cons j p => simp [List.intercalate_cons_cons]

theorem toList_nameAt
    (p : List Nat) :
    (nameAt p).toList = ['.'].intercalate (['0'] :: p.map (Nat.toDigits 10)) :=
  toList_foldl_childId rootId p

theorem components_nameAt
    (p : List Nat) :
    components (nameAt p) = ['0'] :: p.map (Nat.toDigits 10) := by
  have hdots : ∀ w ∈ ['0'] :: p.map (Nat.toDigits 10), '.' ∉ w := by
    intro w hw hdot
    rcases List.mem_cons.1 hw with rfl | hw
    · exact absurd hdot (by decide)
    · obtain ⟨i, -, rfl⟩ := List.mem_map.1 hw
      have hdigit := Nat.isDigit_of_mem_toDigits (by decide) (by decide) hdot
      exact absurd hdigit (by decide)
  rw [components, toList_nameAt]
  exact List.splitOn_intercalate '.' hdots (List.cons_ne_nil _ _)

theorem nameAt_injective : Function.Injective nameAt := by
  intro p q h
  have hcomponents := congrArg components h
  rw [components_nameAt, components_nameAt, List.cons.injEq] at hcomponents
  have hdigits : Function.LeftInverse (fun w => Nat.ofDigitChars 10 w 0)
      (Nat.toDigits 10) := fun _ =>
    Nat.ofDigitChars_ten_toDigits
  exact List.map_injective_iff.2 hdigits.injective hcomponents.2

example : nameAt [1, 0] = "0.1.0" ∧ nameAt [10] = "0.10" := by
  decide +kernel

theorem withoutLast_nameAt
    (p : List Nat) (i : Nat) :
    withoutLast (nameAt (p ++ [i])) = nameAt p := by
  have hlast : (['0'] :: (p ++ [i]).map (Nat.toDigits 10)).dropLast = ['0'] ::
      p.map (Nat.toDigits 10) := by
    rw [List.map_append, ← List.cons_append]
    exact List.dropLast_concat
  rw [withoutLast, components_nameAt, hlast, ← toList_nameAt, String.ofList_toList]

end Names

section Lists

mutual

theorem nodesFrom_eq : ∀ (id : String) (t : Tree),
    nodesFrom id t = t.places.map fun (p, s) => ⟨p.foldl childId id, s.tag⟩
  | id, ⟨tag, text, children⟩ => by
      rw [nodesFrom, Tree.places, List.map_cons, nodesFromAll_eq]
      rfl

theorem nodesFromAll_eq : ∀ (id : String) (index : Nat) (ts : List Tree),
    nodesFromAll id index ts = (Tree.placesFrom index ts).map fun (p, s) =>
      ⟨p.foldl childId id, s.tag⟩
  | _, _, [] => rfl
  | id, index, t :: ts => by
      rw [nodesFromAll, Tree.placesFrom, List.map_append, List.map_map,
        nodesFrom_eq, nodesFromAll_eq]
      rfl

end

/-- The nodes follow the places in the tree. -/
theorem nodes_ofTree
    (t : Tree) :
    (ofTree t).nodes = t.places.map fun (p, s) => ⟨nameAt p, s.tag⟩ :=
  nodesFrom_eq rootId t

mutual

theorem edgesFrom_eq : ∀ (id : String) (t : Tree),
    edgesFrom id t =
      (Tree.placesFrom 0 t.children).map fun (p, _) =>
        ⟨p.dropLast.foldl childId id, p.foldl childId id⟩
  | id, ⟨_, _, children⟩ => edgesFromAll_eq id 0 children

theorem edgesFromAll_eq : ∀ (id : String) (index : Nat) (ts : List Tree),
    edgesFromAll id index ts =
      (Tree.placesFrom index ts).map fun (p, _) =>
        ⟨p.dropLast.foldl childId id, p.foldl childId id⟩
  | _, _, [] => rfl
  | id, index, t :: ts => by
      rw [edgesFromAll, edgesFrom_eq, edgesFromAll_eq, Tree.placesFrom,
        Tree.places_eq, List.map_append, List.map_map, List.map_cons]
      congr 2
      refine List.map_congr_left ?_
      rintro ⟨p, s⟩ hp
      -- below the child the address goes on, so its last index is not the index
      -- of the child
      have hlast :=
        List.dropLast_cons_of_ne_nil (x := index)
          (Tree.ne_nil_of_mem_placesFrom hp)
      simp [hlast]

end

/-- The edges follow the places below the root. -/
theorem edges_ofTree
    (t : Tree) :
    (ofTree t).edges = (Tree.placesFrom 0 t.children).map fun (p, _) =>
      ⟨nameAt p.dropLast, nameAt p⟩ :=
  edgesFrom_eq rootId t

theorem filter_places
    (t : Tree) :
    t.places.filter (fun (p, _) => p ≠ []) = Tree.placesFrom 0 t.children := by
  have hbelow : ∀ x ∈ Tree.placesFrom 0 t.children, decide (x.1 ≠ []) = true := by
    rintro ⟨p, s⟩ hp
    exact decide_eq_true (Tree.ne_nil_of_mem_placesFrom hp)
  rw [Tree.places_eq, List.filter_cons_of_neg (by simp)]
  exact List.filter_eq_self.2 hbelow

end Lists

section Members

variable {t : Tree}

theorem mem_nodes_iff
    {n : GraphNode} :
    n ∈ (ofTree t).nodes ↔ ∃ p s, t.subtree? p = some s ∧
    n = ⟨nameAt p, s.tag⟩ := by
  rw [nodes_ofTree, List.mem_map]
  constructor
  · rintro ⟨⟨p, s⟩, hp, rfl⟩
    exact ⟨p, s, Tree.mem_places_iff.1 hp, rfl⟩
  · rintro ⟨p, s, hp, rfl⟩
    exact ⟨(p, s), Tree.mem_places_iff.2 hp, rfl⟩

/-- There is an edge from each node to each of its children. -/
theorem mem_edges_iff
    {e : GraphEdge} :
    e ∈ (ofTree t).edges ↔
      ∃ p i s, t.subtree? (p ++ [i]) = some s ∧
        e = ⟨nameAt p, nameAt (p ++ [i])⟩ := by
  rw [edges_ofTree, List.mem_map, ← filter_places]
  constructor
  · rintro ⟨⟨p, s⟩, hp, rfl⟩
    obtain ⟨hp, hne⟩ := List.mem_filter.1 hp
    obtain ⟨q, i, rfl⟩ :=
      (List.eq_nil_or_concat p).resolve_left (of_decide_eq_true hne)
    rw [List.concat_eq_append] at hp ⊢
    exact ⟨q, i, s, Tree.mem_places_iff.1 hp, by simp⟩
  · rintro ⟨p, i, s, hp, rfl⟩
    exact ⟨(p ++ [i], s), List.mem_filter.2 ⟨Tree.mem_places_iff.2 hp, by simp⟩, by simp⟩

theorem map_id_nodes
    (t : Tree) :
    (ofTree t).nodes.map GraphNode.id = (t.places.map Prod.fst).map nameAt := by
  rw [nodes_ofTree, List.map_map, List.map_map]
  rfl

theorem nodup_ids
    (t : Tree) :
    ((ofTree t).nodes.map GraphNode.id).Nodup := by
  rw [map_id_nodes]
  exact t.nodup_addresses.map nameAt_injective

theorem nodup_targets
    (t : Tree) :
    ((ofTree t).edges.map GraphEdge.target).Nodup := by
  have htargets : (ofTree t).edges.map GraphEdge.target =
      ((Tree.placesFrom 0 t.children).map Prod.fst).map nameAt := by
    rw [edges_ofTree, List.map_map, List.map_map]
    rfl
  have hall := t.nodup_addresses
  rw [Tree.places_eq, List.map_cons, List.nodup_cons] at hall
  rw [htargets]
  exact hall.2.map nameAt_injective

/-- If no two edges have the same target, an edge is the only one with its
target. -/
theorem filter_target_eq
    {es : List GraphEdge} {e : GraphEdge}
    (hes : (es.map GraphEdge.target).Nodup) (he : e ∈ es) :
    es.filter (fun e' => e'.target = e.target) = [e] := by
  induction es with
  | nil => cases he
  | cons a es ih =>
      rw [List.map_cons, List.nodup_cons] at hes
      rcases List.mem_cons.1 he with rfl | he
      · have hothers : es.filter (fun e' => e'.target = e.target) = [] := by
          refine List.filter_eq_nil_iff.2 fun e' he' htarget => ?_
          exact hes.1 (List.mem_map.2 ⟨e', he', of_decide_eq_true htarget⟩)
        rw [List.filter_cons_of_pos (by simp), hothers]
      · have hne : a.target ≠ e.target :=
          fun heq => hes.1 (List.mem_map.2 ⟨e, he, heq.symm⟩)
        rw [List.filter_cons_of_neg (by simpa using hne)]
        exact ih hes.2 he

end Members

/-- There is an edge from the first node to the second one. -/
def Leads (g : Graph) (a b : String) : Prop :=
  ⟨a, b⟩ ∈ g.edges

/-- The graph lists the nodes of the tree from the root down and an edge to each
of them but the root.  Every node has a name of its own, and apart from the root
exactly one parent, which is listed earlier and has the name without its last
component.  So all nodes hang together below the root, without a cycle. -/
structure Encodes (g : Graph) (t : Tree) : Prop where
  nodes_eq : g.nodes = t.places.map fun (p, s) => ⟨nameAt p, s.tag⟩
  edges_eq : g.edges = (t.places.filter fun (p, _) => p ≠ []).map fun (p, _) =>
    ⟨nameAt p.dropLast, nameAt p⟩
  length_nodes : g.nodes.length = t.count
  length_edges : g.edges.length + 1 = t.count
  distinct : (g.nodes.map GraphNode.id).Nodup
  parent : ∀ n ∈ g.nodes, n.id ≠ "0" →
    g.edges.filter (fun e => e.target = n.id) = [⟨withoutLast n.id, n.id⟩]
  earlier : ∀ e ∈ g.edges, [e.source, e.target].Sublist (g.nodes.map GraphNode.id)
  reached : ∀ n ∈ g.nodes, Relation.ReflTransGen g.Leads "0" n.id
  acyclic : ∀ id, ¬ Relation.TransGen g.Leads id id

section Hierarchy

variable {t : Tree}

theorem parent_of_node
    {n : GraphNode}
    (hn : n ∈ (ofTree t).nodes) (hroot : n.id ≠ "0") :
    (ofTree t).edges.filter (fun e => e.target = n.id) =
      [⟨withoutLast n.id, n.id⟩] := by
  obtain ⟨p, s, hp, rfl⟩ := mem_nodes_iff.1 hn
  rcases List.eq_nil_or_concat p with rfl | ⟨q, i, rfl⟩
  · exact absurd rfl hroot
  · rw [List.concat_eq_append] at hp ⊢
    rw [withoutLast_nameAt]
    exact filter_target_eq (nodup_targets t) (mem_edges_iff.2 ⟨q, i, s, hp, rfl⟩)

theorem source_earlier
    {e : GraphEdge}
    (he : e ∈ (ofTree t).edges) :
    [e.source, e.target].Sublist ((ofTree t).nodes.map GraphNode.id) := by
  obtain ⟨p, i, s, hs, rfl⟩ := mem_edges_iff.1 he
  obtain ⟨u, hu⟩ := Tree.exists_parent hs
  have hlt : p < p ++ [i] := by
    have hstep : p ++ [] < p ++ [i] := List.append_left_lt (List.nil_lt_cons i [])
    rwa [List.append_nil] at hstep
  have hsubset : [p, p ++ [i]] ⊆ t.places.map Prod.fst := by
    refine List.cons_subset.2 ⟨?_, List.cons_subset.2 ⟨?_, List.nil_subset _⟩⟩
    · exact List.mem_map.2 ⟨(p, u), Tree.mem_places_iff.2 hu, rfl⟩
    · exact List.mem_map.2 ⟨(p ++ [i], s), Tree.mem_places_iff.2 hs, rfl⟩
  have hascend : (t.places.map Prod.fst).Pairwise (· ≤ ·) :=
    List.pairwise_map.2 (t.places_ascend.imp le_of_lt)
  have hsublist : [p, p ++ [i]].Sublist (t.places.map Prod.fst) := by
    refine List.sublist_of_subperm_of_pairwise
      (List.subperm_of_subset (by simp) hsubset) ?_ hascend
    simpa using le_of_lt hlt
  rw [map_id_nodes]
  exact hsublist.map nameAt

theorem reached_from_root
    {p : List Nat} {s : Tree}
    (hp : t.subtree? p = some s) :
    Relation.ReflTransGen (ofTree t).Leads "0" (nameAt p) := by
  induction p using List.reverseRecOn generalizing s with
  | nil => exact .refl
  | append_singleton p i ih =>
      obtain ⟨u, hu⟩ := Tree.exists_parent hp
      exact (ih hu).tail (mem_edges_iff.2 ⟨p, i, s, hp, rfl⟩)

/-- Names get longer along edges. -/
theorem length_lt_of_leads
    {a b : String}
    (h : (ofTree t).Leads a b) :
    a.length < b.length := by
  obtain ⟨p, i, s, -, heq⟩ := mem_edges_iff.1 h
  obtain ⟨rfl, rfl⟩ := GraphEdge.mk.inj heq
  rw [nameAt_concat, String.length_append, String.length_append]
  have hdot : ".".length = 1 := rfl
  omega

theorem length_lt_of_transGen
    {a b : String}
    (h : Relation.TransGen (ofTree t).Leads a b) :
    a.length < b.length := by
  induction h with
  | single h => exact length_lt_of_leads h
  | tail _ h ih => exact ih.trans (length_lt_of_leads h)

end Hierarchy

theorem ofTree_encodes (t : Tree) : (ofTree t).Encodes t where
  nodes_eq := nodes_ofTree t
  edges_eq := by rw [filter_places, edges_ofTree]
  length_nodes := by rw [nodes_ofTree, List.length_map, Tree.length_places]
  length_edges := by
    rw [edges_ofTree, List.length_map, ← Tree.length_places, Tree.places_eq,
      List.length_cons]
  distinct := nodup_ids t
  parent := fun _ => parent_of_node
  earlier := fun _ => source_earlier
  reached := by
    intro n hn
    obtain ⟨p, s, hp, rfl⟩ := mem_nodes_iff.1 hn
    exact reached_from_root hp
  acyclic := fun _ h => Nat.lt_irrefl _ (length_lt_of_transGen h)

theorem ofTree_bare
    (t : Tree) :
    ofTree t.bare = ofTree t := by
  have hnodes : (ofTree t.bare).nodes = (ofTree t).nodes := by
    rw [nodes_ofTree, nodes_ofTree, Tree.places_bare, List.map_map]
    exact List.map_congr_left fun x _ => by simp
  have hedges : (ofTree t.bare).edges = (ofTree t).edges := by
    rw [(ofTree_encodes t.bare).edges_eq, (ofTree_encodes t).edges_eq,
      Tree.places_bare, List.filter_map, List.map_map]
    rfl
  exact congrArg₂ Graph.mk hnodes hedges

/-- The tags at all addresses can be read off the nodes. -/
theorem mem_nodes_nameAt
    {t : Tree} {p : List Nat} {tag : String} :
    ⟨nameAt p, tag⟩ ∈ (ofTree t).nodes ↔
    (t.subtree? p).map Tree.tag = some tag := by
  rw [mem_nodes_iff, Option.map_eq_some_iff]
  constructor
  · rintro ⟨q, s, hs, heq⟩
    obtain ⟨hname, rfl⟩ := GraphNode.mk.inj heq
    rw [nameAt_injective hname]
    exact ⟨s, hs, rfl⟩
  · rintro ⟨s, hs, rfl⟩
    exact ⟨p, s, hs, rfl⟩

theorem bare_eq_of_ofTree_eq
    {t t' : Tree}
    (h : ofTree t = ofTree t') :
    t.bare = t'.bare := by
  refine Tree.bare_eq_of_tags t t' fun p => Option.ext fun tag => ?_
  rw [← mem_nodes_nameAt, ← mem_nodes_nameAt, h]

end Graph

/-- **Graphs of trees.**  `Tree.places` lists the trees in a tree in the
lexicographic order of their addresses.  The graph of the tree lists its nodes
and edges in that order, under names that are told apart and form a tree.  Two
trees have the same graph exactly if they have the same shape and the same
tags. -/
theorem graph_encodes_tree
    (t : Tree) :
    (∀ p s, (p, s) ∈ t.places ↔ t.subtree? p = some s) ∧
    t.places.Pairwise (fun a b => a.1 < b.1) ∧
    (Graph.ofTree t).Encodes t ∧
    ∀ t', Graph.ofTree t = Graph.ofTree t' ↔ t.bare = t'.bare := by
  refine ⟨fun _ _ => Tree.mem_places_iff,
    t.places_ascend, Graph.ofTree_encodes t, fun t' => ?_⟩
  constructor
  · exact Graph.bare_eq_of_ofTree_eq
  · intro h
    rw [← Graph.ofTree_bare t, ← Graph.ofTree_bare t', h]

end Curried
