import Curried.Tree
import Mathlib.Data.List.Lex

/-!
# Addresses in trees

**Addresses.**  The way from the root of a tree to a tree in it is given by the
indices of the children that are entered, from the root down.  `subtree?`
follows an address.

**Order.**  `places` lists the trees in a tree with their addresses, each node
before its children and these in order.  By `mem_places_iff` and `places_ascend`
it lists exactly what addresses lead to, in the lexicographic order of the
addresses.

**Tags.**  `bare` erases the texts of a tree.  What is left is given by the tags
at all addresses.
-/

namespace Curried

namespace Tree

/-- The tree at an address. -/
def subtree? : Tree → List Nat → Option Tree
  | t, [] => some t
  | t, i :: p => t.children[i]?.bind (·.subtree? p)

@[simp] theorem subtree?_nil (t : Tree) : t.subtree? [] = some t := rfl

@[simp] theorem subtree?_cons
    (t : Tree) (i : Nat) (p : List Nat) :
    t.subtree? (i :: p) = t.children[i]?.bind (·.subtree? p) := by
  rfl

theorem subtree?_append
    (t : Tree) (p q : List Nat) :
    t.subtree? (p ++ q) = (t.subtree? p).bind (·.subtree? q) := by
  induction p generalizing t with
  | nil => rfl
  | cons i p ih => simp [ih, Option.bind_assoc]

/-- An address leads to a child only through its parent. -/
theorem exists_parent
    {t s : Tree} {p : List Nat} {i : Nat}
    (h : t.subtree? (p ++ [i]) = some s) :
    ∃ u, t.subtree? p = some u := by
  rw [subtree?_append, Option.bind_eq_some_iff] at h
  obtain ⟨u, hu, -⟩ := h
  exact ⟨u, hu⟩

mutual

/-- The trees in a tree with their addresses: the tree itself, and then those in
its children. -/
def places : Tree → List (List Nat × Tree)
  | ⟨tag, text, children⟩ => ([], ⟨tag, text, children⟩) :: placesFrom 0 children

/-- The trees in the children of a node with their addresses, the children
counted from the given index. -/
def placesFrom (index : Nat) : List Tree → List (List Nat × Tree)
  | [] => []
  | t :: ts =>
      (places t).map (fun (p, s) => (index :: p, s)) ++
        placesFrom (index + 1) ts

end

theorem places_eq
    (t : Tree) :
    t.places = ([], t) :: placesFrom 0 t.children := by
  obtain ⟨tag, text, children⟩ := t
  rw [places]

theorem mem_placesFrom_iff
    {index : Nat} {ts : List Tree} {p : List Nat} {s : Tree} :
    (p, s) ∈ placesFrom index ts ↔ ∃ i t q, ts[i]? = some t ∧
    (q, s) ∈ t.places ∧ p = (index + i) :: q := by
  induction ts generalizing index with
  | nil => simp [placesFrom]
  | cons t ts ih =>
      rw [placesFrom, List.mem_append, ih]
      constructor
      · rintro (hfirst | ⟨i, t', q, ht', hq, rfl⟩)
        · obtain ⟨⟨q, s'⟩, hq, heq⟩ := List.mem_map.1 hfirst
          cases heq
          exact ⟨0, t, q, rfl, hq, rfl⟩
        · exact ⟨i + 1, t', q, ht', hq, by rw [Nat.add_right_comm, Nat.add_assoc]⟩
      · rintro ⟨i, t', q, ht', hq, rfl⟩
        cases i with
        | zero =>
            cases ht'
            exact Or.inl (List.mem_map.2 ⟨(q, s), hq, rfl⟩)
        | succ i =>
            exact Or.inr ⟨i, t', q, ht', hq,
              by rw [Nat.add_right_comm, Nat.add_assoc]⟩

/-- Only the tree itself has the empty address. -/
theorem ne_nil_of_mem_placesFrom
    {index : Nat} {ts : List Tree} {p : List Nat} {s : Tree}
    (h : (p, s) ∈ placesFrom index ts) :
    p ≠ [] := by
  obtain ⟨i, t, q, -, -, rfl⟩ := mem_placesFrom_iff.1 h
  exact List.cons_ne_nil _ _

/-- What is listed is what addresses lead to. -/
theorem mem_places_iff
    {t s : Tree} {p : List Nat} :
    (p, s) ∈ t.places ↔ t.subtree? p = some s := by
  induction p generalizing t with
  | nil =>
      rw [places_eq, List.mem_cons]
      constructor
      · rintro (heq | hbelow)
        · cases heq
          rfl
        · exact absurd rfl (ne_nil_of_mem_placesFrom hbelow)
      · intro h
        cases h
        exact Or.inl rfl
  | cons i p ih =>
      rw [places_eq, List.mem_cons, mem_placesFrom_iff, subtree?_cons,
        Option.bind_eq_some_iff]
      constructor
      · rintro (heq | ⟨j, c, q, hc, hq, heq⟩)
        · cases heq
        · rw [Nat.zero_add, List.cons.injEq] at heq
          obtain ⟨rfl, rfl⟩ := heq
          exact ⟨c, hc, ih.1 hq⟩
      · rintro ⟨c, hc, hq⟩
        exact Or.inr ⟨i, c, p, hc, ih.2 hq, by rw [Nat.zero_add]⟩

mutual

/-- The addresses ascend. -/
theorem places_ascend : ∀ t : Tree, t.places.Pairwise (fun a b => a.1 < b.1)
  | ⟨tag, text, children⟩ => by
      rw [places, List.pairwise_cons]
      refine ⟨?_, placesFrom_ascend 0 children⟩
      rintro ⟨p, s⟩ hp
      obtain ⟨i, t, q, -, -, rfl⟩ := mem_placesFrom_iff.1 hp
      exact List.nil_lt_cons _ _

theorem placesFrom_ascend :
    ∀ (index : Nat) (ts : List Tree),
      (placesFrom index ts).Pairwise (fun a b => a.1 < b.1)
  | _, [] => List.Pairwise.nil
  | index, t :: ts => by
      rw [placesFrom, List.pairwise_append]
      refine ⟨?_, placesFrom_ascend (index + 1) ts, ?_⟩
      · refine List.pairwise_map.2 ((places_ascend t).imp ?_)
        intro a b hab
        exact List.cons_lt_cons_self.2 hab
      · rintro a ha ⟨p, s⟩ hp
        obtain ⟨⟨q, s'⟩, -, rfl⟩ := List.mem_map.1 ha
        obtain ⟨i, t', q', -, -, rfl⟩ := mem_placesFrom_iff.1 hp
        exact List.Lex.rel (by omega)

end

mutual

/-- There is a place for each node. -/
theorem length_places : ∀ t : Tree, t.places.length = t.count
  | ⟨tag, text, children⟩ => by
      rw [places, count, List.length_cons, length_placesFrom, Nat.add_comm]

theorem length_placesFrom :
    ∀ (index : Nat) (ts : List Tree), (placesFrom index ts).length = countAll ts
  | _, [] => rfl
  | index, t :: ts => by
      rw [placesFrom, countAll, List.length_append, List.length_map,
        length_places, length_placesFrom]

end

theorem nodup_addresses
    (t : Tree) :
    (t.places.map Prod.fst).Nodup :=
  List.pairwise_map.2 (t.places_ascend.imp fun hlt => ne_of_lt hlt)

mutual

/-- The tree without its texts. -/
def bare : Tree → Tree
  | ⟨tag, _, children⟩ => ⟨tag, "", bareAll children⟩

/-- Trees without their texts. -/
def bareAll : List Tree → List Tree
  | [] => []
  | t :: ts => bare t :: bareAll ts

end

@[simp] theorem tag_bare (t : Tree) : t.bare.tag = t.tag := by
  obtain ⟨tag, text, children⟩ := t
  rw [bare]

mutual

/-- Erasing the texts leaves every tree in its place. -/
theorem places_bare :
    ∀ t : Tree, t.bare.places = t.places.map fun (p, s) => (p, s.bare)
  | ⟨tag, text, children⟩ => by
      rw [bare, places, places, List.map_cons, placesFrom_bare]
      dsimp only
      rw [bare]

theorem placesFrom_bare : ∀ (index : Nat) (ts : List Tree),
    placesFrom index (bareAll ts) = (placesFrom index ts).map fun (p, s) =>
      (p, s.bare)
  | _, [] => rfl
  | index, t :: ts => by
      rw [bareAll, placesFrom, placesFrom, places_bare, placesFrom_bare,
        List.map_append, List.map_map, List.map_map]
      rfl

end

mutual

/-- Trees with the same tags at all addresses are the same but for their
texts. -/
theorem bare_eq_of_tags : ∀ t t' : Tree,
    (∀ p, (t.subtree? p).map tag = (t'.subtree? p).map tag) → t.bare = t'.bare
  | ⟨tag, text, children⟩, ⟨tag', text', children'⟩, h => by
      have htag : tag = tag' := Option.some.inj (h [])
      have hchildren := bareAll_eq_of_tags children children' fun i p => h (i :: p)
      rw [bare, bare, htag, hchildren]

theorem bareAll_eq_of_tags : ∀ ts ts' : List Tree,
    (∀ (i : Nat) (p : List Nat),
      (ts[i]?.bind (·.subtree? p)).map tag =
        (ts'[i]?.bind (·.subtree? p)).map tag) →
      bareAll ts = bareAll ts'
  | [], [], _ => rfl
  -- a child that only one side has shows at the address of that child
  | [], _ :: _, h => nomatch h 0 []
  | _ :: _, [], h => nomatch h 0 []
  | t :: ts, t' :: ts', h => by
      have hfirst := bare_eq_of_tags t t' fun p => h 0 p
      have hothers := bareAll_eq_of_tags ts ts' fun i p => h (i + 1) p
      rw [bareAll, bareAll, hfirst, hothers]

end

end Tree

end Curried
