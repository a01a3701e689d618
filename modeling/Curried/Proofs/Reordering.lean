import Curried.Proofs.ClosedMachines
import Mathlib.Data.List.Nodup
import Mathlib.Data.List.Perm.Basic

/-!
# Functions made in another order

Functions that are defined one after the other are numbered in that order.  If
their names are different, that is all that the order leaves behind.

**Blocks.**  `Machine.defineEach scope cs` makes the functions `cs` in order,
and binds each in the scope under its name.

**Reordering.**  `Renaming.reordered` renames as another renaming does, but for
the numbers of a block: each of them becomes the number that the function of the
same name gets in the other order.

**Result.**  `Machine.Renamed.defineEach`: renamed machines are renamed after
the functions of a block have been defined on the first one in one order and on
the second one in another.
-/

namespace Curried

/-- Inserting related values under the same names, in whatever order. -/
theorem rel_insertMany
    {α β : Type} {R : α → β → Prop} {t : Std.TreeMap String α}
    {u : Std.TreeMap String β}
    {l : List (String × α)} {l' : List (String × β)}
    (h : ∀ x : String, Option.Rel R t[x]? u[x]?)
    (hnodup : (l.map Prod.fst).Nodup)
    (hperm : (l.map Prod.fst).Perm (l'.map Prod.fst))
    (hvalues : ∀ ⦃x : String⦄ ⦃a : α⦄ ⦃b : β⦄, (x, a) ∈ l → (x, b) ∈ l' → R a b)
    (x : String) :
    Option.Rel R (t.insertMany l)[x]? (u.insertMany l')[x]? := by
  have hfound : ∀ {γ : Type} (t : Std.TreeMap String γ) {l : List (String × γ)} {c : γ},
      (l.map Prod.fst).Nodup → (x, c) ∈ l → (t.insertMany l)[x]? = some c := by
    intro γ t l c hnodup hc
    refine Std.TreeMap.getElem?_insertMany_list_of_mem
      Std.ReflCmp.compare_self ?_ hc
    simpa [List.Nodup, List.pairwise_map] using hnodup
  by_cases hx : x ∈ l.map Prod.fst
  · have hx' := hperm.mem_iff.1 hx
    obtain ⟨⟨_, a⟩, ha, rfl⟩ := List.mem_map.1 hx
    obtain ⟨⟨_, b⟩, hb, rfl⟩ := List.mem_map.1 hx'
    rw [hfound t hnodup ha, hfound u (hperm.nodup_iff.1 hnodup) hb]
    exact .some (hvalues ha hb)
  · have hx' := mt hperm.mem_iff.2 hx
    rw [Std.TreeMap.getElem?_insertMany_list_of_contains_eq_false
      (by simpa using hx),
      Std.TreeMap.getElem?_insertMany_list_of_contains_eq_false
        (by simpa using hx')]
    exact h x

section Numbers

variable {xs ys : List String} (h : xs.Perm ys) (first : Nat)

/-- The number of a value when those from `first` on, which belong to the names
`xs`, are made in the order `ys`. -/
def renumber (i : Nat) : Nat :=
  if hi : first ≤ i ∧
    i - first < xs.length then first + h.idxBij ⟨i - first, hi.2⟩ else i

theorem renumber_of_lt
    {i : Nat}
    (hi : i < first) :
    renumber h first i = i :=
  dif_neg fun hle => absurd hi (Nat.not_lt.2 hle.1)

theorem renumber_of_le
    {i : Nat}
    (hi : first + xs.length ≤ i) :
    renumber h first i = i :=
  dif_neg fun hlt => by omega

/-- The number of a name goes by its place. -/
theorem renumber_place
    {j j' : Nat} {x : String}
    (hnodup : ys.Nodup) (hj : xs[j]? = some x) (hj' : ys[j']? = some x) :
    renumber h first (first + j) = first + j' := by
  obtain ⟨hlt, hx⟩ := List.getElem?_eq_some_iff.1 hj
  have hplace : ys[(h.idxBij ⟨j, hlt⟩ : Nat)]? = ys[j']? := by
    rw [hj', List.getElem?_eq_getElem (h.idxBij _).2, h.getElem_idxBij_eq_getElem]
    exact congrArg some hx
  have hsame := (List.getElem?_inj (h.idxBij ⟨j, hlt⟩).2 hnodup).1 hplace
  unfold renumber
  rw [dif_pos ⟨Nat.le_add_right first j, by rwa [Nat.add_sub_cancel_left]⟩, ← hsame]
  simp only [Nat.add_sub_cancel_left]

theorem renumber_injective : (renumber h first).Injective := by
  have hbound : ∀ j, (h.idxBij j : Nat) < xs.length :=
    fun j => Nat.lt_of_lt_of_eq (h.idxBij j).2 h.length_eq.symm
  intro i j hij
  unfold renumber at hij
  split at hij <;> split at hij
  · rename_i hi hj
    have hplace := h.idxBij_injective (Fin.ext (Nat.add_left_cancel hij))
    have hsub : i - first = j - first := Fin.mk.inj hplace
    omega
  · have hlt := hbound ⟨i - first, by omega⟩
    omega
  · have hlt := hbound ⟨j - first, by omega⟩
    omega
  · exact hij

/-- The renaming for a second run in which the values from `first` on are made
in the order `ys`. -/
def Renaming.reordered (ρ : Renaming) : Renaming where
  number := fun i => ρ.number (renumber h first i)
  frame := ρ.frame
  number_injective := ρ.number_injective.comp (renumber_injective h first)
  frame_strictMono := ρ.frame_strictMono

variable {h first} {L : Likeness} {ρ : Renaming} {w : Extent}

theorem Closure.Renamed.reordered
    {c c' : Closure}
    (hc : c.Renamed L ρ w c') :
    c.Renamed L (ρ.reordered h first) w c' :=
  ⟨hc.name, hc.params, hc.next, hc.body, hc.scope, hc.table, hc.known⟩

variable (hw : w.made ≤ first)
include hw

/-- What has been made before stays as it is. -/
theorem Renaming.Fixes.reordered
    (hρ : ρ.Fixes w) :
    (ρ.reordered h first).Fixes w where
  number := by
    intro i hi
    exact (congrArg ρ.number (renumber_of_lt h first (by omega))).trans
      (hρ.number hi)
  scope := hρ.scope

theorem Value.Renamed.reordered
    {v v' : Value}
    (hv : v.Renamed L ρ w v') :
    v.Renamed L (ρ.reordered h first) w v' := by
  refine hv.imp ?_ ?_
  · rintro i _ ⟨hi, rfl⟩
    exact ⟨hi, congrArg ρ.number (renumber_of_lt h first (by omega)).symm⟩
  · intro c c' hc
    exact hc.reordered

theorem Frame.Renamed.reordered
    {f f' : Frame}
    (hf : f.Renamed L ρ w f') :
    f.Renamed L (ρ.reordered h first) w f' where
  parent := hf.parent
  bindings := fun x => rel_imp (hf.bindings x) fun _ _ hv => hv.reordered hw

theorem Store.Renamed.reordered
    {s s' : Store}
    (hs : s.Renamed L ρ w s') :
    s.Renamed L (ρ.reordered h first) w s' where
  frame := by
    intro scope f hf
    obtain ⟨f', hf', hrenamed⟩ := hs.frame hf
    exact ⟨f', hf', hrenamed.reordered hw⟩
  earlier := hs.earlier
  next := hs.next

end Numbers

/-- The functions with their names, numbered from `first` on. -/
def numbered (first : Nat) (cs : List Closure) : List (String × Value) :=
  (cs.zipIdx first).map fun p => (p.1.name, .function p.2 p.1)

theorem map_fst_numbered
    (first : Nat) (cs : List Closure) :
    (numbered first cs).map Prod.fst = cs.map Closure.name := by
  calc (numbered first cs).map Prod.fst
      = (cs.zipIdx first).map (Closure.name ∘ Prod.fst) := List.map_map
    _ = cs.map Closure.name := by rw [← List.map_map, List.zipIdx_map_fst]

theorem mem_numbered
    {first : Nat} {cs : List Closure} {x : String} {v : Value}
    (h : (x, v) ∈ numbered first cs) :
    ∃ (j : Nat) (c : Closure), cs[j]? = some c ∧ c.name = x ∧
      v = .function (first + j) c := by
  obtain ⟨⟨c, i⟩, hmem, hpair⟩ := List.mem_map.1 h
  obtain ⟨rfl, rfl⟩ := Prod.mk.inj hpair
  obtain ⟨hle, hc⟩ := List.mem_zipIdx_iff_le_and_getElem?_sub.1 hmem
  exact ⟨i - first, c, hc, rfl, by rw [Nat.add_sub_cancel' hle]⟩

namespace Machine

/-- The machine after functions have been made one after the other and bound in
a scope under their names. -/
def defineEach (m : Machine) (scope : Scope) : List Closure → Machine
  | [] => m
  | c :: cs =>
      ({ m with made := m.made + 1 }.define scope c.name
        (.function m.made c)).defineEach scope cs

variable (scope : Scope) (cs : List Closure)

theorem defineEach_made
    (m : Machine) :
    (m.defineEach scope cs).made = m.made + cs.length := by
  induction cs generalizing m with
  | nil => rfl
  | cons c cs ih =>
      rw [defineEach, ih, List.length_cons]
      exact Nat.add_right_comm m.made 1 cs.length

theorem defineEach_depth
    (m : Machine) :
    (m.defineEach scope cs).depth = m.depth := by
  induction cs generalizing m with
  | nil => rfl
  | cons c cs ih => exact ih _

/-- Only the frame of the scope changes, and it gets the functions under their
names. -/
theorem defineEach_store
    (m : Machine) :
    (m.defineEach scope cs).store = ⟨m.store.frames.modify scope.index fun f =>
      { f with bindings := f.bindings.insertMany (numbered m.made cs) }⟩ := by
  induction cs generalizing m with
  | nil =>
      refine congrArg Store.mk (Array.ext_getElem? fun i => ?_)
      simp [Array.getElem?_modify, numbered, defineEach]
  | cons c cs ih =>
      have hnumbered : numbered m.made (c :: cs) =
          (c.name, .function m.made c) :: numbered (m.made + 1) cs := by
        rw [numbered, List.zipIdx_cons, List.map_cons]
        rfl
      rw [defineEach, ih, hnumbered]
      refine congrArg Store.mk (Array.ext_getElem? fun i => ?_)
      simp only [Machine.define, Store.define, Array.getElem?_modify,
        Std.TreeMap.insertMany_cons]
      split
      · rw [Option.map_map]
        rfl
      · rfl

theorem defineEach_size
    (m : Machine) :
    (m.defineEach scope cs).store.frames.size = m.store.frames.size := by
  rw [defineEach_store, Array.size_modify]

end Machine

section Blocks

variable {L : Likeness} {ρ : Renaming} {w : Extent} {m m' : Machine}
  {cs cs' : List Closure}
  (h : m.Renamed L ρ w m')
  (hnodup : (cs.map Closure.name).Nodup)
  (hperm : (cs.map Closure.name).Perm (cs'.map Closure.name))
  (hcs : ∀ c ∈ cs, ∀ c' ∈ cs', c.name = c'.name → c.Renamed L ρ w c')
include h hnodup hcs

/-- Functions of the same name belong together, with the numbers that they get
on either side. -/
theorem Machine.Renamed.numbered
    {x : String} {v v' : Value}
    (hv : (x, v) ∈ numbered m.made cs) (hv' : (x, v') ∈ numbered m'.made cs') :
    v.Renamed L (ρ.reordered hperm m.made) ⟨m.made + cs.length, w.frames⟩ v' := by
  obtain ⟨j, c, hj, hx, rfl⟩ := mem_numbered hv
  obtain ⟨j', c', hj', hx', rfl⟩ := mem_numbered hv'
  have hplace : renumber hperm m.made (m.made + j) = m.made + j' := by
    refine renumber_place hperm m.made (x := x) (hperm.nodup_iff.1 hnodup) ?_ ?_
    · rw [List.getElem?_map, hj, ← hx]
      rfl
    · rw [List.getElem?_map, hj', ← hx']
      rfl
  have hc :=
    hcs c (List.mem_of_getElem? hj) c' (List.mem_of_getElem? hj')
      (hx.trans hx'.symm)
  refine .function ⟨?_,
    ?_⟩ { hc.reordered with known := ⟨hc.known.scope, hc.known.waits⟩ }
  · exact Nat.add_lt_add_left (List.getElem?_eq_some_iff.1 hj).1 m.made
  · exact ((congrArg ρ.number hplace).trans (h.fresh j')).symm

/-- Functions are defined on both machines, on each in an order of its own. -/
theorem Machine.Renamed.defineEach
    (scope : Scope) :
    (m.defineEach scope cs).Renamed L (ρ.reordered hperm m.made)
      ⟨m.made + cs.length, w.frames⟩ (m'.defineEach (ρ.scope scope) cs') := by
  have hmade : m.made = w.made := congrArg Extent.made h.extent
  have hlater : w ≤ ⟨m.made + cs.length, w.frames⟩ :=
    ⟨hmade ▸ Nat.le_add_right _ _, Nat.le_refl _⟩
  refine ⟨?_, ?_, ?_, ?_⟩
  · rw [Machine.defineEach_store, Machine.defineEach_store]
    refine ((h.store.reordered hmade.ge).later hlater).modify ?_ ?_ scope
    · intro f
      rfl
    · intro f f' hf
      refine ⟨hf.parent, rel_insertMany hf.bindings ?_ ?_ fun x v v' =>
        h.numbered hnodup hperm hcs⟩
      · rwa [map_fst_numbered]
      · rwa [map_fst_numbered, map_fst_numbered]
  · rw [Machine.extent, Machine.defineEach_made, Machine.defineEach_size, h.frames]
  · intro k
    have hlength : cs.length = cs'.length := by simpa using hperm.length_eq
    rw [Machine.defineEach_made, Machine.defineEach_made, ← hlength,
      Nat.add_assoc, Nat.add_assoc]
    refine (congrArg ρ.number (renumber_of_le hperm m.made ?_)).trans (h.fresh _)
    rw [List.length_map]
    omega
  · rw [Machine.defineEach_depth, Machine.defineEach_depth]
    exact h.depth

end Blocks

end Curried
