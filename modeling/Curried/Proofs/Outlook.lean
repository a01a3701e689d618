import Curried.Proofs.Simulation

/-!
# What programs show

**Views.**  Of a value a program shows its type and its display, the
`Value.face`.  After a program has been run in a scope, its error or the face of
its value can be seen, and the names in the scope with the faces of what they
stand for.  `views host scope m programs` lists what is seen when programs are
run one after the other in the scope, beginning on `m`.

**Looking the same.**  `LooksSame host scope o o'` says that two interpretations
cannot be told apart by what can be seen after them, nor by any programs that
are run later in the scope, not even if the outcome was first given a name
there.

**Result.**  `Simulation.Window.looksSame`: interpretations that end together
look the same in a scope that belongs to itself.
-/

namespace Curried

/-- What can be seen of a value. -/
structure Face where
  typeName : String
  display : String
deriving DecidableEq

/-- The type and the display of a value. -/
def Value.face (v : Value) : Face :=
  ⟨v.typeName, v.display⟩

/-- The names in a scope, each with the face of what it stands for. -/
def Store.faces (s : Store) (scope : Scope) : List (String × Option Face) :=
  (s.names scope).map fun x => (x, (s.lookup scope x).map Value.face)

/-- What can be seen when a program has been run in a scope. -/
structure View where
  outcome : Except InterpretError Face
  names : List (String × Option Face)

/-- What can be seen after an interpretation. -/
def View.after (scope : Scope) (o : Except InterpretError Value × Machine) : View :=
  ⟨o.1.map Value.face, o.2.store.faces scope⟩

/-- What is seen when programs, trees with their tables, are run in a scope one
after the other. -/
def views (host : Host) (scope : Scope) : Machine → List (Table × Tree) → List View
  | _, [] => []
  | m, (table, t) :: programs =>
      let o := runTree host table scope t m
      .after scope o :: views host scope o.2 programs

/-- The machine after an interpretation, with its value bound in the scope if
there is one and a name is given. -/
def outcomeBound (scope : Scope) :
    Option String → Except InterpretError Value × Machine → Machine
  | some name, (.ok v, m) => m.define scope name v
  | _, (_, m) => m

/-- Two interpretations cannot be told apart, neither by what they show nor by
any programs that are run later in the scope, whatever name their outcome was
given there. -/
structure LooksSame (host : Host) (scope : Scope)
    (o o' : Except InterpretError Value × Machine) : Prop where
  view : View.after scope o = View.after scope o'
  later : ∀ (name : Option String) (programs : List (Table × Tree)),
    views host scope (outcomeBound scope name o) programs =
      views host scope (outcomeBound scope name o') programs

theorem Value.Kin.face_eq
    {K : Kinship} {w : K.World} {v v' : Value}
    (h : v.Kin K w v') :
    v.face = v'.face := by
  rw [Value.face, Value.face, h.typeName_eq, h.display_eq]

namespace Simulation

variable {S : Simulation} {w w₁ : S.World} {scope : Scope} {m m' : Machine}

/-- The scope belongs to itself: every tree does the same in it in both runs,
and it has the same names. -/
structure Window (S : Simulation) (w : S.World) (scope : Scope) : Prop where
  program : ∀ (table : Table) (t : Tree),
    S.program w ⟨table, scope⟩ ⟨table, scope⟩ t t
  names : ∀ ⦃w₁ m m'⦄, S.later w w₁ → S.machine w₁ m m' →
    m.store.names scope = m'.store.names scope

namespace Window

theorem after
    (h : S.Window w scope) (hw : S.later w w₁) :
    S.Window w₁ scope where
  program := fun table t => S.program_later hw (h.program table t)
  names := fun _ _ _ hw' => h.names (S.later_trans hw hw')

variable (h : S.Window w scope)
include h

/-- A name stands for values that belong together. -/
theorem look
    (hm : S.machine w m m') (x : String) :
    Both (Value.Kin S.toKinship w) (m.store.named scope x)
      (m'.store.named scope x) := by
  have hcore : (Tree.leaf "variable" x).core = .look x := Tree.core_of_ne_pass nofun
  have haligned := S.program_aligned (h.program .empty (.leaf "variable" x))
  rw [hcore] at haligned
  cases haligned with
  | look hlook => exact hlook (S.later_refl w) hm

/-- Values that belong together can be bound. -/
theorem binds
    (table : Table) (x : String) :
    S.Binds w ⟨table, scope⟩ ⟨table, scope⟩ x x := by
  let value : Tree := ⟨"match", "", [.leaf "=" "=", .leaf "integer" "0"]⟩
  have hplan := plan_bind "" x (m := value) rfl
  have hcore :=
    Tree.core_of_ne_pass (t := ⟨"bind", "", [.leaf "variable" x, value]⟩)
      (by rw [hplan]; nofun)
  have haligned :=
    S.program_aligned
      (h.program table ⟨"bind", "", [.leaf "variable" x, value]⟩)
  rw [hcore, hplan] at haligned
  cases haligned with
  | bind _ hbinds => exact hbinds

theorem faces_eq
    (hm : S.machine w m m') :
    m.store.faces scope = m'.store.faces scope := by
  have hface : ∀ x, (m.store.lookup scope x).map Value.face =
      (m'.store.lookup scope x).map Value.face := by
    intro x
    have hboth := h.look hm x
    unfold Store.named at hboth
    generalize m.store.lookup scope x = v, m'.store.lookup scope x = v' at hboth
    rcases v with _ | v <;> rcases v' with _ | v' <;> cases hboth
    · rfl
    · rename_i hv
      exact congrArg some hv.face_eq
  simp only [Store.faces, h.names (S.later_refl w) hm, hface]

theorem view_eq
    {o o' : Except InterpretError Value × Machine}
    (ho : S.Outcomes w o o') :
    View.after scope o = View.after scope o' := by
  cases ho with
  | error e hw hm =>
      simp only [View.after, (h.after hw).faces_eq hm, Except.map]
  | ok hw hm hv =>
      simp only [View.after, (h.after hw).faces_eq hm, Except.map, hv.face_eq]

variable {host : Host} (hhost : host.Discreet S.toKinship w)
include hhost

/-- Programs that are run one after the other show the same on machines that
belong together. -/
theorem views_eq
    (programs : List (Table × Tree)) (hm : S.machine w m m') :
    views host scope m programs = views host scope m' programs := by
  induction programs generalizing w m m' with
  | nil => rfl
  | cons program programs ih =>
      obtain ⟨table, t⟩ := program
      have ho := Simulation.runTree hhost hm (h.program table t)
      rw [views, views, h.view_eq ho]
      dsimp only at ho ⊢
      generalize Curried.runTree host table scope t m = o,
          Curried.runTree host table scope t m' = o' at ho
      cases ho with
      | error e hw hn => rw [ih (h.after hw) (hhost.after hw) hn]
      | ok hw hn _ => rw [ih (h.after hw) (hhost.after hw) hn]

/-- Interpretations that end together look the same. -/
theorem looksSame
    {o o' : Except InterpretError Value × Machine}
    (ho : S.Outcomes w o o') :
    LooksSame host scope o o' where
  view := h.view_eq ho
  later := by
    intro name programs
    cases ho with
    | error e hw hm =>
        cases name <;> exact (h.after hw).views_eq (hhost.after hw) programs hm
    | ok hw hm hv =>
        cases name with
        | none => exact (h.after hw).views_eq (hhost.after hw) programs hm
        | some x =>
            have hbound := (h.after hw).binds .empty x (S.later_refl _) hm hv
            exact (h.after hw).views_eq (hhost.after hw) programs hbound

end Window

end Simulation

end Curried
