import Curried.Proofs.FrameLaw
import Curried.Proofs.Sights

/-!
# Operator tables and the symbols they are asked for

A function keeps the table under which it was defined, so that tables get
everywhere.  But a table is only ever asked for the symbols of the tree that is
evaluated under it, the bodies of the functions it defines included.

**Symbols.**  `Tree.symbols` lists the texts of the second children of all
`infix` nodes of a tree.

**Results.**
* `Tree.mem_symbols_of_uses`: the code of a tree uses no other symbols.
* `tables_matter_by_use`: two tables that agree about the symbols of a tree
  cannot be told apart by evaluating it.
-/

namespace Curried

namespace Tree

/-- The symbol of a node, if it has an operator. -/
def symbol? (t : Tree) : Option String :=
  if t.kind = .infixOp then t.children[1]?.map Tree.text else none

mutual

/-- The symbols of all operators in a tree, those in the bodies of functions
included. -/
def symbols : Tree → List String
  | ⟨tag, text, children⟩ =>
      (symbol? ⟨tag, text, children⟩).toList ++ symbolsAll children

/-- The symbols of all operators in a list of trees. -/
def symbolsAll : List Tree → List String
  | [] => []
  | t :: ts => symbols t ++ symbolsAll ts

end

theorem symbols_subset_symbolsAll
    {t : Tree} :
    ∀ {ts : List Tree}, t ∈ ts → t.symbols ⊆ symbolsAll ts
  | u :: ts, h => by
      intro symbol hsymbol
      rw [symbolsAll, List.mem_append]
      rcases List.mem_cons.1 h with rfl | h
      · exact Or.inl hsymbol
      · exact Or.inr (symbols_subset_symbolsAll h hsymbol)

theorem symbols_subset_of_mem_children
    {t c : Tree}
    (h : c ∈ t.children) :
    c.symbols ⊆ t.symbols := by
  obtain ⟨tag, text, children⟩ := t
  intro symbol hsymbol
  rw [symbols, List.mem_append]
  exact Or.inr (symbols_subset_symbolsAll h hsymbol)

theorem mem_symbols_of_operate
    {t left right : Tree} {symbol : String}
    (h : t.plan = .operate left symbol right) :
    symbol ∈ t.symbols := by
  have hplanned := t.planned
  rw [h] at hplanned
  cases hplanned with
  | @infixOp _ operator _ hkind hchildren =>
      have hsymbol : t.symbol? = some operator.text := by
        rw [symbol?, if_pos hkind, hchildren]
        rfl
      obtain ⟨tag, text, children⟩ := t
      rw [symbols, hsymbol]
      exact List.mem_cons_self

/-- The code of a tree uses no symbols but those of the tree. -/
theorem mem_symbols_of_uses
    {t : Tree} {symbol : String}
    (h : t.code.Uses symbol) :
    symbol ∈ t.symbols := by
  induction t using trees_induction with
  | step t ih =>
      have hchild : ∀ {c : Tree}, c ∈ t.plan.trees → c.code.Uses symbol →
          symbol ∈ t.symbols :=
        fun hc huses =>
          symbols_subset_of_mem_children (t.trees_subset_children hc)
            (ih _ hc huses)
      rw [code_eq_plan] at h
      cases hplan : t.plan <;> rw [hplan] at h hchild
      case fail | give | look => cases h
      case sequence parts =>
          cases h with
          | sequence hmem huses =>
              obtain ⟨c, hc, rfl⟩ := List.mem_map.1 hmem
              exact hchild hc huses
      case define =>
          cases h with | define huses =>
            exact hchild (by simp [Plan.trees]) huses
      case bind =>
          cases h with | bind huses =>
            exact hchild (by simp [Plan.trees, Plan.parts]) huses
      case operate =>
          cases h with
          | operator => exact mem_symbols_of_operate hplan
          | left huses => exact hchild (by simp [Plan.trees, Plan.parts]) huses
          | right huses => exact hchild (by simp [Plan.trees, Plan.parts]) huses
      case apply =>
          cases h with
          | function huses => exact hchild (by simp [Plan.trees, Plan.parts]) huses
          | argument huses => exact hchild (by simp [Plan.trees, Plan.parts]) huses
      case pass => exact hchild (by simp [Plan.trees, Plan.parts]) h

end Tree

/-- An interpretation of a tree keeps what it does not write. -/
theorem runTree_keeps
    (host : Host) (table : Table) (scope : Scope) (t : Tree) (m : Machine) :
    Store.Keeps scope (Tree.Writes · t) m.store
      (runTree host table scope t m).2.store := by
  have hkeeps :=
    evalTree_keeps host (callValue_extends host callAllowance) table scope t
  unfold runTree evaluate
  split
  · exact Store.Keeps.refl m.store
  · rename_i h
    exact hkeeps h
  · rename_i h
    exact hkeeps h

/-- **Tables matter only through the symbols that are used.**  If two tables
have the same entry, or none, for each symbol of a tree, then in no session
evaluating the tree under one or the other can be told apart, by outcome, by
names or by any later moves, whatever tables these use.  In particular a table
without entries for the symbols of the tree is as good as none.  The functions
that were in the scope already are what they were, their tables included, unless
their names are bound anew; and it is under its own table that the body of a
function is evaluated. -/
theorem tables_matter_by_use
    {host : Host} (hhost : host.Discreet (.twins .exact) ())
    (t : Tree) (table table' : Table)
    (h : ∀ symbol ∈ t.symbols, table.find? symbol = table'.find? symbol)
    (s : Session) (scope : Scope) :
    ShowsSame host s scope (runTree host table scope t s.machine)
      (runTree host table' scope t s.machine) ∧
    ((∀ symbol ∈ t.symbols, table.find? symbol = none) →
      ShowsSame host s scope (runTree host table scope t s.machine)
        (runTree host Table.empty scope t s.machine)) ∧
    (∀ (x : String) (v : Value), ¬ t.Writes x →
      s.machine.store.lookup scope x = some v →
      (runTree host table scope t s.machine).2.store.lookup scope x = some v) ∧
    ∀ (id : Nat) (c : Closure) (argument : Value) (m : Machine), c.arity = 1 →
      ∃ n, call host (.function id c) argument m =
        EvalM.nested (evalTree host (callValue host n) c.table m.store.next c.body)
          { m with store := m.store.pushChild c.scope c.parameter argument } := by
  have hagree : ∀ {table' : Table},
      (∀ symbol ∈ t.symbols, table.find? symbol = table'.find? symbol) →
      ShowsSame host s scope (runTree host table scope t s.machine)
        (runTree host table' scope t s.machine) := by
    intro table' h
    refine showsSame_of_twin hhost ?_ s scope
    exact runTree_twin hhost s.machine.twin_refl rfl fun symbol huses =>
      h symbol (Tree.mem_symbols_of_uses huses)
  refine ⟨hagree h, ?_, ?_, ?_⟩
  · intro hnone
    refine hagree fun symbol hsymbol => ?_
    rw [hnone symbol hsymbol, Table.find?_empty]
  · intro x v hx hfound
    exact (runTree_keeps host table scope t s.machine).lookup hx hfound
  · intro id c argument m hlast
    exact ⟨_, callValue_last host _ "apply" id argument m hlast⟩

/-- A session in which a function was defined under a table in which plus shows
its operands. -/
def showingSession : Session :=
  ((Session.initial.step Host.standard
    (.tableNew "showing" [("+", "show")])).2.step Host.standard
    (.eval "f x = x + x" Session.mainScope (some "showing") none)).2

/-- A call of that function as the left operand of another operator. -/
def showingCall : Tree :=
  ⟨"infix", "", [⟨"apply", "", [.leaf "variable" "f", .leaf "string" "\"a\""]⟩,
    .leaf "operator" "*", .leaf "string" "\"b\""]⟩

/-- The two tables differ in the operator of the function, but not in the one of
the call. -/
theorem showingCall_shows_same :
    ∃ table table' : Table,
      (∀ symbol ∈ showingCall.symbols, table.find? symbol = table'.find? symbol) ∧
      table.find? "+" ≠ table'.find? "+" ∧
      (runTree Host.standard table Scope.root showingCall
        showingSession.machine).1.toOption.map Value.display =
        some "((a + a) * b)" ∧
      ShowsSame Host.standard showingSession Scope.root
        (runTree Host.standard table Scope.root showingCall showingSession.machine)
        (runTree Host.standard table' Scope.root showingCall
          showingSession.machine) := by
  have hagree : ∀ symbol ∈ showingCall.symbols,
      (Table.ofList [("*", "show"), ("+", "left")]).find? symbol =
        (Table.ofList [("*", "show")]).find? symbol := by
    decide +kernel
  refine ⟨_, _, hagree, by decide +kernel, by decide +kernel, ?_⟩
  exact (tables_matter_by_use (Host.standard_discreet _ _) showingCall _ _
    hagree showingSession Scope.root).1

end Curried
