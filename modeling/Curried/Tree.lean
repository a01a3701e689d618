/-!
# Node trees

A program is a tree of nodes.  Every node has a **tag** that says what it is,
the **text** of the program it stands for, and its **children** in order.  The
reader of program text builds such trees, and so does the reader of their JSON
form; the evaluator works on nothing else.

**Kinds.**  Ten tags have a meaning of their own; `Kind.ofTag` sorts them out,
and every other tag is `Kind.other`.
-/

namespace Curried

/-- A node: its tag, the text it stands for, and its children in order. -/
structure Tree where
  tag : String
  text : String
  children : List Tree
deriving Inhabited

namespace Tree

/-- A node without children. -/
def leaf (tag text : String) : Tree :=
  ⟨tag, text, []⟩

/-- A node is a leaf when it has no children. -/
def isLeaf (t : Tree) : Bool :=
  t.children.isEmpty

mutual

/-- The number of nodes of a tree, its root included. -/
def count : Tree → Nat
  | ⟨_, _, children⟩ => 1 + countAll children

/-- The number of nodes of a list of trees. -/
def countAll : List Tree → Nat
  | [] => 0
  | t :: ts => count t + countAll ts

end

mutual

/-- Equality of trees is decided node by node. -/
def decEq : (a b : Tree) → Decidable (a = b)
  | ⟨t, x, c⟩, ⟨t', x', c'⟩ =>
      if h : t = t' ∧ x = x' then
        match decEqAll c c' with
        | isTrue e => isTrue (by rw [h.1, h.2, e])
        | isFalse e => isFalse (fun h' => e (Tree.mk.inj h').2.2)
      else
        isFalse (fun h' => h ⟨(Tree.mk.inj h').1, (Tree.mk.inj h').2.1⟩)

/-- Equality of lists of trees is decided member by member. -/
def decEqAll : (a b : List Tree) → Decidable (a = b)
  | [], [] => isTrue rfl
  | [], _ :: _ => isFalse (by simp)
  | _ :: _, [] => isFalse (by simp)
  | a :: as, b :: bs =>
      match decEq a b with
      | isTrue e =>
          match decEqAll as bs with
          | isTrue e' => isTrue (by rw [e, e'])
          | isFalse e' => isFalse (by simp [e'])
      | isFalse e => isFalse (by simp [e])

end

instance : DecidableEq Tree :=
  decEq

end Tree

/-- What a node is, as far as the evaluator tells tags apart. -/
inductive Kind where
  | declarations
  | integer
  | text
  | function
  | equation
  | bind
  | identifier
  | infixOp
  | apply
  | parens
  | other
deriving DecidableEq

namespace Kind

/-- The kind that a tag names. -/
def ofTag : String → Kind
  | "declarations" => declarations
  | "integer" => integer
  | "string" => text
  | "function" => function
  | "match" => equation
  | "bind" => bind
  | "variable" => identifier
  | "infix" => infixOp
  | "apply" => apply
  | "parens" => parens
  | _ => other

/-- The tag that names a kind; `other` has none. -/
def tag? : Kind → Option String
  | declarations => some "declarations"
  | integer => some "integer"
  | text => some "string"
  | function => some "function"
  | equation => some "match"
  | bind => some "bind"
  | identifier => some "variable"
  | infixOp => some "infix"
  | apply => some "apply"
  | parens => some "parens"
  | other => none

theorem ofTag_tag
    {k : Kind} {t : String}
    (h : k.tag? = some t) :
    ofTag t = k := by
  cases k <;> simp [tag?] at h <;> subst h <;> rfl

end Kind

/-- The kind of a node is the kind of its tag. -/
def Tree.kind (t : Tree) : Kind :=
  Kind.ofTag t.tag

end Curried
