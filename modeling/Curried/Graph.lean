import Curried.Json.Writer

/-!
# Graphs of trees

The graph of a tree has one node for each node of the tree, named by the path
that leads to it, and one edge from each node to each of its children.  Both are
listed from the root down, children in order.  A graph can be written as JSON or
as DOT text.
-/

namespace Curried

/-- A node of a graph. -/
structure GraphNode where
  id : String
  label : String
deriving DecidableEq

/-- An edge of a graph. -/
structure GraphEdge where
  source : String
  target : String
deriving DecidableEq

/-- A graph: its nodes and its edges, each in order. -/
structure Graph where
  nodes : List GraphNode
  edges : List GraphEdge
deriving DecidableEq

namespace Graph

/-- The name of the child with the given index. -/
def childId (id : String) (index : Nat) : String :=
  id ++ "." ++ toString index

mutual

/-- The nodes for a tree whose root has the given name. -/
def nodesFrom (id : String) : Tree → List GraphNode
  | ⟨tag, _, children⟩ => ⟨id, tag⟩ :: nodesFromAll id 0 children

/-- The nodes for the children of a node, counted from the given index. -/
def nodesFromAll (id : String) (index : Nat) : List Tree → List GraphNode
  | [] => []
  | t :: ts => nodesFrom (childId id index) t ++ nodesFromAll id (index + 1) ts

end

mutual

/-- The edges inside a tree whose root has the given name. -/
def edgesFrom (id : String) : Tree → List GraphEdge
  | ⟨_, _, children⟩ => edgesFromAll id 0 children

/-- The edges to the children of a node and inside them, counted from the given
index. -/
def edgesFromAll (id : String) (index : Nat) : List Tree → List GraphEdge
  | [] => []
  | t :: ts =>
      ⟨id, childId id index⟩ :: edgesFrom (childId id index) t ++
        edgesFromAll id (index + 1) ts

end

/-- The name of the root. -/
def rootId : String :=
  "0"

/-- The graph of a tree. -/
def ofTree (t : Tree) : Graph :=
  ⟨nodesFrom rootId t, edgesFrom rootId t⟩

/-- A graph as a JSON document. -/
def toJson (g : Graph) : Json :=
  .object [("graph", .object [
    ("nodes", .list (g.nodes.map fun n =>
      .object [("id", .text n.id), ("label", .text n.label)])),
    ("edges", .list (g.edges.map fun e =>
      .object [("source", .text e.source), ("target", .text e.target)]))])]

/-- The JSON text of a graph. -/
def renderJson (g : Graph) : String :=
  g.toJson.render

/-- How one character stands in a quoted DOT text. -/
def dotEscape (c : Char) : List Char :=
  match c with
  | '"' => ['\\', '"']
  | '\\' => ['\\', '\\']
  | '\n' => ['\\', 'n']
  | _ => [c]

/-- A quoted DOT text. -/
def dotQuoted (s : String) : String :=
  "\"" ++ String.ofList (s.toList.flatMap dotEscape) ++ "\""

/-- The line of a node. -/
def nodeLine (n : GraphNode) : String :=
  "  " ++ dotQuoted n.id ++ " [label=" ++ dotQuoted n.label ++ "];\n"

/-- The line of an edge. -/
def edgeLine (e : GraphEdge) : String :=
  "  " ++ dotQuoted e.source ++ " -> " ++ dotQuoted e.target ++ ";\n"

/-- The DOT text of a graph: a line for each node, then a line for each edge. -/
def renderDot (g : Graph) : String :=
  "digraph \x7b\n" ++ String.join (g.nodes.map nodeLine) ++
    String.join (g.edges.map edgeLine) ++ "\x7d\n"

end Graph

end Curried
