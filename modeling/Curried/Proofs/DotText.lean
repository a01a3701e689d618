import Curried.Graph
import Curried.Proofs.Lexical

/-!
# DOT texts read again

**Reader.**  `DotReader.read` divides a text into lines, and takes the quoted
texts off each line, their escapes undone.  A line with a label is a node, and a
line with an arrow is an edge.

**Quoting.**  A quoted text has no line end and no quote of its own, whatever
the text was.  So the line breaks of a DOT text are those between its lines, and
a quoted text ends at the first quote that is not escaped.

**Result.**  `dot_text_reads_back`: every graph is read back from its DOT text,
so different graphs have different texts.
-/

namespace Curried

namespace DotReader

/-- The lines of a text. -/
def lines (s : String) : List (List Char) :=
  s.toList.splitOn '\n'

/-- What a character behind a backslash stands for. -/
def unescape? : Char → Option Char
  | '"' => some '"'
  | '\\' => some '\\'
  | 'n' => some '\n'
  | _ => none

/-- Reads a text up to its closing quote. -/
def content : List Char → Option (List Char × List Char)
  | [] => none
  | '\\' :: c :: rest => do
      let d ← unescape? c
      let (s, after) ← content rest
      pure (d :: s, after)
  | c :: rest =>
      if c = '"' then
        some ([], rest)
      else do
        let (s, after) ← content rest
        pure (c :: s, after)

/-- Takes a text off the front of the input. -/
def skip (w : String) (input : List Char) : Option (List Char) :=
  w.toList.isPrefixOf? input

/-- Reads a quoted text. -/
def quoted (input : List Char) : Option (String × List Char) := do
  let rest ← skip "\"" input
  let (s, after) ← content rest
  pure (String.ofList s, after)

/-- Reads what follows the first quoted text on a line: a mark, another quoted
text, and the end. -/
def second (mark ending : String) (input : List Char) : Option String := do
  let rest ← skip mark input
  let (s, rest) ← quoted rest
  if rest = ending.toList then pure s else none

/-- Reads the line of a node or of an edge. -/
def line (input : List Char) : Option (GraphNode ⊕ GraphEdge) := do
  let rest ← skip "  " input
  let (first, rest) ← quoted rest
  ((second " [label=" "];" rest).map fun label => .inl ⟨first, label⟩).or
    ((second " -> " ";" rest).map fun target => .inr ⟨first, target⟩)

/-- Adds what stands on a line in front. -/
def add (x : GraphNode ⊕ GraphEdge) (g : Graph) : Graph :=
  match x with
  | .inl n => { g with nodes := n :: g.nodes }
  | .inr e => { g with edges := e :: g.edges }

/-- Reads the lines up to the closing brace, with which the text has to end. -/
def body : List (List Char) → Option Graph
  | [] => none
  | l :: ls =>
      if l = ['\x7d'] then
        if ls = [[]] then some ⟨[], []⟩ else none
      else do
        let x ← line l
        let g ← body ls
        pure (add x g)

/-- Reads a graph. -/
def read (s : String) : Option Graph :=
  match lines s with
  | [] => none
  | l :: ls => if l = "digraph \x7b".toList then body ls else none

end DotReader

namespace Graph

open DotReader

section Quoting

/-- A character is written behind a backslash, in a way that can be undone, or
as it is. -/
theorem dotEscape_cases
    (c : Char) :
    (∃ d, d ≠ '\n' ∧ unescape? d = some c ∧ dotEscape c = ['\\', d]) ∨
      (c ≠ '"' ∧ c ≠ '\\' ∧ c ≠ '\n' ∧ dotEscape c = [c]) := by
  by_cases hquote : c = '"'
  · subst hquote
    exact Or.inl ⟨'"', by decide, rfl, rfl⟩
  by_cases hslash : c = '\\'
  · subst hslash
    exact Or.inl ⟨'\\', by decide, rfl, rfl⟩
  by_cases hnewline : c = '\n'
  · subst hnewline
    exact Or.inl ⟨'n', by decide, rfl, rfl⟩
  · exact Or.inr ⟨hquote, hslash, hnewline, by simp [dotEscape]⟩

/-- What stands between the quotes has no line end. -/
theorem newline_notMem_escaped
    (s : List Char) :
    '\n' ∉ s.flatMap dotEscape := by
  intro h
  obtain ⟨c, -, hc⟩ := List.mem_flatMap.1 h
  rcases dotEscape_cases c with ⟨d, hd, -, heq⟩ | ⟨-, -, hnewline, heq⟩ <;>
    rw [heq] at hc
  · simp [Ne.symm hd] at hc
  · simp [Ne.symm hnewline] at hc

/-- What stands between the quotes has no quote that is not escaped. -/
theorem isEscaped_escaped
    (s : List Char) :
    Lexeme.isEscaped (s.flatMap dotEscape) = true := by
  induction s with
  | nil => rfl
  | cons c s ih =>
      have hc : Lexeme.isEscaped (dotEscape c) = true := by
        rcases dotEscape_cases c with ⟨d, -, -, heq⟩ |
          ⟨hquote, hslash, -, heq⟩ <;> rw [heq]
        · rfl
        · simp [Lexeme.isEscaped, hquote, hslash]
      rw [List.flatMap_cons, Lexeme.isEscaped_append hc]
      exact ih

theorem toList_dotQuoted
    (s : String) :
    (dotQuoted s).toList = '"' :: (s.toList.flatMap dotEscape ++ ['"']) := by
  simp [dotQuoted]

theorem newline_notMem_dotQuoted
    (s : String) :
    '\n' ∉ (dotQuoted s).toList := by
  have hescaped := newline_notMem_escaped s.toList
  simp only [toList_dotQuoted, List.mem_cons, List.mem_append, List.not_mem_nil,
    hescaped, or_false, false_or]
  decide

end Quoting

section Lines

/-- The line of a node without its end. -/
def nodeText (n : GraphNode) : String :=
  "  " ++ dotQuoted n.id ++ " [label=" ++ dotQuoted n.label ++ "];"

/-- The line of an edge without its end. -/
def edgeText (e : GraphEdge) : String :=
  "  " ++ dotQuoted e.source ++ " -> " ++ dotQuoted e.target ++ ";"

/-- The lines of a DOT text, up to the last line end. -/
def dotLines (g : Graph) : List String :=
  "digraph \x7b" :: (g.nodes.map nodeText ++ g.edges.map edgeText ++ ["\x7d"])

theorem renderDot_eq
    (g : Graph) :
    g.renderDot.toList = g.dotLines.flatMap fun l => l.toList ++ ['\n'] := by
  have hnodes : (String.join (g.nodes.map nodeLine)).toList =
      (g.nodes.map nodeText).flatMap fun l => l.toList ++ ['\n'] := by
    simp [String.toList_join, List.flatMap_map, nodeLine, nodeText]
  have hedges : (String.join (g.edges.map edgeLine)).toList =
      (g.edges.map edgeText).flatMap fun l => l.toList ++ ['\n'] := by
    simp [String.toList_join, List.flatMap_map, edgeLine, edgeText]
  simp [renderDot, dotLines, hnodes, hedges]

theorem newline_notMem_dotLines
    (g : Graph) :
    ∀ l ∈ g.dotLines, '\n' ∉ l.toList := by
  have hfixed : '\n' ∉ "  ".toList ∧ '\n' ∉ " [label=".toList ∧
      '\n' ∉ "];".toList ∧ '\n' ∉ " -> ".toList ∧
      '\n' ∉ ";".toList := by
    decide
  intro l hl
  simp only [dotLines, List.mem_cons, List.mem_append, List.mem_map,
    List.not_mem_nil, or_false] at hl
  rcases hl with rfl | (⟨n, -, rfl⟩ | ⟨e, -, rfl⟩) | rfl
  · decide
  · simp only [nodeText, String.toList_append, List.mem_append,
      newline_notMem_dotQuoted, hfixed, or_false, not_false_eq_true]
  · simp only [edgeText, String.toList_append, List.mem_append,
      newline_notMem_dotQuoted, hfixed, or_false, not_false_eq_true]
  · decide

/-- Text in lines, each with its end, is the lines and an empty one with the
ends between them. -/
theorem flatMap_lines
    (ls : List (List Char)) :
    (ls.flatMap fun l => l ++ ['\n']) = ['\n'].intercalate (ls ++ [[]]) := by
  induction ls with
  | nil => rfl
  | cons l ls ih =>
      have hcons : ls ++ [[]] ≠ [] := by simp
      rw [List.flatMap_cons, ih, List.cons_append,
        List.intercalate_cons_of_ne_nil hcons]

/-- The lines of a DOT text are those that it was put together from. -/
theorem lines_renderDot
    (g : Graph) :
    lines g.renderDot = g.dotLines.map String.toList ++ [[]] := by
  have hlines : ∀ l ∈ g.dotLines.map String.toList ++ [[]], '\n' ∉ l := by
    intro l hl
    rcases List.mem_append.1 hl with hl | hl
    · obtain ⟨k, hk, rfl⟩ := List.mem_map.1 hl
      exact newline_notMem_dotLines g k hk
    · rw [List.mem_singleton.1 hl]
      exact List.not_mem_nil
  have htext : g.renderDot.toList =
      ['\n'].intercalate (g.dotLines.map String.toList ++ [[]]) := by
    rw [renderDot_eq, ← flatMap_lines, List.flatMap_map]
  rw [lines, htext]
  exact List.splitOn_intercalate '\n' hlines (by simp)

end Lines

end Graph

namespace DotReader

open Curried.Graph

section Reading

/-- A character is read back from the way it is written. -/
theorem content_dotEscape
    (c : Char) (rest : List Char) :
    content (dotEscape c ++ rest) = (content rest).map fun (s, after) =>
      (c :: s, after) := by
  rcases dotEscape_cases c with ⟨d, -, hd, heq⟩ | ⟨hquote, hslash, -, heq⟩ <;> rw [heq]
  · rw [List.cons_append, List.singleton_append, content, hd]
    cases content rest <;> rfl
  · rw [List.singleton_append, content]
    · rw [if_neg hquote]
      cases content rest <;> rfl
    · intro c' rest' hc _
      exact hslash hc

theorem content_escaped
    (s rest : List Char) :
    content (s.flatMap dotEscape ++ '"' :: rest) = some (s, rest) := by
  induction s with
  | nil => rfl
  | cons c s ih =>
      rw [List.flatMap_cons, List.append_assoc, content_dotEscape, ih]
      rfl

theorem skip_append
    (w : String) (rest : List Char) :
    skip w (w.toList ++ rest) = some rest := by
  unfold skip
  induction w.toList with
  | nil => rfl
  | cons c w ih =>
      exact (if_pos (beq_self_eq_true c)).trans ih

theorem quoted_dotQuoted
    (s : String) (rest : List Char) :
    quoted ((dotQuoted s).toList ++ rest) = some (s, rest) := by
  have hskip := skip_append "\"" (s.toList.flatMap dotEscape ++ '"' :: rest)
  have hinput : (dotQuoted s).toList ++ rest = "\"".toList ++
      (s.toList.flatMap dotEscape ++ '"' :: rest) := by
    simp [toList_dotQuoted]
  rw [hinput, quoted, hskip]
  simp [content_escaped]

theorem second_dotQuoted
    (mark ending s : String) :
    second mark ending (mark.toList ++
      ((dotQuoted s).toList ++ ending.toList)) = some s := by
  rw [second, skip_append]
  simp [quoted_dotQuoted]

theorem line_dotQuoted
    (s : String) (rest : List Char) :
    line ("  ".toList ++ ((dotQuoted s).toList ++ rest)) =
      ((second " [label=" "];" rest).map fun label => .inl ⟨s, label⟩).or
        ((second " -> " ";" rest).map fun target => .inr ⟨s, target⟩) := by
  rw [line, skip_append]
  simp only [Option.bind_eq_bind, Option.bind_some, quoted_dotQuoted]

theorem line_nodeText
    (n : GraphNode) :
    line (nodeText n).toList = some (.inl n) := by
  have hinput : (nodeText n).toList =
      "  ".toList ++
        ((dotQuoted n.id).toList ++
          (" [label=".toList ++
            ((dotQuoted n.label).toList ++ "];".toList))) := by
    simp only [nodeText, String.toList_append, List.append_assoc]
  rw [hinput, line_dotQuoted, second_dotQuoted]
  rfl

theorem line_edgeText
    (e : GraphEdge) :
    line (edgeText e).toList = some (.inr e) := by
  have hinput : (edgeText e).toList =
      "  ".toList ++
        ((dotQuoted e.source).toList ++
          (" -> ".toList ++ ((dotQuoted e.target).toList ++ ";".toList))) := by
    simp only [edgeText, String.toList_append, List.append_assoc]
  -- an arrow is no label, so the line is not taken for that of a node
  have hlabel : second " [label=" "];" (" -> ".toList ++
      ((dotQuoted e.target).toList ++ ";".toList)) = none := by
    rfl
  rw [hinput, line_dotQuoted, hlabel, second_dotQuoted]
  rfl

theorem body_cons
    {l : List Char} {x : GraphNode ⊕ GraphEdge}
    (h : line l = some x) (ls : List (List Char)) :
    body (l :: ls) = (body ls).map (add x) := by
  have hbrace : l ≠ ['\x7d'] := by
    rintro rfl
    cases h
  rw [body, if_neg hbrace, h]
  cases body ls <;> rfl

theorem body_edges
    (es : List GraphEdge) :
    body ((es.map edgeText).map String.toList ++ [['\x7d'], []]) =
      some ⟨[], es⟩ := by
  induction es with
  | nil => rfl
  | cons e es ih =>
      rw [List.map_cons, List.map_cons, List.cons_append,
        body_cons (line_edgeText e), ih]
      rfl

theorem body_nodes
    (ns : List GraphNode) (es : List GraphEdge) :
    body ((ns.map nodeText).map String.toList ++
      ((es.map edgeText).map String.toList ++ [['\x7d'], []])) =
      some ⟨ns, es⟩ := by
  induction ns with
  | nil => exact body_edges es
  | cons n ns ih =>
      rw [List.map_cons, List.map_cons, List.cons_append,
        body_cons (line_nodeText n), ih]
      rfl

/-- A graph is read back from its DOT text. -/
theorem read_renderDot
    (g : Graph) :
    read g.renderDot = some g := by
  have hlines : lines g.renderDot = "digraph \x7b".toList ::
      ((g.nodes.map nodeText).map String.toList ++
        ((g.edges.map edgeText).map String.toList ++ [['\x7d'], []])) := by
    rw [lines_renderDot]
    simp [dotLines]
  rw [read, hlines]
  exact body_nodes g.nodes g.edges

end Reading

end DotReader

/-- **DOT texts.**  The DOT text of a graph has a line for each node and then a
line for each edge, between an opening and a closing line, whatever the names
and the labels are.  No quoted text has a line end or a quote that is not
escaped.  Reading the text line by line gives the graph again, so no two graphs
have the same text. -/
theorem dot_text_reads_back
    (g : Graph) :
    DotReader.lines g.renderDot =
      (["digraph \x7b"] ++ g.nodes.map Graph.nodeText ++
        g.edges.map Graph.edgeText ++ ["\x7d", ""]).map String.toList ∧
    (∀ s : String, ∃ inner : String,
      Graph.dotQuoted s = "\"" ++ inner ++ "\"" ∧ '\n' ∉ inner.toList ∧
      Lexeme.isEscaped inner.toList = true) ∧
    DotReader.read g.renderDot = some g ∧
    ∀ g' : Graph, g.renderDot = g'.renderDot ↔ g = g' := by
  refine ⟨?_, ?_, DotReader.read_renderDot g, fun g' =>
    ⟨?_, congrArg Graph.renderDot⟩⟩
  · rw [Graph.lines_renderDot]
    simp [Graph.dotLines]
  · intro s
    refine ⟨String.ofList (s.toList.flatMap Graph.dotEscape), rfl, ?_, ?_⟩
    · rw [String.toList_ofList]
      exact Graph.newline_notMem_escaped s.toList
    · rw [String.toList_ofList]
      exact Graph.isEscaped_escaped s.toList
  · intro h
    have hread := DotReader.read_renderDot g
    rw [h, DotReader.read_renderDot g'] at hread
    exact (Option.some.inj hread).symm

end Curried
