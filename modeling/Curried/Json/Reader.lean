import Curried.Json.Scalar
import Curried.Tree

/-!
# Reading trees from JSON

A node is an object with the members `type`, `text` and, if it has children,
`children`; or a list of these three in order, the last of which may be
missing.  Members with other keys are skipped.

**Depth.**  Lists and objects of nodes may be nested 127 deep.  `tree room`
reads a tree when `room` more may be opened.  Skipped members may be nested to
any depth.
-/

namespace Curried

namespace JsonReader

/-- The lists and objects around a skipped value. -/
inductive Around where
  | list
  | object
deriving DecidableEq

/-- What comes next in a skipped value: a value, what may follow an opening
bracket, or what may follow a value. -/
inductive SkipState where
  | value
  | opened
  | closed
deriving DecidableEq

/-- Skips a key and the colon after it. -/
def skipKey (input : List Char) : Except TreeError (List Char) :=
  match skipBlanks input with
  | '"' :: rest => do
      let rest ← skipText rest
      match skipBlanks rest with
      | ':' :: rest => .ok rest
      | _ :: _ => .error .expectedColon
      | [] => .error .endInObject
  | _ :: _ => .error .keyNotText
  | [] => .error .endInObject

/-- Skips a value inside the given lists and objects, in at most `n` steps. -/
def skipWithin :
    Nat → SkipState → List Around → List Char → Except TreeError (List Char)
  | 0, _, _, _ => .error .endInValue
  | n + 1, .value, around, input =>
      match skipBlanks input with
      | [] => .error .endInValue
      | 'n' :: rest => do skipWithin n .closed around (← word ['u', 'l', 'l'] rest)
      | 't' :: rest => do skipWithin n .closed around (← word ['r', 'u', 'e'] rest)
      | 'f' :: rest =>
          do skipWithin n .closed around (← word ['a', 'l', 's', 'e'] rest)
      | '-' :: rest => do skipWithin n .closed around (← skipNumber rest)
      | '"' :: rest => do skipWithin n .closed around (← skipText rest)
      | '[' :: rest => skipWithin n .opened (.list :: around) rest
      | '{' :: rest => skipWithin n .opened (.object :: around) rest
      | c :: rest =>
          if c.isDigit then do
            skipWithin n .closed around (← skipNumber (c :: rest))
          else
            .error .expectedValue
  | _ + 1, .opened, [], input => .ok input
  | n + 1, .opened, .list :: around, input =>
      match skipBlanks input with
      | ']' :: rest => skipWithin n .closed around rest
      | [] => .error .endInList
      | rest => skipWithin n .value (.list :: around) rest
  | n + 1, .opened, .object :: around, input =>
      match skipBlanks input with
      | '}' :: rest => skipWithin n .closed around rest
      | [] => .error .endInObject
      | rest => do skipWithin n .value (.object :: around) (← skipKey rest)
  | _ + 1, .closed, [], input => .ok input
  | n + 1, .closed, .list :: around, input =>
      match skipBlanks input with
      | ',' :: rest => skipWithin n .value (.list :: around) rest
      | ']' :: rest => skipWithin n .closed around rest
      | _ :: _ => .error .expectedListComma
      | [] => .error .endInList
  | n + 1, .closed, .object :: around, input =>
      match skipBlanks input with
      | ',' :: rest => do skipWithin n .value (.object :: around) (← skipKey rest)
      | '}' :: rest => skipWithin n .closed around rest
      | _ :: _ => .error .expectedObjectComma
      | [] => .error .endInObject

/-- Skips a value.  Every two steps take at least one character. -/
def skipValue (input : List Char) : Except TreeError (List Char) :=
  skipWithin (2 * input.length + 2) .value [] input

/-- Reads a text. -/
def text (input : List Char) : Except TreeError (String × List Char) :=
  match skipBlanks input with
  | [] => .error .endInValue
  | '"' :: rest => textAfterQuote rest
  | rest => .error (wrongType .text rest)

/-- Goes to the next member of a list: its first character, or nothing if the
closing bracket follows. -/
def nextItem (first : Bool) (input : List Char) :
    Except TreeError (Option (List Char) × List Char) :=
  match skipBlanks input with
  | [] => .error .endInList
  | ']' :: rest => .ok (none, ']' :: rest)
  | c :: rest =>
      if first then
        .ok (some (c :: rest), [])
      else if c = ',' then
        match skipBlanks rest with
        | ']' :: _ => .error .trailingComma
        | [] => .error .endInValue
        | rest => .ok (some rest, [])
      else
        .error .expectedListComma

/-- Reads the end of a list. -/
def endOfList (input : List Char) : Except TreeError (List Char) :=
  match skipBlanks input with
  | ']' :: rest => .ok rest
  | ',' :: rest =>
      match skipBlanks rest with
      | ']' :: _ => .error .trailingComma
      | _ => .error .trailingCharacters
  | _ :: _ => .error .trailingCharacters
  | [] => .error .endInList

/-- Reads the members of a list from after its opening bracket, at most `n` of
them. -/
def itemsWithin {α : Type} (item : JsonReader α) : Nat → Bool → JsonReader (List α)
  | 0, _, _ => .error .endInList
  | n + 1, first, input => do
      match ← nextItem first input with
      | (none, rest) => .ok ([], rest)
      | (some start, _) =>
          let (x, rest) ← item start
          let (xs, rest) ← itemsWithin item n false rest
          .ok (x :: xs, rest)

/-- Reads a list of nodes; `room` says whether it may be opened. -/
def nodeList (room : Bool) (item : JsonReader Tree) (input : List Char) :
    Except TreeError (List Tree × List Char) :=
  match skipBlanks input with
  | [] => .error .endInValue
  | '[' :: rest =>
      if room then do
        let (ts, rest) ← itemsWithin item (rest.length + 1) true rest
        let rest ← endOfList rest
        .ok (ts, rest)
      else
        .error .tooDeep
  | rest => .error (wrongType .sequence rest)

/-- The members of an object that have been read. -/
structure Members where
  tag : Option String
  text : Option String
  children : Option (List Tree)

namespace Members

/-- No member has been read. -/
def none : Members :=
  ⟨.none, .none, .none⟩

/-- Whether a member has been read. -/
def has (m : Members) : Field → Bool
  | .tag => m.tag.isSome
  | .text => m.text.isSome
  | .children => m.children.isSome

/-- The node with the given members. -/
def toTree (m : Members) : Except TreeError Tree :=
  match m.tag, m.text with
  | .none, _ => .error (.missingField .tag)
  | _, .none => .error (.missingField .text)
  | some tag, some text => .ok ⟨tag, text, m.children.getD []⟩

end Members

/-- Reads the colon after a key. -/
def colon (input : List Char) : Except TreeError (List Char) :=
  match skipBlanks input with
  | ':' :: rest => .ok rest
  | _ :: _ => .error .expectedColon
  | [] => .error .endInObject

/-- Reads the value of a member, from the colon on. -/
def member (children : JsonReader (List Tree)) (m : Members) (f : Option Field)
    (input : List Char) : 
    Except TreeError (Members × List Char) :=
  match f with
  | some f => do
      if m.has f then
        .error (.duplicateField f)
      else
        let rest ← colon input
        match f with
        | .tag => do
            let (s, rest) ← text rest
            .ok ({ m with tag := some s }, rest)
        | .text => do
            let (s, rest) ← text rest
            .ok ({ m with text := some s }, rest)
        | .children => do
            let (ts, rest) ← children rest
            .ok ({ m with children := some ts }, rest)
  | .none => do
      let rest ← colon input
      let rest ← skipValue rest
      .ok (m, rest)

/-- Goes to the next key of an object: the input after its opening quote, or
nothing if the closing brace follows. -/
def nextKey (first : Bool) (input : List Char) :
    Except TreeError (Option (List Char) × List Char) :=
  match skipBlanks input with
  | [] => .error .endInObject
  | '}' :: rest => .ok (none, rest)
  | c :: rest =>
      if first then
        if c = '"' then .ok (some rest, []) else .error .keyNotText
      else if c = ',' then
        match skipBlanks rest with
        | '"' :: rest => .ok (some rest, [])
        | '}' :: _ => .error .trailingComma
        | _ :: _ => .error .keyNotText
        | [] => .error .endInValue
      else
        .error .expectedObjectComma

/-- Reads the members of an object from after its opening brace, at most `n` of
them. -/
def membersWithin (children : JsonReader (List Tree)) :
    Nat → Bool → Members → JsonReader Tree
  | 0, _, _, _ => .error .endInObject
  | n + 1, first, m, input => do
      match ← nextKey first input with
      | (none, rest) => do
          let t ← m.toTree
          .ok (t, rest)
      | (some start, _) => do
          let (key, rest) ← textAfterQuote start
          let (m, rest) ← member children m (Field.ofKey? key) rest
          membersWithin children n false m rest

/-- Reads the list form of a node from after its opening bracket. -/
def listForm (children : JsonReader (List Tree)) (input : List Char) :
    Except TreeError (Tree × List Char) := do
  match ← nextItem true input with
  | (none, _) => .error (.wrongLength 0)
  | (some start, _) => do
      let (tag, rest) ← text start
      match ← nextItem false rest with
      | (none, _) => .error (.wrongLength 1)
      | (some start, _) => do
          let (body, rest) ← text start
          match ← nextItem false rest with
          | (none, rest) => do
              let rest ← endOfList rest
              .ok (⟨tag, body, []⟩, rest)
          | (some start, _) => do
              let (ts, rest) ← children start
              let rest ← endOfList rest
              .ok (⟨tag, body, ts⟩, rest)

/-- Reads a node; `room` says whether its list or object may be opened. -/
def node (room : Bool) (children : JsonReader (List Tree)) (input : List Char) :
    Except TreeError (Tree × List Char) :=
  match skipBlanks input with
  | [] => .error .endInValue
  | '[' :: rest => if room then listForm children rest else .error .tooDeep
  | '{' :: rest =>
      if room then
        membersWithin children (rest.length + 1) true Members.none rest
      else
        .error .tooDeep
  | rest => .error (wrongType .node rest)

/-- Reads a tree when so many more lists and objects may be opened. -/
def tree : Nat → JsonReader Tree
  | 0 => node false fun _ => .error .tooDeep
  | 1 => node true (nodeList false fun _ => .error .tooDeep)
  | room + 2 => node true (nodeList true (tree room))

/-- How deep lists and objects of nodes may be nested. -/
def depthLimit : Nat :=
  127

end JsonReader

namespace Tree

/-- Reads a tree from its JSON text. -/
def ofJson (source : String) : Except TreeError Tree := do
  let (t, rest) ← JsonReader.tree JsonReader.depthLimit source.toList
  if (JsonReader.skipBlanks rest).isEmpty then
    .ok t
  else
    .error .trailingCharacters

end Tree

end Curried
