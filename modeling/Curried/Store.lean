import Curried.Value

/-!
# Scopes and their frames

A scope is a frame of bindings with an optional parent, kept in a store.  A name
is looked up in the frame itself, then in its parent, and so on.  All handles
with the same number see the same frame.

**Order.**  A frame is made after its parent, so the parent has a smaller number
and every walk towards the root ends.
-/

namespace Curried

/-- The bindings of one scope, and the scope around it. -/
structure Frame where
  bindings : Std.TreeMap String Value
  parent : Option Scope

/-- All frames made so far, in the order in which they were made. -/
structure Store where
  frames : Array Frame

namespace Store

/-- The store without frames. -/
def empty : Store :=
  ⟨#[]⟩

/-- The frame of a scope. -/
def frame? (s : Store) (scope : Scope) : Option Frame :=
  s.frames[scope.index]?

/-- The scope that the next frame will get. -/
def next (s : Store) : Scope :=
  ⟨s.frames.size⟩

/-- Adds a frame; its scope is `next`. -/
def push (s : Store) (f : Frame) : Store :=
  ⟨s.frames.push f⟩

/-- Adds an empty frame without parent. -/
def pushRoot (s : Store) : Store :=
  s.push ⟨∅, none⟩

/-- Adds a frame inside `scope` that binds one name. -/
def pushChild (s : Store) (scope : Scope) (name : String) (value : Value) : Store :=
  s.push ⟨(∅ : Std.TreeMap String Value).insert name value, some scope⟩

/-- Binds a name in the frame of a scope itself; an earlier binding of the name
there is replaced. -/
def define (s : Store) (scope : Scope) (name : String) (value : Value) : Store :=
  ⟨s.frames.modify scope.index fun f =>
    { f with bindings := f.bindings.insert name value }⟩

/-- Removes all bindings of the frame of a scope itself. -/
def clear (s : Store) (scope : Scope) : Store :=
  ⟨s.frames.modify scope.index fun f => { f with bindings := ∅ }⟩

/-- Looks a name up in at most `n` frames, from the given scope towards the
root. -/
def lookupWithin (s : Store) (name : String) : Nat → Scope → Option Value
  | 0, _ => none
  | n + 1, scope =>
      match s.frame? scope with
      | none => none
      | some f =>
          match f.bindings[name]? with
          | some v => some v
          | none =>
              match f.parent with
              | none => none
              | some parent => lookupWithin s name n parent

/-- The value of a name as seen from a scope.  A scope has no more ancestors
than its own number. -/
def lookup (s : Store) (scope : Scope) (name : String) : Option Value :=
  s.lookupWithin name (scope.index + 1) scope

/-- Whether a name has a value as seen from a scope. -/
def contains (s : Store) (scope : Scope) (name : String) : Bool :=
  (s.lookup scope name).isSome

/-- The names bound in the frame of a scope itself, in ascending order. -/
def names (s : Store) (scope : Scope) : List String :=
  match s.frame? scope with
  | none => []
  | some f => f.bindings.keys

/-- Whether a scope has a parent. -/
def hasParent (s : Store) (scope : Scope) : Bool :=
  match s.frame? scope with
  | none => false
  | some f => f.parent.isSome

/-- How a scope is shown when it is inspected. -/
def inspect (s : Store) (scope : Scope) : String :=
  "Scope \x7b names: " ++ Text.quotedList (s.names scope) ++ ", has_parent: " ++
    toString (s.hasParent scope) ++ " \x7d"

end Store

end Curried
