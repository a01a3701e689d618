import Std.Data.TreeMap

/-!
# Operator tables

A table gives operator symbols a meaning of the host's own: each entry names the
host operator that a symbol stands for.  An entry wins over the operator that
the language itself has under that symbol.  Tables are values, so a function
keeps the entries of the table under which it was defined.
-/

namespace Curried

/-- Symbols and the host operators they stand for. -/
structure Table where
  entries : Std.TreeMap String String

namespace Table

/-- The table without entries. -/
def empty : Table :=
  ⟨∅⟩

/-- Adds an entry; an earlier one for the symbol is replaced. -/
def insert (t : Table) (symbol operator : String) : Table :=
  ⟨t.entries.insert symbol operator⟩

/-- The table with the given entries, added in order. -/
def ofList (entries : List (String × String)) : Table :=
  entries.foldl (fun t (symbol, operator) => t.insert symbol operator) empty

/-- The host operator that a symbol stands for. -/
def find? (t : Table) (symbol : String) : Option String :=
  t.entries[symbol]?

/-- Whether a symbol has an entry. -/
def contains (t : Table) (symbol : String) : Bool :=
  t.entries.contains symbol

/-- The symbols in ascending order. -/
def symbols (t : Table) : List String :=
  t.entries.keys

/-- The number of entries. -/
def size (t : Table) : Nat :=
  t.entries.size

theorem find?_empty (symbol : String) : empty.find? symbol = none := by
  simp [find?, empty]

theorem find?_insert
    (t : Table) (symbol operator s : String) :
    (t.insert symbol operator).find? s = if symbol = s then some operator
      else t.find? s := by
  simp [find?, insert, Std.TreeMap.getElem?_insert]

end Table

end Curried
