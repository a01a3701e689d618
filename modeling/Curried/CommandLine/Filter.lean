import Curried.CommandLine.Directive

/-!
# Filters

A filter is a list of directives and chooses among the lines of a log.  Of the
directives that fit a line the most special one decides; a line that no
directive fits is not shown.  What cannot be read as a directive is left out,
and a notice says so.
-/

namespace Curried

/-- The directives of a filter, and the texts that were no directives. -/
structure Filter where
  directives : List Directive
  refused : List (String × DirectiveFault)

namespace Filter

/-- The parts of a text between commas. -/
def parts : List Char → List (List Char)
  | [] => [[]]
  | c :: rest =>
      match parts rest with
      | [] => [[c]]
      | p :: ps => if c = ',' then [] :: p :: ps else (c :: p) :: ps

/-- The filter without directives. -/
def empty : Filter :=
  ⟨[], []⟩

/-- The filter with one more part. -/
def add (f : Filter) (part : String) : Filter :=
  match Directive.ofText part with
  | .ok d => { f with directives := f.directives ++ [d] }
  | .error fault => { f with refused := f.refused ++ [(part, fault)] }

/-- Reads a filter: directives with commas between them.  Empty parts do not
count. -/
def ofText (s : String) : Filter :=
  (((parts s.toList).filter (!·.isEmpty)).map String.ofList).foldl add empty

/-- One line for each text that was no directive. -/
def notices (f : Filter) : String :=
  String.join (f.refused.map fun (part, fault) => "ignoring `" ++ part ++
    "`: " ++ fault.message ++ "\n")

/-- The directive that decides for a line. -/
def deciding (f : Filter) (l : EventLine) : Option Directive :=
  f.directives.foldl (fun best d =>
    if d.fits l then
      match best with
      | none => some d
      | some b => if b.givesWay d then some d else some b
    else
      best) none

/-- Whether a line is shown. -/
def admits (f : Filter) (l : EventLine) : Bool :=
  match f.deciding l with
  | none => false
  | some d => l.verbosity.rank ≤ d.verbosity.rank

/-- The lines of a journal that a filter admits. -/
def lines (f : Filter) (journal : List Event) : String :=
  String.join (((journal.filterMap fun e =>
    EventLine.ofHappening? e.happening).filter f.admits).map EventLine.render)

end Filter

end Curried
