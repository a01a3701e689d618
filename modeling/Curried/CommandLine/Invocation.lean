/-!
# Invocations

What the arguments of the command line ask for.  An invocation names one of five
commands; options may stand before or after the argument of the command, and a
double dash ends the options.  Arguments that fit no invocation are misuse.
-/

namespace Curried

/-- The forms in which a graph is printed. -/
inductive GraphFormat where
  | json
  | dot
deriving DecidableEq

namespace GraphFormat

/-- The format of a given name. -/
def ofText? : String → Option GraphFormat
  | "json" => some json
  | "dot" => some dot
  | _ => none

end GraphFormat

/-- The commands. -/
inductive Command where
  /-- Evaluates a source. -/
  | eval (source : String) (prelude : Bool)
  /-- Evaluates the source in a file. -/
  | run (file : String) (prelude : Bool)
  /-- Evaluates the JSON form of a tree in a file. -/
  | evalTree (file : String) (prelude : Bool)
  /-- Prints the tree of a source. -/
  | parse (source : String)
  /-- Prints the graph of the tree of a source. -/
  | graph (source : String) (format : GraphFormat)
deriving DecidableEq

namespace Command

/-- The file that a command reads. -/
def file? : Command → Option String
  | run file _ => some file
  | evalTree file _ => some file
  | _ => none

end Command

/-- A command and the filter for the log of events. -/
structure Invocation where
  log : Option String
  command : Command
deriving DecidableEq

namespace Invocation

/-- The names of the commands. -/
inductive Verb where
  | eval
  | run
  | evalTree
  | parse
  | graph
deriving DecidableEq

/-- The command of a given name. -/
def Verb.ofText? : String → Option Verb
  | "eval" => some eval
  | "run" => some run
  | "eval-tree" => some evalTree
  | "parse" => some parse
  | "graph" => some graph
  | _ => none

/-- Whether a command takes the option for the prelude. -/
def Verb.takesPrelude : Verb → Bool
  | eval => true
  | run => true
  | evalTree => true
  | _ => false

/-- What has been read of the arguments of a command. -/
structure Options where
  argument : Option String
  log : Option String
  prelude : Bool
  format : Option GraphFormat

/-- Nothing has been read. -/
def Options.none : Options :=
  ⟨.none, .none, false, .none⟩

/-- An argument that starts with a dash is an option, unless it is a single
dash. -/
def isOption (s : String) : Bool :=
  match s.toList with
  | '-' :: _ :: _ => true
  | _ => false

/-- The value in an argument of the form `name=value`. -/
def attached? (name s : String) : Option String :=
  let start := name.toList ++ ['=']
  if start.isPrefixOf s.toList then
    some (String.ofList (s.toList.drop start.length))
  else
    Option.none

/-- Sets an option that may be given once. -/
def once {α : Type} (current : Option α) (value : α) : Option (Option α) :=
  match current with
  | Option.none => some (some value)
  | some _ => Option.none

/-- Sets the filter. -/
def Options.setLog? (o : Options) (value : String) : Option Options :=
  (once o.log value).map fun log => { o with log }

/-- Sets the format; only the command for graphs has one. -/
def Options.setFormat? (o : Options) (verb : Verb) (value : String) :
    Option Options :=
  if verb = .graph then
    match GraphFormat.ofText? value with
    | some f => (once o.format f).map fun format => { o with format }
    | Option.none => Option.none
  else
    Option.none

/-- Sets the argument of the command. -/
def Options.setArgument? (o : Options) (value : String) : Option Options :=
  (once o.argument value).map fun argument => { o with argument }

/-- Reads the arguments after a double dash. -/
def readPlain (o : Options) : List String → Option Options
  | [] => some o
  | s :: rest => (o.setArgument? s).bind (readPlain · rest)

/-- Reads the arguments of a command. -/
def readOptions (verb : Verb) (o : Options) : List String → Option Options
  | [] => some o
  | "--" :: rest => readPlain o rest
  | "--log" :: value :: rest =>
      if isOption value then Option.none
        else (o.setLog? value).bind (readOptions verb · rest)
  | "--format" :: value :: rest =>
      if isOption value then Option.none
        else (o.setFormat? verb value).bind (readOptions verb · rest)
  | "--prelude" :: rest =>
      if verb.takesPrelude &&
        !o.prelude then readOptions verb { o with prelude := true } rest
        else Option.none
  | s :: rest =>
      if isOption s then
        match attached? "--log" s, attached? "--format" s with
        | some value, _ => (o.setLog? value).bind (readOptions verb · rest)
        | _, some value => (o.setFormat? verb value).bind (readOptions verb · rest)
        | Option.none, Option.none => Option.none
      else
        (o.setArgument? s).bind (readOptions verb · rest)

/-- The command with the given options.  A file must have a name. -/
def command? (verb : Verb) (o : Options) : Option Command :=
  o.argument.bind fun argument =>
    match verb with
    | .eval => some (.eval argument o.prelude)
    | .run =>
        if argument.isEmpty then Option.none else some (.run argument o.prelude)
    | .evalTree =>
        if argument.isEmpty then Option.none
          else some (.evalTree argument o.prelude)
    | .parse => some (.parse argument)
    | .graph => some (.graph argument (o.format.getD .json))

/-- Reads the name of the command and what follows it.  A filter given after the
name wins over one given before. -/
def readCommand (log : Option String) (name : String) (rest : List String) :
    Option Invocation := do
  let verb ← Verb.ofText? name
  let o ← readOptions verb Options.none rest
  let command ← command? verb o
  some ⟨o.log.or log, command⟩

/-- Reads the arguments from the start, with the filter that was read so far. -/
def readArguments (log : Option String) : List String → Option Invocation
  | [] => Option.none
  | "--log" :: value :: rest =>
      if isOption value then
        Option.none
      else
        match log with
        | Option.none => readArguments (some value) rest
        | some _ => Option.none
  | s :: rest =>
      if isOption s then
        match attached? "--log" s, log with
        | some value, Option.none => readArguments (some value) rest
        | _, _ => Option.none
      else
        readCommand log s rest

/-- The invocation that the arguments ask for; nothing if they are misused. -/
def ofArguments? (arguments : List String) : Option Invocation :=
  readArguments Option.none arguments

end Invocation

end Curried
