import Curried.Interpreter

/-!
# Sessions

A session keeps named scopes, named values and named operator tables over a list
of steps.  Each step reads or changes them and gives one answer; a step that
fails leaves the session going.

**Fresh values.**  An operand that asks for a host function or a foreign value
makes a new one each time.
-/

namespace Curried

/-- The sorts of foreign values that a session makes and reads. -/
inductive ForeignKind where
  | pattern
  | text
  | size
  | list
  | pair
deriving DecidableEq

/-- The full name of the type of the foreign values of a sort. -/
def ForeignKind.type : ForeignKind → String
  | pattern => Parcel.patternType
  | text => "alloc::string::String"
  | size => "i32"
  | list => "alloc::vec::Vec<alloc::string::String>"
  | pair => "(alloc::string::String, i32)"

/-- What a foreign value of a given sort holds that is made from a text. -/
def Foreign.ofText (k : ForeignKind) (s : String) : Foreign :=
  match k with
  | .pattern => pattern [s]
  | .text => text s
  | .size => size s.utf8ByteSize
  | .list => list [s]
  | .pair => pair s s.utf8ByteSize

/-- The foreign value of a given sort that is made from a text. -/
def Parcel.ofText (k : ForeignKind) (s : String) : Parcel :=
  ⟨k.type, .ofText k s⟩

/-- How a step names a value. -/
inductive Operand where
  | unit
  | number (x : Float)
  | text (s : String)
  | register (name : String)
  | builtin (name : String)
  | foreign (kind : ForeignKind) (s : String)

/-- A step of a session.  Scopes, values and tables are given by name; `dest`
names the place of the result. -/
inductive Step where
  | eval (source scope : String) (table dest : Option String)
  | evalTree (json scope : String) (table dest : Option String)
  | call (callee argument : Operand) (dest : Option String)
  | value (value : Operand) (dest : Option String)
  | equal (left right : Operand)
  | number (value : Operand)
  | downcast (value : Operand) (kind : ForeignKind)
  | closure (value : Operand)
  | captured (value : Operand) (dest : String)
  | log
  | scopeNew (dest : String)
  | scopeClone (scope dest : String)
  | extend (scope name : String) (value : Operand) (dest : String)
  | define (scope name : String) (value : Operand)
  | lookup (scope name : String) (dest : Option String)
  | contains (scope name : String)
  | sameFrame (left right : String)
  | names (scope : String)
  | scopeInspect (scope : String)
  | clear (scope : String)
  | prelude (scope : String)
  | tableNew (dest : String) (entries : List (String × String))
  | tableInsert (table symbol operator : String)
  | tableClone (table dest : String)
  | tableInfo (table : String)
  | tableContains (table symbol : String)
  | tableCall (table symbol : String) (left right : Operand) (dest : Option String)

/-- The answer to a step. -/
inductive Answer where
  | value (v : Value)
  | absent
  | flag (b : Bool)
  | text (s : String)
  | texts (items : List String)
  | foreign (content : Foreign)
  | closure (body : Tree) (names : List String) (scope : String)
  | table (t : Table)
  /-- A value, scope or table of that name was never set. -/
  | missing
  /-- A call failed. -/
  | failed (error : EvalError)
  /-- A source could not be interpreted. -/
  | rejected (error : InterpretError)

/-- How an operator table is shown when it is inspected. -/
def Table.inspect (t : Table) : String :=
  "OperatorTable(" ++ Text.quotedList t.symbols ++ ")"

/-- The state of a session. -/
structure Session where
  machine : Machine
  scopes : Std.TreeMap String Scope
  values : Std.TreeMap String Value
  tables : Std.TreeMap String Table

namespace Session

/-- The scope that exists from the start. -/
def mainScope : String :=
  "main"

/-- A session with one empty scope. -/
def initial : Session :=
  ⟨Machine.withRoot,
    (∅ : Std.TreeMap String Scope).insert mainScope Scope.root, ∅, ∅⟩

/-- Makes the value that a blueprint describes. -/
def make (s : Session) (b : Blueprint) : Value × Session :=
  let id := s.machine.made
  (b.value id, { s with machine := { s.machine with made := id + 1 } })

/-- The value of an operand; nothing if it names a register that was never
set. -/
def resolve (s : Session) : Operand → Option (Value × Session)
  | .unit => some (.unit, s)
  | .number x => some (.number x, s)
  | .text t => some (.text t, s)
  | .register name => s.values[name]?.map fun v => (v, s)
  | .builtin name => some (s.make (.builtin name []))
  | .foreign kind t => some (s.make (.foreign (.ofText kind t)))

/-- Keeps a value under a name, if one is given. -/
def keep (s : Session) (dest : Option String) (v : Value) : Session :=
  match dest with
  | none => s
  | some name => { s with values := s.values.insert name v }

/-- The table of a name; no name stands for the table without entries. -/
def tableOf (s : Session) : Option String → Option Table
  | none => some Table.empty
  | some name => s.tables[name]?

/-- Answers with the outcome of an interpretation. -/
def finish (s : Session) (dest : Option String) :
    Except InterpretError Value × Machine → Answer × Session
  | (.ok v, machine) => (.value v, { s with machine }.keep dest v)
  | (.error e, machine) => (.rejected e, { s with machine })

/-- Answers with the outcome of a computation. -/
def finishCall (s : Session) (dest : Option String) (x : EvalM Value) :
    Answer × Session :=
  match x s.machine with
  | none => (.rejected .unfinished, s)
  | some (.ok v, machine) => (.value v, { s with machine }.keep dest v)
  | some (.error e, machine) => (.failed e, { s with machine })

/-- Gives what `f` makes of a scope, or says that the scope is missing. -/
def withScope (s : Session) (name : String) (f : Scope → Answer × Session) :
    Answer × Session :=
  match s.scopes[name]? with
  | none => (.missing, s)
  | some scope => f scope

/-- Gives what `f` makes of a table, or says that the table is missing. -/
def withTable (s : Session) (name : String) (f : Table → Answer × Session) :
    Answer × Session :=
  match s.tables[name]? with
  | none => (.missing, s)
  | some t => f t

/-- Gives what `f` makes of the value of an operand, or says that the value is
missing. -/
def withValue (s : Session) (o : Operand) (f : Value → Session →
    Answer × Session) : Answer × Session :=
  match s.resolve o with
  | none => (.missing, s)
  | some (v, s') => f v s'

/-- Changes the store. -/
def mapStore (s : Session) (f : Store → Store) : Session :=
  { s with machine := { s.machine with store := f s.machine.store } }

/-- Answers with the names that a scope itself binds. -/
def answerNames (s : Session) (scope : Scope) : Answer × Session :=
  (.texts (s.machine.store.names scope), s)

/-- Names a scope. -/
def nameScope (s : Session) (name : String) (scope : Scope) : Session :=
  { s with scopes := s.scopes.insert name scope }

/-- Carries out one step. -/
def step (host : Host) (s : Session) : Step → Answer × Session
  | .eval source scope table dest =>
      s.withScope scope fun scope =>
        match s.tableOf table with
        | none => (.missing, s)
        | some table => s.finish dest (runSource host table scope source s.machine)
  | .evalTree json scope table dest =>
      s.withScope scope fun scope =>
        match s.tableOf table with
        | none => (.missing, s)
        | some table => s.finish dest (runJson host table scope json s.machine)
  | .call callee argument dest =>
      s.withValue callee fun f s =>
        s.withValue argument fun a s =>
          s.finishCall dest (Curried.call host f a)
  | .value o dest =>
      s.withValue o fun v s => (.value v, s.keep dest v)
  | .equal left right =>
      s.withValue left fun l s =>
        s.withValue right fun r s => (.flag (l.same r), s)
  | .number o =>
      s.withValue o fun v s =>
        match v.number? with
        | some x => (.text (NumberFormat.display.text x), s)
        | none => (.absent, s)
  | .downcast o kind =>
      s.withValue o fun v s =>
        match v.foreign? with
        | some p => (if p.type = kind.type then .foreign p.content else .absent, s)
        | none => (.absent, s)
  | .closure o =>
      s.withValue o fun v s =>
        match v.closure? with
        | some c =>
            (.closure c.body (s.machine.store.names c.scope)
              (s.machine.store.inspect c.scope), s)
        | none => (.absent, s)
  | .captured o dest =>
      s.withValue o fun v s =>
        match v.closure? with
        | some c => (.flag true, s.nameScope dest c.scope)
        | none => (.flag false, s)
  | .log =>
      (.texts s.machine.log.toList,
        { s with machine := { s.machine with log := #[] } })
  | .scopeNew dest =>
      let scope := s.machine.store.next
      (.flag true, (s.mapStore Store.pushRoot).nameScope dest scope)
  | .scopeClone scope dest =>
      s.withScope scope fun scope => (.flag true, s.nameScope dest scope)
  | .extend scope name o dest =>
      s.withScope scope fun scope =>
        s.withValue o fun v s =>
          let inner := s.machine.store.next
          ((s.mapStore (·.pushChild scope name v)).nameScope dest
            inner).answerNames inner
  | .define scope name o =>
      s.withScope scope fun scope =>
        s.withValue o fun v s =>
          (s.mapStore (·.define scope name v)).answerNames scope
  | .lookup scope name dest =>
      s.withScope scope fun scope =>
        match s.machine.store.lookup scope name with
        | some v => (.value v, s.keep dest v)
        | none => (.absent, s)
  | .contains scope name =>
      s.withScope scope fun scope =>
        (.flag (s.machine.store.contains scope name), s)
  | .sameFrame left right =>
      s.withScope left fun l =>
        s.withScope right fun r => (.flag (l == r), s)
  | .names scope =>
      s.withScope scope fun scope => s.answerNames scope
  | .scopeInspect scope =>
      s.withScope scope fun scope => (.text (s.machine.store.inspect scope), s)
  | .clear scope =>
      s.withScope scope fun scope => (s.mapStore (·.clear scope)).answerNames scope
  | .prelude scope =>
      s.withScope scope fun scope =>
        match installPrelude scope s.machine with
        | some (_, machine) => { s with machine }.answerNames scope
        | none => s.answerNames scope
  | .tableNew dest entries =>
      let t := Table.ofList entries
      (.texts t.symbols, { s with tables := s.tables.insert dest t })
  | .tableInsert table symbol operator =>
      s.withTable table fun t =>
        let t' := t.insert symbol operator
        (.texts t'.symbols, { s with tables := s.tables.insert table t' })
  | .tableClone table dest =>
      s.withTable table fun t =>
        (.flag true, { s with tables := s.tables.insert dest t })
  | .tableInfo table =>
      s.withTable table fun t => (.table t, s)
  | .tableContains table symbol =>
      s.withTable table fun t => (.flag (t.contains symbol), s)
  | .tableCall table symbol left right dest =>
      s.withTable table fun t =>
        s.withValue left fun l s =>
          s.withValue right fun r s =>
            match t.find? symbol with
            | none => (.absent, s)
            | some operator =>
                s.finishCall dest
                  ((host.operator operator symbol l r).run
                    (callValue host callAllowance))

/-- Carries out all steps in order and gives their answers. -/
def run (host : Host) : Session → List Step → List Answer
  | _, [] => []
  | s, x :: xs =>
      let (answer, s') := s.step host x
      answer :: run host s' xs

end Session

end Curried
