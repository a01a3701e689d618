import Curried.Proofs.Moves
import Curried.Proofs.Twins

/-!
# What a session shows

**Sights.**  A session shows its answers: of a value the appearance, of a
function that is opened its scope, but not the wording of its body.
`Session.sights` lists what is shown by the moves that are made from some state
on.

**Twins.**  Sessions are twins if their machines are, if they have named the
same scopes and tables, and if the values that they have named are twins.

**Results.**
* `Session.Twin.sights_eq`: sessions that are twins show the same, whatever
  moves are made.
* `showsSame_of_twin`: evaluations of twins cannot be told apart, not even by
  what is done later with all that they have left behind.
-/

namespace Curried

/-- What can be seen of an answer. -/
inductive Sight where
  | value (appearance : Appearance)
  | function (names : List String) (scope : String)
  | plain (answer : Answer)

/-- What can be seen of an answer. -/
def Answer.sight : Answer → Sight
  | .value v => .value v.appearance
  | .closure _ names scope => .function names scope
  | a => .plain a

/-- What is seen when moves are made one after the other. -/
def Session.sights (host : Host) : Session → List Move → List Sight
  | _, [] => []
  | s, x :: xs => (s.move host x).1.sight :: sights host (s.move host x).2 xs

/-- In a session, two interpretations cannot be told apart: by their outcomes,
by the names in the scope and the appearance of what they stand for, or by any
moves after one or the other, whatever name the value was kept under. -/
structure ShowsSame (host : Host) (s : Session) (scope : Scope)
    (o o' : Except InterpretError Value × Machine) : Prop where
  outcome : o.1.map Value.appearance = o'.1.map Value.appearance
  survey : o.2.store.survey scope = o'.2.store.survey scope
  later : ∀ (dest : Option String) (moves : List Move),
    (s.finish dest o).2.sights host moves = (s.finish dest o').2.sights host moves

variable {L : Likeness}

/-- The interpretations end with the same error or with twins, on twin
machines. -/
abbrev OutcomeTwin (L : Likeness) :
    Except InterpretError Value × Machine →
      Except InterpretError Value × Machine → Prop :=
  (Simulation.twins L).Outcomes ()

section Runs

variable {host : Host} (hhost : host.Discreet (.twins L) ()) {m m' : Machine}
  (hm : m.Twin L m')
include hhost hm

theorem runTree_twin
    {table table' : Table} {scope : Scope} {t t' : Tree}
    (hlike : L.like t t') (htable : table.AgreeOn t.code table') :
    OutcomeTwin L (runTree host table scope t m)
      (runTree host table' scope t' m') := by
  have hprogram : Site.Twin L ⟨table, scope⟩ ⟨table', scope⟩ t t' :=
    ⟨rfl, hlike, htable⟩
  exact Simulation.runTree (S := .twins L) hhost hm hprogram

theorem runSource_twin (table : Table) (scope : Scope) (source : String) :
    OutcomeTwin L (runSource host table scope source m)
      (runSource host table scope source m') := by
  unfold runSource
  split
  · exact .refused hm _
  · exact runTree_twin hhost hm (L.refl _) fun _ _ => rfl

theorem runJson_twin (table : Table) (scope : Scope) (json : String) :
    OutcomeTwin L (runJson host table scope json m)
      (runJson host table scope json m') := by
  unfold runJson
  split
  · exact .refused hm _
  · exact runTree_twin hhost hm (L.refl _) fun _ _ => rfl

end Runs

/-- Making a host function and binding it, for each function of the prelude. -/
theorem installPrelude_twin
    (scope : Scope) :
    (Simulation.twins L).Parallel (fun _ _ _ => True) () (installPrelude scope)
      (installPrelude scope) := by
  have hone : ∀ (name : String) (w : Unit),
      (Simulation.twins L).Parallel (fun _ _ _ => True) w
        (do
          let v ← (Blueprint.builtin name []).make
          EvalM.define scope name v : EvalM Unit)
        (do
          let v ← (Blueprint.builtin name []).make
          EvalM.define scope name v : EvalM Unit) := by
    intro name w
    have hmake : (Simulation.twins L).GivesKin w
        (Blueprint.builtin name []).make (Blueprint.builtin name []).make :=
      .bind .fresh fun _ _ _ _ hi => .pure fun _ _ => .ofReceived hi .nil name
    refine .bind hmake fun _ v v' _ hv => .update fun _ m m' _ hm => ?_
    exact Pairing.twins_binds (a := ⟨.empty, scope⟩) rfl name trivial hm hv
  exact .bind (hone "add" ()) fun w _ _ _ _ =>
    .bind (hone "mul" w) fun _ _ _ _ _ => .pure fun _ _ => trivial

namespace Session

/-- The sessions are the same but for twins. -/
structure Twin (L : Likeness) (s s' : Session) : Prop where
  machine : s.machine.Twin L s'.machine
  scopes : s.scopes = s'.scopes
  values : ∀ name : String,
    Option.Rel (Value.Twin L) s.values[name]? s'.values[name]?
  tables : s.tables = s'.tables

theorem twin_refl (s : Session) : s.Twin L s where
  machine := s.machine.twin_refl
  scopes := rfl
  values := by
    intro name
    cases s.values[name]? with
    | none => exact .none
    | some v => exact .some v.twin_refl
  tables := rfl

/-- The replies show the same and leave twins. -/
structure TwinReply (L : Likeness) (o o' : Answer × Session) : Prop where
  sight : o.1.sight = o'.1.sight
  session : o.2.Twin L o'.2

namespace Twin

variable {s s' : Session} (hs : s.Twin L s')
include hs

/-- The same answer, and nothing has changed. -/
theorem reply (a : Answer) : TwinReply L (a, s) (a, s') :=
  ⟨rfl, hs⟩

theorem proceed
    {m m' : Machine}
    (hm : m.Twin L m') :
    Twin L { s with machine := m } { s' with machine := m' } :=
  ⟨hm, hs.scopes, hs.values, hs.tables⟩

theorem mapStore
    {f f' : Store → Store}
    (hf : ∀ t t', t.Twin L t' → (f t).Twin L (f' t')) :
    (s.mapStore f).Twin L (s'.mapStore f') :=
  hs.proceed ⟨hf _ _ hs.machine.store, hs.machine.made, hs.machine.depth,
    hs.machine.log⟩

theorem keep
    {v v' : Value}
    (hv : v.Twin L v') (dest : Option String) :
    (s.keep dest v).Twin L (s'.keep dest v') := by
  cases dest with
  | none => exact hs
  | some name =>
      exact ⟨hs.machine, hs.scopes, rel_insert hs.values hv name, hs.tables⟩

theorem nameScope
    (name : String) (scope : Scope) :
    (s.nameScope name scope).Twin L (s'.nameScope name scope) :=
  ⟨hs.machine, congrArg (·.insert name scope) hs.scopes, hs.values, hs.tables⟩

theorem nameTable
    (name : String) (t : Table) :
    Twin L { s with tables := s.tables.insert name t }
      { s' with tables := s'.tables.insert name t } :=
  ⟨hs.machine, hs.scopes, hs.values, congrArg (·.insert name t) hs.tables⟩

theorem tableOf_eq
    (table : Option String) :
    s.tableOf table = s'.tableOf table := by
  cases table with
  | none => rfl
  | some name => rw [Session.tableOf, Session.tableOf, hs.tables]

theorem answerNames
    (scope : Scope) :
    TwinReply L (s.answerNames scope) (s'.answerNames scope) := by
  refine ⟨?_, hs⟩
  unfold Session.answerNames
  rw [hs.machine.store.names_eq scope]

theorem answerValue
    {v v' : Value}
    (hv : v.Twin L v') (dest : Option String) :
    TwinReply L (.value v, s.keep dest v) (.value v', s'.keep dest v') :=
  ⟨congrArg Sight.value hv.appearance_eq, hs.keep hv dest⟩

theorem withScope
    {f f' : Scope → Answer × Session}
    (hf : ∀ scope, TwinReply L (f scope) (f' scope)) (name : String) :
    TwinReply L (s.withScope name f) (s'.withScope name f') := by
  unfold Session.withScope
  rw [← hs.scopes]
  split
  · exact hs.reply _
  · exact hf _

theorem withTable
    {f f' : Table → Answer × Session}
    (hf : ∀ t, TwinReply L (f t) (f' t)) (name : String) :
    TwinReply L (s.withTable name f) (s'.withTable name f') := by
  unfold Session.withTable
  rw [← hs.tables]
  split
  · exact hs.reply _
  · exact hf _

theorem withValue
    {f f' : Value → Session → Answer × Session}
    (hf : ∀ v v' t t', v.Twin L v' → t.Twin L t' →
      TwinReply L (f v t) (f' v' t'))
    (o : Operand) :
    TwinReply L (s.withValue o f) (s'.withValue o f') := by
  have hmake : ∀ {b : Blueprint}, b.Kin (.twins L) () b → TwinReply L
      (f (s.make b).1 (s.make b).2) (f' (s'.make b).1 (s'.make b).2) := by
    intro b hb
    obtain ⟨hstore, hmade, hdepth, hlog⟩ := hs.machine
    refine hf _ _ _ _ (hb.value trivial hmade)
      (hs.proceed ⟨hstore, ?_, hdepth, hlog⟩)
    rw [hmade]
  cases o with
  | unit => exact hf _ _ _ _ .unit hs
  | number x => exact hf _ _ _ _ (.number x) hs
  | text t => exact hf _ _ _ _ (.text t) hs
  | builtin name => exact hmake (.builtin name .nil)
  | foreign kind t => exact hmake (.foreign _)
  | register name =>
      have hvalue := hs.values name
      unfold Session.withValue
      dsimp only [Session.resolve]
      generalize s.values[name]? = v, s'.values[name]? = v' at hvalue
      cases hvalue with
      | none => exact hs.reply _
      | some hv => exact hf _ _ _ _ hv hs

theorem finish
    {o o' : Except InterpretError Value × Machine}
    (h : OutcomeTwin L o o') (dest : Option String) :
    TwinReply L (s.finish dest o) (s'.finish dest o') := by
  cases h with
  | error e _ hm => exact (hs.proceed hm).reply _
  | ok _ hm hv => exact (hs.proceed hm).answerValue hv dest

theorem finishCall
    {x x' : EvalM Value}
    (hx : (Simulation.twins L).GivesKin () x x') (dest : Option String) :
    TwinReply L (s.finishCall dest x) (s'.finishCall dest x') := by
  have hends := hx.ends hs.machine
  unfold Session.finishCall
  generalize x s.machine = o, x' s'.machine = o' at hends
  cases hends with
  | never => exact hs.reply _
  | together _ hm hboth =>
      cases hboth with
      | error e => exact (hs.proceed hm).reply _
      | ok hv => exact (hs.proceed hm).answerValue hv dest

variable {host : Host} (hhost : host.Discreet (.twins L) ())
include hhost

/-- A step shows the same in sessions that are twins, and leaves twins. -/
theorem step
    (x : Step) :
    TwinReply L (s.step host x) (s'.step host x) := by
  have hcall := (Simulation.twins L).callValue hhost callAllowance
  cases x with
  | eval source scope table dest =>
      refine hs.withScope (fun scope => ?_) scope
      rw [← hs.tableOf_eq table]
      split
      · exact hs.reply _
      · exact hs.finish (runSource_twin hhost hs.machine _ scope source) dest
  | evalTree json scope table dest =>
      refine hs.withScope (fun scope => ?_) scope
      rw [← hs.tableOf_eq table]
      split
      · exact hs.reply _
      · exact hs.finish (runJson_twin hhost hs.machine _ scope json) dest
  | call callee argument dest =>
      refine hs.withValue (fun f f' t t' hf ht => ?_) callee
      refine ht.withValue (fun a a' u u' ha hu => ?_) argument
      exact hu.finishCall (hcall trivial "apply" hf ha) dest
  | value o dest =>
      exact hs.withValue (fun v v' t t' hv ht => ht.answerValue hv dest) o
  | equal left right =>
      refine hs.withValue (fun l l' t t' hl ht => ?_) left
      refine ht.withValue (fun r r' u u' hr hu => ?_) right
      rw [hl.same_eq hr]
      exact hu.reply _
  | number o =>
      refine hs.withValue (fun v v' t t' hv ht => ?_) o
      cases hv <;> exact ht.reply _
  | downcast o kind =>
      refine hs.withValue (fun v v' t t' hv ht => ?_) o
      cases hv <;> exact ht.reply _
  | closure o =>
      refine hs.withValue (fun v v' t t' hv ht => ?_) o
      cases hv with
      | function _ hc =>
          refine ⟨?_, ht⟩
          dsimp only [Value.closure?, Answer.sight]
          rw [← hc.scope, ht.machine.store.names_eq, ht.machine.store.inspect_eq]
      | _ => exact ht.reply _
  | captured o dest =>
      refine hs.withValue (fun v v' t t' hv ht => ?_) o
      cases hv with
      | @function _ _ c c' _ hc =>
          refine ⟨rfl, ?_⟩
          dsimp only [Value.closure?]
          rw [← hc.scope]
          exact ht.nameScope dest c.scope
      | _ => exact ht.reply _
  | log =>
      refine ⟨?_, hs.proceed ⟨hs.machine.store, hs.machine.made,
        hs.machine.depth, rfl⟩⟩
      exact congrArg (fun log : Array String => Sight.plain (.texts log.toList))
        hs.machine.log
  | scopeNew dest =>
      refine ⟨rfl, ?_⟩
      dsimp only [Session.step]
      rw [← hs.machine.store.next_eq]
      exact (hs.mapStore fun _ _ ht => ht.pushRoot).nameScope dest _
  | scopeClone scope dest =>
      refine hs.withScope (fun scope => ?_) scope
      exact ⟨rfl, hs.nameScope dest scope⟩
  | extend scope name o dest =>
      refine hs.withScope (fun scope => ?_) scope
      refine hs.withValue (fun v v' t t' hv ht => ?_) o
      dsimp only
      rw [← ht.machine.store.next_eq]
      exact ((ht.mapStore fun _ _ h => h.pushChild hv scope name).nameScope dest
        _).answerNames _
  | define scope name o =>
      refine hs.withScope (fun scope => ?_) scope
      refine hs.withValue (fun v v' t t' hv ht => ?_) o
      exact (ht.mapStore fun _ _ h => h.define hv scope name).answerNames scope
  | lookup scope name dest =>
      refine hs.withScope (fun scope => ?_) scope
      have hfound := hs.machine.store.lookup scope name
      generalize s.machine.store.lookup scope name = o,
          s'.machine.store.lookup scope name = o' at hfound
      cases hfound with
      | none => exact hs.reply _
      | some hv => exact hs.answerValue hv dest
  | contains scope name =>
      refine hs.withScope (fun scope => ?_) scope
      have hfound := hs.machine.store.lookup scope name
      unfold Store.contains
      generalize s.machine.store.lookup scope name = o,
          s'.machine.store.lookup scope name = o' at hfound
      cases hfound <;> exact hs.reply _
  | sameFrame left right =>
      exact hs.withScope (fun _ => hs.withScope (fun _ => hs.reply _) right) left
  | names scope => exact hs.withScope (fun scope => hs.answerNames scope) scope
  | scopeInspect scope =>
      refine hs.withScope (fun scope => ?_) scope
      rw [hs.machine.store.inspect_eq]
      exact hs.reply _
  | clear scope =>
      exact hs.withScope (fun scope =>
        (hs.mapStore fun _ _ h => h.clear scope).answerNames scope) scope
  | «prelude» scope =>
      refine hs.withScope (fun scope => ?_) scope
      have hends := (installPrelude_twin scope).ends hs.machine
      generalize installPrelude scope s.machine = o,
          installPrelude scope s'.machine = o' at hends
      cases hends with
      | never => exact hs.answerNames scope
      | together _ hm _ => exact (hs.proceed hm).answerNames scope
  | tableNew dest entries => exact ⟨rfl, hs.nameTable dest _⟩
  | tableInsert table symbol operator =>
      refine hs.withTable (fun t => ?_) table
      exact ⟨rfl, hs.nameTable table _⟩
  | tableClone table dest =>
      refine hs.withTable (fun t => ?_) table
      exact ⟨rfl, hs.nameTable dest t⟩
  | tableInfo table => exact hs.withTable (fun t => hs.reply _) table
  | tableContains table symbol => exact hs.withTable (fun t => hs.reply _) table
  | tableCall table symbol left right dest =>
      refine hs.withTable (fun table => ?_) table
      refine hs.withValue (fun l l' t t' hl ht => ?_) left
      refine ht.withValue (fun r r' u u' hr hu => ?_) right
      split
      · exact hu.reply _
      · exact hu.finishCall
          (.action hcall trivial (hhost.operator trivial _ symbol hl hr)) dest

theorem move
    (x : Move) :
    TwinReply L (s.move host x) (s'.move host x) := by
  cases x with
  | step x => exact hs.step hhost x
  | evaluate t table scope dest =>
      refine hs.withScope (fun scope => ?_) scope
      exact hs.finish (runTree_twin hhost hs.machine (L.refl _) fun _ _ => rfl) dest

/-- Sessions that are twins show the same, whatever moves are made. -/
theorem sights_eq
    (moves : List Move) :
    s.sights host moves = s'.sights host moves := by
  induction moves generalizing s s' with
  | nil => rfl
  | cons x moves ih =>
      have hreply := hs.move hhost x
      rw [Session.sights, Session.sights, hreply.sight, ih hreply.session]

end Twin

end Session

/-- Interpretations that end with twins cannot be told apart. -/
theorem showsSame_of_twin
    {host : Host} (hhost : host.Discreet (.twins L) ())
    {o o' : Except InterpretError Value × Machine} (h : OutcomeTwin L o o')
    (s : Session) (scope : Scope) :
    ShowsSame host s scope o o' where
  outcome := by
    cases h with
    | error e _ _ => rfl
    | ok _ _ hv => exact congrArg Except.ok (Value.Twin.appearance_eq hv)
  survey := by
    cases h with
    | error e _ hm => exact Store.Twin.survey_eq (Machine.Twin.store hm) scope
    | ok _ hm _ => exact Store.Twin.survey_eq (Machine.Twin.store hm) scope
  later :=
    fun dest moves => (s.twin_refl.finish h dest).session.sights_eq hhost moves

end Curried
