import Curried.Proofs.Correspondence
import Curried.Proofs.Plan
import Curried.Proofs.Runs

/-!
# The evaluator refines the reference evaluator

**Expressions.**  `Yields m x r` says that `x`, run on `m`, ends, that it ends
as `r` does, and that it only adds frames.  This is kept by every way of putting
computations together, so one case per form of expression gives it for all
expressions.

**Calls.**  Each level of the reference evaluator is one body under evaluation.
The levels that are left and the bodies that are open always add up to the
limit, so the nesting allowance is never used up.

**Declarations.**  A declaration binds at most one name, at the root, and the
globals follow.

**Result.**  `observations_eq_reference`.
-/

namespace Curried

/-- Both sides fail with the same error, or both give values of which one stands
for the other. -/
inductive Outcome (s : Store) :
    Except EvalError Reference.Value → Except EvalError Value → Prop
  | ok {a : Reference.Value} {v : Value} :
      Represents s a v → Outcome s (.ok a) (.ok v)
  | error (e : EvalError) :
      Outcome s (.error e) (.error e)

/-- Run on `m`, the computation ends with the given outcome, and nothing has
happened but that frames were added. -/
def Yields (m : Machine) (x : EvalM Value)
    (r : Except EvalError Reference.Value) : Prop :=
  ∃ (o : Except EvalError Value) (m' : Machine),
    x m = some (o, m') ∧ m.store.Extends m'.store ∧ m'.depth = m.depth ∧
      Outcome m'.store r o

namespace Yields

variable {m : Machine} {r : Except EvalError Reference.Value}

theorem ofExcept
    {o : Except EvalError Value}
    (h : Outcome m.store r o) :
    Yields m (EvalM.ofExcept o) r := by
  refine ⟨o, m, ?_, .refl _, rfl, h⟩
  cases o <;> rfl

theorem pure
    {a : Reference.Value} {v : Value}
    (h : Represents m.store a v) :
    Yields m (pure v) (.ok a) :=
  ofExcept (.ok h)

theorem fail (e : EvalError) : Yields m (EvalM.fail e) (.error e) :=
  ofExcept (.error e)

/-- A first step that succeeds and at most adds frames. -/
theorem step
    {α : Type} {x : EvalM α} {f : α → EvalM Value} {mid : Machine} {a : α}
    (hx : x m = some (.ok a, mid)) (hstore : m.store.Extends mid.store)
    (hdepth : mid.depth = m.depth)
    (h : Yields mid (f a) r) :
    Yields m (x >>= f) r := by
  obtain ⟨o, m', hrun, hextends, hdepth', houtcome⟩ := h
  refine ⟨o, m', ?_, hstore.trans hextends, hdepth'.trans hdepth, houtcome⟩
  rw [EvalM.bind_of_ok hx]
  exact hrun

/-- A sequence follows the sequence on the other side. -/
theorem bind
    {x : EvalM Value} {f : Value → EvalM Value}
    {g : Reference.Value → Except EvalError Reference.Value}
    (hx : Yields m x r)
    (hf : ∀ (mid : Machine) (a : Reference.Value) (v : Value),
      m.store.Extends mid.store → mid.depth = m.depth →
      Represents mid.store a v → Yields mid (f v) (g a)) :
    Yields m (x >>= f) (r >>= g) := by
  obtain ⟨o, mid, hrun, hextends, hdepth, houtcome⟩ := hx
  cases houtcome with
  | ok hv => exact step hrun hextends hdepth (hf mid _ _ hextends hdepth hv)
  | error e =>
      exact ⟨.error e, mid, EvalM.bind_of_error hrun, hextends, hdepth,
        .error e⟩

/-- Two operands one after the other, and what is made of them. -/
theorem operands
    {x y : EvalM Value} {f : Value → Value → EvalM Value}
    {r' : Except EvalError Reference.Value}
    {g : Reference.Value → Reference.Value → Except EvalError Reference.Value}
    (hx : Yields m x r)
    (hy : ∀ mid : Machine, m.store.Extends mid.store → mid.depth = m.depth →
      Yields mid y r')
    (hf : ∀ (mid : Machine) (a b : Reference.Value) (v w : Value),
      m.store.Extends mid.store → mid.depth = m.depth →
      Represents mid.store a v → Represents mid.store b w →
      Yields mid (f v w) (g a b)) :
    Yields m
      (do
        let v ← x
        let w ← y
        f v w)
      (do
        let a ← r
        let b ← r'
        g a b) := by
  refine bind hx fun mid a v hmid hdepth ha => ?_
  refine bind (hy mid hmid hdepth) fun last b w hlast hdepth' hb => ?_
  exact hf last a b v w (hmid.trans hlast) (hdepth'.trans hdepth)
    (ha.retain hlast.retains) hb

/-- The body of a function, where another body may be entered. -/
theorem nested
    {body : EvalM Value}
    (hdepth : m.depth < recursionLimit)
    (h : Yields ({ m with depth := m.depth + 1 }.record .enter) body r) :
    Yields m (EvalM.nested body) r := by
  obtain ⟨o, m', hrun, hextends, hdepth', houtcome⟩ := h
  have hback : m'.depth - 1 = m.depth := by
    rw [hdepth']
    exact Nat.add_sub_cancel m.depth 1
  exact ⟨o, _, EvalM.nested_of_open hdepth hrun, hextends, hback, houtcome⟩

/-- The body of a function, where no other body may be entered. -/
theorem nested_full
    {body : EvalM Value}
    (hdepth : recursionLimit ≤ m.depth) :
    Yields m (EvalM.nested body) (.error .recursionLimit) :=
  ⟨_, m, EvalM.nested_of_full hdepth body, .refl _, rfl, .error _⟩

/-- Evaluating a node is carrying its plan out. -/
theorem visit
    {call : Caller} {table : Table} {scope : Scope} {t : Tree}
    (h : Yields (m.record (.visit t.tag t.text))
      (t.plan.run Host.standard call table scope) r) :
    Yields m (evalTree Host.standard call table scope t) r := by
  rw [evalTree_eq_plan]
  exact step rfl (.refl _) rfl h

theorem literal
    {call : Caller} {table : Table} {scope : Scope} {o : Except EvalError Value}
    (h : Outcome m.store r o) :
    Yields m ((Plan.ofExcept o).run Host.standard call table scope) r := by
  cases h with
  | ok hv => exact pure hv
  | error e => exact fail e

end Yields

/-- Operators tell values apart by their sort only, and numbers and texts stand
for themselves. -/
theorem Represents.combine
    {s : Store} {a b : Reference.Value} {v w : Value}
    (ha : Represents s a v) (hb : Represents s b w) (o : Operator) :
    Outcome s (Reference.combine o a b) (o.combine v w) := by
  cases ha <;> cases hb <;> cases o <;> first
    | exact .error _
    | exact .ok (.number _)
    | exact .ok (.text _)

/-- The first argument of a function of the prelude is kept. -/
theorem builtin_first_yields
    {m : Machine} {b : Reference.Value} {w : Value}
    (call : Caller) (f : Reference.Builtin) (hb : Represents m.store b w) :
    Yields m ((Host.standard.builtin f.name [] w).run call)
      (.ok (.builtin f (some b))) := by
  have hmade : (Host.standard.builtin f.name [] w).run call =
      (do
        let v ← (Blueprint.builtin f.name [w]).make
        pure v) := by
    cases f <;> rfl
  rw [hmade]
  exact .step rfl (.refl _) rfl (.pure (.started f m.made hb))

/-- With the second argument a function of the prelude reckons. -/
theorem builtin_second_yields
    {m : Machine} {a b : Reference.Value} {v w : Value}
    (call : Caller) (f : Reference.Builtin) (ha : Represents m.store a v)
    (hb : Represents m.store b w) :
    Yields m ((Host.standard.builtin f.name [v] w).run call)
      (Reference.arithmetic f a b) := by
  have hrun : Host.standard.builtin f.name [v] w =
      Host.Standard.arithmetic f.name f.reckon v w := by
    cases f <;> rfl
  rw [hrun]
  cases ha <;> cases hb <;> first
    | exact .fail _
    | exact .pure (.number _)

/-- A way of calling values follows the reference evaluator wherever `depth`
bodies are under evaluation. -/
def Answers (depth : Nat) (globals : Reference.Globals) (call : Caller)
    (call' : Reference.Caller) : Prop :=
  ∀ ⦃m : Machine⦄ ⦃a b : Reference.Value⦄ ⦃v w : Value⦄ (tag : String),
    m.depth = depth → Agrees m.store globals → Represents m.store a v →
      Represents m.store b w →
    Yields m (call tag v w) (call' tag a b)

theorem lookupName_yields
    {m : Machine} {globals : Reference.Globals}
    {arguments : List (String × Reference.Value)} {scope : Scope}
    (hglobals : Agrees m.store globals) (hscope : Captures m.store arguments scope)
    (x : String) :
    Yields m (lookupName scope x) (Reference.nameValue globals arguments x) := by
  have hfound := hglobals.lookup hscope x
  refine .step (x := EvalM.gets (·.store.lookup scope x)) rfl (.refl _) rfl ?_
  dsimp only [Reference.nameValue]
  generalize Reference.resolve globals arguments x = a,
      m.store.lookup scope x = v at hfound ⊢
  cases hfound with
  | none => exact .fail _
  | some hv => exact .pure hv

theorem integer_outcome
    {s : Store} {w : String}
    (hw : Lexeme.isInteger w.toList = true) :
    Outcome s (.ok (.number (Numeral.ofDigits w.toList))) (integerValue w) := by
  rw [integerValue_of_isInteger hw]
  exact .ok (.number _)

theorem text_outcome
    {s : Store} (w : String) :
    Outcome s (Reference.textValue w) (textValue w) := by
  unfold Reference.textValue textValue
  cases unquote? w with
  | none => exact .error _
  | some s => exact .ok (.text s)

section Expressions

variable {call : Caller} {call' : Reference.Caller}
  {globals : Reference.Globals} {depth : Nat}
  (hcall : Answers depth globals call call')
include hcall

theorem applyOperator_yields
    {m : Machine} {a b : Reference.Value} {v w : Value}
    (hdepth : m.depth = depth) (hglobals : Agrees m.store globals)
    (ha : Represents m.store a v) (hb : Represents m.store b w)
    (symbol : String) :
    Yields m (applyOperator Host.standard call Table.empty symbol v w)
      (Reference.operate call' symbol a b) := by
  unfold applyOperator Reference.operate
  rw [Table.find?_empty]
  cases Operator.ofSymbol? symbol with
  | none => exact .fail _
  | some o =>
      cases o with
      | apply => exact hcall "infix" hdepth hglobals ha hb
      | plus | minus | times | divide => exact .ofExcept (ha.combine hb _)

/-- Expressions, by induction on their form. -/
theorem NormalForm.yields
    {e : Tree} (he : NormalForm e)
    {arguments : List (String × Reference.Value)} {scope : Scope}
    {m : Machine} (hdepth : m.depth = depth) (hglobals : Agrees m.store globals)
    (hscope : Captures m.store arguments scope) :
    Yields m (evalTree Host.standard call Table.empty scope e)
      (Reference.eval call' globals arguments e) := by
  induction he generalizing m with
  | integer hw =>
      refine .visit ?_
      exact .literal (integer_outcome hw)
  | @text w _ =>
      refine .visit ?_
      exact .literal (text_outcome w)
  | @name x _ =>
      refine .visit ?_
      exact lookupName_yields (m := m.record _) hglobals hscope x
  | parens _ _ _ ih =>
      refine .visit ?_
      exact ih (m := m.record _) hdepth hglobals hscope
  | apply _ _ _ _ _ ihf iha =>
      refine .visit ?_
      refine .operands (ihf (m := m.record _) hdepth hglobals hscope) ?_ ?_
      · intro mid hmid hsame
        exact iha (hsame.trans hdepth) (hglobals.extend hmid)
          (hscope.retain hmid.retains)
      · intro mid f a v w hmid hsame hf ha
        exact hcall "apply" (hsame.trans hdepth) (hglobals.extend hmid) hf ha
  | @operator _ _ _ op _ _ _ _ _ _ _ _ ihl ihr =>
      refine .visit ?_
      refine .operands (ihl (m := m.record _) hdepth hglobals hscope) ?_ ?_
      · intro mid hmid hsame
        exact ihr (hsame.trans hdepth) (hglobals.extend hmid)
          (hscope.retain hmid.retains)
      · intro mid l r v w hmid hsame hl hr
        exact applyOperator_yields hcall (hsame.trans hdepth)
          (hglobals.extend hmid) hl hr op

/-- The body of a function or of a bound name. -/
theorem IsMatch.yields
    {t : Tree} (ht : IsMatch t)
    {arguments : List (String × Reference.Value)} {scope : Scope}
    {m : Machine} (hdepth : m.depth = depth) (hglobals : Agrees m.store globals)
    (hscope : Captures m.store arguments scope) :
    Yields m (evalTree Host.standard call Table.empty scope t)
      (Reference.eval call' globals arguments t) := by
  obtain ⟨he⟩ := ht
  refine .visit ?_
  exact he.yields hcall (m := m.record _) hdepth hglobals hscope

end Expressions

/-- Calls, by induction on the bodies that may still be entered.  An allowance
that is larger is never used up. -/
theorem callValue_answers
    (globals : Reference.Globals) :
    ∀ {levels n depth : Nat},
      levels < n → depth + levels = recursionLimit →
      Answers depth globals (callValue Host.standard n)
        (Reference.call globals levels)
  | levels, n + 1, depth, hn, hlimit => by
      intro m a b v w tag hdepth hglobals ha hb
      cases ha with
      | unit | number | text =>
          rw [Reference.call]
          · exact .fail _
          all_goals simp
      | untouched f id =>
          rw [Reference.call]
          exact builtin_first_yields _ f hb
      | started f id hfirst =>
          rw [Reference.call]
          exact builtin_second_yields _ f hfirst hb
      | @function received parameter others c id hparameters hcaptures hbody
          htable =>
          -- the argument adds a frame to the chain whether or not the body is
          -- entered
          have hs := Store.Extends.pushChild m.store c.scope parameter w
          have hchain := hglobals.pushChild hcaptures hb parameter
          have harity : c.arity = others.length + 1 := by
            rw [← c.length_parameters, hparameters]
            rfl
          have hlast := c.next_succ_eq_length_iff
          rw [harity] at hlast
          rw [callValue, c.parameter_eq hparameters, htable]
          refine .step (x := EvalM.extendScope c.scope parameter w) rfl hs rfl ?_
          cases others with
          | cons next others =>
              rw [Reference.call, if_neg (mt hlast.1 (by simp))]
              refine .step rfl (.refl _) rfl (.pure ?_)
              refine .function (c := c.advance m.store.next) m.made ?_ hchain
                hbody htable
              rw [c.parameters_advance, hparameters]
              rfl
          | nil =>
              rw [if_pos (hlast.2 rfl)]
              cases levels with
              | zero =>
                  have hfull : recursionLimit ≤ m.depth := by omega
                  rw [Reference.call]
                  exact .nested_full hfull
              | succ levels =>
                  have hopen : m.depth < recursionLimit := by omega
                  have hinner : Answers (m.depth + 1) globals
                      (callValue Host.standard n)
                      (Reference.call globals levels) :=
                    callValue_answers globals (by omega) (by omega)
                  rw [Reference.call]
                  exact .nested hopen
                    (hbody.yields hinner rfl (hglobals.extend hs) hchain)

/-- Between two declarations: no body is under evaluation, and the root holds
the globals. -/
structure Ready (m : Machine) (globals : Reference.Globals) : Prop where
  depth : m.depth = 0
  globals : Agrees m.store globals

/-- Run on `m`, the computation ends with the given outcome, and the root holds
the given globals then. -/
def Leads (m : Machine) (x : EvalM Value)
    (r : Except EvalError Reference.Value × Reference.Globals) : Prop :=
  ∃ (o : Except EvalError Value) (m' : Machine),
    x m = some (o, m') ∧ Ready m' r.2 ∧ Outcome m'.store r.1 o

namespace Leads

variable {m : Machine} {globals : Reference.Globals}

/-- An expression leaves the globals alone. -/
theorem of_yields
    {x : EvalM Value} {r : Except EvalError Reference.Value}
    (hm : Ready m globals) (h : Yields m x r) :
    Leads m x (r, globals) := by
  obtain ⟨o, m', hrun, hextends, hdepth, houtcome⟩ := h
  exact ⟨o, m', hrun, ⟨hdepth.trans hm.depth, hm.globals.extend hextends⟩, houtcome⟩

/-- What is written down first changes nothing. -/
theorem record
    {f : Unit → EvalM Value}
    {r : Except EvalError Reference.Value × Reference.Globals}
    {event : Happening}
    (h : Leads (m.record event) (f ()) r) :
    Leads m (EvalM.record event >>= f) r := by
  obtain ⟨o, m', hrun, hready, houtcome⟩ := h
  exact ⟨o, m', hrun, hready, houtcome⟩

/-- Evaluating a node is carrying its plan out. -/
theorem visit
    {call : Caller} {t : Tree}
    {r : Except EvalError Reference.Value × Reference.Globals}
    (h : Leads (m.record (.visit t.tag t.text))
      (t.plan.run Host.standard call Table.empty Scope.root) r) :
    Leads m (evalTree Host.standard call Table.empty Scope.root t) r := by
  rw [evalTree_eq_plan]
  exact record h

/-- A name is bound to the value of an expression, unless that fails. -/
theorem define
    {x : EvalM Value} {f : Value → EvalM Value}
    {r : Except EvalError Reference.Value} {name : String}
    (hm : Ready m globals) (h : Yields m x r)
    (hf : ∀ (v : Value) (mid : Machine), ∃ m' : Machine,
      f v mid = some (.ok v, m') ∧
      m'.store = mid.store.define Scope.root name v ∧ m'.depth = mid.depth) :
    Leads m (x >>= f) (Reference.assign globals name r) := by
  obtain ⟨o, mid, hrun, hextends, hdepth, houtcome⟩ := h
  have hmid := hm.globals.extend hextends
  cases houtcome with
  | error e =>
      exact ⟨.error e, mid, EvalM.bind_of_error hrun,
        ⟨hdepth.trans hm.depth, hmid⟩, .error e⟩
  | @ok a v hv =>
      obtain ⟨m', hdefine, hstore, hsame⟩ := hf v mid
      have hready : Ready m' (globals.insert name a) := by
        refine ⟨hsame.trans (hdepth.trans hm.depth), ?_⟩
        rw [hstore]
        exact hmid.define hv name
      refine ⟨.ok v, m', (EvalM.bind_of_ok hrun).trans hdefine, hready, .ok ?_⟩
      rw [hstore]
      exact hv.retain (mid.store.retains_define name v)

end Leads

theorem declare_function
    (globals : Reference.Globals) (text text' name parameter : String)
    (others : List String) (body : Tree) :
    Reference.declare globals ⟨"function", text, [.leaf "variable" name,
      ⟨"patterns", text', (parameter :: others).map (.leaf "variable")⟩, body]⟩ =
      Reference.assign globals name
        (.ok (.function name [] parameter others body)) := by
  have htexts : (others.map (Tree.leaf "variable")).map Tree.text = others := by
    rw [List.map_map]
    exact List.map_id others
  simp only [Reference.declare, List.map_cons, htexts]
  rfl

/-- Declarations, one case per form. -/
theorem IsDeclaration.leads
    {t : Tree} (ht : IsDeclaration t)
    {m : Machine} {globals : Reference.Globals} (hm : Ready m globals) :
    Leads m (evalTree Host.standard (callValue Host.standard callAllowance)
      Table.empty Scope.root t) (Reference.declare globals t) := by
  have hcall : Answers 0 globals (callValue Host.standard callAllowance)
      (Reference.call globals recursionLimit) :=
    callValue_answers globals (by decide) (by decide)
  have hvisit : Ready (m.record (.visit t.tag t.text)) globals :=
    ⟨hm.depth, hm.globals⟩
  refine .visit ?_
  cases ht with
  | @function text text' name parameter others body _ hbody =>
      rw [plan_function, declare_function]
      refine .record ?_
      refine .define (r := .ok _) ⟨hm.depth, hm.globals⟩ ?_ ?_
      · refine .step rfl (.refl _) rfl (.pure ?_)
        exact .function (c := ⟨name, parameter :: others, 0, body, Scope.root,
          Table.empty⟩) _ rfl .root hbody rfl
      · intro v mid
        exact ⟨mid.define Scope.root name v, rfl, rfl, rfl⟩
  | @bind text name body _ hbody =>
      have hplan := plan_bind text name hbody.kind_eq
      rw [hplan]
      refine .define hvisit (hbody.yields hcall hm.depth hm.globals .root) ?_
      intro v mid
      exact ⟨(mid.record (.bind name v)).define Scope.root name v, rfl, rfl, rfl⟩
  | splice he =>
      exact .of_yields hvisit (he.yields hcall hm.depth hm.globals .root)

/-- Declarations one after the other, by induction on how many there are. -/
theorem evalEach_leads :
    ∀ (ts : List Tree) {a : Reference.Value} {last : Value} {m : Machine}
      {globals : Reference.Globals},
      (∀ t ∈ ts, IsDeclaration t) → Ready m globals → Represents m.store a last →
      Leads m (evalEach Host.standard (callValue Host.standard callAllowance)
        Table.empty Scope.root ts last) (Reference.declareAll globals ts a)
  | [], a, last, m, globals, _, hm, hlast => by
      rw [evalEach, Reference.declareAll]
      exact .of_yields hm (.pure hlast)
  | t :: ts, a, last, m, globals, hts, hm, hlast => by
      obtain ⟨ht, hts⟩ := List.forall_mem_cons.1 hts
      obtain ⟨o, mid, hrun, hmid, houtcome⟩ := ht.leads hm
      rw [evalEach, Reference.declareAll]
      generalize Reference.declare globals t = r at hmid houtcome ⊢
      obtain ⟨outcome, globals'⟩ := r
      cases houtcome with
      | error e => exact ⟨.error e, mid, EvalM.bind_of_error hrun, hmid, .error e⟩
      | ok hv =>
          obtain ⟨o, m', hrest, hm', houtcome⟩ := evalEach_leads ts hts hmid hv
          exact ⟨o, m', (EvalM.bind_of_ok hrun).trans hrest, hm', houtcome⟩

/-- One source: the outcome looks the same, and the two sides are ready for the
next one. -/
theorem runSource_refines
    {m : Machine} {globals : Reference.Globals}
    (hm : Ready m globals) (source : String) :
    (runSource Host.standard Table.empty Scope.root source m).1.map
      Value.appearance =
        (Reference.run globals source).1.map Reference.Value.appearance ∧
      Ready (runSource Host.standard Table.empty Scope.root source m).2
        (Reference.run globals source).2 := by
  unfold runSource Reference.run
  cases hparse : parse source with
  | error e => exact ⟨rfl, hm⟩
  | ok t =>
      obtain ⟨ts, rfl, hprogram⟩ := parse_eq_ok_iff.1 hparse
      have hleads : Leads m
          (evaluate Host.standard Table.empty Scope.root ⟨"declarations",
            source, ts⟩)
          (Reference.declareAll globals ts .unit) :=
        .visit (evalEach_leads ts hprogram.isDeclaration (m := m.record _)
          ⟨hm.depth, hm.globals⟩ .unit)
      obtain ⟨o, m', hrun, hm', houtcome⟩ := hleads
      simp only [runTree, hrun]
      generalize Reference.declareAll globals ts .unit = r at hm' houtcome ⊢
      obtain ⟨outcome, globals'⟩ := r
      cases houtcome with
      | error e => exact ⟨rfl, hm'⟩
      | ok hv => exact ⟨congrArg Except.ok hv.appearance.symm, hm'⟩

/-- Any number of sources, by induction on how many there are. -/
theorem observations_of_ready :
    ∀ (sources : List String) {m : Machine} {globals : Reference.Globals},
      Ready m globals →
      observations m sources = Reference.observations globals sources
  | [], _, _, _ => rfl
  | source :: sources, m, globals, hm => by
      obtain ⟨houtcome, hm'⟩ := runSource_refines hm source
      rw [observations, Reference.observations]
      simp only [houtcome, hm'.globals.survey, observations_of_ready sources hm']

theorem ready_withRoot : Ready Machine.withRoot ∅ := by
  refine ⟨rfl, ⟨∅, none⟩, rfl, rfl, ?_⟩
  intro x
  simp

theorem ready_prelude :
    ∃ m, installPrelude Scope.root Machine.withRoot = some (.ok (), m) ∧
      Ready m Reference.preludeGlobals := by
  refine ⟨_, rfl, rfl, ?_⟩
  refine Agrees.define (Agrees.define ready_withRoot.globals ?_ _) ?_ _
  · exact .untouched .add 0
  · exact .untouched .mul 1

/-- **Refinement.**  When sources are interpreted one after the other in one
scope, empty at first or holding the prelude, then after each of them the same
can be seen as with the reference evaluator: the same error, or a value of the
same type and display that waits for the same parameters, and the same names in
the scope with values that look the same. -/
theorem observations_eq_reference
    (sources : List String) :
    observations Machine.withRoot sources = Reference.observations ∅ sources ∧
    ∃ m : Machine, installPrelude Scope.root Machine.withRoot = some (.ok (), m) ∧
      observations m sources =
        Reference.observations Reference.preludeGlobals sources := by
  refine ⟨observations_of_ready sources ready_withRoot, ?_⟩
  obtain ⟨m, hinstall, hm⟩ := ready_prelude
  exact ⟨m, hinstall, observations_of_ready sources hm⟩

end Curried
