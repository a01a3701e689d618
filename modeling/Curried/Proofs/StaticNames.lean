import Curried.Proofs.NormalForm
import Curried.Proofs.Refinement

/-!
# Programs whose names are defined in time

A name may be read by an expression if a declaration before the expression
defines it.  A function may read more: its body is not evaluated before the next
expression is, so that functions may also read what the functions behind them
define.

**Static condition.**  `inTime known ts` lists the names that are defined when
the next expression of the declarations `ts` is evaluated, if `known` are those
that are defined before.  `definedInTime known ts` checks that no declaration
reads any other name, where functions behind the last expression may read what
they like.

**Invariant.**  A value of the reference evaluator is `Covered` if the functions
in it read only their parameters, the arguments they have received, and names
that will be defined in time.  `eval_findsNames` and `call_findsNames` keep this
and find every name.

**Result.**  `declareAll_findsNames`: declarations that read what is defined in
time never miss a name.
-/

namespace Curried

namespace Tree

mutual

/-- The texts of the variables of a tree. -/
def variableNames : Tree → List String
  | ⟨tag, text, children⟩ =>
      if tag = "variable" then [text] else variableNamesAll children

/-- The texts of the variables of a list of trees. -/
def variableNamesAll : List Tree → List String
  | [] => []
  | t :: ts => variableNames t ++ variableNamesAll ts

end

/-- The declaration defines a function. -/
def isFunction (t : Tree) : Bool :=
  t.tag == "function"

/-- The name that a declaration defines, if it defines one. -/
def declared : Tree → List String
  | ⟨"function", _, name :: _⟩ => [name.text]
  | ⟨"bind", _, name :: _⟩ => [name.text]
  | _ => []

/-- The names that a declaration reads: those in its expression, or those in the
body of a function but its parameters. -/
def reads : Tree → List String
  | ⟨"function", _, [_, patterns, body]⟩ =>
      body.variableNames.filter fun x =>
        !(patterns.children.map text).contains x
  | ⟨"bind", _, [_, value]⟩ => value.variableNames
  | ⟨"top_splice", _, [expression]⟩ => expression.variableNames
  | _ => []

end Tree

/-- The names that are defined when the next expression among the declarations
is evaluated. -/
def inTime (known : List String) (ts : List Tree) : List String :=
  known ++ (ts.takeWhile Tree.isFunction).flatMap Tree.declared

/-- Each declaration reads only names that are defined in time, unless no
expression is to be evaluated any more. -/
def definedInTime (known : List String) : List Tree → Bool
  | [] => true
  | t :: ts =>
      ((t :: ts).all Tree.isFunction ||
        t.reads.all (inTime known (t :: ts)).contains) &&
        definedInTime (known ++ t.declared) ts

theorem inTime_function
    (known : List String) {t : Tree} (ht : t.isFunction = true) (ts : List Tree) :
    inTime known (t :: ts) = inTime (known ++ t.declared) ts := by
  simp [inTime, ht]

theorem inTime_expression
    (known : List String) {t : Tree} (ht : t.isFunction = false) (ts : List Tree) :
    inTime known (t :: ts) = known := by
  simp [inTime, ht]

namespace Reference

/-- The functions in the value read only their parameters, the arguments that
they have received, and names of which `P` holds. -/
inductive Value.Covered (P : String → Prop) : Value → Prop
  | unit : Covered P .unit
  | number (x : Float) : Covered P (.number x)
  | text (s : String) : Covered P (.text s)
  | builtin (f : Builtin) (first : Option Value) : Covered P (.builtin f first)
  | function {received : List (String × Value)} {parameter : String}
      {others : List String} {body : Tree} (name : String) :
      (∀ x ∈ body.variableNames, x ∈ parameter :: others ∨
        (received.lookup x).isSome ∨ P x) →
      (∀ x v, (x, v) ∈ received → Covered P v) →
      Covered P (.function name received parameter others body)

theorem Value.Covered.mono
    {P Q : String → Prop} {v : Value}
    (h : v.Covered P) (hPQ : ∀ x, P x → Q x) :
    v.Covered Q := by
  induction h with
  | unit => exact .unit
  | number x => exact .number x
  | text s => exact .text s
  | builtin f first => exact .builtin f first
  | function name hbody _ ih =>
      refine .function name (fun x hx => ?_) ih
      rcases hbody x hx with hparameter | hreceived | hP
      · exact Or.inl hparameter
      · exact Or.inr (Or.inl hreceived)
      · exact Or.inr (Or.inr (hPQ x hP))

/-- A covered value, or an error that is no missing name. -/
inductive FindsNames (P : String → Prop) : Except EvalError Value → Prop
  | ok {v : Value} : v.Covered P → FindsNames P (.ok v)
  | error {e : EvalError} : e.kind ≠ .name → FindsNames P (.error e)

section Evaluation

variable {P : String → Prop}

theorem FindsNames.bind
    {r : Except EvalError Value} {g : Value → Except EvalError Value}
    (hr : FindsNames P r) (hg : ∀ v, v.Covered P → FindsNames P (g v)) :
    FindsNames P (r >>= g) := by
  cases hr with
  | ok hv => exact hg _ hv
  | error he => exact .error he

theorem combine_findsNames
    (o : Operator) (left right : Value) :
    FindsNames P (combine o left right) := by
  unfold combine
  split
  · exact .ok (.number _)
  · exact .ok (.text _)
  · exact .ok (.text _)
  · exact .ok (.text _)
  · exact .ok (.number _)
  · exact .ok (.number _)
  · exact .ok (.number _)
  · exact .error nofun

theorem arithmetic_findsNames
    (f : Builtin) (left right : Value) :
    FindsNames P (arithmetic f left right) := by
  unfold arithmetic
  split
  · exact .ok (.number _)
  · exact .error nofun

theorem textValue_findsNames (text : String) : FindsNames P (textValue text) := by
  unfold textValue
  split
  · exact .ok (.text _)
  · exact .error nofun

/-- The values of the globals are covered, and so are the names of which `P`
holds. -/
structure Covers (P : String → Prop) (globals : Globals) : Prop where
  value : ∀ (x : String) (v : Value), globals[x]? = some v → v.Covered P
  name : ∀ x : String, P x → x ∈ globals

/-- A name that has been received or is defined has a value. -/
theorem nameValue_findsNames
    {globals : Globals} (hglobals : Covers P globals)
    {arguments : List (String × Value)}
    (harguments : ∀ x v, (x, v) ∈ arguments → v.Covered P)
    {x : String} (hx : (arguments.lookup x).isSome ∨ P x) :
    FindsNames P (nameValue globals arguments x) := by
  unfold nameValue resolve
  cases hlookup : arguments.lookup x with
  | some v =>
      obtain ⟨before, after, rfl, -⟩ := List.lookup_eq_some_iff.1 hlookup
      exact .ok (harguments x v (by simp))
  | none =>
      have hglobal : x ∈ globals :=
        hglobals.name x (hx.resolve_left (by simp [hlookup]))
      obtain ⟨v, hv⟩ :=
        Option.isSome_iff_exists.1
          (Std.TreeMap.mem_iff_isSome_getElem?.1 hglobal)
      simp only [Option.none_or, hv]
      exact .ok (hglobals.value x v hv)

/-- An expression that reads what has been received or is defined misses no
name, if its calls do not. -/
theorem eval_findsNames
    {call : Caller}
    (hcall : ∀ tag f a, f.Covered P → a.Covered P → FindsNames P (call tag f a))
    {globals : Globals} (hglobals : Covers P globals)
    {arguments : List (String × Value)}
    (harguments : ∀ x v, (x, v) ∈ arguments → v.Covered P)
    {t : Tree} (ht : ∀ x ∈ t.variableNames, (arguments.lookup x).isSome ∨ P x) :
    FindsNames P (eval call globals arguments t) := by
  fun_induction eval call globals arguments t with
  | case1 text => exact .ok (.number _)
  | case2 text => exact textValue_findsNames text
  | case3 name =>
      exact nameValue_findsNames hglobals harguments
        (ht name (by simp [Tree.variableNames]))
  | case4 text opening inner closing ih =>
      exact ih fun x hx =>
        ht x (by simp [Tree.variableNames, Tree.variableNamesAll, hx])
  | case5 text sign body ih =>
      exact ih fun x hx =>
        ht x (by simp [Tree.variableNames, Tree.variableNamesAll, hx])
  | case6 text function argument ihf iha =>
      refine .bind (ihf fun x hx =>
        ht x (by simp [Tree.variableNames, Tree.variableNamesAll, hx]))
          fun f hf => ?_
      refine .bind (iha fun x hx =>
        ht x (by simp [Tree.variableNames, Tree.variableNamesAll, hx]))
          fun a ha => ?_
      exact hcall "apply" f a hf ha
  | case7 text left operator right ihl ihr =>
      refine .bind (ihl fun x hx =>
        ht x (by simp [Tree.variableNames, Tree.variableNamesAll, hx]))
          fun l hl => ?_
      refine .bind (ihr fun x hx =>
        ht x (by simp [Tree.variableNames, Tree.variableNamesAll, hx]))
          fun r hr => ?_
      unfold operate
      split
      · exact .error nofun
      · exact hcall "infix" l r hl hr
      · exact combine_findsNames _ l r
  | case8 => exact .error nofun

/-- A function that receives an argument stays covered, one more of its names
being received. -/
theorem received_or_defined
    {received : List (String × Value)} {parameter x : String}
    {names : List String} (argument : Value)
    (hx : x ∈ parameter :: names ∨ (received.lookup x).isSome ∨ P x) :
    x ∈ names ∨ (((parameter, argument) :: received).lookup x).isSome ∨ P x := by
  rw [List.lookup_cons]
  cases hname : x == parameter with
  | true => exact Or.inr (Or.inl rfl)
  | false =>
      have hne : x ≠ parameter := ne_of_beq_false hname
      rcases hx with hparameter | hreceived | hP
      · exact Or.inl ((List.mem_cons.1 hparameter).resolve_left hne)
      · exact Or.inr (Or.inl hreceived)
      · exact Or.inr (Or.inr hP)

/-- Calls miss no name, by induction on the bodies that may still be entered. -/
theorem call_findsNames
    {globals : Globals} (hglobals : Covers P globals)
    (levels : Nat) (tag : String) (f a : Value) (hf : f.Covered P)
    (ha : a.Covered P) :
    FindsNames P (call globals levels tag f a) := by
  cases hf with
  | unit | number | text =>
      rw [call]
      · exact .error (by simp [EvalError.kind])
      all_goals simp
  | builtin f first =>
      cases first with
      | none =>
          rw [call]
          exact .ok (.builtin f (some a))
      | some first =>
          rw [call]
          exact arithmetic_findsNames f first a
  | @function received parameter others body name hbody hreceived =>
      have hsupplied : ∀ x v, (x, v) ∈ (parameter, a) :: received →
          v.Covered P := by
        intro x v hmem
        rcases List.mem_cons.1 hmem with heq | hmem
        · cases heq
          exact ha
        · exact hreceived x v hmem
      cases others with
      | cons next others =>
          rw [call]
          exact .ok (.function name (fun x hx =>
            received_or_defined a (hbody x hx)) hsupplied)
      | nil =>
          cases levels with
          | zero =>
              rw [call]
              exact .error (by simp [EvalError.kind])
          | succ levels =>
              rw [call]
              refine eval_findsNames (call_findsNames hglobals levels) hglobals
                hsupplied fun x hx => ?_
              exact (received_or_defined a (hbody x hx)).resolve_left
                List.not_mem_nil
termination_by levels

/-- An expression outside of all calls. -/
theorem evaluate_findsNames
    {globals : Globals} (hglobals : Covers P globals) {t : Tree}
    (ht : ∀ x ∈ t.variableNames, P x) :
    FindsNames P (evaluate globals t) :=
  eval_findsNames (call_findsNames hglobals recursionLimit) hglobals (by simp)
    fun x hx => Or.inr (ht x hx)

end Evaluation

/-- What is known has been defined, and if an expression is to be evaluated yet,
then the values of the globals read only what is defined in time. -/
structure Prepared (known : List String) (ts : List Tree) (globals : Globals) :
    Prop where
  defined : ∀ x ∈ known, x ∈ globals
  covered : ts.all Tree.isFunction = false →
    ∀ (x : String) (v : Value), globals[x]? = some v →
      v.Covered (· ∈ inTime known ts)

namespace Prepared

variable {known : List String} {t : Tree} {ts : List Tree} {globals : Globals}
  (h : Prepared known (t :: ts) globals)
include h

/-- When an expression is evaluated, the globals are covered by what is
known. -/
theorem covers
    (ht : t.isFunction = false) :
    Covers (· ∈ known) globals where
  value := by
    have hcovered := h.covered (by simp [ht])
    rwa [inTime_expression known ht] at hcovered
  name := h.defined

theorem covered_later
    (hnames : ∀ x ∈ inTime known (t :: ts), x ∈ inTime (known ++ t.declared) ts)
    (hmore : ts.all Tree.isFunction = false) {x : String} {v : Value}
    (hx : globals[x]? = some v) :
    v.Covered (· ∈ inTime (known ++ t.declared) ts) := by
  have hmore' : (t :: ts).all Tree.isFunction = false := by simp [hmore]
  exact (h.covered hmore' x v hx).mono hnames

/-- A declaration has defined nothing. -/
theorem keep
    (hname : t.declared = [])
    (hnames : ∀ x ∈ inTime known (t :: ts), x ∈ inTime (known ++ t.declared) ts) :
    Prepared (known ++ t.declared) ts globals where
  defined := by
    rw [hname, List.append_nil]
    exact h.defined
  covered := fun hmore _ _ hx => h.covered_later hnames hmore hx

/-- A declaration has defined a name. -/
theorem insert
    {name : String} {v : Value}
    (hname : t.declared = [name])
    (hnames : ∀ x ∈ inTime known (t :: ts), x ∈ inTime (known ++ t.declared) ts)
    (hv : ts.all Tree.isFunction = false →
      v.Covered (· ∈ inTime (known ++ t.declared) ts)) :
    Prepared (known ++ t.declared) ts (globals.insert name v) where
  defined := by
    intro x hx
    rw [hname, List.mem_append, List.mem_singleton] at hx
    rw [Std.TreeMap.mem_insert]
    rcases hx with hx | rfl
    · exact Or.inr (h.defined x hx)
    · exact Or.inl (by simp)
  covered := by
    intro hmore x u hu
    rcases eq_or_getElem?_of_insert hu with rfl | hu
    · exact hv hmore
    · exact h.covered_later hnames hmore hu

end Prepared

/-- A declaration fails otherwise than for want of a name, or leaves the globals
prepared for the declarations behind it. -/
inductive Proceeds (known : List String) (ts : List Tree) :
    Except EvalError Value × Globals → Prop
  | failed {e : EvalError} {globals : Globals} :
      e.kind ≠ .name → Proceeds known ts (.error e, globals)
  | prepared {v : Value} {globals : Globals} :
      Prepared known ts globals → Proceeds known ts (.ok v, globals)

theorem reads_function
    (text text' name parameter : String) (others : List String) (body : Tree) :
    Tree.reads ⟨"function", text, [.leaf "variable" name,
      ⟨"patterns", text', (parameter :: others).map (.leaf "variable")⟩, body]⟩ =
      body.variableNames.filter fun x => !(parameter :: others).contains x := by
  have htexts : ((parameter :: others).map (Tree.leaf "variable")).map
      Tree.text = parameter :: others := by
    rw [List.map_map]
    exact List.map_id _
  simp only [Tree.reads, htexts]

/-- One declaration, one case per form. -/
theorem declare_proceeds
    {known : List String} {t : Tree} {ts : List Tree} {globals : Globals}
    (ht : IsDeclaration t) (hglobals : Prepared known (t :: ts) globals)
    (hreads : (t :: ts).all Tree.isFunction = false →
      ∀ x ∈ t.reads, x ∈ inTime known (t :: ts)) :
    Proceeds (known ++ t.declared) ts (declare globals t) := by
  cases ht with
  | @function text text' name parameter others body _ _ =>
      have hsame := inTime_function known
        (t := ⟨"function", text, [.leaf "variable" name,
        ⟨"patterns", text', (parameter :: others).map (.leaf "variable")⟩,
        body]⟩) rfl ts
      rw [declare_function]
      refine .prepared (hglobals.insert rfl (fun x hx => hsame ▸ hx)
        fun hmore => ?_)
      refine .function name (fun x hx => ?_) (by simp)
      by_cases hparameter : x ∈ parameter :: others
      · exact Or.inl hparameter
      · refine Or.inr (Or.inr ?_)
        rw [← hsame]
        refine hreads (by simp [hmore]) x ?_
        rw [reads_function, List.mem_filter]
        exact ⟨hx, by simpa using hparameter⟩
  | @bind text name value _ _ =>
      have hknown :=
        inTime_expression known
          (t := ⟨"bind", text, [.leaf "variable" name, value]⟩) rfl ts
      rw [hknown] at hreads
      have hvalue := evaluate_findsNames (hglobals.covers rfl) (hreads rfl)
      have hgrows : ∀ x ∈ known, x ∈ inTime (known ++ [name]) ts :=
        fun x hx => by simp [inTime, hx]
      rw [declare]
      generalize evaluate globals value = r at hvalue
      cases hvalue with
      | error he => exact .failed he
      | ok hv =>
          exact .prepared
            (hglobals.insert rfl (fun x hx => hgrows x (hknown ▸ hx)) fun _ =>
              hv.mono hgrows)
  | @splice text expression _ =>
      have hknown :=
        inTime_expression known (t := ⟨"top_splice", text, [expression]⟩) rfl ts
      rw [hknown] at hreads
      have hvalue := evaluate_findsNames (hglobals.covers rfl) (hreads rfl)
      rw [declare]
      generalize evaluate globals expression = r at hvalue
      cases hvalue with
      | error he => exact .failed he
      | ok hv =>
          exact .prepared (hglobals.keep rfl fun x hx =>
            by simp [inTime, hknown ▸ hx])

/-- Declarations that read what is defined in time miss no name, by induction on
how many there are. -/
theorem declareAll_findsNames
    {known : List String} {ts : List Tree} {globals : Globals} {last : Value}
    (hts : ∀ t ∈ ts, IsDeclaration t) (hdefined : definedInTime known ts = true)
    (hglobals : Prepared known ts globals)
    {e : EvalError} (he : (declareAll globals ts last).1 = .error e) :
    e.kind ≠ .name := by
  induction ts generalizing known globals last with
  | nil => cases he
  | cons t ts ih =>
      obtain ⟨ht, hts⟩ := List.forall_mem_cons.1 hts
      rw [definedInTime, Bool.and_eq_true, Bool.or_eq_true] at hdefined
      obtain ⟨hreads, hrest⟩ := hdefined
      have hproceeds := declare_proceeds ht hglobals fun hmore => by
        rw [hmore] at hreads
        simpa using hreads
      rw [declareAll] at he
      generalize declare globals t = r at hproceeds he
      cases hproceeds with
      | failed hkind =>
          cases he
          exact hkind
      | prepared hglobals' => exact ih hts hrest hglobals' he

end Reference

end Curried
