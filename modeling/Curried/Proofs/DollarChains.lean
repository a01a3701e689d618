import Curried.Proofs.Operands
import Curried.Proofs.Sequencing

/-!
# Chains of `$`

A chain `e₀ $ e₁ $ … $ eₙ` means `(e₀) ((e₁) ( … (eₙ) … ))`.

**Writing.**  `chainText` and `nestedText` write operands as a chain and as a
nested application, and `chainTree` and `nestedTree` are the trees that these
are read as: the operands are read as they are read alone.

**Meaning.**  `chained` evaluates trees from left to right and then applies the
values from the right; its tag is blamed for a value that cannot be called.  The
chain and the nested application both do that, one with the tag `infix` and the
other with the tag `apply`, and a tag shows nowhere else.

**Result.**  `dollar_chain_applies_from_right`.
-/

namespace Curried

open Grammar Lexeme

section Writing

/-- The text of a chain. -/
def chainText : String → List String → String
  | e, [] => e
  | e, e' :: es => e ++ " $ " ++ chainText e' es

/-- The text of the nested application. -/
def nestedText : String → List String → String
  | e, [] => e
  | e, e' :: es => "(" ++ e ++ ") (" ++ nestedText e' es ++ ")"

/-- The tree of a chain. -/
def chainTree : Tree → List Tree → Tree
  | t, [] => t
  | t, t' :: ts => infixTree t " " "$" " " (chainTree t' ts)

/-- The tree of the nested application. -/
def nestedTree : Tree → List Tree → Tree
  | t, [] => t
  | t, t' :: ts =>
      applyTree (parensTree "" t "") " " (parensTree "" (nestedTree t' ts) "")

theorem text_chainTree
    (t : Tree) (ts : List Tree) :
    (chainTree t ts).text = chainText t.text (ts.map Tree.text) := by
  induction ts generalizing t with
  | nil => rfl
  | cons t' ts ih =>
      rw [chainTree, List.map_cons, chainText, ← ih t']
      simp [infixTree, String.append_assoc]

theorem text_nestedTree
    (t : Tree) (ts : List Tree) :
    (nestedTree t ts).text = nestedText t.text (ts.map Tree.text) := by
  induction ts generalizing t with
  | nil => rfl
  | cons t' ts ih =>
      rw [nestedTree, List.map_cons, nestedText, ← ih t', ← String.toList_inj]
      simp [applyTree, parensTree]

theorem derives_chainTree
    {t : Tree} {ts : List Tree}
    (ht : Derives .custom t) (hts : ∀ t' ∈ ts, Derives .custom t') :
    Derives .dollar (chainTree t ts) := by
  induction ts generalizing t with
  | nil => exact ht.loosest
  | cons t' ts ih =>
      have hrest := ih (hts t' (by simp)) fun u hu => hts u (by simp [hu])
      exact .right ht rfl ⟨rfl, rfl⟩ rfl hrest

theorem derives_nestedTree
    {t : Tree} {ts : List Tree}
    (ht : Derives .custom t) (hts : ∀ t' ∈ ts, Derives .custom t') :
    Derives .dollar (nestedTree t ts) := by
  induction ts generalizing t with
  | nil => exact ht.loosest
  | cons t' ts ih =>
      have hrest := ih (hts t' (by simp)) fun u hu => hts u (by simp [hu])
      have hfunction : Derives .application (parensTree "" t "") :=
        .single nofun (.parens rfl ht.loosest rfl)
      have hargument : Derives .atom (parensTree "" (nestedTree t' ts) "") :=
        .parens rfl hrest rfl
      have happlied : Derives .application
          (applyTree (parensTree "" t "") " "
            (parensTree "" (nestedTree t' ts) "")) :=
        .apply hfunction rfl hargument rfl
      exact happlied.loosest

end Writing

section Meaning

variable (host : Host) (call : Caller) (table : Table) (scope : Scope)
  (tag : String)

/-- Evaluates trees from left to right and gives all their values. -/
def evalInOrder : List Tree → EvalM (List Value)
  | [] => pure []
  | t :: ts => do
      let v ← evalTree host call table scope t
      let vs ← evalInOrder ts
      pure (v :: vs)

/-- Applies values from the right: the first one to what the others give. -/
def applyFromRight : Value → List Value → EvalM Value
  | v, [] => pure v
  | v, w :: ws => do
      let a ← applyFromRight w ws
      call tag v a

/-- Evaluates trees from left to right, and then applies their values from the
right. -/
def chained (t : Tree) (ts : List Tree) : EvalM Value := do
  let v ← evalTree host call table scope t
  let vs ← evalInOrder host call table scope ts
  applyFromRight call tag v vs

theorem chained_nil
    (t : Tree) :
    chained host call table scope tag t [] = evalTree host call table scope t := by
  simp only [chained, evalInOrder, applyFromRight, EvalM.pure_bind, EvalM.bind_pure]

/-- The value of the rest comes before the application of the first value. -/
theorem chained_cons
    (t t' : Tree) (ts : List Tree) :
    chained host call table scope tag t (t' :: ts) =
      (do
        let v ← evalTree host call table scope t
        let a ← chained host call table scope tag t' ts
        call tag v a) := by
  simp only [chained, evalInOrder, applyFromRight, EvalM.bind_assoc,
    EvalM.pure_bind]

end Meaning

namespace Alike

variable {α : Type} {x y : EvalM α}

/-- What is written down before makes no difference. -/
theorem record_left
    (e : Happening) (hxy : Alike x y) :
    Alike (EvalM.record e >>= fun _ => x) y := by
  intro m m' hm
  have hrecorded : (m.record e).unrecorded = m'.unrecorded := hm
  exact hxy hrecorded

end Alike

section Chains

variable (host : Host) {table : Table} (scope : Scope)

theorem evalTree_alike
    (table : Table) (t : Tree) :
    Alike (evalTree host (callValue host callAllowance) table scope t)
      (evalTree host (callValue host callAllowance) table scope t) :=
  Alike.congruence.evalTree (callValue_alike host callAllowance) host table scope t

/-- A chain is evaluated from left to right and applied from the right, on
account of the operator. -/
theorem chainTree_alike
    (htable : table.find? "$" = none) (t : Tree) (ts : List Tree) :
    Alike (evalTree host (callValue host callAllowance) table scope
      (chainTree t ts))
      (chained host (callValue host callAllowance) table scope "infix" t ts) := by
  induction ts generalizing t with
  | nil =>
      rw [chainTree, chained_nil]
      exact evalTree_alike host scope table t
  | cons t' ts ih =>
      have hoperator : ∀ v w,
          applyOperator host (callValue host callAllowance) table "$" v w =
          callValue host callAllowance "infix" v w := by
        intro v w
        rw [applyOperator, htable]
        rfl
      rw [chainTree, chained_cons, evalTree_eq_plan]
      refine .record_left _ ?_
      refine .bind (evalTree_alike host scope table t) fun v => ?_
      refine .bind (ih t') fun a => ?_
      rw [show (Tree.leaf "operator" "$").text = "$" from rfl, hoperator]
      exact callValue_alike host callAllowance "infix" v a

/-- A nested application is evaluated from left to right and applied from the
right too. -/
theorem nestedTree_alike
    (table : Table) (t : Tree) (ts : List Tree) :
    Alike (evalTree host (callValue host callAllowance) table scope
      (nestedTree t ts))
      (chained host (callValue host callAllowance) table scope "apply" t ts) := by
  induction ts generalizing t with
  | nil =>
      rw [nestedTree, chained_nil]
      exact evalTree_alike host scope table t
  | cons t' ts ih =>
      have hparens : ∀ {u : Tree} {y : EvalM Value},
          Alike (evalTree host (callValue host callAllowance) table scope u) y →
          Alike (evalTree host (callValue host callAllowance) table scope
            (parensTree "" u "")) y := by
        intro u y h
        rw [evalTree_eq_plan]
        exact .record_left _ h
      rw [nestedTree, chained_cons, evalTree_eq_plan]
      refine .record_left _ ?_
      refine .bind (hparens (evalTree_alike host scope table t)) fun v => ?_
      exact .bind (hparens (ih t')) fun a =>
        callValue_alike host callAllowance "apply" v a

/-- Running an expression alone is evaluating it. -/
theorem runSource_expression
    (table : Table) {t : Tree} (ht : Derives .dollar t) {x : EvalM Value}
    (hx : Alike (evalTree host (callValue host callAllowance) table scope t) x)
    (m : Machine) :
    Matches (runSource host table scope t.text m) (outcomeOf m (x m)) := by
  rw [runSource_eq ht.parse_text]
  refine outcomeOf_matches ?_ m m
  have hsplice : evalEach host (callValue host callAllowance) table scope
      [spliceTree ⟨t, ""⟩] .unit =
      evalTree host (callValue host callAllowance) table scope
        (spliceTree ⟨t, ""⟩) := by
    rw [evalEach, ← EvalM.bind_pure (evalTree _ _ _ _ (spliceTree ⟨t, ""⟩))]
    simp only [evalEach, EvalM.bind_pure]
  rw [hsplice, evalTree_eq_plan]
  exact Alike.record_left _ hx rfl

end Chains

/-- The computations do the same, but that a value that cannot be called is
blamed on an operator by the first one and on an application by the second
one. -/
def BlamedApart {α : Type} (x y : EvalM α) : Prop :=
  ∀ m, x m = y m ∨ ∃ typeName m',
    x m = some (.error (.notCallable "infix" typeName), m') ∧
      y m = some (.error (.notCallable "apply" typeName), m')

namespace BlamedApart

variable {α β : Type}

theorem refl (x : EvalM α) : BlamedApart x x :=
  fun _ => Or.inl rfl

theorem bind
    {x y : EvalM α} {f g : α → EvalM β}
    (hxy : BlamedApart x y) (hfg : ∀ a, BlamedApart (f a) (g a)) :
    BlamedApart (x >>= f) (y >>= g) := by
  intro m
  rcases hxy m with hsame | ⟨typeName, m', hx, hy⟩
  · cases hy : y m with
    | none =>
        rw [hy] at hsame
        exact Or.inl ((EvalM.bind_of_none hsame).trans (EvalM.bind_of_none hy).symm)
    | some o =>
        obtain ⟨r, mid⟩ := o
        rw [hy] at hsame
        cases r with
        | error e =>
            exact Or.inl ((EvalM.bind_of_error hsame).trans
              (EvalM.bind_of_error hy).symm)
        | ok a =>
            rw [EvalM.bind_of_ok hsame, EvalM.bind_of_ok hy]
            exact hfg a mid
  · exact Or.inr ⟨typeName, m', EvalM.bind_of_error hx, EvalM.bind_of_error hy⟩

/-- The tag of a call shows only if the value cannot be called. -/
theorem callValue
    (host : Host) (n : Nat) (callee argument : Value) :
    BlamedApart (callValue host n "infix" callee argument)
      (callValue host n "apply" callee argument) := by
  intro m
  cases n with
  | zero => exact Or.inl rfl
  | succ n =>
      cases callee with
      | function | builtin => exact Or.inl rfl
      | unit | number | text | foreign => exact Or.inr ⟨_, m, rfl, rfl⟩

theorem applyFromRight
    (host : Host) (n : Nat) (v : Value) (vs : List Value) :
    BlamedApart (applyFromRight (Curried.callValue host n) "infix" v vs)
      (applyFromRight (Curried.callValue host n) "apply" v vs) := by
  induction vs generalizing v with
  | nil => exact refl _
  | cons w ws ih => exact bind (ih w) fun a => callValue host n v a

theorem chained
    (host : Host) (n : Nat) (table : Table) (scope : Scope) (t : Tree)
    (ts : List Tree) :
    BlamedApart (chained host (Curried.callValue host n) table scope "infix" t ts)
      (chained host (Curried.callValue host n) table scope "apply" t ts) :=
  bind (refl _) fun v => bind (refl _) fun vs => applyFromRight host n v vs

end BlamedApart

/-- The outcomes and the machines are the same, the journals apart, or a value
that cannot be called is blamed on an operator by the first and on an
application by the second. -/
inductive SameButBlame :
    Except InterpretError Value × Machine →
    Except InterpretError Value × Machine → Prop
  | same {a b : Except InterpretError Value × Machine} :
      Matches a b → SameButBlame a b
  | blamed {typeName : String} {m m' : Machine} :
      m.unrecorded = m'.unrecorded →
      SameButBlame (.error (.failed (.notCallable "infix" typeName)),
        m) (.error (.failed (.notCallable "apply" typeName)), m')

theorem Matches.trans_symm
    {a b c : Except InterpretError Value × Machine}
    (hac : Matches a c) (hbc : Matches b c) :
    Matches a b where
  outcome := hac.outcome.trans hbc.outcome.symm
  machine := by
    intro ha
    rw [hac.machine ha, hbc.machine (by rwa [hbc.outcome, ← hac.outcome])]

/-- What matches computations that are blamed apart is the same but for the
blame. -/
theorem BlamedApart.sameButBlame
    {x y : EvalM Value} {m : Machine} {a b : Except InterpretError Value × Machine}
    (hxy : BlamedApart x y) (ha : Matches a (outcomeOf m (x m)))
    (hb : Matches b (outcomeOf m (y m))) :
    SameButBlame a b := by
  rcases hxy m with hsame | ⟨typeName, m', hx, hy⟩
  · rw [hsame] at ha
    exact .same (ha.trans_symm hb)
  · rw [hx] at ha
    rw [hy] at hb
    obtain ⟨r, n⟩ := a
    obtain ⟨r', n'⟩ := b
    obtain ⟨rfl, hn⟩ := ha
    obtain ⟨rfl, hn'⟩ := hb
    exact .blamed ((hn nofun).trans (hn' nofun).symm)

theorem exists_operands
    {es : List String}
    (h : ∀ e ∈ es, IsOperand e) :
    ∃ ts : List Tree, (∀ t ∈ ts, Derives .custom t) ∧ ts.map Tree.text = es := by
  induction es with
  | nil => exact ⟨[], nofun, rfl⟩
  | cons e es ih =>
      obtain ⟨t, ht, rfl⟩ := isOperand_iff.1 (h e (by simp))
      obtain ⟨ts, hts, rfl⟩ := ih fun e' he' => h e' (by simp [he'])
      exact ⟨t :: ts, List.forall_mem_cons.2 ⟨ht, hts⟩, rfl⟩

/-- Unless the operator table has a `$` of its own, a chain of `$` does what the
nested application does: the operands are evaluated from left to right, each as
it is read alone, and then their values are applied from the right.  Only the
blame for a value that cannot be called is another one. -/
theorem dollar_chain_applies_from_right
    (host : Host) {table : Table} (htable : table.find? "$" = none) (scope : Scope)
    {e : String} {es : List String} (he : IsOperand e)
    (hes : ∀ e' ∈ es, IsOperand e') :
    ∃ t ts, t.text = e ∧ ts.map Tree.text = es ∧ (∀ u ∈ t :: ts, ReadAs u.text u) ∧
      ∀ m : Machine,
        Matches (runSource host table scope (chainText e es) m)
          (outcomeOf m (chained host (callValue host callAllowance) table scope
            "infix" t ts m)) ∧
        Matches (runSource host table scope (nestedText e es) m)
          (outcomeOf m (chained host (callValue host callAllowance) table scope
            "apply" t ts m)) ∧
        SameButBlame (runSource host table scope (chainText e es) m)
          (runSource host table scope (nestedText e es) m) := by
  obtain ⟨t, ht, rfl⟩ := isOperand_iff.1 he
  obtain ⟨ts, hts, rfl⟩ := exists_operands hes
  refine ⟨t, ts, rfl, rfl, ?_, fun m => ?_⟩
  · intro u hu
    exact (List.forall_mem_cons.2 ⟨ht, hts⟩ u hu).loosest.readAs
  have hchain :=
    runSource_expression host scope table (derives_chainTree ht hts)
      (chainTree_alike host scope htable t ts) m
  have hnested :=
    runSource_expression host scope table (derives_nestedTree ht hts)
      (nestedTree_alike host scope table t ts) m
  rw [text_chainTree] at hchain
  rw [text_nestedTree] at hnested
  exact ⟨hchain, hnested,
    (BlamedApart.chained host callAllowance table scope t ts).sameButBlame
    hchain hnested⟩

/-- The operand `2` is blamed on the operator in the chain and on the
application in the nested one. -/
theorem numberChain_blames_operator :
    (∀ e ∈ ["1", "2", "3 + 4"], IsOperand e) ∧
    failure? (runSource Host.standard Table.empty Scope.root "1 $ 2 $ 3 + 4"
      Machine.withRoot).1 = some (.notCallable "infix" "number") ∧
    failure? (runSource Host.standard Table.empty Scope.root "(1) ((2) (3 + 4))"
      Machine.withRoot).1 = some (.notCallable "apply" "number") ∧
    SameButBlame (runSource Host.standard Table.empty Scope.root "1 $ 2 $ 3 + 4"
      Machine.withRoot)
      (runSource Host.standard Table.empty Scope.root "(1) ((2) (3 + 4))"
        Machine.withRoot) := by
  have hnumber : ∀ w : String, isInteger w.toList = true →
      Derives .product (.leaf "integer" w) := fun w hw =>
    .single nofun (.single nofun (.integer hw))
  have hone : IsOperand "1" :=
    isOperand_iff.2 ⟨_, .single nofun (.single nofun (hnumber "1" rfl)), rfl⟩
  have htwo : IsOperand "2" :=
    isOperand_iff.2 ⟨_, .single nofun (.single nofun (hnumber "2" rfl)), rfl⟩
  have hsum : Derives .sum
      (infixTree (.leaf "integer" "3") " " "+" " " (.leaf "integer" "4")) :=
    .left nofun (.single nofun (hnumber "3" rfl)) rfl ⟨rfl,
      rfl⟩ rfl (hnumber "4" rfl)
  have hthree : IsOperand "3 + 4" := isOperand_iff.2 ⟨_, .single nofun hsum, rfl⟩
  have hrest : ∀ e ∈ ["2", "3 + 4"], IsOperand e := by
    simp [htwo, hthree]
  have htable : Table.empty.find? "$" = none := rfl
  obtain ⟨_, _, -, -, -, hruns⟩ :=
    dollar_chain_applies_from_right Host.standard htable Scope.root hone hrest
  refine ⟨List.forall_mem_cons.2 ⟨hone, hrest⟩, ?_, ?_,
    (hruns Machine.withRoot).2.2⟩
  · decide +kernel
  · decide +kernel

end Curried
