import Curried.Proofs.ClosedMachines
import Curried.Proofs.Outlook

/-!
# Respelled parameters

Two runs that differ in the spelling of a parameter: where the functions of the
first run call it `p`, those of the second one call it `q`.

**Marks.**  The frames of the two machines have the same numbers and the same
parents.  Most of them are plain: they bind the same names.  A frame with an
argument of a respelled function binds the parameter in the first machine and
the respelled parameter in the second one.  A list of `Mark`s tells the frames
apart.

**Searches.**  A respelled body is evaluated behind frames with all arguments of
its function, behind which there are only plain ones.  `p` is bound by one of
those arguments and `q` by none, so neither name gets past them in the run that
uses it; all other names are searched for under the same spelling.

**Results.**
* `Simulation.respelling`: the two runs keep step.
* `Machine.Closed.respelled`: a closed machine is a machine of both runs.
-/

namespace Curried

/-- The name `q` in place of `p`, and every other name as it is. -/
def respell {α : Type} [DecidableEq α] (p q x : α) : α :=
  if x = p then q else x

theorem respell_of_ne
    {α : Type} [DecidableEq α] {p q x : α}
    (h : x ≠ p) :
    respell p q x = x :=
  if_neg h

/-- Different names are spelled differently if none of them is the new one. -/
theorem respell_inj
    {α : Type} [DecidableEq α] {p q x y : α}
    (hx : x ≠ q) (hy : y ≠ q) :
    respell p q x = respell p q y ↔ x = y := by
  unfold respell
  constructor
  · intro h
    split at h <;> split at h
    · rename_i hxp hyp
      rw [hxp, hyp]
    · exact absurd h.symm hy
    · exact absurd h hx
    · exact h
  · rintro rfl
    rfl

section Codes

variable (p q : String)

/-- The second code is the first one, an expression without the name `q`, with
`q` in place of `p`. -/
inductive Code.Respelled : Code → Code → Prop
  | fail (e : EvalError) :
      Respelled (.fail e) (.fail e)
  | give (v : Value) :
      Respelled (.give v) (.give v)
  | look {x : String} :
      x ≠ q → Respelled (.look x) (.look (respell p q x))
  | operate {left left' right right' : Code} (symbol : String) :
      Respelled left left' → Respelled right right' →
      Respelled (.operate left symbol right) (.operate left' symbol right')
  | apply {function function' argument argument' : Code} :
      Respelled function function' → Respelled argument argument' →
      Respelled (.apply function argument) (.apply function' argument')

/-- The second code is the first one, or it defines the function that the first
one defines, with the parameter respelled. -/
inductive Code.Edited : Code → Code → Prop
  | same (c : Code) :
      Edited c c
  | function {parameter : String} {others : List String} {body body' : Code}
      (name : String) :
      p ∈ parameter :: others → q ∉ parameter :: others → body.Respelled p q body' →
      Edited (.define name parameter others body)
        (.define name (respell p q parameter) (others.map (respell p q)) body')

end Codes

/-- What a frame is: a plain one, or one with an argument of a respelled
function, under the name of the parameter. -/
inductive Mark where
  | plain
  | argument (parameter : String) (parent : Scope)

/-- The mark of the frame of a scope. -/
def mark? (w : List Mark) (scope : Scope) : Option Mark :=
  w[scope.index]?

theorem lt_of_mark?
    {w : List Mark} {scope : Scope} {mark : Mark}
    (h : mark? w scope = some mark) :
    scope.index < w.length :=
  (List.getElem?_eq_some_iff.1 h).1

theorem mark?_later
    {w w' : List Mark} {scope : Scope} {mark : Mark}
    (h : mark? w scope = some mark) (hw : w <+: w') :
    mark? w' scope = some mark := by
  obtain ⟨more, rfl⟩ := hw
  rw [mark?, List.getElem?_append_left (lt_of_mark? h)]
  exact h

/-- The mark of an added frame is the one that is added. -/
theorem mark?_length
    (w : List Mark) (mark : Mark) :
    mark? (w ++ [mark]) ⟨w.length⟩ = some mark := by
  simp [mark?]

theorem mark?_append
    {w : List Mark} {scope : Scope} {mark mark' : Mark}
    (h : mark? (w ++ [mark]) scope = some mark') :
    mark? w scope = some mark' ∨ scope.index = w.length ∧ mark' = mark := by
  rw [mark?, List.getElem?_append] at h
  split at h
  · exact Or.inl h
  · obtain ⟨hindex, hmark⟩ := List.getElem?_eq_some_iff.1 h
    simp only [List.length_singleton] at hindex
    refine Or.inr ⟨by omega, ?_⟩
    simpa using hmark.symm

/-- The scope stands behind frames with arguments for these parameters, the last
one first, and then behind plain ones. -/
inductive Supplied (w : List Mark) : Scope → List String → Prop
  | none {scope : Scope} :
      mark? w scope = some .plain → Supplied w scope []
  | argument {x : String} {scope parent : Scope} {xs : List String} :
      mark? w scope = some (.argument x parent) → parent.index < scope.index →
      Supplied w parent xs →
      Supplied w scope (x :: xs)

namespace Supplied

variable {w w' : List Mark} {scope : Scope} {xs : List String}

theorem later
    (h : Supplied w scope xs) (hw : w <+: w') :
    Supplied w' scope xs := by
  induction h with
  | none hplain => exact .none (mark?_later hplain hw)
  | argument hmark hless _ ih => exact .argument (mark?_later hmark hw) hless ih

theorem lt_length
    (h : Supplied w scope xs) :
    scope.index < w.length := by
  cases h with
  | none hplain => exact lt_of_mark? hplain
  | argument hmark => exact lt_of_mark? hmark

/-- One more argument has been supplied, in a frame of its own. -/
theorem push
    (h : Supplied w scope xs) (x : String) :
    Supplied (w ++ [.argument x scope]) ⟨w.length⟩ (x :: xs) :=
  .argument (mark?_length w _) h.lt_length (h.later (List.prefix_append _ _))

end Supplied

section Relations

variable (p q : String) (w : List Mark)

/-- The functions are the same but for the wording of their bodies, or the
parameter is respelled in the second one.  In that case the scope stands behind
the arguments that have been supplied. -/
inductive Closure.Respelled : Closure → Closure → Prop
  | same {name : String} {params : List String} {next : Nat} {body body' : Tree}
      {scope : Scope} {table : Table} :
      body.code = body'.code → mark? w scope = some .plain →
      Respelled ⟨name, params, next, body, scope, table⟩
        ⟨name, params, next, body', scope, table⟩
  | respelled {name : String} {params : List String} {next : Nat}
      {body body' : Tree} {scope : Scope} {table : Table} :
      next < params.length → Supplied w scope (params.take next).reverse →
      p ∈ params → q ∉ params → body.code.Respelled p q body'.code →
      Respelled ⟨name, params, next, body, scope, table⟩
        ⟨name, params.map (respell p q), next, body', scope, table⟩

/-- What is made gets the same number in both runs. -/
def Kinship.respelling : Kinship where
  World := List Mark
  later := (· <+: ·)
  identity := fun _ => Eq
  function := Closure.Respelled p q
  later_refl := List.prefix_refl
  later_trans := List.IsPrefix.trans
  identity_later := fun _ h => h
  function_later := by
    intro w w' c c' hw h
    cases h with
    | same hcode hplain => exact .same hcode (mark?_later hplain hw)
    | respelled hwaits hxs hp hq hbody =>
        exact .respelled hwaits (hxs.later hw) hp hq hbody
  identity_iff := fun hi hj => by rw [hi, hj]
  name_eq := fun h => by cases h <;> rfl
  arity_eq := fun h => by cases h <;> simp [Closure.arity]

/-- The values are the same but for functions whose parameter is respelled. -/
abbrev Value.Respelled : Value → Value → Prop :=
  Value.Kin (.respelling p q) w

/-- Plain frames have the same plain parent and bind the same names.  Frames
with an argument bind the parameter, and the respelled parameter. -/
inductive Frame.Respelled : Mark → Frame → Frame → Prop
  | plain {f f' : Frame} :
      f.parent = f'.parent →
      (∀ parent, f.parent = some parent → mark? w parent = some .plain) →
      (∀ x : String,
        Option.Rel (Value.Respelled p q w) f.bindings[x]? f'.bindings[x]?) →
      Respelled .plain f f'
  | argument {v v' : Value} (x : String) (parent : Scope) :
      v.Respelled p q w v' →
      Respelled (.argument x parent)
        ⟨(∅ : Std.TreeMap String Value).insert x v, some parent⟩
        ⟨(∅ : Std.TreeMap String Value).insert (respell p q x) v', some parent⟩

/-- The frames are the marked ones, and are as their marks say. -/
structure Store.Respelled (s s' : Store) : Prop where
  size : s.frames.size = w.length
  size' : s'.frames.size = w.length
  frame : ∀ ⦃scope : Scope⦄ ⦃mark : Mark⦄, mark? w scope = some mark →
    ∃ f f', s.frame? scope = some f ∧ s'.frame? scope = some f' ∧
      f.Respelled p q w mark f'

/-- The machines are the same but for their logs and journals, and for respelled
parameters. -/
structure Machine.Respelled (m m' : Machine) : Prop where
  store : m.store.Respelled p q w m'.store
  made : m.made = m'.made
  depth : m.depth = m'.depth

/-- The trees are evaluated at the same site: in a plain scope they are programs
or declarations of which some are edited, and behind the arguments of a function
they are its body and the respelled body. -/
inductive Site.Respelled : Site → Site → Tree → Tree → Prop
  | program {a : Site} {t t' : Tree} {cs cs' : List Code} :
      mark? w a.scope = some .plain → t.code = .sequence cs →
      t'.code = .sequence cs' →
      List.Forall₂ (Code.Edited p q) cs cs' → Respelled a a t t'
  | declaration {a : Site} {t t' : Tree} :
      mark? w a.scope = some .plain → t.code.Edited p q t'.code → Respelled a a t t'
  | body {a : Site} {t t' : Tree} {xs : List String} :
      Supplied w a.scope xs → p ∈ xs → q ∉ xs → t.code.Respelled p q t'.code →
      Respelled a a t t'

end Relations

variable {p q : String} {w w' : List Mark}

theorem Frame.Respelled.later
    {mark : Mark} {f f' : Frame}
    (h : f.Respelled p q w mark f') (hw : w <+: w') :
    f.Respelled p q w' mark f' := by
  cases h with
  | plain hparent hplain hbindings =>
      refine .plain hparent (fun parent hp => mark?_later (hplain parent hp) hw)
        fun x => ?_
      exact rel_imp (hbindings x) fun _ _ hv => hv.later hw
  | argument x parent hv =>
      exact .argument x parent (hv.later hw)

/-- A frame with one binding. -/
theorem getElem?_single
    (x y : String) (v : Value) :
    ((∅ : Std.TreeMap String Value).insert x v)[y]? =
      if x = y then some v else none := by
  simp [Std.TreeMap.getElem?_insert]

namespace Store.Respelled

variable {s s' : Store}

theorem next_eq
    (h : s.Respelled p q w s') :
    s.next = ⟨w.length⟩ ∧ s'.next = ⟨w.length⟩ :=
  ⟨congrArg Scope.mk h.size, congrArg Scope.mk h.size'⟩

/-- A frame is added on both sides. -/
theorem push
    (h : s.Respelled p q w s') {mark : Mark} {f f' : Frame}
    (hf : f.Respelled p q w mark f') :
    (s.push f).Respelled p q (w ++ [mark]) (s'.push f') where
  size := by simp [h.size]
  size' := by simp [h.size']
  frame := by
    intro scope mark' hmark
    obtain ⟨hnext, hnext'⟩ := h.next_eq
    rw [Store.frame?_push, Store.frame?_push, hnext, hnext']
    have hw : w <+: w ++ [mark] := List.prefix_append _ _
    rcases mark?_append hmark with hold | ⟨hindex, rfl⟩
    · obtain ⟨g, g', hg, hg', hrespelled⟩ := h.frame hold
      have hne : scope ≠ ⟨w.length⟩ := by
        rintro rfl
        exact Nat.lt_irrefl _ (lt_of_mark? hold)
      rw [if_neg hne, if_neg hne]
      exact ⟨g, g', hg, hg', hrespelled.later hw⟩
    · have heq : scope = ⟨w.length⟩ := congrArg Scope.mk hindex
      rw [if_pos heq, if_pos heq]
      exact ⟨f, f', rfl, rfl, hf.later hw⟩

/-- A name is bound in a plain scope. -/
theorem define
    (h : s.Respelled p q w s') {scope : Scope} {v v' : Value}
    (hscope : mark? w scope = some .plain) (hv : v.Respelled p q w v')
    (x : String) :
    (s.define scope x v).Respelled p q w (s'.define scope x v') where
  size := by simp [h.size]
  size' := by simp [h.size']
  frame := by
    intro other mark hmark
    obtain ⟨f, f', hf, hf', hrespelled⟩ := h.frame hmark
    rw [Store.frame?_define, Store.frame?_define]
    by_cases hother : other = scope
    · subst hother
      obtain rfl : mark = .plain := Option.some.inj (hmark.symm.trans hscope)
      rw [if_pos rfl, if_pos rfl, hf, hf']
      cases hrespelled with
      | plain hparent hplain hbindings =>
          exact ⟨_, _, rfl, rfl, .plain hparent hplain (rel_insert hbindings hv x)⟩
    · rw [if_neg hother, if_neg hother]
      exact ⟨f, f', hf, hf', hrespelled⟩

/-- From a plain scope every name is found in both runs or in none. -/
theorem lookupWithin
    (h : s.Respelled p q w s') (x : String) :
    ∀ (n : Nat) {scope : Scope}, mark? w scope = some .plain →
      Option.Rel (Value.Respelled p q w) (s.lookupWithin x n scope)
        (s'.lookupWithin x n scope)
  | 0, _, _ => .none
  | n + 1, scope, hscope => by
      obtain ⟨f, f', hf, hf', hrespelled⟩ := h.frame hscope
      simp only [Store.lookupWithin, hf, hf']
      cases hrespelled with
      | plain hparent hplain hbindings =>
          have hx := hbindings x
          generalize f.bindings[x]? = b, f'.bindings[x]? = b' at hx
          cases hx with
          | some hv => exact .some hv
          | none =>
              rw [← hparent]
              cases hp : f.parent with
              | none => exact .none
              | some parent => exact h.lookupWithin x n (hplain parent hp)

theorem names_eq
    (h : s.Respelled p q w s') {scope : Scope}
    (hscope : mark? w scope = some .plain) :
    s.names scope = s'.names scope := by
  obtain ⟨f, f', hf, hf', hrespelled⟩ := h.frame hscope
  simp only [Store.names, hf, hf']
  cases hrespelled with
  | plain _ _ hbindings => exact keys_eq_of_rel hbindings

theorem named
    (h : s.Respelled p q w s') {scope : Scope}
    (hscope : mark? w scope = some .plain) (x : String) :
    Both (Value.Respelled p q w) (s.named scope x) (s'.named scope x) :=
  Store.both_named (h.lookupWithin x _ hscope) fun _ => rfl

/-- Behind the arguments of a function, a name and the name in its new spelling
are found in both runs or in none; and if they are not found, then they are the
same. -/
theorem lookupWithin_supplied
    (h : s.Respelled p q w s') {scope : Scope} {xs : List String} {x : String}
    (hxs : Supplied w scope xs) (hq : q ∉ xs) (hxq : x ≠ q) (hxp : x = p → x ∈ xs) :
    ∀ {n : Nat}, scope.index < n →
      Option.Rel (Value.Respelled p q w) (s.lookupWithin x n scope)
        (s'.lookupWithin (respell p q x) n scope) ∧
      (s.lookupWithin x n scope = none → respell p q x = x) := by
  -- the argument of `p` is yet to come, so the search cannot leave the
  -- arguments with it
  induction hxs with
  | @none scope hplain =>
      intro n _
      have hsame : respell p q x = x :=
        respell_of_ne fun hx => List.not_mem_nil (hxp hx)
      rw [hsame]
      exact ⟨h.lookupWithin x n hplain, fun _ => rfl⟩
  | @argument y scope parent xs hmark hless _ ih =>
      intro n hn
      obtain ⟨n, rfl⟩ : ∃ k, n = k + 1 := ⟨n - 1, by omega⟩
      obtain ⟨hyq, hq⟩ := not_or.1 (mt List.mem_cons.2 hq)
      obtain ⟨f, f', hf, hf', hrespelled⟩ := h.frame hmark
      cases hrespelled with
      | argument _ _ hv =>
          simp only [Store.lookupWithin, hf, hf', getElem?_single,
            respell_inj (Ne.symm hyq) hxq]
          by_cases hyx : y = x
          · simp only [if_pos hyx]
            exact ⟨.some hv, fun hnone => absurd hnone (Option.some_ne_none _)⟩
          · simp only [if_neg hyx]
            have hleft : x = p → x ∈ xs :=
              fun hx => (List.mem_cons.1 (hxp hx)).resolve_left (Ne.symm hyx)
            exact ih hq hleft (by omega)

theorem named_supplied
    (h : s.Respelled p q w s') {scope : Scope} {xs : List String} {x : String}
    (hxs : Supplied w scope xs) (hp : p ∈ xs) (hq : q ∉ xs) (hxq : x ≠ q) :
    Both (Value.Respelled p q w) (s.named scope x)
      (s'.named scope (respell p q x)) := by
  obtain ⟨hfound, hsame⟩ :=
    h.lookupWithin_supplied hxs hq hxq (fun hx => hx ▸ hp)
      (Nat.lt_succ_self scope.index)
  exact Store.both_named hfound hsame

end Store.Respelled

/-- What is respelled belongs together. -/
def Pairing.respelling (p q : String) : Pairing where
  toKinship := .respelling p q
  machine := Machine.Respelled p q
  program := Site.Respelled p q

/-- Names can be bound in plain scopes. -/
theorem Pairing.respelling_binds
    {a : Site}
    (h : mark? w a.scope = some .plain) (x : String) :
    (Pairing.respelling p q).Binds w a a x x := by
  intro w₁ m m' v v' hw hm hv
  exact ⟨hm.store.define (mark?_later h hw) hv x, hm.made, hm.depth⟩

/-- All code is treated alike in plain scopes. -/
theorem Pairing.respelling_agrees
    {a : Site}
    (h : mark? w a.scope = some .plain) (c : Code) :
    (Pairing.respelling p q).Agrees Likeness.code.like w a a c where
  look := fun x _ _ _ hw hm => hm.store.named (mark?_later h hw) x
  binds := Pairing.respelling_binds h
  parts := fun t _ _ hcode => .declaration h (hcode ▸ .same t.code)
  function := fun _ _ _ _ _ _ hbody => .same hbody h
  symbol := fun _ _ _ _ => rfl

/-- Expressions and respelled expressions do the same behind the arguments of a
function. -/
theorem Code.Respelled.aligned
    {a : Site} {t t' : Tree} {xs : List String}
    (hcode : t.code.Respelled p q t'.code)
    (hxs : Supplied w a.scope xs) (hp : p ∈ xs) (hq : q ∉ xs) :
    t.core.Aligned (.respelling p q) w a a t'.core := by
  have hgive : ∀ v, t.core = .give v → ∀ w₁, v.Respelled p q w₁ v :=
    fun _ hv => Tree.kin_of_core hv (.respelling p q)
  have hfollows := t.core_follows
  have hfollows' := t'.core_follows
  generalize t.core = plan at hfollows hgive
  generalize t'.core = plan' at hfollows'
  generalize t.code = c, t'.code = c' at hcode hfollows hfollows'
  cases hcode with
  | fail e =>
      cases hfollows
      cases hfollows'
      exact .fail e
  | give v =>
      cases hfollows
      cases hfollows'
      exact .give (hgive v rfl)
  | look hxq =>
      cases hfollows
      cases hfollows'
      exact .look fun _ _ _ hw hm =>
        hm.store.named_supplied (hxs.later hw) hp hq hxq
  | operate symbol hleft hright =>
      cases hfollows with
      | operate _ hl hr =>
          cases hfollows' with
          | operate _ hl' hr' =>
              exact .operate (.body hxs hp hq (hl ▸ hl' ▸ hleft))
                (.body hxs hp hq (hr ▸ hr' ▸ hright)) rfl
  | apply hfunction hargument =>
      cases hfollows with
      | apply hf ha =>
          cases hfollows' with
          | apply hf' ha' =>
              exact .apply (.body hxs hp hq (hf ▸ hf' ▸ hfunction))
                (.body hxs hp hq (ha ▸ ha' ▸ hargument))

/-- Declarations and edited declarations do the same in plain scopes. -/
theorem Code.Edited.aligned
    {a : Site} {t t' : Tree}
    (hcode : t.code.Edited p q t'.code) (h : mark? w a.scope = some .plain) :
    t.core.Aligned (.respelling p q) w a a t'.core := by
  by_cases hsame : t.code = t'.code
  · exact Likeness.code.core_aligned hsame (Pairing.respelling_agrees h _)
  have hfollows := t.core_follows
  have hfollows' := t'.core_follows
  generalize t.core = plan at hfollows
  generalize t'.core = plan' at hfollows'
  generalize t.code = c, t'.code = c' at hcode hsame hfollows hfollows'
  cases hcode with
  | same => exact absurd rfl hsame
  | function name hp hq hbody =>
      cases hfollows with
      | define _ _ _ hb =>
          cases hfollows' with
          | define _ _ _ hb' =>
              refine .define ?_ (Pairing.respelling_binds h name)
              exact .respelled (Nat.succ_pos _) (.none h) hp hq (hb ▸ hb' ▸ hbody)

theorem Site.Respelled.aligned
    {a a' : Site} {t t' : Tree}
    (h : a.Respelled p q w a' t t') :
    t.core.Aligned (.respelling p q) w a a' t'.core := by
  cases h with
  | declaration hplain hcode => exact hcode.aligned hplain
  | body hxs hp hq hcode => exact hcode.aligned hxs hp hq
  | program hplain hcode hcode' hedited =>
      have hfollows := t.core_follows
      have hfollows' := t'.core_follows
      rw [hcode] at hfollows
      rw [hcode'] at hfollows'
      generalize t.core = plan at hfollows
      generalize t'.core = plan' at hfollows'
      cases hfollows with
      | sequence hparts =>
          cases hfollows' with
          | sequence hparts' =>
              rw [← hparts, ← hparts', List.forall₂_map_left_iff,
                List.forall₂_map_right_iff] at hedited
              exact .sequence (hedited.imp fun _ _ => .declaration hplain)

namespace Machine.Respelled

variable {m m' : Machine}

theorem push
    (h : m.Respelled p q w m') {mark : Mark} {f f' : Frame}
    (hf : f.Respelled p q w mark f') :
    Machine.Respelled p q (w ++ [mark]) { m with store := m.store.push f }
      { m' with store := m'.store.push f' } :=
  ⟨h.store.push hf, h.made, h.depth⟩

/-- Both machines get a plain frame with an argument. -/
theorem pushChild
    (h : m.Respelled p q w m') {scope : Scope} {v v' : Value}
    (hscope : mark? w scope = some .plain) (hv : v.Respelled p q w v')
    (x : String) :
    Machine.Respelled p q (w ++ [.plain])
      { m with store := m.store.pushChild scope x v }
      { m' with store := m'.store.pushChild scope x v' } := by
  refine h.push (.plain rfl ?_ (rel_insert (fun y => by simp) hv x))
  rintro parent ⟨⟩
  exact hscope

/-- Both machines get a frame with an argument, for the parameter and the
respelled parameter. -/
theorem pushArgument
    (h : m.Respelled p q w m') (c c' : Closure) (hwaits : c.next < c.params.length)
    (hparams : c'.params = c.params.map (respell p q)) (hnext : c'.next = c.next)
    (hscope : c'.scope = c.scope) {v v' : Value} (hv : v.Respelled p q w v') :
    Machine.Respelled p q (w ++ [.argument c.parameter c.scope])
      (m.extended c v) (m'.extended c' v') := by
  have hparameter : c'.parameter = respell p q c.parameter := by
    have hfirst :=
      congrArg (Option.map (respell p q)) (Closure.getElem?_next hwaits)
    rw [← List.getElem?_map, ← hparams, ← hnext] at hfirst
    have hwaits' : c'.next < c'.params.length := by
      rwa [hparams, hnext, List.length_map]
    rw [Closure.getElem?_next hwaits'] at hfirst
    exact Option.some.inj hfirst
  unfold Machine.extended
  rw [hparameter, hscope]
  exact h.push (.argument c.parameter c.scope hv)

end Machine.Respelled

/-- One more argument has been supplied: the one for the next parameter. -/
theorem Supplied.next
    {c : Closure} (hwaits : c.next < c.params.length)
    (h : Supplied w c.scope (c.params.take c.next).reverse) :
    Supplied (w ++ [.argument c.parameter c.scope]) ⟨w.length⟩
      (c.params.take (c.next + 1)).reverse := by
  rw [List.take_add_one, Closure.getElem?_next hwaits, Option.toList_some,
    List.reverse_append]
  exact h.push c.parameter

/-- The two runs keep step. -/
def Simulation.respelling (p q : String) : Simulation where
  toPairing := .respelling p q
  program_later := by
    intro w w' a a' t t' hw h
    cases h with
    | program hplain hcode hcode' hedited =>
        exact .program (mark?_later hplain hw) hcode hcode' hedited
    | declaration hplain hcode => exact .declaration (mark?_later hplain hw) hcode
    | body hxs hp hq hcode => exact .body (hxs.later hw) hp hq hcode
  program_aligned := Site.Respelled.aligned
  machine_unrecorded := by
    intro w m m' n n' h hn hn'
    obtain ⟨hstore, hmade, hdepth, -⟩ := Machine.mk.inj hn
    obtain ⟨hstore', hmade', hdepth', -⟩ := Machine.mk.inj hn'
    refine ⟨hstore ▸ hstore' ▸ h.store, ?_, ?_⟩
    · rw [hmade, hmade', h.made]
    · rw [hdepth, hdepth', h.depth]
  machine_depth := fun h => h.depth
  machine_counted := fun h _ => { h with depth := rfl }
  machine_write := fun h _ => ⟨h.store, h.made, h.depth⟩
  machine_fresh :=
    fun {w} _ _ h =>
      ⟨w, List.prefix_refl w, h.made, h.store, congrArg (· + 1) h.made, h.depth⟩
  function_enter := by
    intro w m m' c c' v v' hc hlast hm hv
    obtain ⟨hnext, hnext'⟩ := hm.store.next_eq
    rw [hnext, hnext']
    cases hc with
    | same hcode hplain =>
        exact ⟨_, List.prefix_append _ _, hm.pushChild hplain hv _,
          .declaration (mark?_length w _) (hcode ▸ .same _)⟩
    | @respelled name params next body body' scope table hwaits hxs hp hq hbody =>
        let c : Closure := ⟨name, params, next, body, scope, table⟩
        let c' : Closure :=
          ⟨name, params.map (respell p q), next, body', scope, table⟩
        have hall : Supplied _ _ (c.params.take (c.next + 1)).reverse :=
          Supplied.next hwaits hxs
        rw [c.next_succ_eq_length_iff.2 hlast, List.take_length] at hall
        refine ⟨_, List.prefix_append _ _,
          hm.pushArgument c c' hwaits rfl rfl rfl hv, ?_⟩
        exact .body hall (List.mem_reverse.2 hp) (mt List.mem_reverse.1 hq) hbody
  function_receive := by
    intro w m m' c c' v v' hc hmore hm hv
    obtain ⟨hnext, hnext'⟩ := hm.store.next_eq
    rw [hnext, hnext']
    cases hc with
    | same hcode hplain =>
        exact ⟨_, List.prefix_append _ _, hm.pushChild hplain hv _,
          .same hcode (mark?_length w _)⟩
    | @respelled name params next body body' scope table hwaits hxs hp hq hbody =>
        let c : Closure := ⟨name, params, next, body, scope, table⟩
        let c' : Closure :=
          ⟨name, params.map (respell p q), next, body', scope, table⟩
        have hwaits' : next + 1 < params.length := by
          unfold Closure.arity at hmore
          dsimp only at hmore
          omega
        refine ⟨_, List.prefix_append _ _,
          hm.pushArgument c c' hwaits rfl rfl rfl hv, ?_⟩
        exact .respelled hwaits' (Supplied.next (c := c) hwaits hxs) hp hq hbody

/-- A plain scope can be looked at from both runs. -/
theorem Simulation.respelling_window
    {scope : Scope}
    (h : mark? w scope = some .plain) :
    (Simulation.respelling p q).Window w scope where
  program := fun _ t => .declaration h (.same t.code)
  names := fun _ _ _ hw hm => hm.store.names_eq (mark?_later h hw)

/-- A closed machine is a machine of both runs, in which all frames are
plain. -/
theorem Machine.Closed.respelled
    {m : Machine}
    (h : m.Closed) :
    m.Respelled p q (List.replicate m.store.frames.size .plain) m := by
  have hplain : ∀ {scope : Scope}, scope.index < m.store.frames.size →
      mark? (List.replicate m.store.frames.size .plain) scope = some .plain :=
    fun hscope => List.getElem?_replicate_of_lt hscope
  refine ⟨⟨by simp, by simp, ?_⟩, rfl, rfl⟩
  intro scope mark hmark
  have hscope : scope.index < m.store.frames.size := by
    have := lt_of_mark? hmark
    rwa [List.length_replicate] at this
  obtain rfl : mark = .plain := Option.some.inj (hmark.symm.trans (hplain hscope))
  obtain ⟨f, hf⟩ := Store.exists_frame hscope
  refine ⟨f, f, hf, hf, .plain rfl (fun parent hp => ?_) fun x => ?_⟩
  · exact hplain (Nat.lt_trans (h.earlier hf hp) hscope)
  · cases hx : f.bindings[x]? with
    | none => exact .none
    | some v =>
        exact .some ((h.value hf hx).kin (fun _ => rfl) fun hc =>
          .same rfl (hplain hc.scope))

end Curried
