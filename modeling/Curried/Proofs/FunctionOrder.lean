import Curried.Proofs.DiscardedCalls
import Curried.Proofs.ParameterNames
import Curried.Proofs.Reordering

/-!
# The order of functions

A name in the body of a function is looked up when the body is evaluated, and
not when the function is defined.  So functions that stand side by side in a
program can be defined in any order, as long as their names are different and
more is to come: the value of a program is that of its last declaration.

**Definitions.**  A `Definition` is the declaration of a function.  To evaluate
a block of them is to make the functions in order and to bind them, and no more
than that; `MadeBy` says which functions they are.

**Results.**
* `evalEach_definitions`: what evaluating a block does.
* `runTree_reordered`: programs that differ in the order of a block end
  together, up to a renaming.
* `function_order_unobservable`: so they cannot be told apart, neither by what
  they show nor by what is run later.
-/

namespace Curried

open Grammar Lexeme

/-- A function as a program declares it. -/
structure Definition where
  name : Name
  parameter : Name
  others : List Name
  body : Expression .dollar

namespace Definition

/-- The declaration of the function. -/
def declaration (d : Definition) : Declaration :=
  .function d.name d.parameter d.others d.body

/-- The function is one that the definition makes at a site. -/
structure Makes (a : Site) (d : Definition) (c : Closure) : Prop where
  name : c.name = d.name.1
  params : c.params = d.parameter.1 :: d.others.map (·.1)
  next : c.next = 0
  code : c.body.code = d.body.code
  scope : c.scope = a.scope
  table : c.table = a.table

/-- What a definition makes on one machine belongs to what it makes on the
other. -/
theorem Makes.renamed
    {ρ : Renaming} {w : Extent} {a : Site} {d : Definition} {c c' : Closure}
    (h : d.Makes a c) (h' : d.Makes a c') (hscope : ρ.scope a.scope = a.scope)
    (hknown : a.scope.index < w.frames) :
    c.Renamed .code ρ w c' where
  name := h.name.trans h'.name.symm
  params := h.params.trans h'.params.symm
  next := h.next.trans h'.next.symm
  body := h.code.trans h'.code.symm
  scope := by rw [h'.scope, h.scope, hscope]
  table := h.table.trans h'.table.symm
  known := ⟨by rwa [h.scope], by rw [h.next, h.params]; exact Nat.succ_pos _⟩

end Definition

/-- The functions are those that the definitions make at a site, in order. -/
structure MadeBy (a : Site) (block : List Definition) (cs : List Closure) :
    Prop where
  names : cs.map Closure.name = block.map (·.name.1)
  makes : ∀ c ∈ cs, ∃ d ∈ block, d.Makes a c

theorem MadeBy.cons
    {a : Site} {d : Definition} {c : Closure} {block : List Definition}
    {cs : List Closure}
    (hc : d.Makes a c) (hcs : MadeBy a block cs) :
    MadeBy a (d :: block) (c :: cs) where
  names := by rw [List.map_cons, List.map_cons, hc.name, hcs.names]
  makes := by
    intro c' hc'
    rcases List.mem_cons.1 hc' with rfl | hc'
    · exact ⟨d, List.mem_cons_self, hc⟩
    · obtain ⟨d', hd', hmakes⟩ := hcs.makes c' hc'
      exact ⟨d', List.mem_cons_of_mem d hd', hmakes⟩

theorem Machine.defineEach_unrecorded
    (m : Machine) (scope : Scope) (cs : List Closure) :
    (m.defineEach scope cs).unrecorded = m.unrecorded.defineEach scope cs := by
  induction cs generalizing m with
  | nil => rfl
  | cons c cs ih => exact ih _

/-- Evaluating the declaration of a function makes the function and binds it. -/
theorem evalTree_definition
    {d : Definition} {t : Tree}
    (h : t.code = d.declaration.code) (a : Site) :
    ∃ c, d.Makes a c ∧ ∀ (host : Host) (call : Caller) (m : Machine), ∃ v n,
      evalTree host call a.table a.scope t m = some (.ok v, n) ∧
      n.unrecorded = (m.defineEach a.scope [c]).unrecorded := by
  have hcore : ∃ body,
      t.core = .define d.name.1 d.parameter.1 (d.others.map (·.1)) body ∧
      body.code = d.body.code := by
    have hfollows := t.core_follows
    rw [h] at hfollows
    generalize t.core = p at hfollows
    cases hfollows with
    | define _ _ _ hbody => exact ⟨_, rfl, hbody⟩
  obtain ⟨body, hcore, hbody⟩ := hcore
  let c : Closure :=
    ⟨d.name.1, d.parameter.1 :: d.others.map (·.1), 0, body, a.scope, a.table⟩
  refine ⟨c, ⟨rfl, rfl, rfl, hbody, rfl, rfl⟩, fun host call m => ?_⟩
  obtain ⟨n, hn, heval⟩ := evalTree_core host call a.table a.scope t m
  refine ⟨.function n.made c,
    (n.record (.define c.name c.parameters)).defineEach a.scope [c], ?_, ?_⟩
  · rw [heval, hcore]
    rfl
  · rw [Machine.defineEach_unrecorded, Machine.defineEach_unrecorded]
    exact congrArg (·.defineEach a.scope [c]) hn

/-- Evaluating the declarations of functions makes the functions in order and
binds them. -/
theorem evalEach_definitions
    {block : List Definition} {ts : List Tree}
    (h : ts.map Tree.code = block.map (·.declaration.code)) (a : Site) :
    ∃ cs, MadeBy a block cs ∧
      ∀ (host : Host) (call : Caller) (last : Value) (m : Machine), ∃ v n,
      evalEach host call a.table a.scope ts last m = some (.ok v, n) ∧
      n.unrecorded = (m.defineEach a.scope cs).unrecorded := by
  induction block generalizing ts with
  | nil =>
      obtain rfl := List.map_eq_nil_iff.1 h
      refine ⟨[], ⟨rfl, by simp⟩, fun host call last m => ⟨last, m, ?_, rfl⟩⟩
      rw [evalEach]
      rfl
  | cons d block ih =>
      rw [List.map_cons, List.map_eq_cons_iff] at h
      obtain ⟨t, ts, rfl, ht, hts⟩ := h
      obtain ⟨c, hc, hfirst⟩ := evalTree_definition ht a
      obtain ⟨cs, hcs, hrest⟩ := ih hts
      refine ⟨c :: cs, hcs.cons hc, fun host call last m => ?_⟩
      obtain ⟨u, mid, hmid, hsame⟩ := hfirst host call m
      obtain ⟨v, n, hn, hsame'⟩ := hrest host call u mid
      refine ⟨v, n, by rw [evalEach, EvalM.bind_of_ok hmid, hn], ?_⟩
      calc n.unrecorded
          = mid.unrecorded.defineEach a.scope cs := by
            rw [hsame', Machine.defineEach_unrecorded]
        _ = (m.defineEach a.scope (c :: cs)).unrecorded := by
            rw [hsame, ← Machine.defineEach_unrecorded]
            rfl

/-- Functions with different names are defined on both machines, on each in an
order of its own. -/
theorem Machine.Renamed.madeBy
    {ρ : Renaming} {w : Extent} {a : Site} {m m' : Machine}
    {block block' : List Definition} {cs cs' : List Closure}
    (hm : m.Renamed .code ρ w m') (hscope : ρ.scope a.scope = a.scope)
    (hknown : a.scope.index < w.frames)
    (hperm : block.Perm block') (hnodup : (block.map Definition.name).Nodup)
    (hcs : MadeBy a block cs) (hcs' : MadeBy a block' cs') :
    ∃ hnames : (cs.map Closure.name).Perm (cs'.map Closure.name),
      (m.defineEach a.scope cs).Renamed .code (ρ.reordered hnames m.made)
        ⟨m.made + cs.length, w.frames⟩ (m'.defineEach a.scope cs') := by
  have hnames : (cs.map Closure.name).Perm (cs'.map Closure.name) := by
    rw [hcs.names, hcs'.names]
    exact hperm.map _
  have hdistinct : (cs.map Closure.name).Nodup := by
    have hvals := hnodup.map Subtype.val_injective
    rw [List.map_map] at hvals
    rwa [hcs.names]
  have hfunctions : ∀ c ∈ cs, ∀ c' ∈ cs', c.name = c'.name →
      c.Renamed .code ρ w c' := by
    intro c hc c' hc' hname
    obtain ⟨d, hd, hmakes⟩ := hcs.makes c hc
    obtain ⟨d', hd', hmakes'⟩ := hcs'.makes c' hc'
    -- the name tells which definition it was
    have hsame : d.name = d'.name :=
      Subtype.ext (by rw [← hmakes.name, hname, hmakes'.name])
    obtain rfl := List.inj_on_of_nodup_map hnodup hd (hperm.mem_iff.2 hd') hsame
    exact hmakes.renamed hmakes' hscope hknown
  have hall := hm.defineEach hdistinct hnames hfunctions a.scope
  rw [hscope] at hall
  exact ⟨hnames, hall⟩

/-- A tree whose code is a sequence is evaluated part by part. -/
theorem evaluate_sequence
    {t : Tree} {cs : List Code}
    (h : t.code = .sequence cs) :
    ∃ parts : List Tree, parts.map Tree.code = cs ∧
      ∀ (host : Host) (a : Site) (m : Machine), ∃ n : Machine,
        n.unrecorded = m.unrecorded ∧
        evaluate host a.table a.scope t m =
          evalEach host (callValue host callAllowance) a.table a.scope parts
            .unit n := by
  have hfollows := t.core_follows
  rw [h] at hfollows
  have hrun :=
    fun host (a : Site) =>
      evalTree_core host (callValue host callAllowance) a.table a.scope t
  generalize t.core = p at hfollows hrun
  cases hfollows with
  | sequence hparts => exact ⟨_, hparts, hrun⟩

section Evaluation

variable {host : Host} {w₀ w : Extent} (hhost : host.Impartial .code w₀)
  {ρ : Renaming} {a : Site}
  (hρ : ρ.Fixes w₀) (hscope : a.scope.index < w₀.frames) (hw : w₀ ≤ w)
include hhost hρ hscope hw

/-- Trees with the same codes do the same, one after the other, in a scope that
both runs share. -/
theorem evalEach_renamed
    {ts ts' : List Tree}
    (h : ts.map Tree.code = ts'.map Tree.code) :
    (Simulation.renaming .code ρ).GivesKin w
      (evalEach host (callValue host callAllowance) a.table a.scope ts .unit)
      (evalEach host (callValue host callAllowance) a.table a.scope ts' .unit) := by
  have hknown : a.scope.index < w.frames := Nat.lt_of_lt_of_le hscope hw.2
  refine Simulation.evalEach
    ((Tree.forall₂_code h).imp fun t t' hcode w₁ hw₁ => ?_) .unit
  have hcall :=
    Simulation.callValue (S := .renaming .code ρ) (hhost ρ hρ) callAllowance
  refine Simulation.evalTree (hhost ρ hρ) hcall (hw.trans hw₁) t t' ?_
  exact ⟨rfl, (hρ.scope hscope).symm, Nat.lt_of_lt_of_le hknown hw₁.2, hcode⟩

/-- From renamed machines on: a block of functions in an order of its own on
each side, and then at least one more declaration. -/
theorem ends_block
    {m m' : Machine} (hm : m.Renamed .code ρ w m')
    {block block' : List Definition} (hperm : block.Perm block')
    (hnodup : (block.map Definition.name).Nodup)
    {bs bs' ts ts' : List Tree}
    (hbs : bs.map Tree.code = block.map (·.declaration.code))
    (hbs' : bs'.map Tree.code = block'.map (·.declaration.code))
    (hts : ts.map Tree.code = ts'.map Tree.code) (hne : ts ≠ []) (u u' : Value) :
    ∃ ρ' : Renaming, ρ'.Fixes w₀ ∧
      (Simulation.renaming .code ρ').Ends (Value.Kin (.renaming .code ρ')) w₀
        (evalEach host (callValue host callAllowance) a.table a.scope
          (bs ++ ts) u m)
        (evalEach host (callValue host callAllowance) a.table a.scope
          (bs' ++ ts') u' m') := by
  obtain ⟨cs, hcs, hrun⟩ := evalEach_definitions hbs a
  obtain ⟨cs', hcs', hrun'⟩ := evalEach_definitions hbs' a
  obtain ⟨v, n, hn, hsame⟩ := hrun host (callValue host callAllowance) u m
  obtain ⟨v', n', hn', hsame'⟩ := hrun' host (callValue host callAllowance) u' m'
  have hmade : w₀.made ≤ m.made :=
    hw.1.trans_eq (congrArg Extent.made hm.extent).symm
  obtain ⟨hnames, hdefined⟩ :=
    hm.madeBy (hρ.scope hscope) (Nat.lt_of_lt_of_le hscope hw.2) hperm hnodup
      hcs hcs'
  have hfixes : (ρ.reordered hnames m.made).Fixes w₀ := hρ.reordered hmade
  have hlater : w₀ ≤ ⟨m.made + cs.length, w.frames⟩ :=
    ⟨Nat.le_trans hmade (Nat.le_add_right _ _), hw.2⟩
  have hrenamed :=
    (Simulation.renaming .code (ρ.reordered hnames m.made)).machine_unrecorded
      hdefined hsame hsame'
  have hne' : ts' ≠ [] := by
    rintro rfl
    exact hne (List.map_eq_nil_iff.1 hts)
  refine ⟨_, hfixes, ?_⟩
  -- what follows the block does not ask for its value
  rw [evalEach_append, evalEach_append, EvalM.bind_of_ok hn, EvalM.bind_of_ok hn',
    evalEach_cons_last host _ a.table a.scope hne v .unit,
    evalEach_cons_last host _ a.table a.scope hne' v' .unit]
  exact ((evalEach_renamed hhost hfixes hscope hlater hts).ends hrenamed).since hlater

end Evaluation

section Programs

variable {host : Host} {m : Machine} (hhost : host.Impartial .code m.extent)
  (hm : m.Closed)
  {a : Site} (hscope : a.scope.index < m.store.frames.size)
  {block block' : List Definition} (hperm : block.Perm block')
  (hnodup : (block.map Definition.name).Nodup)
  {before after : List Code} (hne : after ≠ [])
  {t t' : Tree}
  (ht : t.code = .sequence (before ++ (block.map (·.declaration.code) ++ after)))
  (ht' : t'.code = .sequence (before ++ (block'.map (·.declaration.code) ++ after)))
include hhost hm hscope hperm hnodup hne ht ht'

/-- Programs that differ in the order of a block of functions end together. -/
theorem ends_reordered :
    ∃ ρ : Renaming, ρ.Fixes m.extent ∧
      (Simulation.renaming .code ρ).Ends (Value.Kin (.renaming .code ρ))
        m.extent
        (evaluate host a.table a.scope t m)
          (evaluate host a.table a.scope t' m) := by
  obtain ⟨parts, hparts, hrun⟩ := evaluate_sequence ht
  obtain ⟨parts', hparts', hrun'⟩ := evaluate_sequence ht'
  obtain ⟨as, rest, rfl, has, hrest⟩ := List.map_eq_append_iff.1 hparts
  obtain ⟨as', rest', rfl, has', hrest'⟩ := List.map_eq_append_iff.1 hparts'
  obtain ⟨bs, ts, rfl, hbs, hts⟩ := List.map_eq_append_iff.1 hrest
  obtain ⟨bs', ts', rfl, hbs', hts'⟩ := List.map_eq_append_iff.1 hrest'
  obtain ⟨n, hn, heval⟩ := hrun host a m
  obtain ⟨n', hn', heval'⟩ := hrun' host a m
  have hfixes := Renaming.refl_fixes m.extent
  have hstart :=
    (Simulation.renaming .code .refl).machine_unrecorded hm.renamed_self hn hn'
  have hbefore :=
    (evalEach_renamed hhost hfixes hscope (le_refl _)
      (has.trans has'.symm)).ends hstart
  rw [heval, heval', evalEach_append, evalEach_append]
  generalize hx : evalEach host (callValue host callAllowance) a.table a.scope
      as .unit n = o at hbefore
  generalize hx' : evalEach host (callValue host callAllowance) a.table a.scope
      as' .unit n' = o' at hbefore
  cases hbefore with
  | never =>
      rw [EvalM.bind_of_none hx, EvalM.bind_of_none hx']
      exact ⟨_, hfixes, .never⟩
  | together hw hmid hboth =>
      cases hboth with
      | error e =>
          rw [EvalM.bind_of_error hx, EvalM.bind_of_error hx']
          exact ⟨_, hfixes, .together hw hmid (.error e)⟩
      | ok =>
          rw [EvalM.bind_of_ok hx, EvalM.bind_of_ok hx']
          refine ends_block hhost hfixes hscope hw hmid hperm hnodup hbs hbs'
            (hts.trans hts'.symm) ?_ _ _
          rintro rfl
          exact hne hts.symm

/-- Programs that differ in the order of a block of functions have outcomes that
belong together. -/
theorem runTree_reordered :
    ∃ ρ : Renaming, ρ.Fixes m.extent ∧
      (Simulation.renaming .code ρ).Outcomes m.extent
        (runTree host a.table a.scope t m) (runTree host a.table a.scope t' m) := by
  obtain ⟨ρ, hρ, hends⟩ := ends_reordered hhost hm hscope hperm hnodup hne ht ht'
  unfold runTree
  generalize evaluate host a.table a.scope t m = o,
      evaluate host a.table a.scope t' m = o' at hends
  cases hends with
  | never =>
      -- a run without an end leaves the machine as it was, so nothing is
      -- renamed
      exact ⟨.refl, Renaming.refl_fixes m.extent, .refused hm.renamed_self _⟩
  | together hw hn hboth =>
      refine ⟨ρ, hρ, ?_⟩
      cases hboth with
      | error e => exact .error _ hw hn
      | ok hv => exact .ok hw hn hv

end Programs

/-- **The order of functions is unobservable.**  An accepted source is a way to
write a program.  Take any functions with different names that stand side by
side in the program, with at least one more declaration behind them, and any
other order of them.  Then the source, rearranged, is a way to write the program
with the functions in that order; and in every scope of every state that
emerges, under every table, at whatever depth of calls, running any way to write
that program looks the same as running the source, and so do all programs that
are run in the scope later.  The outcomes are the same error, or the same value
but for a renaming that keeps all that was there before; so are the values that
the names in the scope stand for.  The functions may call themselves and each
other, and their names may be bound in the scope. -/
theorem function_order_unobservable
    {s : Session} (hs : s.Emerges)
    {host : Host} (hhost : host.Impartial .code s.machine.extent) (depth : Nat)
    {scope : Scope} (hscope : scope.index < s.machine.store.frames.size)
    (table : Table)
    {source : String} {t : Tree} (hsource : parse source = .ok t) :
    (∃ ds, Written ds source.toList ∧
      t.children.map Tree.outline = ds.map Declaration.outline) ∧
    ∀ {before after : List Declaration} {block block' : List Definition},
      Written (before ++ (block.map Definition.declaration ++ after))
        source.toList →
      after ≠ [] → (block.map Definition.name).Nodup → block.Perm block' →
        (∃ source' : String,
          Written (before ++ (block'.map Definition.declaration ++ after))
            source'.toList ∧
          Rearranged (block.map Definition.declaration)
            (block'.map Definition.declaration) source.toList source'.toList) ∧
        ∀ source' : String,
          Written (before ++ (block'.map Definition.declaration ++ after))
            source'.toList →
          LooksSame host scope
            (runSource host table scope source
              { s.machine with depth := depth })
            (runSource host table scope source' { s.machine with depth := depth }) ∧
          ∃ ρ : Renaming, ρ.Fixes s.machine.extent ∧
            Corresponds .code ρ scope
              (runSource host table scope source
                { s.machine with depth := depth })
              (runSource host table scope source'
                { s.machine with depth := depth }) := by
  refine ⟨exists_written hsource,
    fun {before after block block'} hwritten hne hnodup hperm => ⟨?_, ?_⟩⟩
  · obtain ⟨w, hw, hrearranged⟩ :=
      hwritten.rearranged hne (hperm.map Definition.declaration)
    exact ⟨String.ofList w, by rwa [String.toList_ofList],
      by rwa [String.toList_ofList]⟩
  · intro source' hwritten'
    obtain ⟨t, ht, hrun⟩ := runSource_written hwritten
    obtain ⟨t', ht', hrun'⟩ := runSource_written hwritten'
    rw [hrun, hrun']
    simp only [List.map_append, List.map_map] at ht ht'
    obtain ⟨ρ, hρ, houtcomes⟩ := runTree_reordered
      (m := { s.machine with depth := depth }) hhost (hs.closed.atDepth depth)
      (a := ⟨table, scope⟩) hscope hperm hnodup
      (List.map_eq_nil_iff.not.2 hne) ht ht'
    exact ⟨(hρ.window hscope).looksSame (hhost ρ hρ) houtcomes, ρ, hρ,
      hρ.corresponds hscope houtcomes⟩

/-- A session in which the names are taken. -/
def taken : Session :=
  (Session.initial.move Host.standard
    (.step (.eval "pong = \"one\"; keep = pong" "main" none none))).2

/-- The function `name f = f other`. -/
def handingOver (name other : Name) : Definition :=
  ⟨name, ⟨"f", by decide⟩, [], Name.applied ⟨"f", by decide⟩ other⟩

/-- The function `ping f = f pong`. -/
def ping : Definition :=
  handingOver ⟨"ping", by decide⟩ ⟨"pong", by decide⟩

/-- The function `pong f = f ping`. -/
def pong : Definition :=
  handingOver ⟨"pong", by decide⟩ ⟨"ping", by decide⟩

/-- The function `keep one two = keep one`. -/
def keep : Definition :=
  ⟨⟨"keep", by decide⟩, ⟨"one", by decide⟩, [⟨"two", by decide⟩],
    Name.applied ⟨"keep", by decide⟩ ⟨"one", by decide⟩⟩

/-- The expression `ping keep`. -/
def pingKeep : Declaration :=
  .splice (Name.applied ⟨"ping", by decide⟩ ⟨"keep", by decide⟩)

theorem handingOver_spaced
    (name other : Name) :
    Spaced (handingOver name other).declaration.tokens
      (name.1 ++ " f = f " ++ other.1).toList := by
  have h : Spaced (handingOver name other).declaration.tokens _ :=
    .cons (g := " ") rfl (fun _ => by decide)
      (.cons (g := " ") rfl (fun _ => by decide)
        (.cons (g := " ") rfl (fun _ => by decide)
          (.cons (g := " ") rfl (fun _ => by decide) (.one _))))
  simpa [Token.word, handingOver] using h

theorem keep_spaced :
    Spaced keep.declaration.tokens "keep one two = keep one".toList := by
  have h : Spaced keep.declaration.tokens _ :=
    .cons (g := " ") rfl (by decide)
      (.cons (g := " ") rfl (by decide)
        (.cons (g := " ") rfl (by decide)
          (.cons (g := " ") rfl (by decide)
            (.cons (g := " ") rfl (by decide) (.one _)))))
  exact h

theorem separates_semicolon : Separates "; ".toList :=
  ⟨0, fun next => .separator rfl (.blank rfl (.done next))⟩

theorem separates_comment : Separates "--x\n".toList :=
  ⟨0, fun next => .comment (v := ['x']) rfl rfl (.separator rfl (.done next))⟩

/-- Three declarations, in whatever order, with the expression behind them. -/
theorem pingKeep_written
    {d d' d'' : Declaration} (w w' w'' : String)
    (h : Spaced d.tokens w.toList) (h' : Spaced d'.tokens w'.toList)
    (h'' : Spaced d''.tokens w''.toList) :
    Written ([] ++ ([d, d', d''] ++ [pingKeep]))
      (w ++ "; " ++ w' ++ "--x\n" ++ w'' ++ "; ping keep").toList := by
  have hlast : Laid [pingKeep] ("ping keep".toList ++ []) :=
    .last (.cons (g := " ") rfl (by decide) (.one _)) (.done [])
  have hweaves : Weaves [(d, w.toList), (d', w'.toList), (d'', w''.toList)]
      ["; ".toList, "--x\n".toList, "; ".toList] :=
    .cons h separates_semicolon
      (.cons h' separates_comment (.cons h'' separates_semicolon .nil))
  have hall := Written.body (.done _) (hweaves.laid hlast)
  simpa [woven] using hall

/-- The functions in one order. -/
def pingFirst : String :=
  "ping f = f pong; pong f = f ping--x\nkeep one two = keep one; ping keep"

/-- The functions in another order. -/
def keepFirst : String :=
  "keep one two = keep one; ping f = f pong--x\npong f = f ping; ping keep"

/-- Two functions that name each other and one that names itself, under names
that are bound already, where one more body may be entered. -/
theorem taken_looks_same :
    let m := { taken.machine with depth := recursionLimit - 1 }
    (runSource Host.standard .empty Scope.root pingFirst m).1.toOption.map
        Value.face =
      some ⟨"function", "<function keep/1>"⟩ ∧
    LooksSame Host.standard Scope.root
      (runSource Host.standard .empty Scope.root pingFirst m)
      (runSource Host.standard .empty Scope.root keepFirst m) := by
  refine ⟨by decide +kernel, ?_⟩
  have harises : taken.Arises Host.standard := .move _ .initial
  have hemerges := harises.emerges (Host.standard_sealed _)
  have hscope : Scope.root.index < taken.machine.store.frames.size := by
    decide +kernel
  have hping : Spaced ping.declaration.tokens "ping f = f pong".toList :=
    handingOver_spaced _ _
  have hpong : Spaced pong.declaration.tokens "pong f = f ping".toList :=
    handingOver_spaced _ _
  have hwritten : Written
      ([] ++ ([ping, pong, keep].map Definition.declaration ++ [pingKeep]))
      pingFirst.toList :=
    pingKeep_written "ping f = f pong" "pong f = f ping"
      "keep one two = keep one" hping hpong keep_spaced
  have hwritten' : Written
      ([] ++ ([keep, ping, pong].map Definition.declaration ++ [pingKeep]))
      keepFirst.toList :=
    pingKeep_written "keep one two = keep one" "ping f = f pong"
      "pong f = f ping" keep_spaced hping hpong
  obtain ⟨ts, hprogram, -⟩ := hwritten.exists_program
  have hparse := parse_eq_ok_iff.2 ⟨ts, rfl, hprogram⟩
  have hperm : [ping, pong, keep].Perm [keep, ping, pong] :=
    @List.perm_append_comm _ [ping, pong] [keep]
  have hall := (function_order_unobservable hemerges
    (Host.standard_impartial .code _) (recursionLimit - 1) hscope .empty
    hparse).2 hwritten (List.cons_ne_nil _ _) (by decide) hperm
  exact (hall.2 _ hwritten').1

end Curried
