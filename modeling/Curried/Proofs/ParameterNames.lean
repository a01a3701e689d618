import Curried.Proofs.AcceptedSources
import Curried.Proofs.Hygiene
import Curried.Proofs.Rewording
import Curried.Proofs.SurfaceCode

/-!
# The names of parameters

What a function does cannot depend on how its parameters are spelled.

**Respelling.**  `Declaration.respell p q` replaces the name `p` by `q` among
the parameters of a function and in its body.  The name of the function stays.

**Result.**  `parameter_names_unobservable`: in every accepted source, a
parameter can be respelled as any name that is no parameter of the function and
does not occur in its body.
-/

namespace Curried

open Grammar Lexeme

theorem respell_val
    (p q x : Name) :
    (respell p q x).1 = respell p.1 q.1 x.1 := by
  unfold respell
  simp only [Subtype.ext_iff]
  split <;> rfl

namespace Expression

/-- The names in an expression. -/
def names : {l : Level} → Expression l → List Name
  | _, integer _ _ => []
  | _, text _ _ => []
  | _, name w h => [⟨w, h⟩]
  | _, parens e => names e
  | _, single _ e => names e
  | _, apply f a => names f ++ names a
  | _, left _ a _ _ _ b => names a ++ names b
  | _, right a _ _ _ b => names a ++ names b

/-- The expression with `q` in place of the name `p`. -/
def respell (p q : Name) : {l : Level} → Expression l → Expression l
  | _, integer w h => integer w h
  | _, text w h => text w h
  | _, name w h =>
      name (Curried.respell p q ⟨w, h⟩).1 (Curried.respell p q ⟨w, h⟩).2
  | _, parens e => parens (respell p q e)
  | _, single hl e => single hl (respell p q e)
  | _, apply f a => apply (respell p q f) (respell p q a)
  | _, left hl a op hop hlevel b =>
      left hl (respell p q a) op hop hlevel (respell p q b)
  | _, right a op hop hlevel b =>
      right (respell p q a) op hop hlevel (respell p q b)

variable {l : Level} {p q : Name}

theorem kindred_respell
    (e : Expression l) :
    List.Forall₂ Token.Kindred e.tokens (e.respell p q).tokens := by
  induction e with
  | integer | text => exact .cons (.same _) .nil
  | name => exact .cons (.name _ _ _ _) .nil
  | parens e ih => exact .cons (.same _) (List.rel_append ih (.cons (.same _) .nil))
  | single _ e ih => exact ih
  | apply f a ihf iha => exact List.rel_append ihf iha
  | left _ a op hop _ b iha ihb => exact List.rel_append iha (.cons (.same _) ihb)
  | right a op hop _ b iha ihb => exact List.rel_append iha (.cons (.same _) ihb)

/-- A settled value or error has no names in it. -/
theorem code_ofExcept
    (r : Except EvalError Value) :
    (Plan.ofExcept r).code.Respelled p.1 q.1 (Plan.ofExcept r).code := by
  cases r with
  | ok v => exact .give v
  | error e => exact .fail e

theorem code_respell
    (e : Expression l) (h : q ∉ e.names) :
    e.code.Respelled p.1 q.1 (e.respell p q).code := by
  induction e with
  | integer | text => exact code_ofExcept _
  | name w hw =>
      have hne : w ≠ q.1 :=
        fun hw' => h (List.mem_singleton.2 (Subtype.ext hw'.symm))
      rw [respell, code, code, respell_val]
      exact .look hne
  | parens e ih | single _ e ih => exact ih h
  | apply f a ihf iha =>
      obtain ⟨hf, ha⟩ := not_or.1 (mt List.mem_append.2 h)
      exact .apply (ihf hf) (iha ha)
  | left _ a op _ _ b iha ihb | right a op _ _ b iha ihb =>
      obtain ⟨ha, hb⟩ := not_or.1 (mt List.mem_append.2 h)
      exact .operate op (iha ha) (ihb hb)

end Expression

namespace Declaration

/-- The declaration with `q` in place of `p` among the parameters of a function
and in its body. -/
def respell (p q : Name) : Declaration → Declaration
  | function name parameter others e =>
      function name (Curried.respell p q parameter)
        (others.map (Curried.respell p q)) (e.respell p q)
  | d => d

variable {p q : Name}

theorem kindred_refl (d : Declaration) : d.Kindred d :=
  List.forall₂_same.2 fun x _ => .same x

theorem kindred_respell
    (d : Declaration) :
    d.Kindred (d.respell p q) := by
  cases d with
  | function name parameter others e =>
      have hothers : ∀ others : List Name,
          List.Forall₂ Token.Kindred (others.map fun x => Token.name x.1 x.2)
            ((others.map (Curried.respell p q)).map fun x =>
              Token.name x.1 x.2) := by
        intro others
        induction others with
        | nil => exact .nil
        | cons x others ih => exact .cons (.name _ _ _ _) ih
      exact .cons (.same _)
        (List.rel_append (hothers (parameter :: others))
          (.cons (.same _) e.kindred_respell))
  | bind | splice => exact kindred_refl _

/-- The respelled declaration is an edited one. -/
theorem code_respell
    {name parameter : Name} {others : List Name} {e : Expression .dollar}
    (hp : p ∈ parameter :: others) (hq : q ∉ parameter :: others)
    (he : q ∉ e.names) :
    (function name parameter others e).code.Edited p.1 q.1
      ((function name parameter others e).respell p q).code := by
  have hmem : ∀ x : Name, x.1 ∈ parameter.1 :: others.map (·.1) ↔
      x ∈ parameter :: others := by
    intro x
    rw [← List.map_cons (f := fun y : Name => y.1),
      List.mem_map_of_injective Subtype.val_injective]
  have hothers : (others.map (Curried.respell p q)).map (·.1) =
      (others.map (·.1)).map (Curried.respell p.1 q.1) := by
    simp only [List.map_map, Function.comp_def, respell_val]
  rw [respell, code, code, respell_val, hothers]
  exact .function name.1 ((hmem p).2 hp) (mt (hmem q).1 hq) (e.code_respell he)

end Declaration

/-- Where so many frames have been made, the host does the same with functions
that differ in the spelling of one parameter. -/
def Host.IgnoresSpelling (host : Host) (frames : Nat) : Prop :=
  ∀ p q : String, host.Discreet (.respelling p q) (List.replicate frames .plain)

theorem Host.standard_ignoresSpelling
    (frames : Nat) :
    Host.standard.IgnoresSpelling frames :=
  fun p q => Host.standard_discreet (.respelling p q) _

/-- **The names of parameters are unobservable.**  An accepted source is a way
to write a program.  Take any function of the program, a parameter `p` of it,
and a name `q` that is no parameter of it and does not occur in its body.  Then
the source, reworded, is a way to write the program in which `p` is respelled as
`q`; and in every scope of every state that emerges, under every table, running
any way to write that program looks the same as running the source, and so do
all programs that are run in the scope later.  `p` and `q` may be bound in the
scope, be the name of the function itself, or be parameters of other
functions. -/
theorem parameter_names_unobservable
    {s : Session} (hs : s.Emerges)
    {host : Host} (hhost : host.IgnoresSpelling s.machine.store.frames.size)
    {scope : Scope} (hscope : scope.index < s.machine.store.frames.size)
    (table : Table)
    {source : String} {t : Tree} (hsource : parse source = .ok t) :
    (∃ ds, Written ds source.toList ∧
      t.children.map Tree.outline = ds.map Declaration.outline) ∧
    ∀ {before after : List Declaration} {name parameter : Name}
      {others : List Name} {e : Expression .dollar},
      Written (before ++ .function name parameter others e :: after) source.toList →
      ∀ {p q : Name}, p ∈ parameter :: others → q ∉ parameter :: others →
        q ∉ e.names →
        (∃ source' : String,
          Written (before ++
            (Declaration.function name parameter others e).respell p q :: after)
            source'.toList ∧
          Reworded
            ((before ++ .function name parameter others e :: after).flatMap
              Declaration.tokens)
            ((before ++ (Declaration.function name parameter others e).respell
              p q :: after).flatMap Declaration.tokens)
            source.toList source'.toList) ∧
        ∀ source' : String,
          Written (before ++
            (Declaration.function name parameter others e).respell p q :: after)
            source'.toList →
          LooksSame host scope (runSource host table scope source s.machine)
            (runSource host table scope source' s.machine) := by
  refine ⟨exists_written hsource,
    fun {before after name parameter others e} hwritten {p q} hp hq he =>
      ⟨?_, ?_⟩⟩
  · have hkindred : ∀ ds : List Declaration,
        List.Forall₂ Declaration.Kindred ds ds :=
      fun ds => List.forall₂_same.2 fun d _ => d.kindred_refl
    have hall := List.rel_append (hkindred before)
      (.cons (Declaration.kindred_respell (p := p) (q := q)
        (.function name parameter others e)) (hkindred after))
    obtain ⟨w, hw, hreworded⟩ := hwritten.reworded hall
    exact ⟨String.ofList w, by rwa [String.toList_ofList],
      by rwa [String.toList_ofList]⟩
  · intro source' hwritten'
    obtain ⟨t, ht, hrun⟩ := runSource_written hwritten
    obtain ⟨t', ht', hrun'⟩ := runSource_written hwritten'
    rw [hrun, hrun']
    have hplain : mark? (List.replicate s.machine.store.frames.size .plain)
        scope = some .plain :=
      List.getElem?_replicate_of_lt hscope
    -- all declarations are the same but for the one that is respelled
    have hedited : List.Forall₂ (Code.Edited p.1 q.1)
        ((before ++ .function name parameter others e :: after).map
          Declaration.code)
        ((before ++ (Declaration.function name parameter others e).respell p
          q :: after).map Declaration.code) := by
      have hsame : ∀ cs : List Code, List.Forall₂ (Code.Edited p.1 q.1) cs cs :=
        fun cs => List.forall₂_same.2 fun c _ => .same c
      rw [List.map_append, List.map_append, List.map_cons, List.map_cons]
      exact List.rel_append (hsame _)
        (.cons (Declaration.code_respell hp hq he) (hsame _))
    have hhost := hhost p.1 q.1
    have houtcomes := Simulation.runTree (S := .respelling p.1 q.1) hhost
      hs.closed.respelled
      (a := ⟨table, scope⟩) (Site.Respelled.program hplain ht ht' hedited)
    exact (Simulation.respelling_window hplain).looksSame hhost houtcomes

/-- A session in which the names are taken: `y` is bound, and is the parameter
of a function that reads `x`. -/
def crowded : Session :=
  (Session.initial.move Host.standard
    (.step (.eval "x = \"one\"; y = \"two\"; h y = x" "main" none none))).2

theorem isName_y : isName "y".toList = true := by
  decide

/-- The function `y x = h x`, for any name `x`. -/
def handing (x : Name) : Declaration :=
  .function ⟨"y", isName_y⟩ x [] (Name.applied ⟨"h", by decide⟩ x)

/-- The expression `y y`. -/
def selfApplied : Declaration :=
  .splice (Name.applied ⟨"y", isName_y⟩ ⟨"y", isName_y⟩)

theorem handing_written
    (x : Name) :
    Written ([] ++ handing x :: [selfApplied]) ("y " ++ x.1 ++ " = h " ++ x.1 ++
      "--x\ny y").toList := by
  have hlast : Laid [selfApplied] ("y y".toList ++ []) :=
    .last (.cons (g := " ") rfl (by decide) (.one _)) (.done [])
  have hfills : Fills 1 "--x\ny y".toList ("y y".toList ++ []) :=
    .comment (v := ['x']) rfl rfl (.separator rfl (.done _))
  have hspaced : Spaced (handing x).tokens ("y " ++ x.1 ++ " = h " ++
      x.1).toList := by
    have h : Spaced (handing x).tokens _ :=
      .cons (g := " ") rfl (fun _ => by decide)
        (.cons (g := " ") rfl (fun _ => by decide)
        (.cons (g := " ") rfl (fun _ => by decide)
          (.cons (g := " ") rfl (fun _ => by decide) (.one _))))
    simpa [Token.word] using h
  have hall : Written ([] ++ handing x :: [selfApplied]) _ :=
    .body (.done _) (.more hspaced hfills hlast)
  simpa using hall

/-- The parameter of a function gets the name of the function, which is bound
already, and is a parameter of what the body calls.  The value `x` that is read
is the one that is bound in the scope. -/
theorem crowded_looks_same :
    ((runSource Host.standard .empty Scope.root "y x = h x--x\ny y"
      crowded.machine).1.toOption.map Value.face = some ⟨"string", "one"⟩) ∧
    LooksSame Host.standard Scope.root
      (runSource Host.standard .empty Scope.root "y x = h x--x\ny y"
        crowded.machine)
      (runSource Host.standard .empty Scope.root "y y = h y--x\ny y"
        crowded.machine) := by
  refine ⟨by decide +kernel, ?_⟩
  have harises : crowded.Arises Host.standard := .move _ .initial
  have hemerges := harises.emerges (Host.standard_sealed _)
  have hscope : Scope.root.index < crowded.machine.store.frames.size := by
    decide +kernel
  have hwritten : Written ([] ++ handing ⟨"x", by decide⟩ :: [selfApplied])
      "y x = h x--x\ny y".toList :=
    handing_written ⟨"x", by decide⟩
  obtain ⟨ts, hprogram, -⟩ := hwritten.exists_program
  have hparse := parse_eq_ok_iff.2 ⟨ts, rfl, hprogram⟩
  have hall := (parameter_names_unobservable hemerges
    (Host.standard_ignoresSpelling _) hscope .empty hparse).2 hwritten
    (p := ⟨"x", by decide⟩) (q := ⟨"y", by decide⟩) (by decide) (by decide)
    (by decide)
  exact hall.2 "y y = h y--x\ny y" (handing_written ⟨"y", by decide⟩)

end Curried
