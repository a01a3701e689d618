import Curried.Grammar.Program
import Curried.Proofs.ExpressionReader

/-!
# Readers of declarations

**Grammar.**  `Declares input t rest` says that a declaration with the tree `t`
stands at the front of the input: a bare expression, a name with an equation, or
a name with parameters and an equation.

**Reading.**  The reader of declarations tries a function first, then a bound
name, then a bare expression.  The order does not matter where a declaration is
followed by something that does not continue it: the names of a function or of a
bound name are followed by an equals sign, and no expression goes on there.

**Result.**  `reads_declaration`: soundness and completeness.
-/

namespace Curried

namespace Grammar

open Lexeme Curried.Parser

/-- The tree of an equals sign and an expression. -/
def matchTree (gap : String) (p : Phrase) : Tree :=
  ⟨"match", "=" ++ gap ++ p.text, [.leaf "=" "=", p.tree]⟩

/-- The tree of a bare expression. -/
def spliceTree (p : Phrase) : Tree :=
  ⟨"top_splice", p.text, [p.tree]⟩

/-- The tree of a name bound to an expression. -/
def bindTree (name gap : String) (m : Tree) : Tree :=
  ⟨"bind", name ++ gap ++ m.text, [.leaf "variable" name, m]⟩

/-- The tree of the parameters.  The layout behind a parameter is taken before
it is known that there is no other one, so the text of a single parameter takes
it in. -/
def patternsTree (text : String) (names : List String) (gap : String) : Tree :=
  ⟨"patterns", if names.length = 1 then text ++ gap
    else text, names.map (.leaf "variable")⟩

/-- The tree of a function. -/
def functionTree (name gap text : String) (names : List String) (gap' : String)
    (m : Tree) : Tree :=
  ⟨"function", name ++ gap ++ text ++ gap' ++ m.text,
    [.leaf "variable" name, patternsTree text names gap', m]⟩

/-- An equals sign and an expression at the front of the input. -/
inductive Equates : List Char → Tree → List Char → Prop
  | intro {gap : String} {next rest : List Char} {p : Phrase} :
      IsGap gap → Reading .dollar (BareAt .dollar) next p rest →
      Equates ('=' :: (gap.toList ++ next)) (matchTree gap p) rest

/-- Names with gaps between them at the front of the input; `text` is their
text. -/
inductive Parameters : List Char → String → List String → List Char → Prop
  | one {w : String} {after : List Char} :
      isName w.toList = true → starts isNamePart after = false →
      Parameters (w.toList ++ after) w [w] after
  | more {w gap text : String} {ws : List String} {next after : List Char} :
      isName w.toList = true → IsGap gap →
      starts isNamePart (gap.toList ++ next) = false →
      Parameters next text ws after →
      Parameters (w.toList ++ (gap.toList ++ next)) (w ++ gap ++ text)
        (w :: ws) after

/-- A name with an equation at the front of the input. -/
inductive Binds : List Char → Tree → List Char → Prop
  | intro {name gap : String} {next rest : List Char} {m : Tree} :
      isName name.toList = true → IsGap gap → Equates next m rest →
      Binds (name.toList ++ (gap.toList ++ next)) (bindTree name gap m) rest

/-- A name with parameters and an equation at the front of the input. -/
inductive Defines : List Char → Tree → List Char → Prop
  | intro {name gap text gap' : String} {names : List String}
      {next mid rest : List Char} {m : Tree} :
      isName name.toList = true → IsGap gap →
      starts isNamePart (gap.toList ++ next) = false →
      Parameters next text names (gap'.toList ++ mid) → IsGap gap' →
      Equates mid m rest →
      Defines (name.toList ++ (gap.toList ++ next))
        (functionTree name gap text names gap' m) rest

/-- A declaration at the front of the input. -/
inductive Declares : List Char → Tree → List Char → Prop
  | function {input rest : List Char} {t : Tree} :
      Defines input t rest → Declares input t rest
  | bind {input rest : List Char} {t : Tree} :
      Binds input t rest → Declares input t rest
  | splice {input rest : List Char} {p : Phrase} :
      Reading .dollar (BareAt .dollar) input p rest →
      Declares input (spliceTree p) rest

theorem run_equals_iff
    {input rest : List Char} {s : String} :
    equals.run input = some (s, rest) ↔ s = "=" ∧ input = '=' :: rest ∧
    starts isOperatorChar rest = false := by
  have hsign : ∀ s : String, isOperatorWord (· == ['=']) s.toList = true ↔
      s = "=" := by
    intro s
    rw [isOperatorWord, Bool.and_eq_true, beq_iff_eq]
    constructor
    · rintro ⟨-, h⟩
      exact String.toList_inj.1 h
    · rintro rfl
      exact ⟨rfl, rfl⟩
  refine (takes_operator (· == ['=']) input s rest).trans ?_
  rw [hsign]
  constructor
  · rintro ⟨rfl, rfl, hrest⟩
    exact ⟨rfl, rfl, hrest⟩
  · rintro ⟨rfl, rfl, hrest⟩
    exact ⟨rfl, rfl, hrest⟩

theorem run_assignment_iff
    {value : Parser Phrase} {input rest : List Char} {m : Tree} :
    (assignment value).run input = some (m, rest) ↔
      ∃ mid p,
        input = '=' :: mid ∧ starts isOperatorChar mid = false ∧
        value.run (afterLayout mid) = some (p, rest) ∧
        m = matchTree (String.ofList (layoutOf mid)) p := by
  simp only [assignment, run_rule, run_bind, run_layout, run_pure,
    Option.bind_some, Option.bind_eq_some_iff,
    Prod.exists, Option.some.injEq, Prod.mk.injEq, run_equals_iff]
  constructor
  · rintro ⟨_, mid, ⟨rfl, rfl, hmid⟩, p, _, hp, rfl, rfl⟩
    exact ⟨mid, p, rfl, hmid, hp, rfl⟩
  · rintro ⟨mid, p, rfl, hmid, hp, rfl⟩
    exact ⟨_, mid, ⟨rfl, rfl, hmid⟩, p, rest, hp, rfl, rfl⟩

/-- Neither an operator nor an atom stands behind the layout. -/
structure Closed (after : List Char) : Prop where
  operator : starts isOperatorChar (afterLayout after) = false
  atom : starts isAtomStart (afterLayout after) = false

theorem Closed.ends
    {after : List Char}
    (h : Closed after) (l : Level) :
    Ends l after :=
  .of_starts h.operator h.atom

/-- The reader reads what stands at the front of its input, and on inputs
shorter than `n` it reads all that is closed by what stands behind it. -/
structure ReadsTrees
    (n : Nat) (stands : List Char → Tree → List Char → Prop)
    (run : List Char → Option (Tree × List Char)) :
    Prop where
  sound : ∀ {input rest : List Char} {t : Tree},
    run input = some (t, rest) → stands input t rest
  complete : ∀ {input rest : List Char} {t : Tree},
    stands input t rest → Closed rest → input.length < n →
      run input = some (t, rest)

theorem reads_assignment
    {n : Nat} {value : Parser Phrase} (hvalue : Reads n .dollar value.run) :
    ReadsTrees n Equates (assignment value).run := by
  constructor
  · intro input rest m h
    obtain ⟨mid, p, rfl, -, hp, rfl⟩ := run_assignment_iff.1 h
    have hp := hvalue.sound hp
    have hgap : IsGap (String.ofList (layoutOf mid)) := by
      refine isGap_of_starts apart_isLineEnd_isAtomStart ?_
      rw [hp.input_eq]
      exact hp.derives.starts_text_append _
    have hequates := Equates.intro hgap hp
    rwa [String.toList_ofList, layoutOf_append_afterLayout] at hequates
  · rintro input rest m ⟨hgap, hp⟩ hrest hinput
    rename_i gap next p
    have hnext : layoutOf next = [] := by
      rw [hp.input_eq]
      exact hp.derives.layoutOf_text _
    obtain ⟨hlayout, hafter⟩ := layout_gap hgap hnext
    refine run_assignment_iff.2 ⟨_, p, rfl, ?_, ?_, ?_⟩
    · rw [hp.input_eq]
      exact starts_isOperatorChar_gap hgap hp.derives _
    · rw [hafter]
      refine hvalue.complete hp (hrest.ends .dollar) ?_
      simp only [List.length_cons, List.length_append] at hinput
      omega
    · rw [hlayout]

section Names

/-- The text of a name and of the names behind it, each with the layout before
it. -/
def gatherText (w : String) (found : List (String × Tree)) : String :=
  found.foldl (fun acc r => acc ++ r.1 ++ r.2.text) w

/-- The tree of the parameters as it is read. -/
def gatherPatterns (first : Tree) (gap : String)
    (others : List (String × Tree)) : Tree :=
  ⟨"patterns", gatherText (first.text ++ gap) others, first :: others.map (·.2)⟩

theorem gatherText_append
    (v w : String) (found : List (String × Tree)) :
    gatherText (v ++ w) found = v ++ gatherText w found := by
  induction found generalizing w with
  | nil => rfl
  | cons r found ih =>
      simp only [gatherText, List.foldl_cons, String.append_assoc]
        at ih ⊢; exact ih _

theorem run_identifier_iff
    {input rest : List Char} {t : Tree} :
    identifier.run input = some (t, rest) ↔
      ∃ w, t = .leaf "variable" w ∧ input = w.toList ++ rest ∧
        isName w.toList = true ∧
        starts isNamePart rest = false := by
  rw [identifier, run_leafOf_iff]
  simp only [takes_name _ _ _]

theorem consumes_identifier : Consumes identifier.run := by
  intro input t rest h
  obtain ⟨w, -, rfl, hw, -⟩ := run_identifier_iff.1 h
  obtain ⟨c, v, hv, -⟩ := exists_cons_of_starts (starts_of_isName _ hw)
  rw [hv]
  simp only [List.cons_append, List.length_cons, List.length_append]
  omega

theorem run_patterns_iff
    {input rest : List Char} {t : Tree} :
    patterns.run input = some (t, rest) ↔
      ∃ w mid found next,
        input = w.toList ++ mid ∧ isName w.toList = true ∧
        starts isNamePart mid = false ∧
        Steps (gapped identifier.run) mid found next ∧
        gapped identifier.run next = none ∧
        (t, rest) =
          if found.isEmpty then (⟨"patterns", w ++ String.ofList (layoutOf mid),
            [.leaf "variable" w]⟩, afterLayout mid)
          else (⟨"patterns", gatherText w found, .leaf "variable" w ::
            found.map (·.2)⟩, next) := by
  refine Iff.trans
    (run_listing_iff (p := identifier) consumes_identifier
      (f := gatherPatterns)) ?_
  have hlisted : ∀ w mid (found : List (String × Tree)) next,
      Listed gatherPatterns (.leaf "variable" w) mid found next =
        if found.isEmpty then (⟨"patterns", w ++ String.ofList (layoutOf mid),
          [.leaf "variable" w]⟩, afterLayout mid)
        else (⟨"patterns", gatherText w found, .leaf "variable" w ::
          found.map (·.2)⟩, next) := by
    intro w mid found next
    cases found with
    | nil => rfl
    | cons y found => simp [Listed, gatherPatterns, gatherText, Tree.leaf]
  constructor
  · rintro ⟨first, mid, found, next, hfirst, hsteps, hstop, h⟩
    obtain ⟨w, rfl, hinput, hw, hmid⟩ := run_identifier_iff.1 hfirst
    exact ⟨w, mid, found, next, hinput, hw, hmid, hsteps, hstop,
      h.trans (hlisted w mid found next)⟩
  · rintro ⟨w, mid, found, next, hinput, hw, hmid, hsteps, hstop, h⟩
    refine ⟨.leaf "variable" w, mid, found, next, ?_, hsteps, hstop,
      h.trans (hlisted w mid found next).symm⟩
    exact run_identifier_iff.2 ⟨w, rfl, hinput, hw, hmid⟩

/-- What is read as parameters are names with gaps between them. -/
theorem parameters_of_steps
    {mid next : List Char} {found : List (String × Tree)}
    (h : Steps (gapped identifier.run) mid found next) :
    ∀ {w : String}, isName w.toList = true → starts isNamePart mid = false →
      ∃ names, found.map (·.2) = names.map (.leaf "variable") ∧
        Parameters (w.toList ++ mid) (gatherText w found) (w :: names) next := by
  induction h with
  | done =>
      intro w hw hmid
      exact ⟨[], rfl, .one hw hmid⟩
  | @next mid mid' next y found hread _ ih =>
      intro w hw hmid
      obtain ⟨lead, t⟩ := y
      obtain ⟨rfl, hname⟩ := gapped_eq_some_iff.1 hread
      obtain ⟨v, rfl, hinput, hv, hmid'⟩ := run_identifier_iff.1 hname
      obtain ⟨names, hfound, hparameters⟩ := ih hv hmid'
      have hgap : IsGap (String.ofList (layoutOf mid)) := by
        refine isGap_of_starts
          (.isLineEnd (by decide) : Apart isLineEnd isNameStart) ?_
        rw [hinput]
        exact starts_append_of_starts (starts_of_isName _ hv) mid'
      have hsplit : (String.ofList (layoutOf mid)).toList ++
          (v.toList ++ mid') = mid := by
        rw [String.toList_ofList, ← hinput, layoutOf_append_afterLayout]
      refine ⟨v :: names, by simp [hfound], ?_⟩
      have hmore := Parameters.more hw hgap (by rwa [hsplit]) hparameters
      rw [hsplit, ← gatherText_append] at hmore
      exact hmore

/-- Names with gaps between them are read as parameters. -/
theorem steps_of_parameters
    {input after : List Char} {text : String} {names : List String}
    (h : Parameters input text names after) :
    ∃ w ws mid found,
      names = w :: ws ∧ input = w.toList ++ mid ∧ isName w.toList = true ∧
      starts isNamePart mid = false ∧
      Steps (gapped identifier.run) mid found after ∧
      found.map (·.2) = ws.map (.leaf "variable") ∧ gatherText w found = text := by
  induction h with
  | @one w after hw hafter =>
      exact ⟨w, [], after, [], rfl, rfl, hw, hafter, .done after, rfl, rfl⟩
  | @more w gap text ws next after hw hgap hmid _ ih =>
      obtain ⟨v, vs, mid, found, rfl, rfl, hv, hmid', hsteps, hfound, rfl⟩ := ih
      have hnext : layoutOf (v.toList ++ mid) = [] :=
        layoutOf_of_starts ⟨.isBlank (by decide), by decide⟩
          (starts_append_of_starts (starts_of_isName _ hv) mid)
      obtain ⟨hlayout, hafter⟩ := layout_gap hgap hnext
      have hread : gapped identifier.run (gap.toList ++ (v.toList ++ mid)) =
          some ((gap, .leaf "variable" v), mid) := by
        rw [gapped_eq_some_iff, hlayout, hafter]
        exact ⟨rfl, run_identifier_iff.2 ⟨v, rfl, rfl, hv, hmid'⟩⟩
      refine ⟨w, v :: vs, _, _, rfl, rfl, hw, hmid, .next hread hsteps,
        by simp [hfound], ?_⟩
      rw [← gatherText_append]
      rfl

theorem Parameters.starts_input
    {input after : List Char} {text : String} {names : List String}
    (h : Parameters input text names after) :
    starts isNameStart input = true := by
  cases h with
  | one hw => exact starts_append_of_starts (starts_of_isName _ hw) _
  | more hw => exact starts_append_of_starts (starts_of_isName _ hw) _

theorem Parameters.layoutOf_input
    {input after : List Char} {text : String} {names : List String}
    (h : Parameters input text names after) :
    layoutOf input = [] :=
  layoutOf_of_starts ⟨.isBlank (by decide), by decide⟩ h.starts_input

theorem Parameters.input_eq
    {input after : List Char} {text : String} {names : List String}
    (h : Parameters input text names after) :
    input = text.toList ++ after := by
  induction h with
  | one => rfl
  | more _ _ _ _ ih =>
      rw [ih]
      simp [List.append_assoc]

/-- The parameters were read as `t`, and `rest` was left: the layout behind them
has been taken if there is one only. -/
structure PatternsRead
    (text : String) (names : List String) (after : List Char) (t : Tree)
    (rest : List Char) :
    Prop where
  tree_eq : t = patternsTree text names (String.ofList (layoutOf after))
  text_eq : t.text ++ String.ofList (layoutOf rest) = text ++
    String.ofList (layoutOf after)
  rest_eq : afterLayout rest = afterLayout after

theorem PatternsRead.functionTree_eq
    {text : String} {names : List String} {after rest : List Char} {t : Tree}
    (h : PatternsRead text names after t rest) (name gap : String) (m : Tree) :
    functionTree name gap text names (String.ofList (layoutOf after)) m =
      ⟨"function", name ++ gap ++ t.text ++ String.ofList (layoutOf rest) ++
        m.text, [.leaf "variable" name, t, m]⟩ := by
  have htext : name ++ gap ++ text ++ String.ofList (layoutOf after) =
      name ++ gap ++ t.text ++ String.ofList (layoutOf rest) := by
    simp only [String.append_assoc, h.text_eq]
  rw [functionTree, htext, ← h.tree_eq]

theorem patternsRead_of_steps
    {w : String} {ws : List String} {mid after rest : List Char}
    {found : List (String × Tree)} {t : Tree}
    (hsteps : Steps (gapped identifier.run) mid found after)
    (hfound : found.map (·.2) = ws.map (.leaf "variable"))
    (h : (t, rest) =
      if found.isEmpty then (⟨"patterns", w ++ String.ofList (layoutOf mid),
        [.leaf "variable" w]⟩, afterLayout mid)
      else (⟨"patterns", gatherText w found, .leaf "variable" w ::
        found.map (·.2)⟩, after)) :
    PatternsRead (gatherText w found) (w :: ws) after t rest := by
  cases hsteps with
  | done =>
      cases h
      cases ws with
      | cons => cases hfound
      | nil => exact ⟨rfl, by simp [gatherText], by simp⟩
  | next hread hsteps =>
      cases h
      cases ws with
      | nil => cases hfound
      | cons v ws => exact ⟨by simp [patternsTree, ← hfound], rfl, rfl⟩

theorem patterns_sound
    {input rest : List Char} {t : Tree}
    (h : patterns.run input = some (t, rest)) :
    ∃ text names after, Parameters input text names after ∧
      PatternsRead text names after t rest := by
  obtain ⟨w, mid, found, next, rfl, hw, hmid, hsteps, -, h⟩ := run_patterns_iff.1 h
  obtain ⟨names, hfound, hparameters⟩ := parameters_of_steps hsteps hw hmid
  exact ⟨_, _, next, hparameters, patternsRead_of_steps hsteps hfound h⟩

theorem patterns_complete
    {input after : List Char} {text : String} {names : List String}
    (h : Parameters input text names after)
    (hafter : starts isNameStart (afterLayout after) = false) :
    ∃ t rest, patterns.run input = some (t, rest) ∧
      PatternsRead text names after t rest := by
  obtain ⟨w, ws, mid, found, rfl, rfl, hw, hmid, hsteps, hfound, rfl⟩ :=
    steps_of_parameters h
  have hstop : gapped identifier.run after = none := by
    rw [gapped_eq_none_iff, identifier, run_leafOf,
      takes_name.eq_none starts_of_isName hafter]
    rfl
  exact ⟨_, _, run_patterns_iff.2 ⟨w, mid, found, after, rfl, hw, hmid, hsteps,
    hstop, rfl⟩, patternsRead_of_steps hsteps hfound rfl⟩

end Names

theorem Equates.exists_cons
    {input rest : List Char} {m : Tree}
    (h : Equates input m rest) :
    ∃ mid, input = '=' :: mid ∧ starts isOperatorChar mid = false := by
  obtain ⟨hgap, hp⟩ := h
  rw [hp.input_eq]
  exact ⟨_, rfl, starts_isOperatorChar_gap hgap hp.derives _⟩

/-- There is no layout in front of an equation. -/
theorem Equates.layoutOf_input
    {input rest : List Char} {m : Tree}
    (h : Equates input m rest) :
    layoutOf input = [] := by
  obtain ⟨mid, rfl, -⟩ := h.exists_cons
  exact layoutOf_of_starts (p := (· == '=')) ⟨.isBlank (by decide), by decide⟩ rfl

theorem isGap_of_equates
    {mid rest : List Char} {m : Tree}
    (h : Equates (afterLayout mid) m rest) :
    IsGap (String.ofList (layoutOf mid)) := by
  obtain ⟨next, hnext, -⟩ := h.exists_cons
  refine isGap_of_starts (q := (· == '=')) (.isLineEnd (by decide)) ?_
  rw [hnext]
  rfl

theorem Equates.starts_isNamePart
    {input rest : List Char} {m : Tree}
    (h : Equates input m rest) {gap : String} (hgap : IsGap gap) :
    starts isNamePart (gap.toList ++ input) = false := by
  obtain ⟨mid, rfl, -⟩ := h.exists_cons
  exact Apart.isBlank_isNamePart.starts_append hgap rfl

/-- Names with an equals sign behind them. -/
def Headed (input : List Char) : Prop :=
  ∃ t after mid, Stands .application input t after ∧
    afterLayout after = '=' :: mid ∧ starts isOperatorChar mid = false

/-- A name with names behind it is an application. -/
theorem Parameters.stands
    {next after : List Char} {text : String} {names : List String}
    (h : Parameters next text names after) :
    ∀ {input : List Char} {f : Tree} {gap : String},
      IsGap gap → Stands .application input f (gap.toList ++ next) →
      ∃ t, Stands .application input t after := by
  induction h with
  | @one w _ hw hafter =>
      intro input f gap hgap hf
      exact ⟨_, Stands.apply (a := .leaf "variable" w) hf hgap (.name hw) hafter⟩
  | @more w _ _ _ _ _ hw hgap' hmid _ ih =>
      intro input f gap hgap hf
      exact ih hgap'
        (Stands.apply (a := .leaf "variable" w) hf hgap (.name hw) hmid)

theorem Binds.headed
    {input rest : List Char} {t : Tree}
    (h : Binds input t rest) :
    Headed input := by
  obtain ⟨hname, hgap, hm⟩ := h
  obtain ⟨mid, hmid, hstop⟩ := hm.exists_cons
  refine ⟨_, _, mid,
    ⟨.single (by decide) (.name hname), rfl, hm.starts_isNamePart hgap⟩, ?_,
    hstop⟩
  rw [(layout_gap hgap hm.layoutOf_input).2, hmid]

theorem Defines.headed
    {input rest : List Char} {t : Tree}
    (h : Defines input t rest) :
    Headed input := by
  obtain ⟨hname, hgap, hnext, hparameters, hgap', hm⟩ := h
  obtain ⟨mid, hmid, hstop⟩ := hm.exists_cons
  obtain ⟨t, ht⟩ :=
    hparameters.stands hgap ⟨.single (by decide) (.name hname), rfl, hnext⟩
  refine ⟨t, _, mid, ht, ?_, hstop⟩
  rw [(layout_gap hgap' hm.layoutOf_input).2, hmid]

/-- Behind the first name there is either an equals sign or another name. -/
theorem Binds.not_defines
    {input rest rest' : List Char} {t t' : Tree}
    (h : Binds input t rest) :
    ¬ Defines input t' rest' := by
  intro h'
  obtain ⟨hname, hgap, hm⟩ := h
  rename_i name gap next m
  have hread := takes_name.run hname (hm.starts_isNamePart hgap)
  generalize hinput : name.toList ++ (gap.toList ++ next) = input at h' hread
  obtain ⟨hname', hgap', hnext', hparameters, -, -⟩ := h'
  rw [takes_name.run hname' hnext'] at hread
  have hnext := congrArg (fun r => r.map fun r => afterLayout r.2) hread
  simp only [Option.map_some, Option.some.injEq,
    (layout_gap hgap' hparameters.layoutOf_input).2,
    (layout_gap hgap hm.layoutOf_input).2] at hnext
  obtain ⟨mid, hmid, -⟩ := hm.exists_cons
  have hstart := hparameters.starts_input
  rw [hnext, hmid] at hstart
  cases hstart

theorem run_topSplice_iff
    {value : Parser Phrase} {input rest : List Char} {t : Tree} :
    (topSplice value).run input = some (t, rest) ↔
    ∃ p, value.run input = some (p, rest) ∧ t = spliceTree p := by
  simp only [topSplice, run_rule, run_bind, run_pure, Option.bind_eq_some_iff,
    Prod.exists, Option.some.injEq, Prod.mk.injEq]
  constructor
  · rintro ⟨p, _, hp, rfl, rfl⟩
    exact ⟨p, hp, rfl⟩
  · rintro ⟨p, hp, rfl⟩
    exact ⟨p, rest, hp, rfl, rfl⟩

section Declaration

variable {n : Nat} {value : Parser Phrase} (hvalue : Reads n .dollar value.run)
include hvalue

theorem reads_bind : ReadsTrees n Binds (bind value).run := by
  have hassignment := reads_assignment hvalue
  constructor
  · intro input rest t h
    simp only [bind, run_rule, run_bind, run_layout, run_pure, Option.bind_some,
      Option.bind_eq_some_iff, Prod.exists,
      Option.some.injEq, Prod.mk.injEq, run_identifier_iff] at h
    obtain ⟨_, mid, ⟨w, rfl, rfl, hw, hmid⟩, m, _, hm, rfl, rfl⟩ := h
    have hm := hassignment.sound hm
    have hbinds := Binds.intro hw (isGap_of_equates hm) hm
    rwa [String.toList_ofList, layoutOf_append_afterLayout] at hbinds
  · rintro input rest t ⟨hname, hgap, hm⟩ hrest hinput
    rename_i name gap next m
    obtain ⟨hlayout, hafter⟩ := layout_gap hgap hm.layoutOf_input
    have hread :=
      run_identifier_iff.2 ⟨name, rfl, rfl, hname, hm.starts_isNamePart hgap⟩
    have hread' := hassignment.complete hm hrest (by
      simp only [List.length_append] at hinput
      omega)
    simp only [bind, run_rule, run_bind, run_layout, run_pure, Option.bind_some,
      hread, hlayout, hafter, hread']
    rfl

theorem reads_function : ReadsTrees n Defines (function value).run := by
  have hassignment := reads_assignment hvalue
  constructor
  · intro input rest t h
    simp only [function, run_rule, run_bind, run_layout, run_pure,
      Option.bind_some, Option.bind_eq_some_iff, Prod.exists,
      Option.some.injEq, Prod.mk.injEq, run_identifier_iff] at h
    obtain ⟨_, mid, ⟨w, rfl, rfl, hw, hmid⟩, ps, behind, hps, m, _, hm, rfl,
        rfl⟩ := h
    obtain ⟨text, names, after, hparameters, hread⟩ := patterns_sound hps
    have hm := hassignment.sound hm
    rw [hread.rest_eq] at hm
    have hgap : IsGap (String.ofList (layoutOf mid)) :=
      isGap_of_starts (.isLineEnd (by decide)) hparameters.starts_input
    have hmid' : starts isNamePart ((String.ofList (layoutOf mid)).toList ++
        afterLayout mid) = false := by
      rwa [String.toList_ofList, layoutOf_append_afterLayout]
    have hafter : after = (String.ofList (layoutOf after)).toList ++
        afterLayout after := by
      rw [String.toList_ofList, layoutOf_append_afterLayout]
    rw [hafter] at hparameters
    have hdefines :=
      Defines.intro hw hgap hmid' hparameters (isGap_of_equates hm) hm
    rw [String.toList_ofList, layoutOf_append_afterLayout] at hdefines
    rw [hread.functionTree_eq] at hdefines
    exact hdefines
  · rintro input rest t ⟨hname, hgap, hnext, hparameters, hgap', hm⟩ hrest hinput
    rename_i name gap text gap' names next mid m
    obtain ⟨hlayout, hafter⟩ := layout_gap hgap hparameters.layoutOf_input
    obtain ⟨hlayout', hafter'⟩ := layout_gap hgap' hm.layoutOf_input
    have hstop : starts isNameStart (afterLayout (gap'.toList ++ mid)) = false := by
      obtain ⟨mid', rfl, -⟩ := hm.exists_cons
      rw [hafter']
      rfl
    obtain ⟨ps, behind, hps, hread⟩ := patterns_complete hparameters hstop
    have hread' := run_identifier_iff.2 ⟨name, rfl, rfl, hname, hnext⟩
    have hm' := hassignment.complete hm hrest (by
      rw [hparameters.input_eq] at hinput
      simp only [List.length_append] at hinput
      omega)
    have hbehind : afterLayout behind = mid := by
      rw [hread.rest_eq, hafter']
    have htree := hread.functionTree_eq name gap m
    rw [hlayout'] at htree
    simp only [function, run_rule, run_bind, run_layout, run_pure,
      Option.bind_some, hread', hlayout, hafter, hps, hbehind, hm', htree]
    rfl

/-- No expression that is closed by what stands behind it is a name or several
names with an equals sign behind. -/
theorem not_headed_of_reading
    {input rest : List Char} {p : Phrase}
    (h : Reading .dollar (BareAt .dollar) input p rest) (hrest : Closed rest)
    (hinput : input.length < n) :
    ¬ Headed input := by
  rintro ⟨t, after, mid, ht, hafter, hmid⟩
  have hstands : Stands .dollar input t after :=
    ⟨ht.derives.loosen, ht.input_eq, ht.stops⟩
  obtain ⟨trail, rest', hread, hsplit⟩ := hstands.exists_reading (BareAt .dollar)
  have hafter' : afterLayout rest' = '=' :: mid := by
    rw [← hread.trail.afterLayout_append, hsplit, hafter]
  have hends : Ends .dollar rest' := by
    constructor
    · intro k op mid' hop hk hmid'
      -- the equals sign is a whole run of operator characters, and belongs to
      -- no level
      rw [hafter'] at hop
      have hword := (takeWhile_run (w := ['=']) rfl hmid).1
      rw [List.singleton_append, hop, (takeWhile_run hk.1 hmid').1] at hword
      have hlevel := hk.2
      rw [hword] at hlevel
      cases hlevel
    · intro _
      rw [hafter']
      rfl
  -- both expressions would be read from the same input
  have hsame :=
    (hvalue.complete hread hends hinput).symm.trans
      (hvalue.complete h (hrest.ends .dollar) hinput)
  cases hsame
  have := hrest.operator
  rw [hafter'] at this
  cases this

theorem reads_declaration : ReadsTrees n Declares (declaration value).run := by
  have hfunction := reads_function hvalue
  have hbind := reads_bind hvalue
  constructor
  · intro input rest t h
    simp only [declaration, run_orTry, Option.or_eq_some_iff, run_topSplice_iff] at h
    rcases h with h | ⟨-, h | ⟨-, p, hp, rfl⟩⟩
    · exact .function (hfunction.sound h)
    · exact .bind (hbind.sound h)
    · exact .splice (hvalue.sound hp)
  · intro input rest t h hrest hinput
    simp only [declaration, run_orTry]
    cases h with
    | function h =>
        rw [hfunction.complete h hrest hinput]
        rfl
    | bind h =>
        have hnone : (function value).run input = none := by
          rw [Option.eq_none_iff_forall_ne_some]
          intro r hr
          exact h.not_defines (hfunction.sound hr)
        rw [hnone, hbind.complete h hrest hinput]
        rfl
    | splice h =>
        have hno := not_headed_of_reading hvalue h hrest hinput
        have hnone : (function value).run input = none := by
          rw [Option.eq_none_iff_forall_ne_some]
          intro r hr
          exact hno (hfunction.sound hr).headed
        have hnone' : (bind value).run input = none := by
          rw [Option.eq_none_iff_forall_ne_some]
          intro r hr
          exact hno (hbind.sound hr).headed
        rw [hnone, hnone']
        exact run_topSplice_iff.2 ⟨_,
          hvalue.complete h (hrest.ends .dollar) hinput, rfl⟩

end Declaration

end Grammar

end Curried
