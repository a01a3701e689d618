import Curried.Proofs.Chains

/-!
# Readers of expressions

The readers of expressions read what the grammar of expressions says.

**Soundness.**  What a reader of level `l` reads is an expression of that level,
and it stands at the front of the input.

**Completeness.**  An expression at the front of the input is read as a whole if
what comes behind it does not continue it: no operator that binds as tightly,
and no further atom.  Since every pair of parentheses takes up characters, a
bound on the nesting that exceeds the length of the input is no restriction.

**Results.**
* `reads_chain`, `reads_application`, `reads_atom`: one level from the next
  tighter one.
* `reads_expression`: all of them together, by induction on the nesting.
-/

namespace Curried

namespace Grammar

open Lexeme Curried.Parser

/-- What comes behind an expression of level `l` does not continue it. -/
structure Ends (l : Level) (after : List Char) : Prop where
  operator : ∀ {k : Level} {op mid : List Char},
    afterLayout after = op ++ mid → IsOperator k op →
      starts isOperatorChar mid = false → l.rank < k.rank
  atom : l ≠ .atom → starts isAtomStart (afterLayout after) = false

namespace Ends

variable {l : Level} {after : List Char}

theorem congr
    {after' : List Char}
    (h : Ends l after) (hsame : afterLayout after' = afterLayout after) :
    Ends l after' := by
  constructor
  · rw [hsame]
    exact h.operator
  · rw [hsame]
    exact h.atom

theorem of_starts
    (hoperator : starts isOperatorChar (afterLayout after) = false)
    (hatom : starts isAtomStart (afterLayout after) = false) :
    Ends l after where
  operator := by
    intro k op mid hop hk _
    rw [hop, hk.starts_append] at hoperator
    cases hoperator
  atom := fun _ => hatom

theorem lower
    (h : Ends l after) (hl : l ≠ .atom) :
    Ends l.lower after where
  operator := by
    intro k op mid hop hk hmid
    have := Level.rank_lower_lt hl
    have := h.operator hop hk hmid
    omega
  atom := fun _ => h.atom hl

end Ends

/-- An operator ends the tighter expressions in front of it. -/
theorem LinkAt.ends
    {l : Level} {operand : List Char → Phrase → List Char → Prop}
    {input rest : List Char} {link : Link}
    (h : LinkAt l operand input link rest) :
    Ends l.lower input := by
  obtain ⟨mid, hmid, hstop, -, -⟩ := h.operand
  constructor
  · intro k op mid' hop hk hstop'
    rw [hmid] at hop
    have hread := (takeWhile_run h.operator.1 hstop).1
    rw [hop, (takeWhile_run hk.1 hstop').1] at hread
    have hlevel := hk.2
    rw [hread, h.operator.2] at hlevel
    cases hlevel
    exact Level.rank_lower_lt (Level.ofOperator_ne_lower h.operator.2).1
  · intro _
    rw [hmid]
    exact apart_isOperatorChar_isAtomStart.starts_eq_false
      (h.operator.starts_append mid)

theorem Links.ends
    {l : Level} {operand : List Char → Phrase → List Char → Prop}
    {input rest : List Char} {links : List Link}
    (hl : l ≠ .atom)
    (h : Links l operand input links rest) (hrest : Ends l rest) :
    Ends l.lower input := by
  cases h with
  | nil => exact hrest.lower hl
  | cons hlink _ => exact hlink.ends

/-- The reader reads expressions of level `l`, and on inputs shorter than `n` it
reads all of them. -/
structure Reads (n : Nat) (l : Level) (run : List Char →
    Option (Phrase × List Char)) : Prop where
  sound : ∀ {input rest : List Char} {p : Phrase},
    run input = some (p, rest) → Reading l (BareAt l) input p rest
  complete : ∀ {input rest : List Char} {p : Phrase},
    Reading l (BareAt l) input p rest → Ends l rest → input.length < n →
      run input = some (p, rest)

theorem Reading.length_lt
    {l : Level} {bare : Tree → Prop} {input rest : List Char} {p : Phrase}
    (h : Reading l bare input p rest) :
    rest.length < input.length := by
  obtain ⟨c, w, hw, -⟩ := exists_cons_of_starts h.derives.starts_text
  rw [h.input_eq, hw]
  simp only [List.length_append, List.length_cons]
  omega

/-- How far an expression goes is settled by its tree. -/
theorem Reading.unique
    {l l' : Level} {bare : Tree → Prop} {input rest rest' : List Char}
    {p p' : Phrase}
    (h : Reading l bare input p rest) (h' : Reading l' bare input p' rest')
    (htree : p'.tree = p.tree) :
    p' = p ∧ rest' = rest := by
  obtain ⟨t, trail⟩ := p
  obtain ⟨t', trail'⟩ := p'
  cases htree
  have hsame := List.append_cancel_left (h'.input_eq.symm.trans h.input_eq)
  obtain ⟨htrail, hrest⟩ := h'.trail.unique h.trail hsame
  exact ⟨congrArg (Phrase.mk t) (String.toList_inj.1 htrail), hrest⟩

/-- An expression of level `l` stands at the front of the input, with `after`
behind it. -/
structure Stands (l : Level) (input : List Char) (t : Tree)
    (after : List Char) : Prop where
  derives : Derives l t
  input_eq : input = t.text.toList ++ after
  stops : starts (goesOn t) after = false

theorem Reading.stands
    {l : Level} {bare : Tree → Prop} {input rest : List Char} {p : Phrase}
    (h : Reading l bare input p rest) :
    Stands l input p.tree (p.trail.toList ++ rest) :=
  ⟨h.derives, h.input_eq, h.stops⟩

/-- Whatever of the layout behind an expression is taken with it. -/
theorem Stands.exists_reading
    {l : Level} {input after : List Char} {t : Tree}
    (h : Stands l input t after) (bare : Tree → Prop) :
    ∃ trail rest, Reading l bare input ⟨t, trail⟩ rest ∧
      trail.toList ++ rest = after := by
  obtain ⟨trail, rest, rfl, htrail⟩ := Trail.exists_split (bare t) after
  refine ⟨String.ofList trail, rest, ⟨h.derives, ?_, ?_, ?_⟩, ?_⟩ <;>
    rw [String.toList_ofList]
  · exact h.input_eq
  · exact htrail
  · exact h.stops

section Chain

variable {n : Nat} {l : Level} {lean : Phrase → List Link → Phrase}
  {operand : Parser Phrase} {operator : Parser String}

/-- What the members of a chain give, and what is left behind them. -/
def gather
    (lean : Phrase → List Link → Phrase) (first : Phrase) (mid : List Char)
    (links : List Link) (next : List Char) : Phrase × List Char :=
  if links.isEmpty then
    (first.followedBy (String.ofList (layoutOf mid)), afterLayout mid)
  else
    (lean first links, next)

theorem run_chain_iff
    (hoperator : ReadsOperator l operator) (hlean : Leans l lean)
    (hoperand : ∀ ⦃i p o⦄, operand.run i = some (p, o) → o.length ≤ i.length)
    {input rest : List Char} {p : Phrase} :
    (chain lean operand operator).run input = some (p, rest) ↔
      ∃ first mid links next,
        operand.run input = some (first, mid) ∧
        Links l (fun i p o => operand.run i = some (p, o)) mid links next ∧
        gapped (linkParser operand operator).run next = none ∧
        (p, rest) = gather lean first mid links next := by
  refine Iff.trans
    (run_listing_iff (p := operand) (consumes_linkParser hoperator hoperand)
    (f := fun first gap links => lean (first.followedBy gap) (links.map toLink))) ?_
  have hlisted : ∀ first mid found next,
      Listed (fun first gap links =>
        lean (first.followedBy gap) (links.map toLink)) first mid found next =
        gather lean first mid (found.map toLink) next := by
    intro first mid found next
    cases found with
    | nil =>
        simp [Listed, gather, hlean.nil]
    | cons y found =>
        obtain ⟨lead, op, inner, right⟩ := y
        simp [Listed, gather, toLink, hlean.shift]
  constructor
  · rintro ⟨first, mid, found, next, hfirst, hsteps, hstop, h⟩
    rw [hlisted] at h
    exact ⟨first, mid, found.map toLink, next, hfirst,
      links_of_steps hoperator hsteps, hstop, h⟩
  · rintro ⟨first, mid, links, next, hfirst, hlinks, hstop, h⟩
    obtain ⟨found, rfl, hsteps⟩ := steps_of_links hoperator hlinks
    rw [← hlisted] at h
    exact ⟨first, mid, found, next, hfirst, hsteps, hstop, h⟩

theorem Links.complete
    (hoperand : Reads n l.lower operand.run) (hl : l ≠ .atom)
    {input rest : List Char} {links : List Link}
    (h : Links l (Reading l.lower (BareAt l.lower)) input links rest)
    (hrest : Ends l rest) (hinput : input.length < n) :
    Links l (fun i p o => operand.run i = some (p, o)) input links rest := by
  induction h with
  | nil =>
      exact .nil _
  | @cons input mid _ _ _ hlink hlinks ih =>
      have hmid : mid.length ≤ input.length := by
        have := congrArg List.length hlink.input_eq
        simp only [List.length_append] at this
        omega
      refine .cons (hlink.map fun next hnext hreading => ?_) (ih hrest (by omega))
      exact hoperand.complete hreading (hlinks.ends hl hrest) (by omega)

theorem Links.sound
    (hoperand : Reads n l.lower operand.run)
    {input rest : List Char} {links : List Link}
    (h : Links l (fun i p o => operand.run i = some (p, o)) input links rest) :
    Links l (Reading l.lower (BareAt l.lower)) input links rest := by
  induction h with
  | nil => exact .nil _
  | cons hlink _ ih =>
      exact .cons (hlink.map fun _ _ hrun => hoperand.sound hrun) ih

theorem gapped_linkParser_eq_none
    (hoperator : ReadsOperator l operator)
    {rest : List Char} (hrest : Ends l rest) :
    gapped (linkParser operand operator).run rest = none := by
  cases h : gapped (linkParser operand operator).run rest with
  | none =>
      rfl
  | some r =>
      have hlink := (gapped_linkParser_iff hoperator).1 h
      obtain ⟨mid, hmid, hstop, -, -⟩ := hlink.operand
      exact absurd (hrest.operator hmid hlink.operator hstop) (Nat.lt_irrefl _)

/-- A chain of operands reads the expressions of the level of its operators. -/
theorem reads_chain
    (hoperand : Reads n l.lower operand.run)
    (hoperator : ReadsOperator l operator) (hlean : Leans l lean)
    (hl : l ≠ .atom) :
    Reads n l (chain lean operand operator).run := by
  have hshrink : ∀ ⦃i p o⦄, operand.run i = some (p, o) → o.length ≤ i.length :=
    fun _ _ _ h => Nat.le_of_lt (hoperand.sound h).length_lt
  have hsound : ∀ {input rest : List Char} {p : Phrase},
      (chain lean operand operator).run input = some (p, rest) →
        Reading l (BareAt l) input p rest := by
    intro input rest p h
    obtain ⟨first, mid, links, next, hfirst, hlinks, -, hgather⟩ :=
      (run_chain_iff hoperator hlean hshrink).1 h
    have hfirst := hoperand.sound hfirst
    cases links with
    | nil =>
        cases hgather
        exact hfirst.settle hl
    | cons link links =>
        cases hgather
        exact hlean.join hfirst (hlinks.sound hoperand)
  refine ⟨hsound, ?_⟩
  intro input rest p h hrest hinput
  obtain ⟨trail, rest', h', hsplit⟩ := h.stands.exists_reading (BareIn l)
  obtain ⟨first, mid, links, hfirst, hlinks, hmembers⟩ := hlean.split h'
  have hrest' : Ends l rest' := by
    refine hrest.congr ?_
    rw [← h'.trail.afterLayout_append, hsplit, h.trail.afterLayout_append]
  have hfirst' := hoperand.complete hfirst (hlinks.ends hl hrest') hinput
  have hlinks' :=
    hlinks.complete hoperand hl hrest' (Nat.lt_trans hfirst.length_lt hinput)
  have hread := (run_chain_iff hoperator hlean hshrink).2
    ⟨first, mid, links, rest', hfirst', hlinks',
      gapped_linkParser_eq_none hoperator hrest', rfl⟩
  -- the tree is the one wanted, and so it goes as far as it should
  have htree : (gather lean first mid links rest').1.tree = p.tree := by
    cases links with
    | nil =>
        rw [hlean.nil] at hmembers
        rw [hmembers]
        rfl
    | cons link links =>
        change (lean first (link :: links)).tree = p.tree
        rw [hmembers]
  obtain ⟨hp, hrest⟩ := h.unique (hsound hread) htree
  rw [hread, hp, hrest]

end Chain

/-- The reader reads atoms, and on inputs shorter than `n` it reads all of
them. -/
structure ReadsAtoms (n : Nat) (run : List Char → Option (Tree × List Char)) :
    Prop where
  sound : ∀ {input rest : List Char} {t : Tree},
    run input = some (t, rest) → Stands .atom input t rest
  complete : ∀ {input rest : List Char} {t : Tree},
    Stands .atom input t rest → input.length < n → run input = some (t, rest)

theorem Stands.length_lt
    {l : Level} {input after : List Char} {t : Tree}
    (h : Stands l input t after) :
    after.length < input.length := by
  obtain ⟨c, w, hw, -⟩ := exists_cons_of_starts h.derives.starts_text
  rw [h.input_eq, hw]
  simp only [List.length_append, List.length_cons]
  omega

theorem Stands.reading_of_bare
    {l : Level} {bare : Tree → Prop} {input after : List Char} {t : Tree}
    (h : Stands l input t after) (hbare : bare t) :
    Reading l bare input ⟨t, ""⟩ after :=
  ⟨h.derives, h.input_eq, ⟨fun _ => rfl, fun hno => absurd hbare hno⟩, h.stops⟩

/-- A further atom makes a longer application. -/
theorem Stands.apply
    {input after : List Char} {f a : Tree} {gap : String}
    (h : Stands .application input f (gap.toList ++ (a.text.toList ++ after)))
    (hgap : IsGap gap) (ha : Derives .atom a)
    (hafter : starts (goesOn a) after = false) :
    Stands .application input (applyTree f gap a) after := by
  have hstop : starts (goesOn f) (gap.toList ++ a.text.toList) = false := by
    have hstops := h.stops
    rwa [← List.append_assoc, starts_append (by simp [ha.text_ne_nil])] at hstops
  refine ⟨.apply h.derives hgap ha hstop, ?_, hafter⟩
  rw [h.input_eq]
  simp [applyTree, List.append_assoc]

section Application

variable {n : Nat} {atom : Parser Tree}

/-- A function applied to arguments, each with the layout before it. -/
def applyAll (first : Phrase) (arguments : List (String × Tree)) : Phrase :=
  arguments.foldl (fun acc r => joinApply acc r.1 r.2) first

theorem joinApply_eq
    (f a : Tree) (trail lead : String) :
    joinApply ⟨f, trail⟩ lead a = ⟨applyTree f (trail ++ lead) a, ""⟩ := by
  simp [joinApply, applyTree, Phrase.text, String.append_assoc]

theorem consumes_atom
    (hatom : ReadsAtoms n atom.run) :
    Consumes atom.run :=
  fun _ _ _ h => (hatom.sound h).length_lt

theorem run_application_iff
    (hatom : ReadsAtoms n atom.run)
    {input rest : List Char} {p : Phrase} :
    (application atom).run input = some (p, rest) ↔
      ∃ first mid found next,
        atom.run input = some (first, mid) ∧
        Steps (gapped atom.run) mid found next ∧
        gapped atom.run next = none ∧
        (p, rest) =
          if found.isEmpty then (⟨first, String.ofList (layoutOf mid)⟩,
            afterLayout mid)
          else (applyAll ⟨first, ""⟩ found, next) := by
  refine Iff.trans (run_listing_iff (p := atom) (consumes_atom hatom)
    (f := fun first gap arguments => applyAll ⟨first, gap⟩ arguments)) ?_
  have hlisted : ∀ first mid (found : List (String × Tree)) next,
      Listed (fun first gap arguments => applyAll ⟨first, gap⟩ arguments) first
        mid found next =
        if found.isEmpty then (⟨first, String.ofList (layoutOf mid)⟩,
          afterLayout mid)
        else (applyAll ⟨first, ""⟩ found, next) := by
    intro first mid found next
    cases found with
    | nil => rfl
    | cons y found => simp [Listed, applyAll, joinApply_eq]
  simp only [hlisted]

/-- Every argument makes a longer application. -/
theorem applyAll_stands
    (hatom : ReadsAtoms n atom.run)
    {input mid rest : List Char} {t : Tree} {found : List (String × Tree)}
    (h : Stands .application input t mid)
    (hfound : Steps (gapped atom.run) mid found rest) :
    ∃ t', applyAll ⟨t, ""⟩ found = ⟨t', ""⟩ ∧ Stands .application input t' rest ∧
      (found ≠ [] ∨ BareAt .application t → BareAt .application t') := by
  induction hfound generalizing t with
  | done =>
      exact ⟨t, rfl, h, fun hor => hor.resolve_left fun hne => hne rfl⟩
  | @next mid mid' rest y found hread _ ih =>
      obtain ⟨lead, a⟩ := y
      obtain ⟨rfl, hatom'⟩ := gapped_eq_some_iff.1 hread
      have ha := hatom.sound hatom'
      have hsplit := layoutOf_append_afterLayout mid
      rw [ha.input_eq] at hsplit
      have hgap : IsGap (String.ofList (layoutOf mid)) := by
        refine isGap_of_starts apart_isLineEnd_isAtomStart ?_
        rw [ha.input_eq]
        exact ha.derives.starts_text_append _
      have happly :=
        Stands.apply (by rwa [String.toList_ofList, hsplit]) hgap ha.derives
          ha.stops
      obtain ⟨t', ht', hstands, hbare⟩ := ih happly
      refine ⟨t', ?_, hstands, fun _ => hbare (Or.inr (bareAt_applyTree _ _ _))⟩
      rw [← ht']
      simp [applyAll, joinApply_eq]

/-- Every application is a first atom with arguments. -/
theorem exists_applyAll
    (hatom : ReadsAtoms n atom.run)
    {l : Level} {t : Tree} (hderives : Derives l t) (hl : l.rank ≤ 1)
    {input after : List Char}
    (h : Stands l input t after) (hinput : input.length < n) :
    ∃ first mid found,
      atom.run input = some (first, mid) ∧
      Steps (gapped atom.run) mid found after ∧
      applyAll ⟨first, ""⟩ found = ⟨t, ""⟩ := by
  induction hderives generalizing after with
  | integer | text | name | parens =>
      exact ⟨_, after, [], hatom.complete h hinput, .done after, rfl⟩
  | single hne hderives ih =>
      have := Level.rank_lower_lt hne
      exact ih (by omega) ⟨hderives, h.input_eq, h.stops⟩
  | @apply f a gap hf hgap ha hstop ih _ =>
      have hinput' : input = f.text.toList ++
          (gap.toList ++ (a.text.toList ++ after)) := by
        rw [h.input_eq]
        simp [applyTree, List.append_assoc]
      have hstop' : starts (goesOn f) (gap.toList ++ (a.text.toList ++ after)) =
          false := by
        rw [← List.append_assoc, starts_append (by simp [ha.text_ne_nil])]
        exact hstop
      obtain ⟨first, mid, found, hfirst, hfound, hall⟩ :=
        ih hl ⟨hf, hinput', hstop'⟩
      have hread : atom.run (a.text.toList ++ after) = some (a, after) := by
        refine hatom.complete ⟨ha, rfl, h.stops⟩ ?_
        rw [hinput'] at hinput
        simp only [List.length_append] at hinput ⊢
        omega
      have hargument : gapped atom.run (gap.toList ++
          (a.text.toList ++ after)) = some ((gap, a), after) := by
        rw [gapped_eq_some_iff, layoutOf_blank_append hgap, ha.layoutOf_text,
          afterLayout_blank_append hgap,
          afterLayout_of_layoutOf (ha.layoutOf_text _), List.append_nil,
          String.ofList_toList]
        exact ⟨rfl, hread⟩
      refine ⟨first, mid, found ++ [(gap, a)], hfirst,
        hfound.trans (.next hargument (.done after)), ?_⟩
      rw [applyAll, List.foldl_append]
      change joinApply (applyAll ⟨first, ""⟩ found) gap a = _
      rw [hall, joinApply_eq, String.empty_append]
  | @left l _ _ _ _ _ _ _ _ hop =>
      -- operators are made above applications
      have hrank : ∀ l : Level, l ≠ .atom ∧ l ≠ .application → ¬ l.rank ≤ 1 := by
        intro l
        cases l <;> decide
      exact absurd hl (hrank l (Level.ofOperator_ne_lower hop.2))
  | right =>
      simp [Level.rank] at hl

theorem gapped_atom_eq_none
    (hatom : ReadsAtoms n atom.run)
    {rest : List Char} (hrest : Ends .application rest) :
    gapped atom.run rest = none := by
  rw [gapped_eq_none_iff]
  cases h : atom.run (afterLayout rest) with
  | none =>
      rfl
  | some r =>
      have hstands := hatom.sound h
      have hstart := hrest.atom (by decide)
      rw [hstands.input_eq, hstands.derives.starts_text_append] at hstart
      cases hstart

/-- A run of atoms reads the expressions of the level of applications. -/
theorem reads_application
    (hatom : ReadsAtoms n atom.run) :
    Reads n .application (application atom).run := by
  have hsound : ∀ {input rest : List Char} {p : Phrase},
      (application atom).run input = some (p, rest) →
        Reading .application (BareAt .application) input p rest := by
    intro input rest p h
    obtain ⟨first, mid, found, next, hfirst, hfound, -, hp⟩ :=
      (run_application_iff hatom).1 h
    have hfirst := hatom.sound hfirst
    cases found with
    | nil =>
        cases hp
        exact (hfirst.reading_of_bare hfirst.derives.bareAt_atom).settle
          (by decide : Level.application ≠ .atom)
    | cons y found =>
        have hstands : Stands .application input first mid :=
          ⟨.single (by decide) hfirst.derives, hfirst.input_eq, hfirst.stops⟩
        obtain ⟨t, ht, hall, hbare⟩ := applyAll_stands hatom hstands hfound
        simp only [List.isEmpty_cons, Bool.false_eq_true, if_false, ht,
          Prod.mk.injEq] at hp
        obtain ⟨rfl, rfl⟩ := hp
        exact hall.reading_of_bare (hbare (Or.inl (List.cons_ne_nil _ _)))
  refine ⟨hsound, ?_⟩
  intro input rest p h hrest hinput
  obtain ⟨first, mid, found, hfirst, hfound, hall⟩ :=
    exists_applyAll hatom h.derives (Nat.le_refl 1) h.stands hinput
  have hstop := gapped_atom_eq_none hatom (hrest.congr h.trail.afterLayout_append)
  have hread :=
    (run_application_iff hatom).2 ⟨first, mid, found, _, hfirst, hfound,
      hstop, rfl⟩
  have htree : (applyAll ⟨first, ""⟩ found).tree = p.tree := by rw [hall]
  obtain ⟨hp, hrest⟩ := h.unique (hsound hread) (by cases found <;> exact htree)
  rw [hread, hp, hrest]

end Application

section Atom

theorem run_leafOf
    (tag : String) (lexeme : Parser String) (input : List Char) :
    (leafOf tag lexeme).run input = (lexeme.run input).map fun r =>
      (.leaf tag r.1, r.2) := by
  rw [leafOf, run_bind]
  cases lexeme.run input <;> rfl

theorem run_leafOf_iff
    {tag : String} {lexeme : Parser String} {input rest : List Char} {t : Tree} :
    (leafOf tag lexeme).run input = some (t, rest) ↔
      ∃ w, t = .leaf tag w ∧ lexeme.run input = some (w, rest) := by
  rw [run_leafOf, Option.map_eq_some_iff]
  constructor
  · rintro ⟨⟨w, rest'⟩, hread, h⟩
    cases h
    exact ⟨w, rfl, hread⟩
  · rintro ⟨w, rfl, hread⟩
    exact ⟨(w, rest), hread, rfl⟩

theorem run_parens_iff
    {inner : Parser Phrase} {input rest : List Char} {t : Tree} :
    (parens inner).run input = some (t, rest) ↔
      ∃ inside body mid,
        input = '(' :: inside ∧
        inner.run (afterLayout inside) = some (body, mid) ∧
        afterLayout mid = ')' :: rest ∧
        t = parensTree (String.ofList (layoutOf inside)) body.tree
          (body.trail ++ String.ofList (layoutOf mid)) := by
  have hopen : openParen.run = takeChar '(' := rfl
  have hclose : closeParen.run = takeChar ')' := rfl
  simp only [parens, run_rule, run_bind, run_layout, run_pure, Option.bind_some,
    Option.bind_eq_some_iff, Prod.exists,
    Option.some.injEq, Prod.mk.injEq, hopen, hclose, takeChar_eq_some_iff]
  constructor
  · rintro ⟨_, inside, ⟨rfl, rfl⟩, body, mid, hbody, _, _, ⟨rfl, hmid⟩, rfl, rfl⟩
    exact ⟨inside, body, mid, rfl, hbody, hmid,
      by simp [parensTree, Phrase.text, String.append_assoc]⟩
  · rintro ⟨inside, body, mid, rfl, hbody, hmid, rfl⟩
    exact ⟨_, inside, ⟨rfl, rfl⟩, body, mid, hbody, _, rest, ⟨rfl, hmid⟩,
      by simp [parensTree, Phrase.text, String.append_assoc], rfl⟩

theorem parens_sound
    {n : Nat} {inner : Parser Phrase} (hinner : Reads n .dollar inner.run)
    {input rest : List Char} {t : Tree}
    (h : (parens inner).run input = some (t, rest)) :
    Stands .atom input t rest := by
  obtain ⟨inside, body, mid, rfl, hbody, hclose, rfl⟩ := run_parens_iff.1 h
  have hbody := hinner.sound hbody
  have hinside := layoutOf_append_afterLayout inside
  have hmid := layoutOf_append_afterLayout mid
  have hgap : IsGap (String.ofList (layoutOf inside)) := by
    refine isGap_of_starts apart_isLineEnd_isAtomStart ?_
    rw [hbody.input_eq]
    exact hbody.derives.starts_text_append _
  have hgap' : IsGap (body.trail ++ String.ofList (layoutOf mid)) := by
    have hbehind : body.trail ++ String.ofList (layoutOf mid) =
        String.ofList (layoutOf (body.trail.toList ++ mid)) := by
      rw [hbody.layoutOf_behind, String.ofList_append, String.ofList_toList]
    rw [hbehind]
    refine isGap_of_starts (q := (· == ')')) (.isLineEnd (by decide)) ?_
    rw [hbody.trail.afterLayout_append, hclose]
    rfl
  refine ⟨.parens hgap hbody.derives hgap', ?_, ?_⟩
  · have hinput : inside = layoutOf inside ++
        (body.tree.text.toList ++ (body.trail.toList ++
        (layoutOf mid ++ ')' :: rest))) := by
      rw [← hclose, hmid, ← hbody.input_eq, hinside]
    rw [List.cons_eq_cons.2 ⟨rfl, hinput⟩]
    simp [parensTree, List.append_assoc]
  · cases rest <;> simp

theorem parens_complete
    {n : Nat} {inner : Parser Phrase} (hinner : Reads n .dollar inner.run)
    {gap gap' : String} {e : Tree} (hgap : IsGap gap) (he : Derives .dollar e)
    (hgap' : IsGap gap')
    {input rest : List Char}
    (h : Stands .atom input (parensTree gap e gap') rest)
    (hinput : input.length < n + 1) :
    (parens inner).run input = some (parensTree gap e gap', rest) := by
  obtain ⟨after, hafter⟩ : ∃ after, after = gap'.toList ++ ')' :: rest := ⟨_, rfl⟩
  have hinput' : input = '(' :: (gap.toList ++ (e.text.toList ++ after)) := by
    rw [h.input_eq, hafter]
    simp [parensTree, List.append_assoc]
  have hclose : layoutOf (')' :: rest) = [] :=
    layoutOf_of_starts (p := (· == ')')) ⟨.isBlank (by decide), by decide⟩ rfl
  have hbehind : layoutOf after = gap'.toList ∧
      afterLayout after = ')' :: rest := by
    rw [hafter, layoutOf_blank_append hgap', hclose,
      afterLayout_blank_append hgap', afterLayout_of_layoutOf hclose,
      List.append_nil]
    exact ⟨rfl, rfl⟩
  have hstop : starts (goesOn e) after = false := by
    rw [hafter]
    refine (apart_goesOn .isBlank_isNamePart e).starts_append hgap' ?_
    exact apart_goesOn (.single (by decide : isNamePart ')' = false)) e ')' rfl
  have hstands : Stands .dollar (e.text.toList ++ after) e after := ⟨he, rfl, hstop⟩
  obtain ⟨trail, mid, hbody, hsplit⟩ := hstands.exists_reading (BareAt .dollar)
  have hmid : afterLayout mid = ')' :: rest := by
    rw [← hbody.trail.afterLayout_append, hsplit, hbehind.2]
  have hends : Ends .dollar mid := by
    refine .of_starts ?_ ?_ <;> rw [hmid] <;> rfl
  have hread := hinner.complete hbody hends (by
    rw [hinput'] at hinput
    simp only [List.length_cons, List.length_append] at hinput ⊢
    omega)
  refine run_parens_iff.2 ⟨_, ⟨e, trail⟩, mid, hinput', ?_, hmid, ?_⟩
  · rw [afterLayout_blank_append hgap,
      afterLayout_of_layoutOf (he.layoutOf_text after)]
    exact hread
  · have htrail : trail ++ String.ofList (layoutOf mid) = gap' := by
      rw [← String.ofList_toList (s := trail), ← String.ofList_append,
        ← hbody.trail.layoutOf_append, hsplit, hbehind.1, String.ofList_toList]
    rw [layoutOf_blank_append hgap, he.layoutOf_text, List.append_nil,
      String.ofList_toList, htrail]

/-- The reader of atoms reads all of them in which the expressions inside
parentheses are read. -/
theorem reads_atom
    {n : Nat} {inner : Parser Phrase} (hinner : Reads n .dollar inner.run) :
    ReadsAtoms (n + 1) (atom inner).run := by
  constructor
  · intro input rest t h
    simp only [atom, run_orTry, Option.or_eq_some_iff, identifier,
      run_leafOf_iff] at h
    rcases h with ⟨w, rfl, hw⟩ | ⟨-, ⟨w, rfl, hw⟩ | ⟨-, ⟨w, rfl, hw⟩ | ⟨-, h⟩⟩⟩
    · obtain ⟨rfl, hword, hstop⟩ := (takes_integer _ _ _).1 hw
      exact ⟨.integer hword, rfl, hstop⟩
    · obtain ⟨rfl, hword, -⟩ := (takes_text _ _ _).1 hw
      refine ⟨.text hword, rfl, ?_⟩
      cases rest <;> rfl
    · obtain ⟨rfl, hword, hstop⟩ := (takes_name _ _ _).1 hw
      exact ⟨.name hword, rfl, hstop⟩
    · exact parens_sound hinner h
  · intro input rest t h hinput
    obtain ⟨hderives, hin, hstop⟩ := id h
    -- each class of atoms starts with characters of its own, so that the
    -- readers tried before fail
    have hinteger :=
      fun hinput => takes_integer.eq_none starts_of_isInteger
        (hinput : starts Char.isDigit input = false)
    have htext :=
      fun hinput => takes_text.eq_none starts_of_isText
        (hinput : starts (· == '"') input = false)
    have hname :=
      fun hinput => takes_name.eq_none starts_of_isName
        (hinput : starts isNameStart input = false)
    simp only [atom, identifier, run_orTry, run_leafOf]
    cases hderives with
    | @integer w hword =>
        have hread : integer.run input = some (w, rest) := by
          rw [hin]
          exact takes_integer.run hword hstop
        rw [hread]
        rfl
    | @text w hword =>
        have hread : text.run input = some (w, rest) := by
          rw [hin]
          exact takes_text.run hword rfl
        have hstart : starts (· == '"') input = true := by
          rw [hin]
          exact starts_append_of_starts (starts_of_isText _ hword) rest
        rw [hinteger (Apart.starts_eq_false (.single (by decide)) hstart), hread]
        rfl
    | @name w hword =>
        have hread : name.run input = some (w, rest) := by
          rw [hin]
          exact takes_name.run hword hstop
        have hstart : starts isNameStart input = true := by
          rw [hin]
          exact starts_append_of_starts (starts_of_isName _ hword) rest
        have hquote : Apart (· == '"') isNameStart := .single (by decide)
        rw [hinteger (Apart.isNameStart_isDigit.starts_eq_false hstart),
          htext (hquote.symm.starts_eq_false hstart), hread]
        rfl
    | parens hgap he hgap' =>
        have hstart : starts (· == '(') input = true := by
          simp [hin, parensTree]
        rw [hinteger (Apart.starts_eq_false (.single (by decide)) hstart),
          htext (Apart.starts_eq_false (.single (by decide)) hstart),
          hname (Apart.starts_eq_false (.single (by decide)) hstart)]
        exact parens_complete hinner hgap he hgap' h hinput
    | single hl => exact absurd rfl hl
    | left _ _ _ hop => exact absurd rfl (Level.ofOperator_ne_lower hop.2).1

end Atom

/-- The reader of expressions with a bound on the nesting reads all expressions
on inputs that are shorter than the bound. -/
theorem reads_expression
    (n : Nat) :
    Reads n .dollar (expression n).run := by
  induction n with
  | zero =>
      constructor
      · intro input rest p h
        cases h
      · intro input rest p _ _ h
        exact absurd h (Nat.not_lt_zero _)
  | succ n ih =>
      have hatom := reads_atom ih
      have happlication := reads_application hatom
      have hproduct := reads_chain (l := .product) happlication
        readsOperator_product (leans_left (by decide) (by decide)) (by decide)
      have hsum :=
        reads_chain (l := .sum) hproduct readsOperator_sum
          (leans_left (by decide) (by decide)) (by decide)
      have hcustom := reads_chain (l := .custom) hsum readsOperator_custom
        (leans_left (by decide) (by decide)) (by decide)
      exact reads_chain (l := .dollar) hcustom readsOperator_dollar leans_right
        (by decide)

end Grammar

end Curried
