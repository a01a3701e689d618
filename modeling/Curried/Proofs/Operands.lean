import Curried.Proofs.Addresses
import Curried.Proofs.NormalForm

/-!
# Expressions inside programs

**Occurrences.**  `Tree.Contains` says that a tree stands somewhere in another
one.  Wherever a node of an expression stands in the tree of a program, it is
the tree of an expression of the grammar, and its text alone is a program too.

**Results.**
* `expression_reads_alone`: the text of an expression in a program, read alone,
  gives that expression again.
* `isOperand_iff`: the texts of expressions in programs that have no `$` at
  their top are the texts of the expressions that can be members of a chain of
  `$`.
-/

namespace Curried

open Grammar Lexeme

/-- The second tree is the first one or stands somewhere below it. -/
inductive Tree.Contains : Tree → Tree → Prop
  | self (t : Tree) : Contains t t
  | child {t c s : Tree} : c ∈ t.children → Contains c s → Contains t s

/-- The node stands for an expression. -/
def Tree.IsExpression (t : Tree) : Prop :=
  t.tag ∈ ["integer", "string", "variable", "parens", "apply", "infix"]

/-- The text of an expression that occurs in some program and has no `$` at its
top. -/
def IsOperand (e : String) : Prop :=
  ∃ source program t,
    parse source = .ok program ∧ program.Contains t ∧ t.IsExpression ∧
      t.binding? ≠ some .dollar ∧ t.text = e

namespace Grammar

/-- Every expression is one of the loosest level. -/
theorem Derives.loosest
    {l : Level} {t : Tree}
    (h : Derives l t) :
    Derives .dollar t := by
  cases l with
  | atom => exact (Derives.single (l := .application) nofun h).loosen
  | application => exact h.loosen
  | product =>
      exact .single nofun
        (.single (l := .custom) nofun (.single (l := .sum) nofun h))
  | sum => exact .single nofun (.single (l := .custom) nofun h)
  | custom => exact .single nofun h
  | dollar => exact h

/-- An expression without `$` at its top can be a member of a chain of `$`. -/
theorem Derives.custom_of_binding
    {t : Tree}
    (h : Derives .dollar t) (ht : t.binding? ≠ some .dollar) :
    Derives .custom t := by
  cases h with
  | single _ h => exact h
  | left hl => exact absurd rfl hl
  | @right a b gap op gap' _ _ hop =>
      have hsign : op = "$" :=
        String.toList_inj.1 (Level.ofOperator_eq_dollar_iff.1 hop.2)
      subst hsign
      exact absurd rfl ht

end Grammar

namespace Tree.Contains

variable {s : Tree}

theorem of_subtree?
    {t : Tree} {p : List Nat}
    (h : t.subtree? p = some s) :
    t.Contains s := by
  induction p generalizing t with
  | nil =>
      cases h
      exact .self _
  | cons i p ih =>
      obtain ⟨c, hc, hs⟩ := Option.bind_eq_some_iff.1 h
      exact .child (List.mem_of_getElem? hc) (ih hs)

theorem eq_of_leaf
    {tag text : String}
    (h : (leaf tag text).Contains s) :
    s = leaf tag text := by
  cases h with
  | self => rfl
  | child hc => cases hc

theorem not_isExpression
    {tag text : String}
    (h : (leaf tag text).Contains s)
    (htag : tag ∉ ["integer", "string", "variable", "parens", "apply", "infix"]) :
    ¬ s.IsExpression := by
  rw [h.eq_of_leaf]
  exact htag

theorem of_parensTree
    {gap gap' : String} {e : Tree}
    (h : (parensTree gap e gap').Contains s) (hs : s.IsExpression) :
    s = parensTree gap e gap' ∨ e.Contains s := by
  cases h with
  | self => exact Or.inl rfl
  | child hc hcs =>
      simp only [parensTree, List.mem_cons, List.not_mem_nil, or_false] at hc
      rcases hc with rfl | rfl | rfl
      · exact absurd hs (hcs.not_isExpression (by decide))
      · exact Or.inr hcs
      · exact absurd hs (hcs.not_isExpression (by decide))

theorem of_applyTree
    {f a : Tree} {gap : String}
    (h : (applyTree f gap a).Contains s) :
    s = applyTree f gap a ∨ f.Contains s ∨ a.Contains s := by
  cases h with
  | self => exact Or.inl rfl
  | child hc hcs =>
      simp only [applyTree, List.mem_cons, List.not_mem_nil, or_false] at hc
      rcases hc with rfl | rfl
      · exact Or.inr (Or.inl hcs)
      · exact Or.inr (Or.inr hcs)

theorem of_infixTree
    {a b : Tree} {gap op gap' : String}
    (h : (infixTree a gap op gap' b).Contains s) (hs : s.IsExpression) :
    s = infixTree a gap op gap' b ∨ a.Contains s ∨ b.Contains s := by
  cases h with
  | self => exact Or.inl rfl
  | child hc hcs =>
      simp only [infixTree, List.mem_cons, List.not_mem_nil, or_false] at hc
      rcases hc with rfl | rfl | rfl
      · exact Or.inr (Or.inl hcs)
      · exact absurd hs (hcs.not_isExpression (by decide))
      · exact Or.inr (Or.inr hcs)

end Tree.Contains

namespace Grammar

/-- The expressions inside an expression are expressions of the grammar. -/
theorem Derives.of_contains
    {l : Level} {t s : Tree}
    (h : Derives l t) (hts : t.Contains s) (hs : s.IsExpression) :
    Derives .dollar s := by
  induction h with
  | integer hw =>
      rw [hts.eq_of_leaf]
      exact (Derives.integer hw).loosest
  | text hw =>
      rw [hts.eq_of_leaf]
      exact (Derives.text hw).loosest
  | name hw =>
      rw [hts.eq_of_leaf]
      exact (Derives.name hw).loosest
  | parens hgap he hgap' ih =>
      rcases hts.of_parensTree hs with rfl | hinner
      · exact (Derives.parens hgap he hgap').loosest
      · exact ih hinner
  | single _ _ ih =>
      exact ih hts
  | apply hf hgap ha hstops ihf iha =>
      rcases hts.of_applyTree with rfl | hleft | hright
      · exact (Derives.apply hf hgap ha hstops).loosest
      · exact ihf hleft
      · exact iha hright
  | left hl ha hgap hop hgap' hb iha ihb =>
      rcases hts.of_infixTree hs with rfl | hleft | hright
      · exact (Derives.left hl ha hgap hop hgap' hb).loosest
      · exact iha hleft
      · exact ihb hright
  | right ha hgap hop hgap' hb iha ihb =>
      rcases hts.of_infixTree hs with rfl | hleft | hright
      · exact (Derives.right ha hgap hop hgap' hb).loosest
      · exact iha hleft
      · exact ihb hright

theorem Derives.isExpression
    {l : Level} {t : Tree}
    (h : Derives l t) :
    t.IsExpression := by
  induction h with
  | integer | text | name | parens | apply | left | right =>
      simp [Tree.IsExpression, Tree.leaf, parensTree, applyTree, infixTree]
  | single _ _ ih => exact ih

theorem Equates.of_contains
    {input rest : List Char} {m s : Tree}
    (h : Equates input m rest) (hms : m.Contains s) (hs : s.IsExpression) :
    Derives .dollar s := by
  obtain ⟨-, hp⟩ := h
  cases hms with
  | self => exact absurd hs (by simp [Tree.IsExpression, matchTree])
  | child hc hcs =>
      simp only [matchTree, List.mem_cons, List.not_mem_nil, or_false] at hc
      rcases hc with rfl | rfl
      · exact absurd hs (hcs.not_isExpression (by decide))
      · exact hp.derives.of_contains hcs hs

/-- The expressions inside a declaration are expressions of the grammar. -/
theorem Declares.of_contains
    {input rest : List Char} {t s : Tree}
    (h : Declares input t rest) (hts : t.Contains s) (hs : s.IsExpression) :
    Derives .dollar s := by
  have hname : ∀ {w : String}, isName w.toList = true →
      (Tree.leaf "variable" w).Contains s → Derives .dollar s := by
    intro w hw hws
    rw [hws.eq_of_leaf]
    exact (Derives.name hw).loosest
  cases h with
  | function h =>
      obtain ⟨hw, -, -, hparameters, -, hm⟩ := h
      cases hts with
      | self => exact absurd hs (by simp [Tree.IsExpression, functionTree])
      | child hc hcs =>
          simp only [functionTree, List.mem_cons, List.not_mem_nil, or_false] at hc
          rcases hc with rfl | rfl | rfl
          · exact hname hw hcs
          · cases hcs with
            | self => exact absurd hs (by simp [Tree.IsExpression, patternsTree])
            | child hc hcs =>
                obtain ⟨w, hmem, rfl⟩ := List.mem_map.1 hc
                exact hname (hparameters.names.2 w hmem) hcs
          · exact hm.of_contains hcs hs
  | bind h =>
      obtain ⟨hw, -, hm⟩ := h
      cases hts with
      | self => exact absurd hs (by simp [Tree.IsExpression, bindTree])
      | child hc hcs =>
          simp only [bindTree, List.mem_cons, List.not_mem_nil, or_false] at hc
          rcases hc with rfl | rfl
          · exact hname hw hcs
          · exact hm.of_contains hcs hs
  | splice h =>
      cases hts with
      | self => exact absurd hs (by simp [Tree.IsExpression, spliceTree])
      | child hc hcs =>
          simp only [spliceTree, List.mem_singleton] at hc
          subst hc
          exact h.derives.of_contains hcs hs

theorem Body.of_contains
    {input : List Char} {ts : List Tree} {t s : Tree}
    (h : Body input ts) (ht : t ∈ ts) (hts : t.Contains s) (hs : s.IsExpression) :
    Derives .dollar s := by
  induction h with
  | last hd _ =>
      rw [List.mem_singleton] at ht
      subst ht
      exact hd.of_contains hts hs
  | more hd _ _ ih =>
      rcases List.mem_cons.1 ht with rfl | ht
      · exact hd.of_contains hts hs
      · exact ih ht

/-- An expression alone is a program. -/
theorem Derives.parse_text
    {t : Tree}
    (h : Derives .dollar t) :
    parse t.text = .ok ⟨"declarations", t.text, [spliceTree ⟨t, ""⟩]⟩ := by
  have hstands : Stands .dollar t.text.toList t [] :=
    ⟨h, (List.append_nil _).symm, rfl⟩
  obtain ⟨trail, rest, hreading, hempty⟩ := hstands.exists_reading (BareAt .dollar)
  obtain ⟨htrail, rfl⟩ := List.append_eq_nil_iff.1 hempty
  obtain rfl : trail = "" := String.toList_inj.1 htrail
  exact parse_eq_ok_iff.2 ⟨_, rfl,
    .body (.done _) (.last (.splice hreading) (.done _))⟩

end Grammar

/-- The expressions inside an accepted source are expressions of the grammar. -/
theorem derives_of_parse
    {source : String} {program t : Tree}
    (hparse : parse source = .ok program) (hcontains : program.Contains t)
    (ht : t.IsExpression) :
    Derives .dollar t := by
  obtain ⟨ts, rfl, hprogram⟩ := parse_eq_ok_iff.1 hparse
  cases hcontains with
  | self => exact absurd ht (by simp [Tree.IsExpression])
  | child hc hcs =>
      cases hprogram with
      | empty => cases hc
      | body _ hbody => exact hbody.of_contains hc hcs ht

/-- The tree that an expression alone is read as. -/
def ReadAs (e : String) (t : Tree) : Prop :=
  parse e = .ok ⟨"declarations", e, [⟨"top_splice", e, [t]⟩]⟩

theorem Grammar.Derives.readAs
    {t : Tree}
    (h : Derives .dollar t) :
    ReadAs t.text t := by
  have hparse := h.parse_text
  rwa [spliceTree, Phrase.text, String.append_empty] at hparse

/-- **The text of an expression stands for it.**  Wherever the node of an
expression stands in the tree of an accepted source, its text alone is accepted
too, as a program of one bare expression.  That expression is the node as it
was, down to its leaves. -/
theorem expression_reads_alone
    {source : String} {program t : Tree}
    (hparse : parse source = .ok program) (hcontains : program.Contains t)
    (ht : t.IsExpression) :
    parse t.text = .ok ⟨"declarations", t.text, [⟨"top_splice", t.text, [t]⟩]⟩ :=
  (derives_of_parse hparse hcontains ht).readAs

/-- A product that stands in a program as the left side of an operator of the
host, itself on the right of a `$`. -/
theorem product_reads_alone :
    ∃ program t, parse "z = f $ x  *(2 - y ) # \"--\" -- rest\n; z" = .ok program ∧
      program.subtree? [0, 1, 1, 2, 0] = some t ∧
      t = infixTree (.leaf "variable" "x") "  " "*" ""
        (parensTree ""
          (infixTree (.leaf "integer" "2") " " "-" " " (.leaf "variable" "y"))
          " ") ∧
      parse "x  *(2 - y )" =
        .ok ⟨"declarations", "x  *(2 - y )",
          [⟨"top_splice", "x  *(2 - y )", [t]⟩]⟩ := by
  have hplace : ((parse "z = f $ x  *(2 - y ) # \"--\" -- rest\n; z").toOption.bind
      (·.subtree? [0, 1, 1, 2, 0])) =
        some (infixTree (.leaf "variable" "x") "  " "*" ""
          (parensTree ""
            (infixTree (.leaf "integer" "2") " " "-" " " (.leaf "variable" "y"))
            " ")) := by
    decide +kernel
  cases hparse : parse "z = f $ x  *(2 - y ) # \"--\" -- rest\n; z" with
  | error e =>
      rw [hparse] at hplace
      cases hplace
  | ok program =>
      rw [hparse] at hplace
      have halone :=
        expression_reads_alone hparse (.of_subtree? hplace)
          (by simp [Tree.IsExpression, infixTree])
      exact ⟨program, _, rfl, hplace, rfl, halone⟩

/-- The operands are the texts of the expressions that can be members of a
chain. -/
theorem isOperand_iff
    {e : String} :
    IsOperand e ↔ ∃ t, Derives .custom t ∧ t.text = e := by
  constructor
  · rintro ⟨source, program, t, hparse, hcontains, ht, hbinding, rfl⟩
    exact ⟨t, Derives.custom_of_binding (derives_of_parse hparse hcontains ht)
      hbinding, rfl⟩
  · rintro ⟨t, ht, rfl⟩
    refine ⟨_, _, t, ht.loosest.parse_text, ?_, ht.isExpression, ?_, rfl⟩
    · exact .child (List.mem_singleton_self _)
        (.child (List.mem_singleton_self _) (.self t))
    · intro hdollar
      have hrank := ht.rank_binding _ hdollar
      exact absurd hrank (by decide)

end Curried
