import Curried.Proofs.Reading

/-!
# Chains

Chains of operators are read link by link.

**Links.**  `Links l operand input links rest` says that the links stand at the
front of the input.  This is what the repetition of a chain reads,
`links_of_steps` and `steps_of_links`.

**Directions.**  `Leans l lean` says that `lean` puts the members of a chain
together the way expressions of level `l` are made: a first member with links is
an expression, and every expression is a first member with links.  It holds of
both directions, `leans_left` and `leans_right`.
-/

namespace Curried

namespace Grammar

open Lexeme Curried.Parser

/-- The parser reads exactly the operators of level `l`. -/
def ReadsOperator (l : Level) (operator : Parser String) : Prop :=
  ∀ (input : List Char) (op : String) (rest : List Char),
    operator.run input = some (op, rest) ↔
      input = op.toList ++ rest ∧ IsOperator l op.toList ∧
        starts isOperatorChar rest = false

theorem readsOperator_of_accept
    {l : Level} {operator : Parser String} (accept : List Char → Bool)
    (hrun : operator.run = takeOperator accept)
    (haccept : ∀ w, accept w = true ↔ Level.ofOperator w = some l) :
    ReadsOperator l operator := by
  intro input op rest
  rw [hrun, takes_operator accept input op rest, isOperatorWord,
    Bool.and_eq_true, haccept]
  rfl

theorem readsOperator_product : ReadsOperator .product multiplicativeOperator :=
  readsOperator_of_accept (fun w => w == ['*'] || w == ['/']) rfl
    fun w => by simp [Level.ofOperator_eq_product_iff]

theorem readsOperator_sum : ReadsOperator .sum additiveOperator :=
  readsOperator_of_accept (fun w => w == ['+'] || w == ['-']) rfl
    fun w => by simp [Level.ofOperator_eq_sum_iff]

theorem readsOperator_custom : ReadsOperator .custom customOperator :=
  readsOperator_of_accept isCustom rfl
    fun w => by rw [Level.ofOperator_eq_custom_iff]

theorem readsOperator_dollar : ReadsOperator .dollar dollarOperator :=
  readsOperator_of_accept (· == ['$']) rfl
    fun w => by simp [Level.ofOperator_eq_dollar_iff]

/-- The parser of a further member of a chain, without the layout before it. -/
def linkParser (operand : Parser Phrase) (operator : Parser String) :
    Parser (String × String × Phrase) := do
  let op ← operator
  let inner ← layout
  let right ← operand
  pure (op, inner, right)

/-- A further member of a chain as it was read. -/
def toLink (r : String × String × String × Phrase) : Link :=
  ⟨r.1, r.2.1, r.2.2.1, r.2.2.2⟩

section Links

variable {l : Level} {operand : Parser Phrase} {operator : Parser String}
  (hoperator : ReadsOperator l operator)
include hoperator

theorem gapped_linkParser_iff
    {input rest : List Char} {r : String × String × String × Phrase} :
    gapped (linkParser operand operator).run input = some (r, rest) ↔
      LinkAt l (fun i p o => operand.run i = some (p, o)) input (toLink r)
        rest := by
  obtain ⟨lead, op, inner, right⟩ := r
  rw [gapped_eq_some_iff]
  simp only [linkParser, run_bind, run_layout, run_pure,
    Option.bind_eq_some_iff, Option.some.injEq, Prod.mk.injEq,
    Prod.exists, Option.bind_some]
  constructor
  · rintro ⟨hlead, op', mid, hop, right', rest', hright, ⟨rfl, rfl, rfl⟩, rfl⟩
    obtain ⟨hinput, hop, hmid⟩ := (hoperator _ _ _).1 hop
    exact ⟨hlead, hop, mid, hinput, hmid, rfl, hright⟩
  · rintro ⟨hlead, hop, mid, hinput, hmid, hgap, hright⟩
    refine ⟨hlead, op, mid, (hoperator _ _ _).2 ⟨hinput, hop, hmid⟩, right,
      rest, hright, ⟨rfl, ?_, rfl⟩, rfl⟩
    exact hgap.symm

theorem consumes_linkParser
    (hoperand : ∀ ⦃i p o⦄, operand.run i = some (p, o) → o.length ≤ i.length) :
    Consumes (linkParser operand operator).run := by
  rintro input ⟨op, inner, right⟩ rest h
  simp only [linkParser, run_bind, run_layout, run_pure,
    Option.bind_eq_some_iff, Option.some.injEq, Prod.mk.injEq,
    Prod.exists, Option.bind_some] at h
  obtain ⟨op', mid, hop, right', rest', hright, -, rfl⟩ := h
  obtain ⟨rfl, hop, -⟩ := (hoperator _ _ _).1 hop
  have hright := hoperand hright
  have hmid := congrArg List.length (layoutOf_append_afterLayout mid)
  have hstart := hop.starts_append []
  have hne : op'.toList ≠ [] := by
    intro hnil
    rw [hnil] at hstart
    cases hstart
  have := List.length_pos_iff.2 hne
  rw [List.length_append] at hmid ⊢
  omega

end Links

/-- Further members of a chain at the front of the input, one after the
other. -/
inductive Links
    (l : Level) (operand : List Char → Phrase → List Char → Prop) :
    List Char → List Link → List Char → Prop
  | nil (input : List Char) :
      Links l operand input [] input
  | cons {input mid rest : List Char} {link : Link} {links : List Link} :
      LinkAt l operand input link mid → Links l operand mid links rest →
      Links l operand input (link :: links) rest

section Steps

variable {l : Level} {operand : Parser Phrase} {operator : Parser String}
  (hoperator : ReadsOperator l operator)
include hoperator

theorem links_of_steps
    {input rest : List Char} {found : List (String × String × String × Phrase)}
    (h : Steps (gapped (linkParser operand operator).run) input found rest) :
    Links l (fun i p o => operand.run i = some (p, o)) input (found.map toLink)
      rest := by
  induction h with
  | done => exact .nil _
  | next hread _ ih => exact .cons ((gapped_linkParser_iff hoperator).1 hread) ih

theorem steps_of_links
    {input rest : List Char} {links : List Link}
    (h : Links l (fun i p o => operand.run i = some (p, o)) input links rest) :
    ∃ found, found.map toLink = links ∧
      Steps (gapped (linkParser operand operator).run) input found rest := by
  induction h with
  | nil =>
      exact ⟨[], rfl, .done _⟩
  | @cons _ _ _ link _ hlink _ ih =>
      obtain ⟨found, rfl, hsteps⟩ := ih
      refine ⟨(link.lead, link.operator, link.gap, link.operand) :: found, rfl,
        .next ?_ hsteps⟩
      exact (gapped_linkParser_iff hoperator).2 hlink

end Steps

theorem Links.trans
    {l : Level} {operand : List Char → Phrase → List Char → Prop}
    {input mid rest : List Char} {links links' : List Link}
    (h : Links l operand input links mid) (h' : Links l operand mid links' rest) :
    Links l operand input (links ++ links') rest := by
  induction h with
  | nil => exact h'
  | cons hlink _ ih => exact .cons hlink (ih h')

/-- `lean` puts the members of a chain together the way expressions of level `l`
are made. -/
structure Leans (l : Level) (lean : Phrase → List Link → Phrase) : Prop where
  nil : ∀ p, lean p [] = p
  shift : ∀ (p : Phrase) (gap op gap' : String) (q : Phrase) (links : List Link),
    lean (p.followedBy gap) (⟨"", op, gap', q⟩ :: links) =
      lean p (⟨gap, op, gap', q⟩ :: links)
  join : ∀ {input mid rest : List Char} {p : Phrase} {link : Link}
    {links : List Link}, Reading l.lower (BareAt l.lower) input p mid →
    Links l (Reading l.lower (BareAt l.lower)) mid (link :: links) rest →
    Reading l (BareAt l) input (lean p (link :: links)) rest
  split : ∀ {input rest : List Char} {p : Phrase},
    Reading l (BareIn l) input p rest →
    ∃ first mid links,
      Reading l.lower (BareAt l.lower) input first mid ∧
      Links l (Reading l.lower (BareAt l.lower)) mid links rest ∧
      lean first links = p

theorem joinInfix_followedBy
    (p q : Phrase) (gap op gap' : String) :
    joinInfix (p.followedBy gap) "" op gap' q = joinInfix p gap op gap' q := by
  simp [joinInfix_eq, Phrase.followedBy]

/-- A tighter expression in a chain is the only member of the chain. -/
theorem Reading.lower
    {l : Level} {input rest : List Char} {p : Phrase}
    (hl : l ≠ .atom)
    (hderives : Derives l.lower p.tree)
    (h : Reading l (BareIn l) input p rest) :
    Reading l.lower (BareAt l.lower) input p rest where
  derives := hderives
  input_eq := h.input_eq
  trail :=
    h.trail.congr ⟨Or.inr, fun hb =>
      hb.resolve_left (hderives.bareAt_ne_of_lower hl)⟩
  stops := h.stops

theorem leanLeft_append
    (first : Phrase) (links : List Link) (link : Link) :
    leanLeft first (links ++ [link]) =
      joinInfix (leanLeft first links) link.lead link.operator link.gap
        link.operand := by
  simp [leanLeft]

theorem leanLeft_join
    {l : Level} (hl : l ≠ .dollar)
    {input mid rest : List Char} {p : Phrase} {link : Link} {links : List Link}
    (h : Reading l (BareIn l) input p mid)
    (hlinks : Links l (Reading l.lower (BareAt l.lower)) mid (link :: links) rest) :
    Reading l (BareAt l) input (leanLeft p (link :: links)) rest := by
  induction links generalizing p mid link with
  | nil =>
      cases hlinks with
      | cons hlink hnil =>
          cases hnil
          exact h.link_left hl hlink
  | cons next links ih =>
      cases hlinks with
      | cons hlink hlinks =>
          rw [leanLeft, List.foldl_cons]
          exact ih ((h.link_left hl hlink).bareIn hlink.operator) hlinks

theorem leanLeft_split
    {l : Level} {t : Tree}
    (hderives : Derives l t) (hl : l ≠ .dollar)
    (hlower : l ≠ .atom ∧ l ≠ .application)
    {input rest : List Char} {trail : String}
    (h : Reading l (BareIn l) input ⟨t, trail⟩ rest) :
    ∃ first mid links,
      Reading l.lower (BareAt l.lower) input first mid ∧
      Links l (Reading l.lower (BareAt l.lower)) mid links rest ∧
      leanLeft first links = ⟨t, trail⟩ := by
  induction hderives generalizing trail rest with
  | integer | text | name | parens =>
      exact absurd rfl hlower.1
  | single hne hderives _ =>
      exact ⟨_, rest, [], h.lower hne hderives, .nil rest, rfl⟩
  | apply =>
      exact absurd rfl hlower.2
  | left _ ha hgap hop hgap' hb iha _ =>
      -- the left side is a chain as well; the right side is its last further
      -- member
      obtain ⟨behind, mid, lead, hp, hlink, hjoin⟩ :=
        h.unjoin (BareIn _) (BareAt _) ha hgap hop hgap' hb
          ((bareIn_infixTree hop).trans (bareAt_infixTree_left hl hop))
      obtain ⟨first, mid', links, hfirst, hlinks, hlean⟩ := iha hl hlower hp
      refine ⟨first, mid', links ++ [_], hfirst,
        hlinks.trans (.cons hlink (.nil rest)), ?_⟩
      rw [leanLeft_append, hlean]
      exact hjoin
  | right =>
      exact absurd rfl hl

theorem leanRight_join
    {input mid rest : List Char} {p : Phrase} {links : List Link}
    (h : Reading .custom (BareAt .custom) input p mid)
    (hlinks : Links .dollar (Reading .custom (BareAt .custom)) mid links rest) :
    Reading .dollar (BareIn .dollar) input (leanRight p links) rest ∧
      (links ≠ [] → Reading .dollar (BareAt .dollar) input (leanRight p links)
        rest) := by
  induction hlinks generalizing p input with
  | nil =>
      exact ⟨h.single (by decide), fun hne => absurd rfl hne⟩
  | @cons _ _ _ link links hlink _ ih =>
      have hright : LinkAt .dollar (Reading .dollar (BareIn .dollar)) _
          ⟨link.lead, link.operator, link.gap, leanRight link.operand links⟩ _ :=
        hlink.map fun _ _ hoperand => (ih hoperand).1
      have hall := h.link_right hright
      exact ⟨hall.bareIn hlink.operator, fun _ => hall⟩

theorem leanRight_split
    {l : Level} {t : Tree}
    (hderives : Derives l t) (hl : l = .dollar)
    {input rest : List Char} {trail : String}
    (h : Reading .dollar (BareIn .dollar) input ⟨t, trail⟩ rest) :
    ∃ first mid links,
      Reading .custom (BareAt .custom) input first mid ∧
      Links .dollar (Reading .custom (BareAt .custom)) mid links rest ∧
      leanRight first links = ⟨t, trail⟩ := by
  induction hderives generalizing input with
  | integer | text | name | parens | apply =>
      cases hl
  | single hne hderives _ =>
      subst hl
      exact ⟨_, rest, [], h.lower hne hderives, .nil rest, rfl⟩
  | left hne =>
      exact absurd hl hne
  | right ha hgap hop hgap' hb _ ihb =>
      -- the right side is a chain as well; its first member is that of the link
      obtain ⟨behind, mid, lead, hp, hlink, hjoin⟩ :=
        h.unjoin (BareAt _) (BareIn _) ha hgap hop hgap' hb
          ((bareIn_infixTree hop).trans (bareAt_infixTree_right hop))
      obtain ⟨mid', hmid', hstop, hgap, hoperand⟩ := hlink.operand
      obtain ⟨first, next, links, hfirst, hlinks, hlean⟩ := ihb rfl hoperand
      have hlink' : LinkAt .dollar (Reading .custom (BareAt .custom)) mid ⟨lead,
          _, _, first⟩ next :=
        ⟨hlink.lead_eq, hop, mid', hmid', hstop, hgap, hfirst⟩
      refine ⟨_, mid, _ :: links, hp, .cons hlink' hlinks, ?_⟩
      rw [leanRight, hlean]
      exact hjoin

theorem leans_left
    {l : Level}
    (hl : l ≠ .dollar) (hlower : l ≠ .atom ∧ l ≠ .application) :
    Leans l leanLeft where
  nil := fun _ => rfl
  shift := fun p gap op gap' q links => by
    rw [leanLeft, List.foldl_cons, joinInfix_followedBy]
    rfl
  join := fun h hlinks => leanLeft_join hl (h.single hlower.1) hlinks
  split := fun h => leanLeft_split h.derives hl hlower h

theorem leans_right : Leans .dollar leanRight where
  nil := fun _ => rfl
  shift :=
    fun p gap op gap' q links =>
      joinInfix_followedBy p (leanRight q links) gap op gap'
  join := fun h hlinks => (leanRight_join h hlinks).2 (List.cons_ne_nil _ _)
  split := fun h => leanRight_split h.derives rfl h

end Grammar

end Curried
