import Curried.Proofs.Code
import Curried.Proofs.Surface

/-!
# The code of a written program

What running a program does depends on its expressions and declarations, and on
nothing that the layout decides.

**Codes.**  `Expression.code` and `Declaration.code` are the codes of the trees
that expressions and declarations are read as.

**Result.**  `runSource_written`: running a way to write a program is running a
tree with the codes of the declarations.
-/

namespace Curried

open Grammar Lexeme

/-- What evaluating the expression depends on. -/
def Expression.code : {l : Level} → Expression l → Code
  | _, .integer w _ => (Plan.ofExcept (integerValue w)).code
  | _, .text w _ => (Plan.ofExcept (textValue w)).code
  | _, .name w _ => .look w
  | _, .parens e => code e
  | _, .single _ e => code e
  | _, .apply f a => .apply (code f) (code a)
  | _, .left _ a op _ _ b => .operate (code a) op (code b)
  | _, .right a op _ _ b => .operate (code a) op (code b)

/-- What evaluating the declaration depends on. -/
def Declaration.code : Declaration → Code
  | .function name parameter others e =>
      .define name.1 parameter.1 (others.map (·.1)) e.code
  | .bind name e => .bind name.1 e.code
  | .splice e => e.code

namespace Tree

theorem outlineAll_eq_map
    (ts : List Tree) :
    outlineAll ts = ts.map outline := by
  induction ts with
  | nil => rfl
  | cons t ts ih => rw [outlineAll, ih, List.map_cons]

/-- A tree has the tag of its outline, and children with the outlines of the
children of its outline. -/
theorem exists_of_outline
    {t : Tree} {tag text : String} {cs : List Tree}
    (h : t.outline = ⟨tag, text, cs⟩) :
    ∃ text' ts, t = ⟨tag, text', ts⟩ ∧ ts.map outline = cs := by
  obtain ⟨tag', text', ts⟩ := t
  rw [outline, outlineAll_eq_map] at h
  obtain ⟨rfl, -, hts⟩ := Tree.mk.inj h
  exact ⟨text', ts, rfl, hts⟩

/-- Leaves keep their texts. -/
theorem eq_leaf_of_outline
    {t : Tree} {tag text : String}
    (h : t.outline = .leaf tag text) :
    t = .leaf tag text := by
  obtain ⟨text', ts, rfl, hts⟩ := exists_of_outline h
  obtain rfl := List.map_eq_nil_iff.1 hts
  exact h

theorem eq_map_leaf_of_outline
    {ts : List Tree} {tag : String} {names : List String}
    (h : ts.map outline = names.map (leaf tag)) :
    ts = names.map (leaf tag) := by
  induction names generalizing ts with
  | nil => exact List.map_eq_nil_iff.1 h
  | cons x names ih =>
      rw [List.map_cons, List.map_eq_cons_iff] at h
      obtain ⟨t, ts, rfl, ht, hts⟩ := h
      rw [eq_leaf_of_outline ht, ih hts, List.map_cons]

theorem code_of_pass
    {t inner : Tree}
    (h : t.plan = .pass inner) :
    t.code = inner.code := by
  rw [code_eq_plan, h]
  rfl

theorem code_infix
    {t : Tree} {tag op : String} {a b : Tree} {ca cb : Code}
    (h : t.outline = ⟨"infix", "", [a, .leaf tag op, b]⟩)
    (ha : ∀ {t : Tree}, t.outline = a → t.code = ca)
    (hb : ∀ {t : Tree}, t.outline = b → t.code = cb) :
    t.code = .operate ca op cb := by
  obtain ⟨text, ts, rfl, hts⟩ := exists_of_outline h
  simp only [List.map_eq_cons_iff, List.map_eq_nil_iff] at hts
  obtain ⟨ta, _, rfl, hta, operator, _, rfl, hoperator, tb, _, rfl, htb, rfl⟩ := hts
  rw [code_eq_plan, ← ha hta, ← hb htb, eq_leaf_of_outline hoperator]
  rfl

/-- A tree of an expression has the code of the expression. -/
theorem code_of_expression
    {l : Level} (e : Expression l) {t : Tree}
    (h : t.outline = e.outline) :
    t.code = e.code := by
  induction e generalizing t with
  | integer w hw | text w hw | name w hw =>
      rw [eq_leaf_of_outline h, code_eq_plan]
      rfl
  | parens e ih =>
      obtain ⟨text, ts, rfl, hts⟩ := exists_of_outline h
      simp only [List.map_eq_cons_iff, List.map_eq_nil_iff] at hts
      obtain ⟨opening, _, rfl, -, inner, _, rfl, hinner, closing, _, rfl, -,
          rfl⟩ := hts
      exact (code_of_pass rfl).trans (ih hinner)
  | single _ e ih =>
      exact ih h
  | apply f a ihf iha =>
      obtain ⟨text, ts, rfl, hts⟩ := exists_of_outline h
      simp only [List.map_eq_cons_iff, List.map_eq_nil_iff] at hts
      obtain ⟨tf, _, rfl, hf, ta, _, rfl, ha, rfl⟩ := hts
      rw [code_eq_plan, Expression.code, ← ihf hf, ← iha ha]
      rfl
  | left _ a op _ _ b iha ihb =>
      exact code_infix h iha ihb
  | right a op _ _ b iha ihb =>
      exact code_infix h iha ihb

theorem code_of_equation
    {e : Expression .dollar} {t : Tree}
    (h : t.outline = ⟨"match", "", [.leaf "=" "=", e.outline]⟩) :
    t.kind = .equation ∧ t.code = e.code := by
  obtain ⟨text, ts, rfl, hts⟩ := exists_of_outline h
  simp only [List.map_eq_cons_iff, List.map_eq_nil_iff] at hts
  obtain ⟨sign, _, rfl, hsign, body, _, rfl, hbody, rfl⟩ := hts
  rw [eq_leaf_of_outline hsign]
  exact ⟨rfl, (code_of_pass rfl).trans (code_of_expression e hbody)⟩

/-- A tree of a declaration has the code of the declaration. -/
theorem code_of_declaration
    (d : Declaration) {t : Tree}
    (h : t.outline = d.outline) :
    t.code = d.code := by
  cases d with
  | function name parameter others e =>
      obtain ⟨text, ts, rfl, hts⟩ := exists_of_outline h
      simp only [List.map_eq_cons_iff, List.map_eq_nil_iff] at hts
      obtain ⟨tname, _, rfl, hname, patterns, _, rfl, hpatterns, body, _, rfl,
          hbody, rfl⟩ := hts
      obtain ⟨text', ps, rfl, hps⟩ := exists_of_outline hpatterns
      have hleaves : ps =
          (parameter.1 :: others.map (·.1)).map (leaf "variable") := by
        refine eq_map_leaf_of_outline ?_
        rw [hps, List.map_cons, List.map_cons, List.map_map]
        rfl
      rw [eq_leaf_of_outline hname, hleaves, code_eq_plan, plan_function,
        Plan.code, (code_of_equation hbody).2]
      rfl
  | bind name e =>
      obtain ⟨text, ts, rfl, hts⟩ := exists_of_outline h
      simp only [List.map_eq_cons_iff, List.map_eq_nil_iff] at hts
      obtain ⟨tname, _, rfl, hname, value, _, rfl, hvalue, rfl⟩ := hts
      obtain ⟨hkind, hcode⟩ := code_of_equation hvalue
      rw [eq_leaf_of_outline hname, code_eq_plan, plan_bind text name.1 hkind,
        Plan.code, hcode]
      rfl
  | splice e =>
      obtain ⟨text, ts, rfl, hts⟩ := exists_of_outline h
      simp only [List.map_eq_cons_iff, List.map_eq_nil_iff] at hts
      obtain ⟨only, _, rfl, honly, rfl⟩ := hts
      exact (code_of_pass rfl).trans (code_of_expression e honly)

theorem map_code_of_declarations
    {ds : List Declaration} {ts : List Tree}
    (h : ts.map outline = ds.map Declaration.outline) :
    ts.map code = ds.map Declaration.code := by
  induction ds generalizing ts with
  | nil => rw [List.map_eq_nil_iff.1 h, List.map_nil, List.map_nil]
  | cons d ds ih =>
      rw [List.map_cons, List.map_eq_cons_iff] at h
      obtain ⟨t, ts, rfl, ht, hts⟩ := h
      rw [List.map_cons, List.map_cons, code_of_declaration d ht, ih hts]

end Tree

/-- Running a way to write a program is running a tree with the codes of the
declarations. -/
theorem runSource_written
    {ds : List Declaration} {source : String}
    (h : Written ds source.toList) :
    ∃ t : Tree, t.code = .sequence (ds.map Declaration.code) ∧
      ∀ (host : Host) (table : Table) (scope : Scope) (m : Machine),
        runSource host table scope source m = runTree host table scope t m := by
  obtain ⟨ts, hprogram, houtlines⟩ := h.exists_program
  have hparse := parse_eq_ok_iff.2 ⟨ts, rfl, hprogram⟩
  refine ⟨⟨"declarations", source, ts⟩, ?_, fun host table scope m =>
    by rw [runSource, hparse]⟩
  rw [Tree.code_eq_plan, ← Tree.map_code_of_declarations houtlines]
  rfl

end Curried
