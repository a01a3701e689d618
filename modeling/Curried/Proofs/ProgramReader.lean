import Curried.Proofs.DeclarationReader
import Curried.Proofs.Fillers

/-!
# The reader of programs

**Grammar.**  `Program source ts` says that the source is a program with the
declarations `ts`: fillers around and between them, with a separator between
every two.

**Result.**  `parse_eq_ok_iff`: exactly the programs are accepted, and the tree
is the one of the program.
-/

namespace Curried

namespace Grammar

open Lexeme Curried.Parser

/-- Declarations with separators between them, up to the end of the input. -/
inductive Body : List Char → List Tree → Prop
  | last {n : Nat} {input rest : List Char} {t : Tree} :
      Declares input t rest → Fills n rest [] →
      Body input [t]
  | more {n : Nat} {input rest next : List Char} {t : Tree} {ts : List Tree} :
      Declares input t rest → Fills (n + 1) rest next → Body next ts →
      Body input (t :: ts)

/-- A program: declarations, or none at all. -/
inductive Program (source : List Char) : List Tree → Prop
  | empty {n : Nat} :
      Fills n source [] → Program source []
  | body {n : Nat} {next : List Char} {ts : List Tree} :
      Fills n source next → Body next ts → Program source ts

theorem Declares.starts_input
    {input rest : List Char} {t : Tree}
    (h : Declares input t rest) :
    starts isAtomStart input = true := by
  have hname : ∀ {w : String} (v : List Char), isName w.toList = true →
      starts isAtomStart (w.toList ++ v) = true :=
    fun v hw => (Derives.name hw).starts_text_append v
  cases h with
  | function h =>
      obtain ⟨hw, -⟩ := h
      exact hname _ hw
  | bind h =>
      obtain ⟨hw, -⟩ := h
      exact hname _ hw
  | splice h =>
      rw [h.input_eq]
      exact h.derives.starts_text_append _

theorem Declares.solid
    {input rest : List Char} {t : Tree}
    (h : Declares input t rest) :
    Solid input where
  layout := layoutOf_of_starts ⟨apart_isBlank_isAtomStart, rfl⟩ h.starts_input
  separator := (apart_isSeparator (by decide)).symm.starts_eq_false h.starts_input

/-- A filler with a separator, or up to the end of the input, closes a
declaration. -/
theorem Fills.closed
    {n : Nat} {input rest : List Char}
    (h : Fills n input rest) (hn : 0 < n ∨ rest = []) :
    Closed input := by
  rcases Nat.eq_zero_or_pos n with hzero | hpos
  · have hnil := h.afterLayout_eq_nil hzero (hn.resolve_left (by omega))
    constructor <;> rw [hnil] <;> rfl
  · have hstart := h.starts_afterLayout hpos
    exact ⟨(apart_isSeparator (by decide)).starts_eq_false hstart,
      (apart_isSeparator (by decide)).starts_eq_false hstart⟩

/-- A separator, whatever else can be skipped, and a declaration. -/
def nextDeclaration (value : Parser Phrase) : Parser Tree := do
  separator
  let _ ← layout
  separators
  let _ ← layout
  declaration value

theorem run_nextDeclaration
    (value : Parser Phrase) (input : List Char) :
    (nextDeclaration value).run input =
      (takeSeparator input).bind fun r => (declaration value).run (skip r.2) := by
  rw [nextDeclaration, run_bind]
  congr 1
  funext r
  exact run_skip (declaration value) r.2

theorem gapped_nextDeclaration_iff
    {value : Parser Phrase} {input rest : List Char} {lead : String} {t : Tree} :
    gapped (nextDeclaration value).run input = some ((lead, t), rest) ↔
      lead = String.ofList (layoutOf input) ∧
      (∃ n, Fills (n + 1) input (skip input)) ∧
      (declaration value).run (skip input) = some (t, rest) := by
  rw [gapped_eq_some_iff, run_nextDeclaration, Option.bind_eq_some_iff]
  refine and_congr_right fun _ => ?_
  constructor
  · rintro ⟨⟨u, mid⟩, hmid, hread⟩
    obtain ⟨hskip, hfills⟩ := skip_of_takeSeparator hmid
    rw [hskip] at hread
    exact ⟨hfills, hread⟩
  · rintro ⟨⟨n, hfills⟩, hread⟩
    have hstart := hfills.starts_afterLayout (Nat.succ_pos n)
    cases hmid : takeSeparator (afterLayout input) with
    | none =>
        rw [takeSeparator_eq_none_iff, hstart] at hmid
        cases hmid
    | some r =>
        refine ⟨r, rfl, ?_⟩
        rw [(skip_of_takeSeparator hmid).1]
        exact hread

theorem Equates.length_lt
    {input rest : List Char} {m : Tree}
    (h : Equates input m rest) :
    rest.length < input.length := by
  obtain ⟨-, hp⟩ := h
  have := hp.length_lt
  simp only [List.length_cons, List.length_append]
  omega

theorem Declares.length_lt
    {input rest : List Char} {t : Tree}
    (h : Declares input t rest) :
    rest.length < input.length := by
  cases h with
  | function h =>
      obtain ⟨-, -, -, hparameters, -, hm⟩ := h
      have := hm.length_lt
      rw [hparameters.input_eq]
      simp only [List.length_append]
      omega
  | bind h =>
      obtain ⟨-, -, hm⟩ := h
      have := hm.length_lt
      simp only [List.length_append]
      omega
  | splice h =>
      exact h.length_lt

/-- The declarations of a program, without what stands around them. -/
def listed (value : Parser Phrase) : Parser (List Tree) := do
  let first ← declaration value
  let _ ← layout
  let others ← spaced (nextDeclaration value)
  pure (first :: others.map (·.2))

theorem Solid.nil : Solid [] :=
  ⟨rfl, rfl⟩

theorem Solid.skip_eq
    {w : List Char}
    (h : Solid w) :
    skip w = w :=
  skip_eq_iff.2 ⟨⟨0, .done w⟩, h⟩

theorem Body.solid
    {input : List Char} {ts : List Tree}
    (h : Body input ts) :
    Solid input := by
  cases h with
  | last ht _ => exact ht.solid
  | more ht _ _ => exact ht.solid

section Reader

variable {n : Nat} {value : Parser Phrase} (hvalue : Reads n .dollar value.run)
include hvalue

theorem consumes_nextDeclaration : Consumes (nextDeclaration value).run := by
  intro input t rest h
  rw [run_nextDeclaration, Option.bind_eq_some_iff] at h
  obtain ⟨⟨u, mid⟩, hmid, hread⟩ := h
  have hseparator := consumes_separator hmid
  obtain ⟨⟨k, hfills⟩, -⟩ := fills_skip mid
  have hskip := hfills.length_le
  have hdeclares : rest.length < (skip mid).length :=
    ((reads_declaration hvalue).sound hread).length_lt
  omega

/-- The declarations that are read one after the other are the body of a
program. -/
theorem body_of_steps
    {mid last : List Char} {found : List (String × Tree)}
    (hsteps : Steps (gapped (nextDeclaration value).run) mid found last)
    {k : Nat} (hlast : Fills k last []) :
    ∀ {input : List Char} {t : Tree}, Declares input t mid →
      Body input (t :: found.map (·.2)) := by
  induction hsteps with
  | done =>
      intro input t ht
      exact .last ht hlast
  | @next mid _ _ y _ hread _ ih =>
      intro input t ht
      obtain ⟨lead, t'⟩ := y
      obtain ⟨-, ⟨m, hfills⟩, hread'⟩ := gapped_nextDeclaration_iff.1 hread
      exact .more ht hfills (ih hlast ((reads_declaration hvalue).sound hread'))

/-- The body of a program is read declaration by declaration. -/
theorem steps_of_body
    {input : List Char} {ts : List Tree}
    (h : Body input ts) (hinput : input.length < n) :
    ∃ t mid found last k,
      (declaration value).run input = some (t, mid) ∧
      Steps (gapped (nextDeclaration value).run) mid found last ∧
      ts = t :: found.map (·.2) ∧ Fills k last [] := by
  induction h with
  | @last k _ rest t ht hfills =>
      have hread :=
        (reads_declaration hvalue).complete ht (hfills.closed (Or.inr rfl))
          hinput
      exact ⟨t, rest, [], rest, k, hread, .done rest, rfl, hfills⟩
  | @more m _ rest next t ts ht hfills _ ih =>
      have hread :=
        (reads_declaration hvalue).complete ht
          (hfills.closed (Or.inl (Nat.succ_pos m))) hinput
      have hlength := ht.length_lt
      have hlength' := hfills.length_le
      obtain ⟨t', mid, found, last, k, hread', hsteps, rfl, hlast⟩ := ih (by omega)
      have hskip : skip rest = next :=
        skip_eq_iff.2 ⟨⟨_, hfills⟩, ((reads_declaration hvalue).sound hread').solid⟩
      have hnext : gapped (nextDeclaration value).run rest =
          some ((String.ofList (layoutOf rest), t'), mid) := by
        rw [gapped_nextDeclaration_iff, hskip]
        exact ⟨rfl, ⟨m, hfills⟩, hread'⟩
      exact ⟨t, rest, _, last, k, hread, .next hnext hsteps, rfl, hlast⟩

theorem declaration_nil : (declaration value).run [] = none := by
  rw [Option.eq_none_iff_forall_ne_some]
  intro r hr
  have := ((reads_declaration hvalue).sound hr).starts_input
  cases this

theorem run_listed_iff
    {input rest : List Char} {ts : List Tree} :
    (listed value).run input = some (ts, rest) ↔
      ∃ first mid found last,
        (declaration value).run input = some (first, mid) ∧
        Steps (gapped (nextDeclaration value).run) mid found last ∧
        gapped (nextDeclaration value).run last = none ∧
        ts = first :: found.map (·.2) ∧
        rest = if found.isEmpty then afterLayout last else last := by
  refine Iff.trans
    (run_listing_iff (p := declaration value) (consumes_nextDeclaration hvalue)
    (f := fun first _ others => first :: others.map Prod.snd)) ?_
  have hlisted :
      ∀ {first : Tree} {mid last : List Char} {found : List (String × Tree)},
      Steps (gapped (nextDeclaration value).run) mid found last →
      ((ts, rest) = Listed (fun first _ others => first :: others.map Prod.snd)
        first mid found last ↔
        ts = first :: found.map (·.2) ∧
          rest = if found.isEmpty then afterLayout last else last) := by
    intro first mid last found hsteps
    cases hsteps with
    | done => simp [Listed]
    | next => simp [Listed]
  constructor
  · rintro ⟨first, mid, found, last, hfirst, hsteps, hstop, h⟩
    exact ⟨first, mid, found, last, hfirst, hsteps, hstop, (hlisted hsteps).1 h⟩
  · rintro ⟨first, mid, found, last, hfirst, hsteps, hstop, h⟩
    exact ⟨first, mid, found, last, hfirst, hsteps, hstop, (hlisted hsteps).2 h⟩

/-- The body of a program is read if it goes on to the end of the input. -/
theorem listed_iff_body
    {input : List Char} {ts : List Tree}
    (hinput : input.length < n) :
    (∃ rest, (listed value).run input = some (ts, rest) ∧ skip rest = []) ↔
    Body input ts := by
  have hskip : ∀ (b : Bool) (w : List Char),
      skip (if b then afterLayout w else w) = skip w := by
    intro b w
    cases b with
    | false => rfl
    | true => simp [skip]
  constructor
  · rintro ⟨rest, h, hrest⟩
    obtain ⟨first, mid, found, last, hfirst, hsteps, -, rfl, rfl⟩ :=
      (run_listed_iff hvalue).1 h
    rw [hskip, skip_eq_iff] at hrest
    obtain ⟨⟨k, hlast⟩, -⟩ := hrest
    exact body_of_steps hvalue hsteps hlast
      ((reads_declaration hvalue).sound hfirst)
  · intro h
    obtain ⟨t, mid, found, last, k, hread, hsteps, rfl, hlast⟩ :=
      steps_of_body hvalue h hinput
    have hlast' : skip last = [] := skip_eq_iff.2 ⟨⟨k, hlast⟩, .nil⟩
    have hstop : gapped (nextDeclaration value).run last = none := by
      rw [Option.eq_none_iff_forall_ne_some]
      intro r hr
      have hnil := (gapped_nextDeclaration_iff.1 hr).2.2
      rw [hlast', declaration_nil hvalue] at hnil
      cases hnil
    refine ⟨_, (run_listed_iff hvalue).2 ⟨t, mid, found, last, hread, hsteps,
      hstop, rfl, rfl⟩, ?_⟩
    rw [hskip, hlast']

end Reader

theorem run_declarations
    (value : Parser Phrase) (input : List Char) :
    (declarations value).run input =
      (((listed value).run (skip input)).or (some ([], skip input))).bind fun r =>
        if skip r.2 = [] then some (r.1, []) else none := by
  have hend : ∀ (ts : List Tree) (w : List Char),
      (do
        let _ ← layout
        separators
        let _ ← layout
        endOfInput
        pure ts : Parser (List Tree)).run w = if skip w = [] then some (ts, [])
          else none := by
    intro ts w
    refine (run_skip (do endOfInput; pure ts) w).trans ?_
    cases skip w with
    | nil => rfl
    | cons c v => rfl
  refine (run_skip (do
    let found ← orElsePure (listed value) []
    let _ ← layout
    separators
    let _ ← layout
    endOfInput
    pure found) input).trans ?_
  rw [run_bind, orElsePure, run_orTry]
  congr 1
  funext r
  exact hend r.1 r.2

/-- The reader of programs reads exactly the programs on inputs that are shorter
than the bound on the nesting. -/
theorem run_declarations_iff
    {n : Nat} {value : Parser Phrase} (hvalue : Reads n .dollar value.run)
    {input rest : List Char} {ts : List Tree}
    (hinput : input.length < n) :
    (declarations value).run input = some (ts, rest) ↔ rest = [] ∧
    Program input ts := by
  obtain ⟨⟨k, hfills⟩, hsolid⟩ := fills_skip input
  have hlength := hfills.length_le
  have hbody : (∃ rest, (listed value).run (skip input) = some (ts, rest) ∧
      skip rest = []) ↔ Body (skip input) ts :=
    listed_iff_body hvalue (by omega)
  rw [run_declarations, Option.bind_eq_some_iff]
  constructor
  · rintro ⟨⟨ts', mid⟩, hor, h⟩
    split at h
    · rename_i hmid
      cases h
      rw [Option.or_eq_some_iff] at hor
      rcases hor with hread | ⟨-, hnone⟩
      · exact ⟨rfl, .body hfills (hbody.1 ⟨mid, hread, hmid⟩)⟩
      · cases hnone
        rw [hsolid.skip_eq] at hmid
        rw [hmid] at hfills
        exact ⟨rfl, .empty hfills⟩
    · cases h
  · rintro ⟨rfl, h⟩
    cases h with
    | empty hempty =>
        have hskip : skip input = [] := skip_eq_iff.2 ⟨⟨_, hempty⟩, .nil⟩
        have hnone : (listed value).run [] = none := by
          rw [listed, run_bind, declaration_nil hvalue]
          rfl
        refine ⟨([], []), ?_, ?_⟩
        · rw [hskip, hnone]
          rfl
        · rw [if_pos Solid.nil.skip_eq]
    | body hnext hts =>
        have hskip : skip input = _ := skip_eq_iff.2 ⟨⟨_, hnext⟩, hts.solid⟩
        rw [← hskip] at hts
        obtain ⟨mid, hread, hmid⟩ := hbody.2 hts
        refine ⟨(ts, mid), ?_, ?_⟩
        · rw [hread]
          rfl
        · rw [if_pos hmid]

end Grammar

open Grammar

/-- Exactly the programs are accepted, and the tree is the one of the
program. -/
theorem parse_eq_ok_iff
    {source : String} {t : Tree} :
    parse source = .ok t ↔ ∃ ts, t = ⟨"declarations", source, ts⟩ ∧
    Program source.toList ts := by
  have hrun : ∀ ts rest, (program source.toList.length).run source.toList =
      some (ts, rest) ↔
      rest = [] ∧ Program source.toList ts :=
    fun _ _ => run_declarations_iff (reads_expression _) (Nat.lt_succ_self _)
  unfold parse
  simp only
  constructor
  · intro h
    split at h
    · rename_i ts rest hread
      cases h
      exact ⟨ts, rfl, ((hrun _ _).1 hread).2⟩
    · cases h
  · rintro ⟨ts, rfl, h⟩
    simp only [(hrun ts []).2 ⟨rfl, h⟩]

end Curried
