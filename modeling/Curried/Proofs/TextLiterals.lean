import Curried.Proofs.DollarChains

/-!
# Text literals

**Literals.**  A text between quotes is read as one literal exactly if it is
well escaped: read from the left, with each backslash taking the next character
with it, it has no quote and no backslash is left over at its end.  Line ends,
separators, comments and parentheses mean nothing inside.

**Meaning.**  A literal stands for what is between its quotes, the escapes as
they were written.  So texts can be joined, and what comes out is well escaped
again.

**Result.**  `text_literal_stands_for_content`.
-/

namespace Curried

open Grammar Lexeme

/-- A text between quotes. -/
def literal (w : String) : String :=
  "\"" ++ w ++ "\""

/-- Every quote in the text is escaped, and no backslash is left over at its
end. -/
def WellEscaped (w : String) : Prop :=
  isEscaped w.toList = true

instance (w : String) : Decidable (WellEscaped w) :=
  inferInstanceAs (Decidable (_ = true))

namespace Lexeme

theorem isText_literal
    (w : String) :
    isText (literal w).toList = isEscaped w.toList := by
  simp [isText, literal]

end Lexeme

theorem WellEscaped.append
    {w w' : String}
    (hw : WellEscaped w) (hw' : WellEscaped w') :
    WellEscaped (w ++ w') := by
  unfold WellEscaped at hw' ⊢
  rw [String.toList_append, isEscaped_append hw, hw']

section Reading

theorem Grammar.Derives.isText_of_leaf
    {l : Level} {w : String}
    (h : Derives l (.leaf "string" w)) :
    isText w.toList = true := by
  generalize ht : Tree.leaf "string" w = t at h
  induction h with
  | text hw =>
      cases ht
      exact hw
  | single _ _ ih => exact ih ht
  | integer | name | parens | apply | left | right =>
      simp [Tree.leaf, parensTree, applyTree, infixTree] at ht

theorem derives_literal
    {w : String}
    (hw : WellEscaped w) :
    Derives .atom (.leaf "string" (literal w)) :=
  .text ((isText_literal w).trans hw)

/-- The well escaped texts are those that are literals between quotes. -/
theorem readAs_literal_iff
    (w : String) :
    ReadAs (literal w) (.leaf "string" (literal w)) ↔ WellEscaped w := by
  constructor
  · intro h
    -- wherever it stands in an accepted source, a text is a lexeme of its class
    have hderives :=
      derives_of_parse h (.of_subtree? (p := [0, 0]) rfl)
        (by simp [Tree.IsExpression, Tree.leaf])
    exact (isText_literal w).symm.trans hderives.isText_of_leaf
  · intro hw
    exact (derives_literal hw).loosest.readAs

/-- The tree of two literals with a plus between them. -/
def joined (w w' : String) : Tree :=
  infixTree (.leaf "string" (literal w)) " " "+" " " (.leaf "string" (literal w'))

theorem derives_joined
    {w w' : String}
    (hw : WellEscaped w) (hw' : WellEscaped w') :
    Derives .dollar (joined w w') := by
  have hleft : Derives .sum (.leaf "string" (literal w)) :=
    .single nofun (.single nofun (.single nofun (derives_literal hw)))
  have hright : Derives .product (.leaf "string" (literal w')) :=
    .single nofun (.single nofun (derives_literal hw'))
  have hsum : Derives .sum (joined w w') :=
    .left nofun hleft rfl ⟨rfl, rfl⟩ rfl hright
  exact hsum.loosest

end Reading

section Meaning

theorem textValue_literal
    (w : String) :
    textValue (literal w) = .ok (.text w) := by
  simp [textValue, unquote?, literal]

variable (host : Host) (table : Table) (scope : Scope)

theorem evalTree_literal
    (call : Caller) (w : String) :
    evalTree host call table scope (.leaf "string" (literal w)) =
      (do
        EvalM.record (.visit "string" (literal w))
        pure (.text w)) := by
  have hplan : (Tree.leaf "string" (literal w)).plan = .give (.text w) := by
    change Plan.ofExcept (textValue (literal w)) = _
    rw [textValue_literal]
    rfl
  rw [evalTree_eq_plan, hplan]
  rfl

/-- A literal gives its content, whatever the host, the table and the scope
are. -/
theorem runSource_literal
    {w : String} (hw : WellEscaped w) (m : Machine) :
    (runSource host table scope (literal w) m).1 = .ok (.text w) := by
  have halike : Alike
      (evalTree host (callValue host callAllowance) table scope
        (.leaf "string" (literal w)))
      (pure (.text w)) := by
    rw [evalTree_literal]
    exact .record_left _ (Alike.congruence.pure _)
  exact (runSource_expression host scope table (derives_literal hw).loosest
    halike m).outcome

/-- Two literals with a plus between them give their contents joined, unless the
table has a plus of its own. -/
theorem runSource_joined
    {table : Table} (htable : table.find? "+" = none)
    {w w' : String} (hw : WellEscaped w) (hw' : WellEscaped w') (m : Machine) :
    (runSource host table scope (literal w ++ " + " ++ literal w') m).1 =
      .ok (.text (w ++ w')) := by
  have hplus : ∀ call, applyOperator host call table "+" (.text w) (.text w') =
      pure (.text (w ++ w')) := by
    intro call
    rw [applyOperator, htable]
    rfl
  have halike : Alike
      (evalTree host (callValue host callAllowance) table scope (joined w w'))
      (pure (.text (w ++ w'))) := by
    rw [evalTree_eq_plan]
    refine .record_left _ ?_
    change Alike (evalTree _ _ _ _ (.leaf "string" (literal w)) >>= fun l =>
      evalTree _ _ _ _ (.leaf "string" (literal w')) >>= fun r =>
        applyOperator _ _ _ "+" l r) _
    simp only [evalTree_literal, EvalM.bind_assoc, EvalM.pure_bind, hplus]
    exact .record_left _ (.record_left _ (Alike.congruence.pure _))
  have htext : (joined w w').text = literal w ++ " + " ++ literal w' := by
    simp [joined, infixTree, Tree.leaf, String.append_assoc]
  have hrun :=
    runSource_expression host scope table (derives_joined hw hw') halike m
  rw [htext] at hrun
  exact hrun.outcome

end Meaning

/-- **Text literals.**  Between quotes, exactly the well escaped texts are read
as one literal that takes up the whole source.  Such a literal gives the text as
it was written, and joining two of them with a plus gives the two texts joined,
which is well escaped again. -/
theorem text_literal_stands_for_content
    (w : String) :
    (parse (literal w) =
        .ok ⟨"declarations", literal w,
          [⟨"top_splice", literal w, [.leaf "string" (literal w)]⟩]⟩ ↔
      WellEscaped w) ∧
    (WellEscaped w →
      interpret (literal w) = .ok w ∧
      (∀ host table scope m, (runSource host table scope (literal w) m).1 =
        .ok (.text w)) ∧
      ∀ w', WellEscaped w' →
        interpret (literal w ++ " + " ++ literal w') = .ok (w ++ w') ∧
        (∀ host table, table.find? "+" = none → ∀ scope m,
          (runSource host table scope (literal w ++ " + " ++ literal w') m).1 =
            .ok (.text (w ++ w'))) ∧
        WellEscaped (w ++ w')) := by
  refine ⟨readAs_literal_iff w, fun hw =>
    ⟨?_, fun host table scope m => runSource_literal host table scope hw m, ?_⟩⟩
  · rw [interpret, runSource_literal Host.standard Table.empty Scope.root hw]
    rfl
  · intro w' hw'
    refine ⟨?_, fun host table htable scope m =>
      runSource_joined host scope htable hw hw' m, hw.append hw'⟩
    rw [interpret, runSource_joined Host.standard Scope.root rfl hw hw']
    rfl

/-- An escaped quote with separators, a comment and a parenthesis behind it,
joined with an escaped backslash. -/
theorem crowdedLiteral_stands_for_content :
    WellEscaped "\\\"; -- (\n" ∧ WellEscaped "\\\\" ∧
    interpret (literal "\\\"; -- (\n") = .ok "\\\"; -- (\n" ∧
    interpret (literal "\\\"; -- (\n" ++ " + " ++ literal "\\\\") =
      .ok ("\\\"; -- (\n" ++ "\\\\") ∧
    parse (literal "\\") ≠
      .ok ⟨"declarations", literal "\\",
        [⟨"top_splice", literal "\\", [.leaf "string" (literal "\\")]⟩]⟩ := by
  have hquote : WellEscaped "\\\"; -- (\n" := by decide
  have hslashes : WellEscaped "\\\\" := by decide
  have hslash : ¬ WellEscaped "\\" := by decide
  obtain ⟨hinterpret, -, hjoin⟩ :=
    (text_literal_stands_for_content "\\\"; -- (\n").2 hquote
  refine ⟨hquote, hslashes, hinterpret, (hjoin "\\\\" hslashes).1, ?_⟩
  exact fun hparse => hslash ((text_literal_stands_for_content "\\").1.1 hparse)

end Curried
