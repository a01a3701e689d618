import Curried.Interpreter
import Curried.Json.Writer
import Mathlib.Logic.Basic

/-!
# Trees written and read again

**Texts.**  Every text is read back as it was written, whatever characters it
has.

**Trees.**  A tree is read back if its lists and objects are not nested too
deep.  Each level of the tree opens an object and, in it, a list of children,
even if there are none.

**Result.**  `json_round_trip`: trees of height 63 at most are read back, and
all others are refused as too deep.
-/

namespace Curried

namespace Tree

mutual

/-- The number of nodes on the longest way from the root of a tree to a leaf; a
leaf has height 1. -/
def height : Tree → Nat
  | ⟨_, _, children⟩ => 1 + heightAll children

/-- The greatest height of trees in a list. -/
def heightAll : List Tree → Nat
  | [] => 0
  | t :: ts => max (height t) (heightAll ts)

end

theorem heightAll_le_iff
    (n : Nat) :
    ∀ ts : List Tree, heightAll ts ≤ n ↔ ∀ t ∈ ts, t.height ≤ n
  | [] => by simp [heightAll]
  | t :: ts => by
      rw [heightAll, Nat.max_le, heightAll_le_iff]
      simp

end Tree

namespace JsonReader

theorem hexValue?_digitChar : ∀ d < 16, hexValue? (Nat.digitChar d) = some d := by
  decide

/-- A control character is read back from its code. -/
theorem escape_code
    {n : Nat} (hn : n < 0x20) (rest : List Char) :
    escape ('u' :: '0' :: '0' :: Nat.digitChar (n / 16) ::
      Nat.digitChar (n % 16) :: rest) = .ok (Char.ofNat n, rest) := by
  have hhigh := hexValue?_digitChar (n / 16) (by omega)
  have hlow := hexValue?_digitChar (n % 16) (by omega)
  have hzero := hexValue?_digitChar 0 (by omega)
  have hcode : ((0 * 16 + 0) * 16 + n / 16) * 16 + n % 16 = n := by omega
  have hread : hexCode ('0' :: '0' :: Nat.digitChar (n / 16) ::
      Nat.digitChar (n % 16) :: rest) = .ok (n, rest) := by
    change hexCode (Nat.digitChar 0 :: Nat.digitChar 0 :: _) = _
    simp only [hexCode, hzero, hhigh, hlow, hcode]
  have hsurrogate : ¬ (0xDC00 ≤ n ∧ n ≤ 0xDFFF) := by omega
  have hplain : n < 0xD800 ∨ 0xDFFF < n := by omega
  change (hexCode _ >>= _) = _
  rw [hread]
  change (if 0xDC00 ≤ n ∧ n ≤ 0xDFFF then _ else _) = _
  rw [if_neg hsurrogate, if_pos hplain]

/-- What is read after one character that has been read. -/
theorem textWithin_of_escape
    {n : Nat} {c : Char} {input rest : List Char}
    (h : escape input = .ok (c, rest)) :
    textWithin (n + 1) ('\\' :: input) = (textWithin n rest).map fun (cs,
      rest) => (c :: cs, rest) := by
  rw [textWithin, if_neg (by decide), if_pos rfl, h]
  change (textWithin n rest >>= _) = _
  cases textWithin n rest <;> rfl

theorem textWithin_of_plain
    {n : Nat} {c : Char} {rest : List Char}
    (hquote : c ≠ '"') (hslash : c ≠ '\\') (hcontrol : ¬ c.toNat < 0x20) :
    textWithin (n + 1) (c :: rest) = (textWithin n rest).map fun (cs, rest) =>
      (c :: cs, rest) := by
  rw [textWithin, if_neg hquote, if_neg hslash, if_neg hcontrol]
  cases textWithin n rest <;> rfl

/-- A character is read back from the way it is written. -/
theorem textWithin_escape
    (n : Nat) (c : Char) (rest : List Char) :
    textWithin (n + 1) (Json.escape c ++ rest) =
      (textWithin n rest).map fun (cs, rest) => (c :: cs, rest) := by
  unfold Json.escape
  split
  · exact textWithin_of_escape rfl
  · exact textWithin_of_escape rfl
  · exact textWithin_of_escape rfl
  · exact textWithin_of_escape rfl
  · exact textWithin_of_escape rfl
  · exact textWithin_of_escape rfl
  · exact textWithin_of_escape rfl
  · split
    · rename_i hcontrol
      have hcode := escape_code hcontrol rest
      rw [Char.ofNat_toNat] at hcode
      exact textWithin_of_escape hcode
    · rename_i hquote hslash _ _ _ _ _ hcontrol
      exact textWithin_of_plain hquote hslash hcontrol

/-- The characters of a text are read back, up to the quote behind them. -/
theorem textWithin_write
    (tail : List Char) :
    ∀ (cs : List Char) {n : Nat}, cs.length < n →
      textWithin n (cs.foldr (fun c rest => Json.escape c ++ rest)
        ('"' :: tail)) = .ok (cs, tail)
  | [], n + 1, _ => rfl
  | c :: cs, n + 1, hn => by
      have hcs := textWithin_write tail cs (Nat.lt_of_succ_lt_succ hn)
      rw [List.foldr_cons, textWithin_escape, hcs]
      rfl

theorem length_foldr_escape
    (tail cs : List Char) :
    cs.length + tail.length ≤
      (cs.foldr (fun c rest => Json.escape c ++ rest) tail).length := by
  have hone : ∀ c, 1 ≤ (Json.escape c).length := by
    intro c
    unfold Json.escape
    split <;> try decide
    split <;> simp
  induction cs with
  | nil => simp
  | cons c cs ih =>
      have hc := hone c
      simp only [List.foldr_cons, List.length_cons, List.length_append]
      omega

/-- A text is read back from after its opening quote. -/
theorem textAfterQuote_write
    (s : String) (tail : List Char) :
    textAfterQuote
      (s.toList.foldr (fun c rest => Json.escape c ++ rest) ('"' :: tail)) =
      .ok (s, tail) := by
  have hlength := length_foldr_escape ('"' :: tail) s.toList
  unfold textAfterQuote
  rw [textWithin_write tail s.toList (by omega)]
  change Except.ok (String.ofList s.toList, tail) = _
  rw [String.ofList_toList]

/-- The first character is not blank. -/
def Begins (input : List Char) : Prop :=
  ∃ c rest, input = c :: rest ∧ isBlank c = false

theorem skipBlanks_of_begins
    {input : List Char}
    (h : Begins input) :
    skipBlanks input = input := by
  obtain ⟨c, rest, rfl, hc⟩ := h
  simp [skipBlanks, hc]

/-- A new line is blank up to what stands on it. -/
theorem skipBlanks_writeBreak
    {input : List Char}
    (h : Begins input) (level : Nat) :
    skipBlanks (Json.writeBreak level input) = input := by
  have hblanks : ∀ n, skipBlanks (List.replicate n ' ' ++ input) = input := by
    intro n
    induction n with
    | zero => exact skipBlanks_of_begins h
    | succ n ih => exact ih
  exact hblanks (2 * level)

/-- Trees are written as objects. -/
theorem exists_write_eq
    (t : Tree) (level : Nat) (tail : List Char) :
    ∃ rest, t.toJson.write level tail = '{' :: rest := by
  obtain ⟨tag, text, children⟩ := t
  rw [Tree.toJson, Json.write]
  exact ⟨_, rfl⟩

theorem begins_write
    (t : Tree) (level : Nat) (tail : List Char) :
    Begins (t.toJson.write level tail) := by
  obtain ⟨rest, hrest⟩ := exists_write_eq t level tail
  exact ⟨'{', rest, hrest, rfl⟩

theorem text_write
    (s : String) (tail : List Char) :
    text (' ' :: Json.writeText s tail) = .ok (s, tail) :=
  textAfterQuote_write s tail

/-- The characters after the opening quote of a member. -/
def afterQuote (level : Nat) (f : Field) (j : Json) (tail : List Char) :
    List Char :=
  f.key.toList.foldr (fun c rest => Json.escape c ++ rest) ('"' :: ':' :: ' ' ::
    j.write level tail)

theorem nextKey_first
    (level : Nat) (f : Field) (j : Json) (tail : List Char) :
    nextKey true (Json.writeBreak level (Json.writeField level (f.key, j) tail)) =
      .ok (some (afterQuote level f j tail), []) := by
  have hbegins : Begins (Json.writeField level (f.key, j) tail) := by
    rw [Json.writeField]
    exact ⟨'"', _, rfl, rfl⟩
  unfold nextKey
  rw [skipBlanks_writeBreak hbegins, Json.writeField]
  rfl

theorem nextKey_next
    (level : Nat) (f : Field) (j : Json) (tail : List Char) :
    nextKey false (',' ::
      Json.writeBreak level (Json.writeField level (f.key, j) tail)) =
      .ok (some (afterQuote level f j tail), []) := by
  have hbegins : Begins (Json.writeField level (f.key, j) tail) := by
    rw [Json.writeField]
    exact ⟨'"', _, rfl, rfl⟩
  have hcomma : ∀ {rest start : List Char}, skipBlanks rest = '"' :: start →
      nextKey false (',' :: rest) = .ok (some start, []) := by
    intro rest start hrest
    simp [nextKey, skipBlanks_of_begins ⟨',', rest, rfl, rfl⟩, hrest]
  refine hcomma ?_
  rw [skipBlanks_writeBreak hbegins, Json.writeField]
  rfl

theorem ofKey?_key (f : Field) : Field.ofKey? f.key = some f := by
  cases f <;> rfl

/-- One member of an object is read, and then the others. -/
theorem membersWithin_member
    {children : JsonReader (List Tree)} {n : Nat} {first : Bool} {m : Members}
    {f : Field} {j : Json}
    {level : Nat} {input tail : List Char}
    (hkey : nextKey first input = .ok (some (afterQuote level f j tail), [])) :
    membersWithin children (n + 1) first m input = (do
      let (m, rest) ← member children m (some f) (':' :: ' ' :: j.write level tail)
      membersWithin children n false m rest) := by
  have htext : textAfterQuote (afterQuote level f j tail) =
      .ok (f.key, ':' :: ' ' :: j.write level tail) :=
    textAfterQuote_write f.key _
  rw [membersWithin, hkey]
  change (textAfterQuote (afterQuote level f j tail) >>= _) = _
  rw [htext]
  change (member children m (Field.ofKey? f.key) _ >>= _) = _
  rw [ofKey?_key]

theorem membersWithin_end
    {children : JsonReader (List Tree)} {n : Nat} {m : Members} {level : Nat}
    {tail : List Char} :
    membersWithin children (n + 1) false m
      (Json.writeBreak level ('}' :: tail)) = m.toTree.map (·, tail) := by
  have hend : nextKey false (Json.writeBreak level ('}' :: tail)) =
      .ok (none, tail) := by
    rw [nextKey, skipBlanks_writeBreak ⟨'}', tail, rfl, rfl⟩]
    rfl
  rw [membersWithin, hend]
  change (m.toTree >>= _) = _
  cases m.toTree <;> rfl

/-- The outcome of reading something written: itself if that is admitted, and
the error that it is too deep otherwise. -/
def unlessDeep {α : Type} (admitted : Prop) [Decidable admitted] (x : α) :
    Except TreeError α :=
  if admitted then .ok x else .error .tooDeep

theorem unlessDeep_congr
    {α : Type} {P Q : Prop} [Decidable P] [Decidable Q]
    (h : P ↔ Q) (x : α) :
    unlessDeep P x = unlessDeep Q x := by
  unfold unlessDeep
  exact if_congr h rfl rfl

/-- The members of a node are read if its children are.  There are three, and
the brace behind them. -/
theorem membersWithin_write
    {children : JsonReader (List Tree)} {admitted : Prop} [Decidable admitted]
    {ts : List Tree} {level : Nat}
    (hchildren : ∀ tail,
      children (' ' :: (Json.list (Tree.toJsonAll ts)).write (level + 1) tail) =
        unlessDeep admitted (ts, tail))
    (n : Nat) (tag body : String) (tail : List Char) :
    membersWithin children (n + 4) true Members.none (Json.writeBreak (level + 1)
      (Json.writeField (level + 1) (Field.tag.key, .text tag)
        (Json.writeFields (level + 1)
        [(Field.text.key, .text body),
          (Field.children.key, .list (Tree.toJsonAll ts))]
        (Json.writeBreak level ('}' :: tail))))) =
          unlessDeep admitted (⟨tag, body, ts⟩, tail) := by
  rw [membersWithin_member (nextKey_first _ .tag _ _), Json.write]
  change ((text _ >>= _) >>= _) = _
  rw [text_write, Json.writeFields]
  change membersWithin children (n + 3) false ⟨some tag, none, none⟩ _ = _
  rw [membersWithin_member (nextKey_next _ .text _ _), Json.write]
  change ((text _ >>= _) >>= _) = _
  rw [text_write, Json.writeFields, Json.writeFields]
  change membersWithin children (n + 2) false ⟨some tag, some body, none⟩ _ = _
  rw [membersWithin_member (nextKey_next _ .children _ _)]
  change ((children _ >>= _) >>= _) = _
  rw [hchildren]
  unfold unlessDeep
  split
  · change membersWithin children (n + 1) false ⟨some tag, some body, some ts⟩ _ = _
    rw [membersWithin_end]
    rfl
  · rfl

/-- A node is read if its children are. -/
theorem node_write
    {children : JsonReader (List Tree)} {admitted : Prop} [Decidable admitted]
    {ts : List Tree} {level : Nat}
    (hchildren : ∀ tail,
      children (' ' :: (Json.list (Tree.toJsonAll ts)).write (level + 1) tail) =
        unlessDeep admitted (ts, tail))
    (tag body : String) (tail : List Char) :
    node true children ((Tree.toJson ⟨tag, body, ts⟩).write level tail) =
      unlessDeep admitted (⟨tag, body, ts⟩, tail) := by
  have hbegins := begins_write ⟨tag, body, ts⟩ level tail
  unfold node
  rw [skipBlanks_of_begins hbegins, Tree.toJson, Json.write]
  change membersWithin children (List.length (Json.writeBreak (level + 1) _) +
    1) true Members.none _ = _
  obtain ⟨n, hn⟩ : ∃ n, ∀ rest, (Json.writeBreak (level + 1) rest).length + 1 =
      rest.length + n + 4 := by
    refine ⟨2 * level, fun rest => ?_⟩
    simp only [Json.writeBreak, List.length_cons, List.length_append,
      List.length_replicate]
    omega
  rw [hn]
  exact membersWithin_write hchildren _ tag body tail

theorem nextItem_first
    (level : Nat) (t : Tree) (tail : List Char) :
    nextItem true (Json.writeBreak level (t.toJson.write level tail)) =
      .ok (some (t.toJson.write level tail), []) := by
  obtain ⟨rest, hrest⟩ := exists_write_eq t level tail
  rw [nextItem, skipBlanks_writeBreak (begins_write t level tail), hrest]
  rfl

theorem nextItem_next
    (level : Nat) (t : Tree) (tail : List Char) :
    nextItem false (',' :: Json.writeBreak level (t.toJson.write level tail)) =
      .ok (some (t.toJson.write level tail), []) := by
  obtain ⟨rest, hrest⟩ := exists_write_eq t level tail
  have hskip := skipBlanks_writeBreak (begins_write t level tail) level
  rw [hrest] at hskip ⊢
  simp [nextItem, skipBlanks_of_begins ⟨',', _, rfl, rfl⟩, hskip]

/-- One member of a list is read, and then the others. -/
theorem itemsWithin_item
    {item : JsonReader Tree} {P Q : Prop} [Decidable P] [Decidable Q] {n : Nat}
    {first : Bool}
    {input start rest last : List Char} {t : Tree} {ts : List Tree}
    (hnext : nextItem first input = .ok (some start, []))
    (hitem : item start = unlessDeep P (t, rest))
    (hrest : itemsWithin item n false rest = unlessDeep Q (ts, last)) :
    itemsWithin item (n + 1) first input = unlessDeep (P ∧ Q) (t :: ts, last) := by
  rw [itemsWithin, hnext]
  change (item start >>= _) = _
  rw [hitem]
  by_cases hP : P
  · simp only [unlessDeep, hP, if_true, true_and]
    change (itemsWithin item n false rest >>= _) = _
    rw [hrest]
    by_cases hQ : Q <;> simp only [unlessDeep, hQ, if_true, if_false] <;> rfl
  · simp only [unlessDeep, hP, if_false, false_and]
    rfl

/-- The members of a list behind the first one are read if all of them are
admitted. -/
theorem itemsWithin_write
    {item : JsonReader Tree} {admitted : Tree → Prop} [DecidablePred admitted]
    {level : Nat}
    (hitem : ∀ t tail,
      item (t.toJson.write level tail) = unlessDeep (admitted t) (t, tail))
    (outer : Nat) (tail : List Char) :
    ∀ (ts : List Tree) {n : Nat}, ts.length < n →
      itemsWithin item n false
        (Json.writeItems level (Tree.toJsonAll ts)
          (Json.writeBreak outer (']' :: tail))) =
        unlessDeep (∀ t ∈ ts, admitted t) (ts, ']' :: tail)
  | [], n + 1, _ => by
      have hend : nextItem false (Json.writeBreak outer (']' :: tail)) =
          .ok (none, ']' :: tail) := by
        rw [nextItem, skipBlanks_writeBreak ⟨']', tail, rfl, rfl⟩]
        rfl
      rw [Tree.toJsonAll, Json.writeItems, itemsWithin, hend]
      simp only [unlessDeep, List.not_mem_nil, false_imp_iff, implies_true, if_true]
      rfl
  | t :: ts, n + 1, hn => by
      have hts := itemsWithin_write hitem outer tail ts (Nat.lt_of_succ_lt_succ hn)
      rw [Tree.toJsonAll, Json.writeItems,
        itemsWithin_item (nextItem_next level t _) (hitem t _) hts]
      exact unlessDeep_congr List.forall_mem_cons.symm _

theorem length_writeText
    (s : String) (tail : List Char) :
    tail.length < (Json.writeText s tail).length := by
  have hlength := length_foldr_escape ('"' :: tail) s.toList
  rw [Json.writeText, List.length_cons]
  rw [List.length_cons] at hlength
  omega

theorem length_writeField
    {j : Json} {level : Nat}
    (hj : ∀ tail, tail.length < (j.write level tail).length) (key : String)
    (tail : List Char) :
    tail.length < (Json.writeField level (key, j) tail).length := by
  have hkey := length_writeText key (':' :: ' ' :: j.write level tail)
  have hvalue := hj tail
  rw [Json.writeField]
  simp only [List.length_cons] at hkey
  omega

mutual

/-- Writing a tree puts at least one character in front of those that follow. -/
theorem length_write :
    ∀ (t : Tree) (level : Nat) (tail : List Char),
      tail.length < (t.toJson.write level tail).length
  | ⟨tag, body, ts⟩, level, tail => by
      have htext : ∀ s tail,
          tail.length < ((Json.text s).write (level + 1) tail).length := by
        intro s tail
        rw [Json.write]
        exact length_writeText s tail
      have hchildren :=
        length_writeField (length_writeList ts (level + 1)) "children"
          (Json.writeBreak level ('}' :: tail))
      have hbody := length_writeField (htext body) "text"
        (',' :: Json.writeBreak (level + 1) (Json.writeField (level + 1)
        ("children", .list (Tree.toJsonAll ts))
          (Json.writeBreak level ('}' :: tail))))
      have htag := length_writeField (htext tag) "type"
        (',' :: Json.writeBreak (level + 1) (Json.writeField (level + 1)
        ("text", .text body)
          (',' :: Json.writeBreak (level + 1) (Json.writeField (level + 1)
          ("children", .list (Tree.toJsonAll ts))
            (Json.writeBreak level ('}' :: tail))))))
      rw [Tree.toJson, Json.write, Json.writeFields, Json.writeFields,
        Json.writeFields]
      simp only [Json.writeBreak, List.length_cons, List.length_append]
        at hchildren hbody htag ⊢
      omega

theorem length_writeList :
    ∀ (ts : List Tree) (level : Nat) (tail : List Char),
      tail.length < ((Json.list (Tree.toJsonAll ts)).write level tail).length
  | [], level, tail => by
      rw [Tree.toJsonAll, Json.write]
      simp only [List.length_cons]
      omega
  | t :: ts, level, tail => by
      have hts :=
        length_writeItems ts (level + 1) (Json.writeBreak level (']' :: tail))
      have ht := length_write t (level + 1)
        (Json.writeItems (level + 1) (Tree.toJsonAll ts)
          (Json.writeBreak level (']' :: tail)))
      rw [Tree.toJsonAll, Json.write]
      simp only [Json.writeBreak, List.length_cons, List.length_append,
        List.length_replicate] at hts ht ⊢
      omega

theorem length_writeItems :
    ∀ (ts : List Tree) (level : Nat) (tail : List Char),
      tail.length + ts.length ≤
        (Json.writeItems level (Tree.toJsonAll ts) tail).length
  | [], level, tail => by
      rw [Tree.toJsonAll, Json.writeItems]
      simp
  | t :: ts, level, tail => by
      have hts := length_writeItems ts level tail
      have ht :=
        length_write t level (Json.writeItems level (Tree.toJsonAll ts) tail)
      rw [Tree.toJsonAll, Json.writeItems]
      simp only [Json.writeBreak, List.length_cons, List.length_append,
        List.length_replicate]
      omega

end

/-- A list of nodes is read if all of them are admitted. -/
theorem nodeList_write
    {item : JsonReader Tree} {admitted : Tree → Prop} [DecidablePred admitted]
    {level : Nat}
    (hitem : ∀ t tail, item (t.toJson.write (level + 1) tail) =
      unlessDeep (admitted t) (t, tail))
    (ts : List Tree) (tail : List Char) :
    nodeList true item (' ' :: (Json.list (Tree.toJsonAll ts)).write level tail) =
      unlessDeep (∀ t ∈ ts, admitted t) (ts, tail) := by
  cases ts with
  | nil =>
      rw [Tree.toJsonAll, Json.write]
      simp only [unlessDeep, List.not_mem_nil, false_imp_iff, implies_true, if_true]
      rfl
  | cons t ts =>
      have hfirst := nextItem_first (level + 1) t
        (Json.writeItems (level + 1) (Tree.toJsonAll ts)
          (Json.writeBreak level (']' :: tail)))
      have hts :=
        length_writeItems ts (level + 1) (Json.writeBreak level (']' :: tail))
      have ht := length_write t (level + 1)
        (Json.writeItems (level + 1) (Tree.toJsonAll ts)
          (Json.writeBreak level (']' :: tail)))
      rw [Tree.toJsonAll, Json.write]
      change (itemsWithin item (List.length _ + 1) true _ >>= _) = _
      -- there are more characters than members, so the bound on their number is
      -- never met
      rw [itemsWithin_item hfirst (hitem t _)
        (itemsWithin_write hitem level tail ts ?_)]
      · unfold unlessDeep
        rw [if_congr List.forall_mem_cons rfl rfl]
        split <;> rfl
      · simp only [Json.writeBreak, List.length_cons, List.length_append]
          at hts ht ⊢
        omega

/-- A tree is read back if twice as many lists and objects as it has levels may
be opened, and it is too deep otherwise. -/
theorem tree_write :
    ∀ (room : Nat) (t : Tree) (level : Nat) (tail : List Char),
      tree room (t.toJson.write level tail) =
        unlessDeep (2 * t.height ≤ room) (t, tail)
  | 0, ⟨tag, body, ts⟩, level, tail => by
      have hdeep : ¬ 2 * Tree.height ⟨tag, body, ts⟩ ≤ 0 := by
        rw [Tree.height]
        omega
      obtain ⟨rest, hrest⟩ := exists_write_eq ⟨tag, body, ts⟩ level tail
      rw [unlessDeep, if_neg hdeep, tree, node,
        skipBlanks_of_begins (begins_write ⟨tag, body, ts⟩ level tail), hrest]
      rfl
  | 1, ⟨tag, body, ts⟩, level, tail => by
      have hdeep : ¬ 2 * Tree.height ⟨tag, body, ts⟩ ≤ 1 := by
        rw [Tree.height]
        omega
      have hlist : ∀ tail, nodeList false (fun _ => .error .tooDeep)
          (' ' :: (Json.list (Tree.toJsonAll ts)).write (level + 1) tail) =
            unlessDeep False (ts, tail) := by
        intro tail
        cases ts <;> rw [Tree.toJsonAll, Json.write] <;> rfl
      rw [tree, node_write hlist]
      exact unlessDeep_congr (iff_of_false id hdeep) _
  | room + 2, ⟨tag, body, ts⟩, level, tail => by
      rw [tree, node_write
        (nodeList_write (fun t tail => tree_write room t (level + 2) tail) ts)]
      refine unlessDeep_congr ?_ _
      have hheight := Tree.heightAll_le_iff (room / 2) ts
      rw [Tree.height]
      constructor
      · intro h
        have := hheight.2 fun t ht => by
          have := h t ht
          omega
        omega
      · intro h t ht
        have := hheight.1 (by omega) t ht
        omega

end JsonReader

/-- Reading what was written. -/
theorem Tree.ofJson_renderJson
    (t : Tree) :
    ofJson t.renderJson = JsonReader.unlessDeep (t.height ≤ 63) t := by
  have htree := JsonReader.tree_write JsonReader.depthLimit t 0 []
  have hchars : t.renderJson.toList = t.toJson.write 0 [] := String.toList_ofList
  have hroom : 2 * t.height ≤ JsonReader.depthLimit ↔ t.height ≤ 63 := by
    unfold JsonReader.depthLimit
    omega
  rw [JsonReader.unlessDeep_congr hroom] at htree
  unfold ofJson
  rw [hchars, htree]
  unfold JsonReader.unlessDeep
  split <;> rfl

/-- **Trees written and read again.**  A tree of height 63 at most is read back
from its JSON text as it was.  The text of any other tree is refused, since its
lists and objects are nested too deep.  So if the tree of a source has that
height, it makes no difference whether the source itself is interpreted or the
JSON text of its tree. -/
theorem json_round_trip
    (t : Tree) :
    (t.height ≤ 63 → Tree.ofJson t.renderJson = .ok t) ∧
    (64 ≤ t.height → ∃ e, Tree.ofJson t.renderJson = .error e ∧
      e.message = "recursion limit exceeded" ∧ e.category = .form) ∧
    ∀ (source : String), parse source = .ok t → t.height ≤ 63 →
      ∀ (host : Host) (table : Table) (scope : Scope) (m : Machine),
        runJson host table scope t.renderJson m =
          runSource host table scope source m := by
  have hread := t.ofJson_renderJson
  unfold JsonReader.unlessDeep at hread
  refine ⟨?_, ?_, ?_⟩
  · intro hheight
    rw [hread, if_pos hheight]
  · intro hheight
    rw [if_neg (by omega)] at hread
    exact ⟨.tooDeep, hread, rfl, rfl⟩
  · intro source hparse hheight host table scope m
    rw [if_pos hheight] at hread
    rw [runJson, runSource, hread, hparse]

/-- So many nodes with one child each above a leaf, with tags and texts that
cannot be written as they are. -/
def tower : Nat → Tree
  | 0 => .leaf "\"\\" "\n"
  | n + 1 => ⟨"é\x01", "\"type\": \x7b", [tower n]⟩

theorem height_tower : ∀ n, (tower n).height = n + 1
  | 0 => rfl
  | n + 1 => by
      rw [tower, Tree.height, Tree.heightAll, Tree.heightAll, height_tower n]
      omega

/-- The highest tower that is read back, the lowest one that is not, and a
program that is evaluated from its JSON text. -/
theorem tower_round_trip :
    Tree.ofJson (tower 62).renderJson = .ok (tower 62) ∧
    (∃ e, Tree.ofJson (tower 63).renderJson = .error e ∧
      e.message = "recursion limit exceeded" ∧ e.category = .form) ∧
    ∃ t, parse "f x = \"\\\"\" + x; f 1" = .ok t ∧
      runJson Host.standard Table.empty Scope.root t.renderJson Machine.withRoot =
        runSource Host.standard Table.empty Scope.root "f x = \"\\\"\" + x; f 1"
          Machine.withRoot := by
  have hlow : (tower 62).height ≤ 63 := Nat.le_of_eq (height_tower 62)
  have hhigh : 64 ≤ (tower 63).height := Nat.le_of_eq (height_tower 63).symm
  have hparse : (parse "f x = \"\\\"\" + x; f 1").toOption.all (fun t =>
      t.height ≤ 63) = true ∧
      (parse "f x = \"\\\"\" + x; f 1").toBool = true := by
    decide +kernel
  refine ⟨(json_round_trip _).1 hlow, (json_round_trip _).2.1 hhigh, ?_⟩
  cases ht : parse "f x = \"\\\"\" + x; f 1" with
  | error e =>
      rw [ht] at hparse
      cases hparse.2
  | ok t =>
      rw [ht] at hparse
      have hheight : t.height ≤ 63 := of_decide_eq_true hparse.1
      exact ⟨t, rfl, (json_round_trip t).2.2 _ ht hheight _ _ _ _⟩

end Curried
