import SmallLisp.Editor.Position
import SmallLisp.Proofs.Reader.Layout
import SmallLisp.Proofs.Text.Boundaries

/-!
The words of a document and the atoms of its text.

A word ends at fewer characters than an atom does, and a document has more lines than line feeds tell.
Where an atom really stands in a document, the word is the atom exactly if it is `Separated` there; and
the place that a token names is the place where it stands if there are only line feeds before it, and a
place in an earlier line otherwise (`wordAt?_of_mem_lex`).
-/

namespace SmallLisp

namespace Token

theorem isWordBreak_of_isAtomChar {c : CodePoint} (h : isAtomChar c = true) :
    Editor.isWordBreak c = false := by
  refine Bool.eq_false_iff.mpr fun hbreak => ?_
  simp only [Editor.isWordBreak, Bool.or_eq_true, beq_iff_eq] at hbreak
  rcases hbreak with (((((rfl | rfl) | rfl) | rfl) | rfl) | rfl) | rfl <;> exact absurd h (by decide)

theorem isLineBoundary_of_isAtomChar {c : CodePoint} (h : isAtomChar c = true) :
    c.isLineBoundary = false := by
  refine Bool.eq_false_iff.mpr fun hboundary => ?_
  have hblank : c.isBlank = true := by
    simp only [CodePoint.isLineBoundary, CodePoint.isBlank, Bool.or_eq_true, Bool.and_eq_true,
      decide_eq_true_eq, beq_iff_eq] at hboundary ⊢
    omega
  rw [not_isAtomChar_of_isBlank hblank] at h
  cases h

theorem Stands.isAtom {before lexeme after : Text} (h : Stands before lexeme after)
    (hkind : kindOf lexeme = .atom) : IsAtom lexeme := by
  rcases h.shape with rfl | rfl | rfl | ⟨hatom, -, -⟩
  · cases hkind
  · cases hkind
  · cases hkind
  · exact hatom

end Token

namespace Editor

open SmallLisp.Text

/-- Words end on both sides: at the end of the line before, or at a word break. -/
def Separated (before after : Text) : Prop :=
  (∀ c ∈ before.openLine.getLast?, isWordBreak c = true) ∧ ∀ c ∈ after.head?, isWordBreak c = true

instance (before after : Text) : Decidable (Separated before after) :=
  inferInstanceAs (Decidable (_ ∧ _))

/-! ## Words in a line -/

theorem takeWhile_eq_nil_iff (t : Text) :
    t.takeWhile (!isWordBreak ·) = [] ↔ ∀ c ∈ t.head?, isWordBreak c = true := by
  cases t with
  | nil => simp
  | cons c cs => simp [List.takeWhile_cons]

section Inside

variable {text before word after : Text} {line k : Nat}

/-- Inside a word one finds it, and what is written together with it. -/
theorem wordAt?_inside (hword : ∀ c ∈ word, isWordBreak c = false) (hk : k < word.length)
    (hline : (lines text)[line]? = some (before ++ (word ++ after))) :
    wordAt? text ⟨line, before.length + k⟩ =
      some ((before.reverse.takeWhile (!isWordBreak ·)).reverse ++ word ++
        after.takeWhile (!isWordBreak ·)) := by
  have hleft : ∀ c ∈ (word.take k).reverse, (!isWordBreak c) = true := fun c hc => by
    rw [hword c (List.mem_of_mem_take (List.mem_reverse.mp hc))]
    rfl
  have hright : ∀ c ∈ word.drop k, (!isWordBreak c) = true := fun c hc => by
    rw [hword c (List.mem_of_mem_drop hc)]
    rfl
  have htake : (before ++ (word ++ after)).take (before.length + k) = before ++ word.take k := by
    rw [List.take_length_add_append, List.take_append_of_le_length (Nat.le_of_lt hk)]
  have hdrop : (before ++ (word ++ after)).drop (before.length + k) = word.drop k ++ after := by
    rw [List.drop_length_add_append, List.drop_append_of_le_length (Nat.le_of_lt hk)]
  have hsome : word.take k ++ word.drop k = word := List.take_append_drop k word
  have hne : word ≠ [] := List.ne_nil_of_length_pos (Nat.zero_lt_of_lt hk)
  simp only [wordAt?, lineAt?, hline, htake, hdrop, List.reverse_append]
  rw [List.takeWhile_append_of_pos hleft, List.takeWhile_append_of_pos hright, List.reverse_append,
    List.reverse_reverse]
  have hjoin (u v : Text) : u ++ word.take k ++ (word.drop k ++ v) = u ++ word ++ v := by
    rw [List.append_assoc, ← List.append_assoc (word.take k), hsome, ← List.append_assoc]
  rw [hjoin, if_neg]
  simp [hne]

theorem wordAt?_inside_eq_iff (hword : ∀ c ∈ word, isWordBreak c = false) (hk : k < word.length)
    (hline : (lines text)[line]? = some (before ++ (word ++ after))) :
    wordAt? text ⟨line, before.length + k⟩ = some word ↔
      (∀ c ∈ before.getLast?, isWordBreak c = true) ∧ ∀ c ∈ after.head?, isWordBreak c = true := by
  rw [wordAt?_inside hword hk hline, Option.some.injEq, ← takeWhile_eq_nil_iff after,
    ← List.head?_reverse, ← takeWhile_eq_nil_iff before.reverse]
  constructor
  · intro heq
    have hlength := congrArg List.length heq
    simp only [List.length_append, List.length_reverse] at hlength
    exact ⟨List.eq_nil_of_length_eq_zero (by omega), List.eq_nil_of_length_eq_zero (by omega)⟩
  · rintro ⟨hbefore, hafter⟩
    rw [hbefore, hafter, List.append_nil]
    rfl

end Inside

/-! ## Atoms -/

/-- An atom in the line of a document in which it stands. -/
theorem getElem?_lines_atom {word : Text} (hatom : Token.IsAtom word) (before after : Text) :
    (lines (before ++ word ++ after))[boundaries before]? =
      some (openLine before ++ (word ++ headLine after)) := by
  obtain ⟨c, cs, rfl⟩ := List.exists_cons_of_ne_nil hatom.1
  have hnot : ∀ d ∈ c :: cs, d.isLineBoundary = false := fun d hd =>
    Token.isLineBoundary_of_isAtomChar (hatom.2 d hd)
  have hline := getElem?_lines_append_cons (hnot c List.mem_cons_self) before (cs ++ after)
  rw [← List.cons_append, headLine_append hnot, ← List.append_assoc] at hline
  exact hline

theorem wordAt?_atom_eq_iff {word : Text} (hatom : Token.IsAtom word) (before after : Text) {k : Nat}
    (hk : k < word.length) :
    wordAt? (before ++ word ++ after) ⟨boundaries before, (openLine before).length + k⟩ = some word ↔
      Separated before after := by
  have hword : ∀ c ∈ word, isWordBreak c = false := fun c hc =>
    Token.isWordBreak_of_isAtomChar (hatom.2 c hc)
  rw [wordAt?_inside_eq_iff hword hk (getElem?_lines_atom hatom before after), head?_headLine]
  rfl

/-- In a line that has ended before an atom, the atom makes no difference. -/
theorem wordAt?_before_atom {word : Text} (hatom : Token.IsAtom word) {before : Text} (after : Text)
    {p : Position} (hp : p.line < boundaries before) :
    wordAt? (before ++ word ++ after) p = wordAt? before p := by
  obtain ⟨c, cs, rfl⟩ := List.exists_cons_of_ne_nil hatom.1
  have hc := Token.isLineBoundary_of_isAtomChar (hatom.2 c List.mem_cons_self)
  have hline := getElem?_lines_append_cons_of_lt hc (cs ++ after) hp
  rw [← List.cons_append, ← List.append_assoc] at hline
  simp only [wordAt?, lineAt?, hline]

/-- An atom of a text is the word at each of its characters, if one looks for it in the line of the
document in which it stands and if it is separated there.  The line and the column of its token lead to
this line if all line boundaries before it are line feeds, and otherwise to a line that has ended before
the atom: what is found there is found without the atom as well. -/
theorem wordAt?_of_mem_lex {text : Text} {t : Token} (ht : t ∈ lex text) (hkind : t.kind = .atom) :
    ∃ before after, text = before ++ t.text ++ after ∧ t = Token.placed before t.text ∧
      ∀ k < t.text.length,
        (wordAt? text ⟨boundaries before, (openLine before).length + k⟩ = some t.text ↔
          Separated before after) ∧
        (lineFeedsOnly before = true →
          (wordAt? text ⟨t.line - 1, t.column - 1 + k⟩ = some t.text ↔ Separated before after)) ∧
        (lineFeedsOnly before = false →
          wordAt? text ⟨t.line - 1, t.column - 1 + k⟩ =
            wordAt? before ⟨t.line - 1, t.column - 1 + k⟩) := by
  obtain ⟨before, after, htext, hplaced, hstands⟩ := Token.exists_stands_of_mem_lex ht
  have hatom : Token.IsAtom t.text :=
    hstands.isAtom ((congrArg Token.kind hplaced).symm.trans hkind)
  have hline : t.line - 1 = before.count (.char '\n') := by
    rw [congrArg Token.line hplaced]
    rfl
  have hcolumn : t.column - 1 = (lastLine before).length := by
    rw [congrArg Token.column hplaced]
    rfl
  refine ⟨before, after, htext, hplaced, fun k hk => ?_⟩
  have hword := wordAt?_atom_eq_iff hatom before after hk
  rw [← htext] at hword
  refine ⟨hword, fun honly => ?_, fun hother => ?_⟩
  · rw [hline, hcolumn, ← (lineFeedsOnly_iff before).mp honly, ← openLine_of_lineFeedsOnly honly]
    exact hword
  · have hne : boundaries before ≠ t.line - 1 := by
      rw [hline]
      exact mt (lineFeedsOnly_iff before).mpr (by rw [hother]; exact Bool.false_ne_true)
    have hle : t.line - 1 ≤ boundaries before := hline ▸ count_newline_le_boundaries before
    have hearlier := wordAt?_before_atom hatom after
      (p := ⟨t.line - 1, t.column - 1 + k⟩) (Nat.lt_of_le_of_ne hle hne.symm)
    rw [← htext] at hearlier
    exact hearlier

theorem wordAt?_of_mem_lex_belowComment :
    (⟨.atom, "yz", 2, 2⟩ : Token) ∈ lex ";x\r\n(yz" ∧ wordAt? ";x\r\n(yz" ⟨1, 2⟩ = some "yz" := by
  have hmem : (⟨.atom, "yz", 2, 2⟩ : Token) ∈ lex ";x\r\n(yz" := by decide
  obtain ⟨before, after, htext, -, hword⟩ := wordAt?_of_mem_lex hmem rfl
  -- The atom is the end of the text, since `z` stands nowhere else.
  have hafter : after = [] := by
    rcases List.eq_nil_or_concat after with hnil | ⟨rest, last, rfl⟩
    · exact hnil
    · rw [List.concat_eq_append, ← List.append_assoc] at htext
      have hlast : (";x\r\n(y" : Text) ++ "z" = before ++ "yz" ++ rest ++ [last] := htext
      have hstart := List.append_inj_left' hlast rfl
      have hz : .char 'z' ∈ before ++ ("yz" : Text) ++ rest := by simp [Text.ofString]
      rw [← hstart] at hz
      exact absurd hz (by decide)
  subst hafter
  rw [List.append_nil] at htext
  have hlast : (";x\r\n(" : Text) ++ "yz" = before ++ "yz" := htext
  obtain rfl := List.append_inj_left' hlast rfl
  exact ⟨hmem, ((hword 1 (by decide)).2.1 rfl).mpr (by decide)⟩

/-- A word goes on through a semicolon, where an atom ends, and through blanks that are neither spaces nor
tabs; and behind a line boundary that is no line feed the word is looked for in the line before. -/
theorem words_beyond_atoms :
    ((⟨.atom, "a", 1, 1⟩ : Token) ∈ lex "a;b" ∧ wordAt? "a;b" ⟨0, 0⟩ = some "a;b") ∧
      ((⟨.atom, "a", 1, 1⟩ : Token) ∈ lex "a\u00a0b" ∧
        wordAt? "a\u00a0b" ⟨0, 0⟩ = some "a\u00a0b") ∧
      (⟨.atom, "a", 1, 2⟩ : Token) ∈ lex "\x0ba" ∧ wordAt? "\x0ba" ⟨0, 1⟩ = some "\x0b" := by
  decide

end Editor
end SmallLisp
