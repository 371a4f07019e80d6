import Mathlib.Logic.ExistsUnique
import SmallLisp.Proofs.Reader.RoundTrip
import SmallLisp.Proofs.Text.Lines

/-!
Texts as gaps and lexemes.

A `Layout` says how a text is written: gaps, in which there are only blanks and comments, with lexemes
between them.  A text has exactly one layout, and scanning it gives the lexemes of the layout, each with
the line and the column of its place (`lex_layout`).
-/

namespace SmallLisp
namespace Token

/-! ## Layouts -/

/-- No text, or the end of a line. -/
def AtLineEnd (t : Text) : Prop := ∀ c ∈ t.head?, c = .char '\n'

instance (t : Text) : Decidable (AtLineEnd t) :=
  inferInstanceAs (Decidable (∀ c ∈ t.head?, c = .char '\n'))

/-- A gap with `after` behind it: blanks, and comments, which run from a semicolon to just before the
next line feed or to the end of the text. -/
inductive Gap (after : Text) : Text → Prop
  | nil : Gap after []
  | blank {c : CodePoint} {gap : Text} (hc : c.isBlank = true) (hgap : Gap after gap) :
    Gap after (c :: gap)
  | comment {body gap : Text} (hbody : .char '\n' ∉ body) (hend : AtLineEnd (gap ++ after))
      (hgap : Gap after gap) :
    Gap after (.char ';' :: (body ++ gap))

/-- Between `before` and `after` stands a parenthesis, a quote or a maximal run of atom characters, and
it stands in no comment. -/
structure Stands (before lexeme after : Text) : Prop where
  shape : lexeme = "(" ∨ lexeme = ")" ∨ lexeme = "'" ∨
    IsAtom lexeme ∧ (∀ c ∈ before.getLast?, isAtomChar c = false) ∧ Delimited after
  uncommented : .char ';' ∉ before.lastLine

/-- Gaps and lexemes by turns, from a gap to a gap. -/
inductive Layout where
  | last (gap : Text)
  | more (gap lexeme : Text) (rest : Layout)

def kindOf (lexeme : Text) : Kind :=
  if lexeme = "(" then .lparen
  else if lexeme = ")" then .rparen
  else if lexeme = "'" then .quote
  else .atom

/-- The token of a lexeme that stands behind `before`. -/
def placed (before lexeme : Text) : Token :=
  ⟨kindOf lexeme, lexeme, before.count (.char '\n') + 1, before.lastLine.length + 1⟩

namespace Layout

def text : Layout → Text
  | .last gap => gap
  | .more gap lexeme rest => gap ++ lexeme ++ rest.text

/-- Its gaps are gaps and its lexemes stand where they should, if `before` stands before it. -/
def Valid (before : Text) : Layout → Prop
  | .last gap => Gap [] gap
  | .more gap lexeme rest =>
    Gap (lexeme ++ rest.text) gap ∧ Stands (before ++ gap) lexeme rest.text ∧
      rest.Valid (before ++ gap ++ lexeme)

def tokens (before : Text) : Layout → List Token
  | .last _ => []
  | .more gap lexeme rest =>
    placed (before ++ gap) lexeme :: rest.tokens (before ++ gap ++ lexeme)

end Layout

/-! ## Characters -/

theorem not_isAtomChar_of_isBlank {c : CodePoint} (h : c.isBlank = true) : isAtomChar c = false := by
  rw [isAtomChar, h]
  rfl

theorem ne_semicolon_of_isBlank {c : CodePoint} (h : c.isBlank = true) : c ≠ .char ';' := by
  rintro rfl
  exact absurd h (by decide)

theorem ne_newline_of_isAtomChar {c : CodePoint} (h : isAtomChar c = true) : c ≠ .char '\n' := by
  rintro rfl
  exact absurd h (by decide)

theorem ne_semicolon_of_isAtomChar {c : CodePoint} (h : isAtomChar c = true) : c ≠ .char ';' := by
  rintro rfl
  exact absurd h (by decide)

/-- What a character can be. -/
theorem char_cases (c : CodePoint) :
    isAtomChar c = true ∨ c.isBlank = true ∨ c = .char ';' ∨
      (c = .char '(' ∨ c = .char ')' ∨ c = .char '\'') := by
  cases hatom : isAtomChar c with
  | true => exact .inl rfl
  | false =>
    simp only [isAtomChar, Bool.not_eq_false', Bool.or_eq_true, beq_iff_eq] at hatom
    tauto

/-- A lexeme, or nothing, begins here. -/
def Opens (t : Text) : Prop := ∀ c ∈ t.head?, c.isBlank = false ∧ c ≠ .char ';'

theorem Stands.opens {before lexeme after : Text} (h : Stands before lexeme after) :
    Opens (lexeme ++ after) := by
  rcases h.shape with rfl | rfl | rfl | ⟨⟨hne, hatom⟩, -, -⟩
  · rintro c ⟨⟩
    decide
  · rintro c ⟨⟩
    decide
  · rintro c ⟨⟩
    decide
  · obtain ⟨d, ds, rfl⟩ := List.exists_cons_of_ne_nil hne
    rintro c ⟨⟩
    have hd := hatom d List.mem_cons_self
    refine ⟨Bool.eq_false_iff.mpr fun hblank => ?_, ne_semicolon_of_isAtomChar hd⟩
    rw [not_isAtomChar_of_isBlank hblank] at hd
    cases hd

theorem Stands.newline_not_mem {before lexeme after : Text} (h : Stands before lexeme after) :
    .char '\n' ∉ lexeme := by
  rcases h.shape with rfl | rfl | rfl | ⟨⟨-, hatom⟩, -, -⟩
  · decide
  · decide
  · decide
  · exact fun hmem => ne_newline_of_isAtomChar (hatom _ hmem) rfl

/-! ## A layout is scanned to its tokens -/

namespace Scanner

/-- In a gap behind `before`. -/
def behind (before : Text) : Scanner :=
  ⟨.gap, before.count (.char '\n') + 1, before.lastLine.length + 1⟩

theorem scan_blank (before : Text) {c : CodePoint} (hc : c.isBlank = true) (rest : Text) :
    (behind before).scan (c :: rest) = (behind (before ++ [c])).scan rest := by
  have hatom := not_isAtomChar_of_isBlank hc
  have hsemicolon := beq_eq_false_iff_ne.mpr (ne_semicolon_of_isBlank hc)
  rw [scan_cons]
  by_cases hline : c = .char '\n'
  · subst hline
    have hbehind : behind (before ++ [.char '\n']) = (behind before).nextLine := by
      rw [behind, Text.lastLine_append_newline, List.count_append]
      rfl
    rw [hbehind]
    rfl
  · have hpunctuation (line column : Nat) : punctuation line column c = [] := by
      have hne : ∀ d : CodePoint, d.isBlank = false → (c == d) = false := by
        intro d hd
        refine beq_eq_false_iff_ne.mpr fun heq => ?_
        rw [heq, hd] at hc
        cases hc
      rw [punctuation, hne _ (by decide), hne _ (by decide), hne _ (by decide)]
      rfl
    have hbehind : behind (before ++ [c]) = (behind before).next .gap := by
      have hnot : .char '\n' ∉ [c] := fun h => hline (List.mem_singleton.mp h).symm
      rw [behind, Text.lastLine_append_of_not_mem hnot, List.count_append,
        List.count_eq_zero.mpr hnot, List.length_append]
      rfl
    rw [hbehind]
    simp only [step, behind, hatom, hsemicolon, beq_eq_false_iff_ne.mpr hline, Bool.false_eq_true,
      if_false, hpunctuation]
    rfl

theorem scan_commented {body : Text} (hbody : .char '\n' ∉ body) (line column : Nat) (rest : Text) :
    scan ⟨.comment, line, column⟩ (body ++ rest) =
      scan ⟨.comment, line, column + body.length⟩ rest := by
  induction body generalizing column with
  | nil => rfl
  | cons c cs ih =>
    obtain ⟨hc, hcs⟩ : .char '\n' ≠ c ∧ .char '\n' ∉ cs := by
      simpa only [List.mem_cons, not_or] using hbody
    have hline : (c == .char '\n') = false := beq_eq_false_iff_ne.mpr fun h => hc h.symm
    rw [List.cons_append, scan_cons]
    simp only [step, hline, Bool.false_eq_true, if_false, List.nil_append]
    rw [next, ih hcs, List.length_cons, Nat.add_assoc, Nat.add_comm 1]

theorem scan_comment_of_atLineEnd {t : Text} (ht : AtLineEnd t) (line column : Nat) :
    scan ⟨.comment, line, column⟩ t = scan ⟨.gap, line, column⟩ t := by
  cases t with
  | nil =>
    rw [scan_nil, scan_nil]
    rfl
  | cons c cs =>
    obtain rfl := ht c rfl
    rw [scan_newline, scan_newline]
    rfl

theorem scan_gap {gap after : Text} (h : Gap after gap) (before : Text) :
    (behind before).scan (gap ++ after) = (behind (before ++ gap)).scan after := by
  induction h generalizing before with
  | nil => rw [List.append_nil, List.nil_append]
  | @blank c gap hc hgap ih =>
    rw [List.cons_append, scan_blank before hc, ih, List.append_assoc, List.singleton_append]
  | @comment body gap hbody hend hgap ih =>
    have hsemicolon : .char '\n' ∉ .char ';' :: body := by
      rw [List.mem_cons]
      exact fun h => h.elim (by decide) hbody
    have hbehind : behind (before ++ .char ';' :: body) =
        ⟨.gap, (behind before).line, (behind before).column + 1 + body.length⟩ := by
      rw [behind, Text.lastLine_append_of_not_mem hsemicolon, List.count_append,
        List.count_eq_zero.mpr hsemicolon, List.length_append, List.length_cons]
      simp only [behind, Scanner.mk.injEq, true_and, Nat.add_zero]
      omega
    rw [List.cons_append, List.append_assoc, scan_cons]
    show scan ⟨.comment, (behind before).line, (behind before).column + 1⟩ (body ++ (gap ++ after)) = _
    rw [scan_commented hbody, scan_comment_of_atLineEnd hend, ← hbehind, ih, List.append_assoc,
      List.cons_append]

theorem scan_lexeme {before lexeme after : Text} (h : Stands before lexeme after) :
    (behind before).scan (lexeme ++ after) =
      placed before lexeme :: (behind (before ++ lexeme)).scan after := by
  have hbehind : behind (before ++ lexeme) =
      ⟨.gap, (behind before).line, (behind before).column + lexeme.length⟩ := by
    rw [behind, Text.lastLine_append_of_not_mem h.newline_not_mem, List.count_append,
      List.count_eq_zero.mpr h.newline_not_mem, List.length_append]
    simp only [behind, Scanner.mk.injEq, true_and, Nat.add_zero]
    omega
  rw [hbehind]
  rcases h.shape with rfl | rfl | rfl | ⟨hatom, -, hafter⟩
  · exact scan_opening _ _ after
  · exact scan_closing _ _ after
  · exact scan_quote _ _ after
  · have hkind : kindOf lexeme = .atom := by
      have hne (c : CodePoint) (hc : isAtomChar c = false) : lexeme ≠ [c] := by
        rintro rfl
        rw [hatom.2 c List.mem_cons_self] at hc
        cases hc
      have hopening : lexeme ≠ "(" := hne (.char '(') (by decide)
      have hclosing : lexeme ≠ ")" := hne (.char ')') (by decide)
      have hquote : lexeme ≠ "'" := hne (.char '\'') (by decide)
      rw [kindOf, if_neg hopening, if_neg hclosing, if_neg hquote]
    rw [placed, hkind]
    exact scan_atom hatom hafter _ _

end Scanner

theorem Layout.scan_text {layout : Layout} {before : Text} (h : layout.Valid before) :
    (Scanner.behind before).scan layout.text = layout.tokens before := by
  induction layout generalizing before with
  | last gap =>
    have hgap : Gap [] gap := h
    have hscan := Scanner.scan_gap hgap before
    rw [List.append_nil] at hscan
    rw [text, hscan, Scanner.scan_nil]
    rfl
  | more gap lexeme rest ih =>
    obtain ⟨hgap, hstands, hrest⟩ := h
    rw [text, List.append_assoc, Scanner.scan_gap hgap, Scanner.scan_lexeme hstands, ih hrest, tokens]

/-! ## A text has one layout -/

/-- A text is cut in one way after a run of characters that goes on as far as it can. -/
theorem append_unique {p : CodePoint → Bool} {u u' v v' : Text} (hu : ∀ c ∈ u, p c = true)
    (hu' : ∀ c ∈ u', p c = true) (hv : ∀ c ∈ v.head?, p c = false)
    (hv' : ∀ c ∈ v'.head?, p c = false) (h : u ++ v = u' ++ v') : u = u' ∧ v = v' := by
  have hstop {t : Text} (ht : ∀ c ∈ t.head?, p c = false) : t.takeWhile p = [] := by
    cases t with
    | nil => rfl
    | cons c cs => rw [List.takeWhile_cons_of_neg (ht c rfl ▸ Bool.false_ne_true)]
  have hrun := congrArg (List.takeWhile p) h
  rw [List.takeWhile_append_of_pos hu, List.takeWhile_append_of_pos hu', hstop hv, hstop hv',
    List.append_nil, List.append_nil] at hrun
  subst hrun
  exact ⟨rfl, List.append_cancel_left h⟩

theorem Opens.not_blank {c : CodePoint} {t : Text} (h : Opens (c :: t)) : c.isBlank = false :=
  (h c rfl).1

theorem Opens.not_semicolon {t : Text} (h : Opens (.char ';' :: t)) : False :=
  (h _ rfl).2 rfl

theorem Gap.unique {gap gap' after after' : Text} (h : Gap after gap) (h' : Gap after' gap')
    (hafter : Opens after) (hafter' : Opens after') (heq : gap ++ after = gap' ++ after') :
    gap = gap' ∧ after = after' := by
  induction h generalizing gap' with
  | nil =>
    cases h' with
    | nil => exact ⟨rfl, heq⟩
    | blank hc hgap =>
      subst heq
      rw [hafter.not_blank] at hc
      cases hc
    | comment hbody hend hgap =>
      subst heq
      exact hafter.not_semicolon.elim
  | @blank c gap hc hgap ih =>
    cases h' with
    | nil =>
      subst heq
      rw [hafter'.not_blank] at hc
      cases hc
    | @blank d gap' hd hgap' =>
      obtain ⟨rfl, htail⟩ := List.cons.inj heq
      obtain ⟨rfl, hrest⟩ := ih hgap' htail
      exact ⟨rfl, hrest⟩
    | comment hbody hend hgap' => exact absurd (List.cons.inj heq).1 (ne_semicolon_of_isBlank hc)
  | @comment body gap hbody hend hgap ih =>
    cases h' with
    | nil =>
      subst heq
      exact hafter'.not_semicolon.elim
    | blank hd hgap' => exact absurd (List.cons.inj heq).1.symm (ne_semicolon_of_isBlank hd)
    | @comment body' gap' hbody' hend' hgap' =>
      have hline {t : Text} (ht : .char '\n' ∉ t) : ∀ c ∈ t, (c != .char '\n') = true :=
        fun c hc => bne_iff_ne.mpr fun h => ht (h ▸ hc)
      have hstop {t : Text} (ht : AtLineEnd t) : ∀ c ∈ t.head?, (c != .char '\n') = false :=
        fun c hc => by rw [ht c hc, bne_self_eq_false]
      rw [List.cons_append, List.cons_append, List.append_assoc, List.append_assoc] at heq
      have hcut := (List.cons.inj heq).2
      obtain ⟨rfl, htail⟩ :=
        append_unique (hline hbody) (hline hbody') (hstop hend) (hstop hend') hcut
      obtain ⟨rfl, hrest⟩ := ih hgap' htail
      exact ⟨rfl, hrest⟩

theorem Stands.single_or_atom {before lexeme after : Text} (h : Stands before lexeme after) :
    (∃ c, isAtomChar c = false ∧ lexeme = [c]) ∨ IsAtom lexeme ∧ Delimited after := by
  rcases h.shape with rfl | rfl | rfl | ⟨hatom, -, hafter⟩
  · exact .inl ⟨.char '(', by decide, rfl⟩
  · exact .inl ⟨.char ')', by decide, rfl⟩
  · exact .inl ⟨.char '\'', by decide, rfl⟩
  · exact .inr ⟨hatom, hafter⟩

theorem Stands.ne_nil {before lexeme after : Text} (h : Stands before lexeme after) :
    lexeme ≠ [] := by
  rcases h.single_or_atom with ⟨c, -, rfl⟩ | ⟨hatom, -⟩
  · exact List.cons_ne_nil c []
  · exact hatom.1

theorem Stands.unique {before before' lexeme lexeme' after after' : Text}
    (h : Stands before lexeme after) (h' : Stands before' lexeme' after')
    (heq : lexeme ++ after = lexeme' ++ after') : lexeme = lexeme' ∧ after = after' := by
  have hfirst {c : CodePoint} {t u v : Text} (hatom : IsAtom t) (heq : t ++ u = c :: v) :
      isAtomChar c = true := by
    obtain ⟨d, ds, rfl⟩ := List.exists_cons_of_ne_nil hatom.1
    rw [← (List.cons.inj heq).1]
    exact hatom.2 d List.mem_cons_self
  rcases h.single_or_atom with ⟨c, hc, rfl⟩ | ⟨hatom, hdelimited⟩ <;>
    rcases h'.single_or_atom with ⟨c', hc', rfl⟩ | ⟨hatom', hdelimited'⟩
  · obtain ⟨rfl, hrest⟩ := List.cons.inj heq
    exact ⟨rfl, hrest⟩
  · rw [hfirst hatom' heq.symm] at hc
    cases hc
  · rw [hfirst hatom heq] at hc'
    cases hc'
  · exact append_unique hatom.2 hatom'.2 hdelimited hdelimited' heq

theorem Layout.Valid.unique {layout other : Layout} {before : Text} (h : layout.Valid before)
    (h' : other.Valid before) (heq : layout.text = other.text) : layout = other := by
  induction layout generalizing other before with
  | last gap =>
    have hgap : Gap [] gap := h
    cases other with
    | last gap' => exact congrArg Layout.last heq
    | more gap' lexeme' rest' =>
      obtain ⟨hgap', hstands', -⟩ := h'
      rw [text, text, ← List.append_nil gap, List.append_assoc] at heq
      have hnil := (hgap.unique hgap' nofun hstands'.opens heq).2
      exact absurd (List.append_eq_nil_iff.mp hnil.symm).1 hstands'.ne_nil
  | more gap lexeme rest ih =>
    obtain ⟨hgap, hstands, hrest⟩ := h
    cases other with
    | last gap' =>
      have hgap' : Gap [] gap' := h'
      rw [text, text, ← List.append_nil gap', List.append_assoc] at heq
      have hnil := (hgap.unique hgap' hstands.opens nofun heq).2
      exact absurd (List.append_eq_nil_iff.mp hnil).1 hstands.ne_nil
    | more gap' lexeme' rest' =>
      obtain ⟨hgap', hstands', hrest'⟩ := h'
      rw [text, text, List.append_assoc, List.append_assoc] at heq
      obtain ⟨rfl, hlexeme⟩ := hgap.unique hgap' hstands.opens hstands'.opens heq
      obtain ⟨rfl, htext⟩ := hstands.unique hstands' hlexeme
      rw [ih hrest hrest' htext]

/-! ## Every text has a layout -/

/-- Neither a comment nor an atom goes on from `before` into `rest`. -/
structure Cut (before rest : Text) : Prop where
  comment : .char ';' ∈ before.lastLine → AtLineEnd rest
  atom : (∃ c ∈ before.getLast?, isAtomChar c = true) → Delimited rest

namespace Cut

variable {before cs : Text} {c : CodePoint}

theorem uncommented (h : Cut before (c :: cs)) (hc : c ≠ .char '\n') :
    .char ';' ∉ before.lastLine :=
  fun hmem => hc (h.comment hmem c rfl)

theorem lastLine_of_mem {u : Text} (hu : .char '\n' ∉ u) (hmem : .char ';' ∈ (before ++ u).lastLine)
    (hbefore : .char ';' ∉ before.lastLine) : .char ';' ∈ u := by
  rw [Text.lastLine_append_of_not_mem hu] at hmem
  exact (List.mem_append.mp hmem).resolve_left hbefore

theorem of_not_isAtomChar {rest : Text} (hc : isAtomChar c = false)
    (hcomment : .char ';' ∈ (before ++ [c]).lastLine → AtLineEnd rest) : Cut (before ++ [c]) rest := by
  refine ⟨hcomment, ?_⟩
  rintro ⟨d, hd, hatom⟩
  rw [List.getLast?_append, List.getLast?_singleton] at hd
  cases hd
  rw [hatom] at hc
  cases hc

theorem blank (h : Cut before (c :: cs)) (hc : c.isBlank = true) : Cut (before ++ [c]) cs := by
  refine of_not_isAtomChar (not_isAtomChar_of_isBlank hc) fun hmem => ?_
  exfalso
  by_cases hline : c = .char '\n'
  · rw [hline, Text.lastLine_append_newline] at hmem
    cases hmem
  · have hnot : .char '\n' ∉ [c] := fun h => hline (List.mem_singleton.mp h).symm
    have hsemicolon := lastLine_of_mem hnot hmem (h.uncommented hline)
    exact ne_semicolon_of_isBlank hc (List.mem_singleton.mp hsemicolon).symm

theorem atLineEnd_dropWhile (t : Text) : AtLineEnd (t.dropWhile (· != .char '\n')) := by
  intro c hc
  have hstop := List.head?_dropWhile_not (· != CodePoint.char '\n') t
  rw [hc] at hstop
  simpa using hstop

theorem delimited_of_atLineEnd {t : Text} (h : AtLineEnd t) : Delimited t := by
  intro c hc
  rw [h c hc]
  decide

theorem comment_text (before t : Text) :
    Cut (before ++ .char ';' :: Text.firstLine t) (t.dropWhile (· != .char '\n')) :=
  ⟨fun _ => atLineEnd_dropWhile t, fun _ => delimited_of_atLineEnd (atLineEnd_dropWhile t)⟩

theorem lexeme {lexeme after : Text} (h : Stands before lexeme after) :
    Cut (before ++ lexeme) after := by
  have hcomment (hsemicolon : .char ';' ∉ lexeme) :
      .char ';' ∈ (before ++ lexeme).lastLine → AtLineEnd after :=
    fun hmem => absurd (lastLine_of_mem h.newline_not_mem hmem h.uncommented) hsemicolon
  rcases h.single_or_atom with ⟨c, hc, rfl⟩ | ⟨hatom, hafter⟩
  · refine of_not_isAtomChar hc (hcomment fun hmem => ?_)
    have hopens := h.opens
    rw [← List.mem_singleton.mp hmem] at hopens
    exact hopens.not_semicolon
  · refine ⟨hcomment fun hmem => ?_, fun _ => hafter⟩
    exact ne_semicolon_of_isAtomChar (hatom.2 _ hmem) rfl

theorem stands_single (h : Cut before (c :: cs))
    (hc : c = .char '(' ∨ c = .char ')' ∨ c = .char '\'') : Stands before [c] cs := by
  have hne : c ≠ .char '\n' := by
    rintro rfl
    exact absurd hc (by decide)
  refine ⟨?_, h.uncommented hne⟩
  rcases hc with rfl | rfl | rfl
  · exact .inl rfl
  · exact .inr (.inl rfl)
  · exact .inr (.inr (.inl rfl))

theorem stands_atom (h : Cut before (c :: cs)) (hc : isAtomChar c = true) :
    Stands before (c :: cs.takeWhile isAtomChar) (cs.dropWhile isAtomChar) := by
  refine ⟨.inr (.inr (.inr ⟨⟨List.cons_ne_nil _ _, ?_⟩, ?_, ?_⟩)),
    h.uncommented (ne_newline_of_isAtomChar hc)⟩
  · exact List.forall_mem_cons.mpr ⟨hc, List.all_eq_true.mp List.all_takeWhile⟩
  · intro d hd
    by_contra hatom
    have hdelimited := h.atom ⟨d, hd, Bool.not_eq_false _ ▸ hatom⟩ c rfl
    rw [hc] at hdelimited
    cases hdelimited
  · intro d hd
    have hstop := List.head?_dropWhile_not isAtomChar cs
    rw [hd] at hstop
    simpa using hstop

end Cut

namespace Layout

/-- With something more at the start of the first gap. -/
def indent (space : Text) : Layout → Layout
  | .last gap => .last (space ++ gap)
  | .more gap lexeme rest => .more (space ++ gap) lexeme rest

theorem text_indent (space : Text) (layout : Layout) :
    (layout.indent space).text = space ++ layout.text := by
  cases layout with
  | last gap => rfl
  | more gap lexeme rest => simp only [indent, text, List.append_assoc]

theorem Valid.indent {layout : Layout} {before space : Text} (h : layout.Valid (before ++ space))
    (hspace : ∀ {after gap : Text}, gap ++ after = layout.text → Gap after gap →
      Gap after (space ++ gap)) : (layout.indent space).Valid before := by
  cases layout with
  | last gap => exact hspace (List.append_nil gap) h
  | more gap lexeme rest =>
    obtain ⟨hgap, hstands, hrest⟩ := h
    rw [List.append_assoc before space gap] at hstands hrest
    exact ⟨hspace (by rw [text, List.append_assoc]) hgap, hstands, hrest⟩

/-- A lexeme stands before the layout of what follows it. -/
theorem exists_valid_of_stands {before lexeme after : Text} (h : Stands before lexeme after)
    (hrest : ∃ layout : Layout, layout.text = after ∧ layout.Valid (before ++ lexeme)) :
    ∃ layout : Layout, layout.text = lexeme ++ after ∧ layout.Valid before := by
  obtain ⟨layout, rfl, hvalid⟩ := hrest
  refine ⟨.more [] lexeme layout, rfl, .nil, ?_, ?_⟩
  · rw [List.append_nil]
    exact h
  · rw [List.append_nil]
    exact hvalid

/-- What stands behind a place where nothing is cut in two has a layout. -/
theorem exists_valid {before rest : Text} (h : Cut before rest) :
    ∃ layout : Layout, layout.text = rest ∧ layout.Valid before := by
  -- What follows the first lexeme, the first comment or the first blank is shorter.
  generalize hn : rest.length = n
  induction n using Nat.strongRecOn generalizing before rest with
  | ind n ih =>
    cases rest with
    | nil => exact ⟨.last [], rfl, .nil⟩
    | cons c cs =>
      rw [List.length_cons] at hn
      rcases char_cases c with hatom | hblank | rfl | hsingle
      · have hstands := h.stands_atom hatom
        have hle := (List.dropWhile_suffix isAtomChar (l := cs)).length_le
        have hvalid := exists_valid_of_stands hstands (ih _ (by omega) (.lexeme hstands) rfl)
        rw [List.cons_append, List.takeWhile_append_dropWhile] at hvalid
        exact hvalid
      · obtain ⟨layout, htext, hvalid⟩ := ih cs.length (by omega) (h.blank hblank) rfl
        refine ⟨layout.indent [c], ?_, hvalid.indent fun _ => .blank hblank⟩
        rw [text_indent, htext, List.singleton_append]
      · have hle := (List.dropWhile_suffix (· != CodePoint.char '\n') (l := cs)).length_le
        obtain ⟨layout, htext, hvalid⟩ := ih _ (by omega) (Cut.comment_text before cs) rfl
        refine ⟨layout.indent (.char ';' :: Text.firstLine cs), ?_, hvalid.indent fun heq hgap => ?_⟩
        · have hcut : Text.firstLine cs ++ cs.dropWhile (· != .char '\n') = cs :=
            List.takeWhile_append_dropWhile
          rw [text_indent, htext, List.cons_append, hcut]
        · refine .comment (Text.newline_not_mem_firstLine cs) ?_ hgap
          rw [heq, htext]
          exact Cut.atLineEnd_dropWhile cs
      · have hstands := h.stands_single hsingle
        exact exists_valid_of_stands hstands (ih cs.length (by omega) (.lexeme hstands) rfl)

end Layout

/-! ## Tokens are found where they say -/

/-- A token of a layout is a lexeme that stands somewhere in the text. -/
theorem Layout.Valid.exists_of_mem_tokens {layout : Layout} {before : Text}
    (h : layout.Valid before) {t : Token} (ht : t ∈ layout.tokens before) :
    ∃ u v, before ++ layout.text = u ++ t.text ++ v ∧ t = placed u t.text ∧ Stands u t.text v := by
  induction layout generalizing before with
  | last gap => cases ht
  | more gap lexeme rest ih =>
    obtain ⟨-, hstands, hrest⟩ := h
    rcases List.mem_cons.mp ht with rfl | ht
    · exact ⟨before ++ gap, rest.text, by simp only [text, placed, List.append_assoc], rfl, hstands⟩
    · obtain ⟨u, v, htext, hrest⟩ := ih hrest ht
      refine ⟨u, v, ?_, hrest⟩
      rw [← htext, text]
      simp only [List.append_assoc]

/-- The part of a text that a token covers by its line, its column and its length. -/
def slice (source : Text) (t : Token) : Option Text :=
  (Text.splitOn (.char '\n') source)[t.line - 1]?.map fun line =>
    (line.drop (t.column - 1)).take t.text.length

theorem slice_placed {u lexeme v : Text} (h : .char '\n' ∉ lexeme) :
    slice (u ++ lexeme ++ v) (placed u lexeme) = some lexeme := by
  have hline := Text.getElem?_splitOn_append u (lexeme ++ v)
  rw [← List.append_assoc, Text.firstLine_append_of_not_mem h] at hline
  simp only [slice, placed, Nat.add_sub_cancel, hline, Option.map_some, List.drop_left,
    List.take_left]

theorem exists_layout (source : Text) :
    ∃ layout : Layout, layout.text = source ∧ layout.Valid [] ∧ lex source = layout.tokens [] := by
  have hstart : Cut [] source := ⟨nofun, fun ⟨_, hlast, _⟩ => nomatch hlast⟩
  obtain ⟨layout, rfl, hvalid⟩ := Layout.exists_valid hstart
  exact ⟨layout, rfl, hvalid, Layout.scan_text hvalid⟩

/-- A token stands in its text at the place that it names. -/
theorem exists_stands_of_mem_lex {source : Text} {t : Token} (ht : t ∈ lex source) :
    ∃ before after, source = before ++ t.text ++ after ∧ t = placed before t.text ∧
      Stands before t.text after := by
  obtain ⟨layout, htext, hvalid, hlex⟩ := exists_layout source
  rw [hlex] at ht
  obtain ⟨before, after, heq, hplaced, hstands⟩ := hvalid.exists_of_mem_tokens ht
  rw [List.nil_append, htext] at heq
  exact ⟨before, after, heq, hplaced, hstands⟩

theorem slice_of_mem_lex {source : Text} {t : Token} (ht : t ∈ lex source) :
    slice source t = some t.text := by
  obtain ⟨before, after, heq, hplaced, hstands⟩ := exists_stands_of_mem_lex ht
  rw [heq]
  conv => lhs; rw [hplaced]
  exact slice_placed hstands.newline_not_mem

/-- A text has exactly one layout.  Its tokens are the lexemes of the layout, in order, each with the line
and the column where it stands, and there they are found again. -/
theorem lex_layout (source : Text) :
    ∃ layout : Layout, (layout.text = source ∧ layout.Valid []) ∧
      (∀ other : Layout, other.text = source → other.Valid [] → other = layout) ∧
      lex source = layout.tokens [] ∧ ∀ t ∈ lex source, slice source t = some t.text := by
  have hstart : Cut [] source := ⟨nofun, fun ⟨_, hlast, _⟩ => nomatch hlast⟩
  obtain ⟨layout, htext, hvalid⟩ := Layout.exists_valid hstart
  have hlex : lex source = layout.tokens [] := by
    rw [← htext]
    exact Layout.scan_text hvalid
  refine ⟨layout, ⟨htext, hvalid⟩, fun other ho hother => ?_, hlex, fun t ht => ?_⟩
  · exact hother.unique hvalid (ho.trans htext.symm)
  · rw [hlex] at ht
    obtain ⟨u, v, heq, hplaced, hstands⟩ := hvalid.exists_of_mem_tokens ht
    rw [List.nil_append, htext] at heq
    rw [heq]
    conv => lhs; rw [hplaced]
    exact slice_placed hstands.newline_not_mem

/-- A list that is open before a comment, and a quote below it. -/
def commentedLayout : Layout :=
  .more [] "(" (.more [] "a" (.more ";b '\n " "'" (.more [] "c" (.last " "))))

theorem lex_layout_commented :
    (∀ other : Layout, other.text = "(a;b '\n 'c " → other.Valid [] → other = commentedLayout) ∧
      lex "(a;b '\n 'c " = [⟨.lparen, "(", 1, 1⟩, ⟨.atom, "a", 1, 2⟩, ⟨.quote, "'", 2, 2⟩,
        ⟨.atom, "c", 2, 3⟩] := by
  obtain ⟨layout, -, hunique, hlex, -⟩ := lex_layout "(a;b '\n 'c "
  have hatom {before after : Text} {c : CodePoint} (hc : isAtomChar c = true)
      (hbefore : ∀ d ∈ before.getLast?, isAtomChar d = false) (hafter : Delimited after)
      (hcomment : .char ';' ∉ before.lastLine) : Stands before [c] after :=
    ⟨.inr (.inr (.inr ⟨⟨List.cons_ne_nil _ _, fun d hd => List.mem_singleton.mp hd ▸ hc⟩, hbefore,
      hafter⟩)), hcomment⟩
  have hvalid : commentedLayout.Valid [] := by
    refine ⟨.nil, ⟨.inl rfl, by decide⟩, .nil, hatom rfl (by decide) (by decide) (by decide), ?_⟩
    refine ⟨?_, ⟨.inr (.inr (.inl rfl)), by decide⟩, .nil, ?_, .blank rfl .nil⟩
    · have hcomment : Gap "'c " (.char ';' :: ("b '" ++ "\n ")) :=
        .comment (by decide) (by decide) (.blank rfl (.blank rfl .nil))
      exact hcomment
    · exact hatom rfl (by decide) (by decide) (by decide)
  obtain rfl := hunique commentedLayout rfl hvalid
  exact ⟨hunique, hlex⟩

end Token
end SmallLisp
