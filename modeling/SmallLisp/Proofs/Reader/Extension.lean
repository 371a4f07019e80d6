import SmallLisp.Proofs.Reader.Progress
import SmallLisp.Proofs.Reader.Scan

/-!
What more text can do to what has been read.

More text can lengthen the last atom and otherwise only adds tokens, so what has been read of the tokens
that have ended stays read.  An error that a token leads to is the same whatever follows.  An error at
the end of the text can be mended: a new line ends an atom or a comment, `()` gives an open quote
something to quote, and one parenthesis for each open list closes it (`closers`).
-/

namespace SmallLisp

open Token (Scanner)

/-- A longer text is read by going on from the tokens that have ended in the shorter one. -/
theorem read_append (s t : Text) :
    read (s ++ t) =
      (Reader.progress [] (Scanner.start.ended s)).finish ((Scanner.start.after s).scan t) := by
  rw [read, Token.lex_eq_scan, Scanner.scan_append, Reader.readAll_append]

theorem read_eq_finish (s : Text) :
    read s =
      (Reader.progress [] (Scanner.start.ended s)).finish (Scanner.start.after s).pending := by
  rw [read, Token.lex_eq_ended_append, Reader.readAll_append]

namespace Reader

/-- If reading the atom that a text ends in leaves an error, it is one at the end of the text, and the
atom has finished no form. -/
theorem readAll_pending {stack : List Opened} {st : Scanner} {e : SyntaxError}
    (h : (readAll stack st.pending).error = some e) :
    (readAll stack st.pending).forms = [] ∧ e.incomplete = true := by
  obtain ⟨mode, line, column⟩ := st
  cases mode with
  | gap | comment => exact ⟨rfl, (incomplete_of_endError h).2⟩
  | atom start reversed =>
    have hread := readAll_atom stack (t := ⟨.atom, reversed.reverse, line, start⟩) rfl []
    rw [Scanner.pending, Token.Mode.ending, hread] at h ⊢
    cases hstep : deliver (Value.ofAtom reversed.reverse) stack with
    | more stack =>
      rw [hstep] at h
      exact ⟨rfl, (incomplete_of_endError h).2⟩
    | done form =>
      rw [hstep] at h
      cases h
    | failed e' => exact absurd hstep (deliver_ne_failed _ _ _)

/-- A parenthesis for each list that is open. -/
def closers : List Opened → Text
  | [] => []
  | o :: rest => if o.opener.kind = .quote then closers rest else .char ')' :: closers rest

/-- Once a value has been delivered, the parentheses finish everything that is still open. -/
theorem resume_closers (v : Value) (stack : List Opened) (line column : Nat) :
    (resume (deliver v stack) (Scanner.scan ⟨.gap, line, column⟩ (closers stack))).error = none := by
  induction stack generalizing v column with
  | nil => rfl
  | cons o rest ih =>
    by_cases ho : o.opener.kind = .quote
    · rw [deliver_quote ho, closers, if_pos ho]
      exact ih _ column
    · rw [deliver_list ho, closers, if_neg ho, Scanner.scan_closing, resume,
        readAll_closer (o := ⟨o.opener, v :: o.items⟩) ho rest rfl]
      exact ih _ (column + 1)

def completion (stack : List Opened) : Text :=
  .char '\n' :: .char '(' :: .char ')' :: closers stack

theorem readAll_completion (stack : List Opened) (st : Scanner) :
    (readAll stack (st.nextLine.scan (.char '(' :: .char ')' :: closers stack))).error = none := by
  rw [Scanner.nextLine, Scanner.scan_opening, Scanner.scan_closing, readAll_opener stack (.inl rfl),
    readAll_closer (kind_ne_quote rfl) stack rfl]
  exact resume_closers _ stack _ _

end Reader

/-- A text that ends inside an unfinished form can be finished. -/
theorem exists_read_append_eq_none {s : Text} {e : SyntaxError} (h : (read s).error = some e)
    (he : e.incomplete = true) : ∃ t, (read (s ++ t)).error = none := by
  have hread : read s = (Reader.progress [] (lex s)).finish [] := by
    rw [← Reader.readAll_append, List.append_nil]
    rfl
  cases hstatus : (Reader.progress [] (lex s)).status with
  | error e' =>
    rw [hread, Reader.Progress.finish_of_error hstatus] at h
    cases h
    rw [Reader.incomplete_of_progress hstatus] at he
    cases he
  | ok stack =>
    refine ⟨Reader.completion stack, ?_⟩
    rw [read, Reader.completion, Token.lex_append_newline, Reader.readAll_append,
      Reader.Progress.finish_of_ok hstatus]
    exact Reader.readAll_completion stack _

/-- If more text could mend the error at the end of `s`, some text does, and the forms of `s` are the
first forms of every longer text.  Any other error of `s` is the error of every longer text, after the
same forms. -/
theorem read_exact_under_extension (s : Text) :
    (∀ e, (read s).error = some e → e.incomplete = true →
      needsMore s = true ∧ (∃ t, (read (s ++ t)).error = none) ∧
        ∀ t, (read s).forms <+: (read (s ++ t)).forms) ∧
    (∀ e, (read s).error = some e → e.incomplete = false → ∀ t,
      (read (s ++ t)).forms = (read s).forms ∧ (read (s ++ t)).error = some e) := by
  cases hstatus : (Reader.progress [] (Scanner.start.ended s)).status with
  | error e' =>
    have hs := (read_eq_finish s).trans (Reader.Progress.finish_of_error hstatus _)
    have hincomplete := Reader.incomplete_of_progress hstatus
    refine ⟨fun e h he => ?_, fun e h _ t => ?_⟩
    · rw [hs] at h
      cases h
      rw [hincomplete] at he
      cases he
    · rw [read_append, Reader.Progress.finish_of_error hstatus, hs]
      rw [hs] at h
      exact ⟨rfl, h⟩
  | ok stack =>
    have hs := (read_eq_finish s).trans (Reader.Progress.finish_of_ok hstatus _)
    refine ⟨fun e h he => ⟨?_, exists_read_append_eq_none h he, fun t => ?_⟩, fun e h he => ?_⟩
    · rw [needsMore, h]
      exact he
    · rw [read_append, Reader.Progress.finish_of_ok hstatus, hs]
      rw [hs] at h
      rw [(Reader.readAll_pending h).1, List.append_nil]
      exact List.prefix_append _ _
    · rw [hs] at h
      rw [(Reader.readAll_pending h).2] at he
      cases he

theorem read_exact_under_extension_parentheses :
    (∃ t, (read ("(a" ++ t)).error = none) ∧
      ∀ t, (read ("b )" ++ t)).error = some (.unmatched ⟨.rparen, ")", 1, 3⟩) := by
  have hopen := (read_exact_under_extension "(a").1 _ rfl rfl
  have hclosed := (read_exact_under_extension "b )").2 _ rfl rfl
  exact ⟨hopen.2.1, fun t => (hclosed t).2⟩

end SmallLisp
