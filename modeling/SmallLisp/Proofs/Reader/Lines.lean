import SmallLisp.Proofs.Reader.Progress
import SmallLisp.Proofs.Reader.Scan

/-!
Reading a text that goes on below another one.

A text reads the same wherever it starts, except that the lines of tokens and errors are counted from
there (`Token.Scanner.scan_below`, `Reader.readAll_below`).  A line feed ends an atom, a blank and a
comment alike, so the tokens of a text below another one are its own (`Token.lex_append_newline_below`),
and if the text above does not end inside a form, what is written below it is read on its own
(`read_append_newline`).
-/

namespace SmallLisp

/-! ## Positions -/

/-- The token as it is found `k` lines further down. -/
def Token.below (k : Nat) (t : Token) : Token := { t with line := t.line + k }

/-- The error as it is found `k` lines further down. -/
def SyntaxError.below (k : Nat) (e : SyntaxError) : SyntaxError :=
  { e with line := e.line.map (· + k) }

namespace Token.Scanner

def below (k : Nat) (st : Scanner) : Scanner := { st with line := st.line + k }

theorem pending_below (k : Nat) (st : Scanner) :
    (st.below k).pending = st.pending.map (Token.below k) := by
  obtain ⟨mode, line, column⟩ := st
  cases mode <;> rfl

theorem nextLine_below (k : Nat) (st : Scanner) :
    (st.below k).nextLine = st.nextLine.below k := by
  show Scanner.mk .gap (st.line + k + 1) 1 = Scanner.mk .gap (st.line + 1 + k) 1
  rw [Nat.add_right_comm]

theorem punctuation_below (k line column : Nat) (c : CodePoint) :
    punctuation (line + k) column c = (punctuation line column c).map (Token.below k) := by
  unfold punctuation
  split
  · rfl
  split
  · rfl
  split <;> rfl

theorem step_below (k : Nat) (st : Scanner) (c : CodePoint) :
    (st.below k).step c = (((st.step c).1.map (Token.below k)), (st.step c).2.below k) := by
  have hpending := pending_below k st
  have hline := nextLine_below k st
  obtain ⟨mode, line, column⟩ := st
  unfold step
  cases mode with
  | comment =>
    simp only [below] at hline ⊢
    split
    · rw [hline]
      rfl
    · rfl
  | gap | atom =>
    simp only [below] at hpending hline ⊢
    split
    · rfl
    split
    · rw [hpending, hline]
    split
    · rw [hpending]
      rfl
    · rw [hpending, punctuation_below, List.map_append]
      rfl

theorem scan_below (k : Nat) (st : Scanner) (t : Text) :
    (st.below k).scan t = (st.scan t).map (Token.below k) := by
  induction t generalizing st with
  | nil => rw [scan_nil, scan_nil, pending_below]
  | cons c cs ih => rw [scan_cons, scan_cons, step_below, ih, List.map_append]

theorem line_step (st : Scanner) (c : CodePoint) :
    (st.step c).2.line = st.line + if c = .char '\n' then 1 else 0 := by
  by_cases hc : c = .char '\n'
  · subst hc
    obtain ⟨mode, line, column⟩ := st
    cases mode <;> rfl
  · have hline : (c == .char '\n') = false := beq_false_of_ne hc
    rw [if_neg hc, step]
    obtain ⟨mode, line, column⟩ := st
    cases mode with
    | comment =>
      simp only [hline, Bool.false_eq_true, if_false]
      rfl
    | gap | atom =>
      simp only [hline, Bool.false_eq_true, if_false]
      split
      · rfl
      split <;> rfl

/-- Every line feed begins a line, in a comment as elsewhere. -/
theorem line_after (st : Scanner) (s : Text) :
    (st.after s).line = st.line + s.count (.char '\n') := by
  induction s generalizing st with
  | nil => rfl
  | cons c cs ih =>
    rw [after, ih, line_step, List.count_cons]
    simp only [beq_iff_eq]
    omega

theorem line_after_start (s : Text) : (start.after s).line = s.count (.char '\n') + 1 := by
  rw [line_after, Nat.add_comm]
  rfl

end Token.Scanner

/-- The tokens of a text below another one are its own tokens, further down. -/
theorem Token.lex_append_newline_below (s t : Text) :
    lex (s ++ .char '\n' :: t) = lex s ++ (lex t).map (Token.below (s.count (.char '\n') + 1)) := by
  have hstart : (Scanner.start.after s).nextLine = Scanner.start.below (s.count (.char '\n') + 1) := by
    rw [Scanner.nextLine, Scanner.line_after_start, Nat.add_comm]
    rfl
  rw [lex_append_newline, hstart, Scanner.scan_below, lex_eq_scan t]

/-- A text is cut into tokens line by line: a new line ends whatever the text before it ends in, and the
tokens after it are those of the text below, on lines that are counted from there. -/
theorem Token.lex_splits_at_newline (s t : Text) :
    lex (s ++ "\n" ++ t) =
      lex s ++ (lex t).map fun token =>
        { token with line := token.line + (s.count (.char '\n') + 1) } := by
  have htext : s ++ "\n" ++ t = s ++ .char '\n' :: t := List.append_assoc s _ t
  rw [htext, lex_append_newline_below]
  rfl

namespace Reader

def Opened.below (k : Nat) (o : Opened) : Opened := { o with opener := o.opener.below k }

def Step.below (k : Nat) : Step → Step
  | .more stack => .more (stack.map (Opened.below k))
  | .done form => .done form
  | .failed e => .failed (e.below k)

theorem deliver_below (k : Nat) (v : Value) (stack : List Opened) :
    deliver v (stack.map (Opened.below k)) = (deliver v stack).below k := by
  induction stack generalizing v with
  | nil => rfl
  | cons o rest ih =>
    by_cases ho : o.opener.kind = .quote
    · rw [deliver_quote ho, List.map_cons, deliver_quote (o := o.below k) ho, ih]
    · rw [deliver_list ho, List.map_cons, deliver_list (o := o.below k) ho]
      rfl

theorem unmatched_below (k : Nat) (t : Token) :
    SyntaxError.unmatched (t.below k) = (SyntaxError.unmatched t).below k := by
  simp [SyntaxError.unmatched, SyntaxError.below, Token.below]

theorem danglingQuote_below (k : Nat) (t : Token) (incomplete : Bool) :
    SyntaxError.danglingQuote (t.below k) incomplete =
      (SyntaxError.danglingQuote t incomplete).below k := by
  simp [SyntaxError.danglingQuote, SyntaxError.below, Token.below]

theorem unterminated_below (k : Nat) (t : Token) :
    SyntaxError.unterminated (t.below k) = (SyntaxError.unterminated t).below k := by
  simp [SyntaxError.unterminated, SyntaxError.below, Token.below]

theorem close_below (k : Nat) (t : Token) (stack : List Opened) :
    close (t.below k) (stack.map (Opened.below k)) = (close t stack).below k := by
  cases stack with
  | nil => exact congrArg Step.failed (unmatched_below k t)
  | cons o rest =>
    by_cases ho : o.opener.kind = .quote
    · rw [close_quote t ho, List.map_cons, close_quote _ (o := o.below k) ho]
      exact congrArg Step.failed (danglingQuote_below k o.opener false)
    · rw [close_list t ho, List.map_cons, close_list _ (o := o.below k) ho]
      exact deliver_below k _ rest

theorem feed_below (k : Nat) (t : Token) (stack : List Opened) :
    feed (stack.map (Opened.below k)) (t.below k) = (feed stack t).below k := by
  have hkind : (t.below k).kind = t.kind := rfl
  unfold feed
  rw [hkind]
  split
  · rfl
  · rfl
  · exact close_below k t stack
  · exact deliver_below k _ stack

theorem endError_below (k : Nat) (stack : List Opened) :
    endError (stack.map (Opened.below k)) = (endError stack).map (SyntaxError.below k) := by
  cases stack with
  | nil => rfl
  | cons o rest =>
    have hkind : (o.below k).opener.kind = o.opener.kind := rfl
    simp only [List.map_cons, endError, hkind, Option.map_some]
    split
    · exact congrArg some (danglingQuote_below k o.opener true)
    · exact congrArg some (unterminated_below k o.opener)

end Reader

namespace Reading

/-- The reading of a text that stands `k` lines further down. -/
def below (k : Nat) (r : Reading) : Reading := { r with error := r.error.map (SyntaxError.below k) }

/-- What is read of a text and another one after it: after an error nothing more. -/
def followedBy (r later : Reading) : Reading :=
  match r.error with
  | none => ⟨r.forms ++ later.forms, later.error⟩
  | some _ => r

end Reading

theorem Reader.readAll_below (k : Nat) (stack : List Opened) (ts : List Token) :
    readAll (stack.map (Opened.below k)) (ts.map (Token.below k)) = (readAll stack ts).below k := by
  induction ts generalizing stack with
  | nil => exact congrArg (Reading.mk []) (endError_below k stack)
  | cons t ts ih =>
    rw [List.map_cons, readAll_cons, readAll_cons, feed_below]
    cases feed stack t with
    | more stack => exact ih stack
    | done form =>
      have hrest := ih []
      simp only [List.map_nil] at hrest
      simp only [Step.below, resume, hrest]
      rfl
    | failed e => rfl

/-- The end of a line adds nothing to read. -/
theorem read_newline (s : Text) : read (s ++ "\n") = read s := by
  have hlex : lex (s ++ "\n") = lex s := (Token.lex_append_newline_below s []).trans (List.append_nil _)
  rw [read, hlex, read]

/-- A text that does not end inside a form, and what is written below it, are read one after the
other. -/
theorem read_append_newline {s : Text} (h : needsMore s = false) (t : Text) :
    read (s ++ .char '\n' :: t) =
      (read s).followedBy ((read t).below (s.count (.char '\n') + 1)) := by
  have hs : read s = (Reader.progress [] (lex s)).finish [] := by
    rw [← Reader.readAll_append, List.append_nil]
    rfl
  rw [read, Token.lex_append_newline_below, Reader.readAll_append]
  cases hstatus : (Reader.progress [] (lex s)).status with
  | error e =>
    rw [Reader.Progress.finish_of_error hstatus] at hs ⊢
    rw [hs]
    rfl
  | ok stack =>
    rw [Reader.Progress.finish_of_ok hstatus] at hs ⊢
    -- An open form at the end would be an error that more text could mend.
    have hstack : stack = [] := by
      cases stack with
      | nil => rfl
      | cons o rest =>
        obtain ⟨e, he⟩ : ∃ e, Reader.endError (o :: rest) = some e := ⟨_, rfl⟩
        have herror : (read s).error = some e := by
          rw [hs]
          exact he
        rw [needsMore, herror] at h
        rw [Option.any_some, (Reader.incomplete_of_endError he).2] at h
        cases h
    have hread : read s = ⟨(Reader.progress [] (lex s)).forms, none⟩ := by
      rw [hs, hstack]
      exact congrArg (Reading.mk · none) (List.append_nil _)
    rw [hread, hstack]
    exact congrArg (fun r => Reading.mk (_ ++ r.forms) r.error) (Reader.readAll_below _ [] (lex t))

end SmallLisp
