import SmallLisp.Reader.Token

/-!
Scanning a text in pieces.

A `Scanner` is what scanning knows between two code points.  Each code point leads to the next one and
may end tokens on the way, so that the tokens of a text are those that end within a first piece of it,
and then what scanning the rest from there gives (`scan_append`).  What a first piece leaves unfinished
is at most one atom.
-/

namespace SmallLisp
namespace Token

/-- What has been scanned: what it belongs to, and the place that has been reached. -/
structure Scanner where
  mode : Mode
  line : Nat
  column : Nat

namespace Scanner

def start : Scanner := ⟨.gap, 1, 1⟩

/-- The tokens that end in the rest of a text. -/
def scan (st : Scanner) (t : Text) : List Token := Token.scan st.mode st.line st.column t

/-- The atom that ends if the text ends here. -/
def pending (st : Scanner) : List Token := st.mode.ending st.line

def nextLine (st : Scanner) : Scanner := ⟨.gap, st.line + 1, 1⟩

def next (st : Scanner) (mode : Mode) : Scanner := ⟨mode, st.line, st.column + 1⟩

/-- After one more code point: the tokens that have ended with it or before it, and where it leads. -/
def step (st : Scanner) (c : CodePoint) : List Token × Scanner :=
  match st.mode with
  | .comment => ([], if c == '\n' then st.nextLine else st.next .comment)
  | mode =>
    if isAtomChar c then ([], st.next (mode.extend st.column c))
    else if c == '\n' then (st.pending, st.nextLine)
    else if c == ';' then (st.pending, st.next .comment)
    else (st.pending ++ punctuation st.line st.column c, st.next .gap)

/-- The tokens that have ended within a piece of text. -/
def ended (st : Scanner) : Text → List Token
  | [] => []
  | c :: cs => (st.step c).1 ++ (st.step c).2.ended cs

def after (st : Scanner) : Text → Scanner
  | [] => st
  | c :: cs => (st.step c).2.after cs

theorem scan_nil (st : Scanner) : st.scan [] = st.pending := by
  unfold scan
  rw [Token.scan.eq_def]
  rfl

theorem scan_cons (st : Scanner) (c : CodePoint) (cs : Text) :
    st.scan (c :: cs) = (st.step c).1 ++ (st.step c).2.scan cs := by
  obtain ⟨mode, line, column⟩ := st
  unfold scan
  rw [Token.scan.eq_def]
  cases mode with
  | comment =>
    by_cases hline : (c == '\n') = true
    · simp only [step, hline, if_true, nextLine, List.nil_append]
    · simp only [step, hline, if_false, Bool.false_eq_true, next, List.nil_append]
  | gap | atom =>
    by_cases hatom : isAtomChar c = true
    · simp only [step, hatom, if_true, next, List.nil_append]
    by_cases hline : (c == '\n') = true
    · simp only [step, hatom, hline, if_true, if_false, Bool.false_eq_true, nextLine, pending]
    by_cases hcomment : (c == ';') = true
    · simp only [step, hatom, hline, hcomment, if_true, if_false, Bool.false_eq_true, next, pending]
    · simp only [step, hatom, hline, hcomment, if_false, Bool.false_eq_true, next, pending]

/-- Scanning can be interrupted anywhere. -/
theorem scan_append (st : Scanner) (s t : Text) :
    st.scan (s ++ t) = st.ended s ++ (st.after s).scan t := by
  induction s generalizing st with
  | nil => rfl
  | cons c cs ih => rw [List.cons_append, scan_cons, ih, ended, after, List.append_assoc]

/-- A new line ends an atom as well as a comment. -/
theorem scan_newline (st : Scanner) (t : Text) :
    st.scan (.char '\n' :: t) = st.pending ++ st.nextLine.scan t := by
  rw [scan_cons]
  obtain ⟨mode, line, column⟩ := st
  cases mode <;> rfl

theorem scan_space (line column : Nat) (rest : Text) :
    scan ⟨.gap, line, column⟩ (.char ' ' :: rest) = scan ⟨.gap, line, column + 1⟩ rest := by
  rw [scan_cons]
  rfl

theorem scan_opening (line column : Nat) (rest : Text) :
    scan ⟨.gap, line, column⟩ (.char '(' :: rest) =
      ⟨.lparen, "(", line, column⟩ :: scan ⟨.gap, line, column + 1⟩ rest := by
  rw [scan_cons]
  rfl

theorem scan_closing (line column : Nat) (rest : Text) :
    scan ⟨.gap, line, column⟩ (.char ')' :: rest) =
      ⟨.rparen, ")", line, column⟩ :: scan ⟨.gap, line, column + 1⟩ rest := by
  rw [scan_cons]
  rfl

theorem scan_quote (line column : Nat) (rest : Text) :
    scan ⟨.gap, line, column⟩ (.char '\'' :: rest) =
      ⟨.quote, "'", line, column⟩ :: scan ⟨.gap, line, column + 1⟩ rest := by
  rw [scan_cons]
  rfl

end Scanner

theorem lex_eq_scan (source : Text) : lex source = Scanner.start.scan source := rfl

/-- The tokens of a text are those that have ended within it, and the atom it ends in, if it does. -/
theorem lex_eq_ended_append (s : Text) :
    lex s = Scanner.start.ended s ++ (Scanner.start.after s).pending := by
  have h := Scanner.start.scan_append s []
  rw [List.append_nil, Scanner.scan_nil] at h
  exact h

/-- A token that is no atom is spelled by its own character. -/
def Spelled (t : Token) : Prop := t.kind ≠ .atom → t.text = "(" ∨ t.text = ")" ∨ t.text = "'"

theorem Scanner.spelled_of_mem_pending {st : Scanner} {t : Token} (h : t ∈ st.pending) :
    t.Spelled := by
  obtain ⟨mode, line, column⟩ := st
  cases mode with
  | gap | comment => cases h
  | atom start reversed =>
    obtain rfl := List.mem_singleton.mp h
    exact fun hkind => absurd rfl hkind

theorem spelled_of_mem_punctuation {line column : Nat} {c : CodePoint} {t : Token}
    (h : t ∈ punctuation line column c) : t.Spelled := by
  intro _
  unfold punctuation at h
  split at h
  · obtain rfl := List.mem_singleton.mp h
    exact .inl rfl
  split at h
  · obtain rfl := List.mem_singleton.mp h
    exact .inr (.inl rfl)
  split at h
  · obtain rfl := List.mem_singleton.mp h
    exact .inr (.inr rfl)
  · cases h

theorem Scanner.spelled_of_mem_step {st : Scanner} {c : CodePoint} {t : Token}
    (h : t ∈ (st.step c).1) : t.Spelled := by
  unfold step at h
  split at h
  · cases h
  split at h
  · cases h
  split at h
  · exact spelled_of_mem_pending h
  split at h
  · exact spelled_of_mem_pending h
  · rcases List.mem_append.mp h with h | h
    · exact spelled_of_mem_pending h
    · exact spelled_of_mem_punctuation h

theorem Scanner.spelled_of_mem_scan {st : Scanner} {source : Text} {t : Token}
    (h : t ∈ st.scan source) : t.Spelled := by
  induction source generalizing st with
  | nil =>
    rw [scan_nil] at h
    exact spelled_of_mem_pending h
  | cons c cs ih =>
    rw [scan_cons] at h
    rcases List.mem_append.mp h with h | h
    · exact spelled_of_mem_step h
    · exact ih h

theorem spelled_of_mem_lex {source : Text} {t : Token} (h : t ∈ lex source) : t.Spelled := by
  rw [lex_eq_scan] at h
  exact Scanner.spelled_of_mem_scan h

/-- A text on the next line adds its tokens to those of the text before it. -/
theorem lex_append_newline (s t : Text) :
    lex (s ++ .char '\n' :: t) = lex s ++ (Scanner.start.after s).nextLine.scan t := by
  rw [lex_eq_scan, Scanner.scan_append, Scanner.scan_newline, lex_eq_ended_append,
    List.append_assoc]

end Token
end SmallLisp
