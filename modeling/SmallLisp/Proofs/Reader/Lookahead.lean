import SmallLisp.Reader.Cursor
import SmallLisp.Reader.Lookahead

/-!
Looking at a token changes nothing that is read.

A `Lookahead` stands for the `Cursor` in front of the tokens that it has not used, whether one of them is
held back or not (`Lookahead.cursor`).  The two answer every call alike and stay in step
(`Lookahead.step_cursor`).  A cursor does not move when it is asked for the next token, so the peeks
among any calls can be left out.  The tokens that the calls use are the first ones of the text, also when
a call ends in an error (`Lookahead.taken_append_tokens`).
-/

namespace SmallLisp
namespace Reader

/-! ## Calls -/

/-- What can be asked for while a text is read piece by piece. -/
inductive Call where
  | peek
  | advance
  | form
  | next
  deriving DecidableEq

inductive Answer where
  | token (t : Option Token)
  | form (result : Except SyntaxError (Option Value))

section

variable {σ τ : Type} (step : σ → Call → Answer × σ) (step' : τ → Call → Answer × τ)

/-- Some calls, one after the other, each with its answer. -/
def trace (s : σ) : List Call → List (Call × Answer)
  | [] => []
  | call :: calls => (call, (step s call).1) :: trace (step s call).2 calls

/-- Where some calls lead to. -/
def after (s : σ) : List Call → σ
  | [] => s
  | call :: calls => after (step s call).2 calls

variable {step step'}

/-- If `f` relates two states that answer every call alike, and relates where the call leads to, then any
number of calls are answered alike. -/
theorem trace_of_step {f : σ → τ}
    (h : ∀ s call, step' (f s) call = ((step s call).1, f (step s call).2)) (calls : List Call)
    (s : σ) :
    trace step s calls = trace step' (f s) calls ∧
      f (after step s calls) = after step' (f s) calls := by
  induction calls generalizing s with
  | nil => exact ⟨rfl, rfl⟩
  | cons call calls ih =>
    simp only [trace, after, h]
    exact ⟨congrArg _ (ih _).1, (ih _).2⟩

end

end Reader

open Reader (Call Answer trace after)

namespace Cursor

def step (c : Cursor) : Call → Answer × Cursor
  | .peek => (.token c.peek, c)
  | .advance => (.token c.advance.1, c.advance.2)
  | .form => (.form c.form.1, c.form.2)
  | .next => (.form c.next.1, c.next.2)

theorem trace_filter (c : Cursor) (calls : List Call) :
    (trace step c calls).filter (fun entry => entry.1 ≠ .peek) =
      trace step c (calls.filter fun call => call ≠ .peek) := by
  induction calls generalizing c with
  | nil => rfl
  | cons call calls ih =>
    by_cases hcall : call = .peek
    · subst hcall
      exact ih c
    · have hkept : decide (call ≠ .peek) = true := decide_eq_true hcall
      simp only [trace, List.filter_cons, hkept, if_true, ih]

theorem after_peeks (c : Cursor) (n : Nat) : after step c (List.replicate n .peek) = c := by
  induction n with
  | zero => rfl
  | succ n ih => exact ih

end Cursor

namespace Lookahead

def step (a : Lookahead) : Call → Answer × Lookahead
  | .peek => (.token a.peek.1, a.peek.2)
  | .advance => (.token a.advance.1, a.advance.2)
  | .form => (.form a.form.1, a.form.2)
  | .next => (.form a.next.1, a.next.2)

/-- The tokens that reading one form uses, in order. -/
def formTokens (stack : List Reader.Opened) (a : Lookahead) : List Token :=
  match _ : a.advance with
  | (none, _) => []
  | (some t, b) =>
    t :: match Reader.feed stack t with
      | .more stack => formTokens stack b
      | .done _ | .failed _ => []
termination_by a.tokens.length
decreasing_by exact length_lt_of_advance ‹_›

/-- The tokens that a call uses, in order. -/
def used (a : Lookahead) : Call → List Token
  | .peek => []
  | .advance => a.advance.1.toList
  | .form => a.formTokens []
  | .next => if a.ended then [] else a.formTokens []

def taken (a : Lookahead) : List Call → List Token
  | [] => []
  | call :: calls => a.used call ++ (a.step call).2.taken calls

/-! ## The cursor that stands before the tokens not used -/

def cursor (a : Lookahead) : Cursor := ⟨a.tokens, a.ended⟩

theorem peek_cursor (a : Lookahead) : a.cursor.peek = a.peek.1 ∧ a.peek.2.cursor = a.cursor := by
  obtain ⟨held, coming, ended⟩ := a
  cases held with
  | some t => exact ⟨rfl, rfl⟩
  | none => cases coming <;> exact ⟨rfl, rfl⟩

theorem advance_cursor (a : Lookahead) : a.cursor.advance = (a.advance.1, a.advance.2.cursor) := by
  obtain ⟨held, coming, ended⟩ := a
  cases held with
  | some t => rfl
  | none => cases coming <;> rfl

/-- Reading a form token by token is reading it from the tokens not used. -/
theorem formFrom_eq (stack : List Reader.Opened) (a : Lookahead) :
    (a.formFrom stack).1 = (Reader.readOne stack a.tokens).1 ∧
      (a.formFrom stack).2.tokens = (Reader.readOne stack a.tokens).2 ∧
      (a.formFrom stack).2.ended = a.ended := by
  fun_induction formFrom stack a with
  | case1 stack a b h hend =>
    obtain ⟨htokens, rfl⟩ := tokens_of_advance_eq_none h
    simp [htokens, Reader.readOne, hend]
  | case2 stack a b h e hend =>
    obtain ⟨htokens, rfl⟩ := tokens_of_advance_eq_none h
    simp [htokens, Reader.readOne, hend]
  | case3 stack a t b h stack' hfeed ih =>
    obtain ⟨htokens, hended⟩ := tokens_of_advance_eq_some h
    simpa [htokens, Reader.readOne, hfeed, hended] using ih
  | case4 stack a t b h form hfeed =>
    obtain ⟨htokens, hended⟩ := tokens_of_advance_eq_some h
    simp [htokens, Reader.readOne, hfeed, hended]
  | case5 stack a t b h e hfeed =>
    obtain ⟨htokens, hended⟩ := tokens_of_advance_eq_some h
    simp [htokens, Reader.readOne, hfeed, hended]

theorem form_cursor (a : Lookahead) : a.cursor.form = (a.form.1, a.form.2.cursor) := by
  obtain ⟨hresult, htokens, hended⟩ := formFrom_eq [] a
  simp only [Cursor.form, cursor, form, hresult, htokens, hended]

theorem next_cursor (a : Lookahead) : a.cursor.next = (a.next.1, a.next.2.cursor) := by
  have hended : a.cursor.ended = a.ended := rfl
  rw [Cursor.next, next, hended, form_cursor]
  by_cases h : a.ended = true
  · rw [if_pos h, if_pos h]
  · rw [if_neg h, if_neg h]
    -- The sequence goes on after a form, and ends at anything else.
    obtain ⟨result, b⟩ := a.form
    match result with
    | .ok (some form) => rfl
    | .ok none => rfl
    | .error e => rfl

/-- Every call is answered as the cursor answers it, and leads to where the cursor goes. -/
theorem step_cursor (a : Lookahead) (call : Call) :
    a.cursor.step call = ((a.step call).1, (a.step call).2.cursor) := by
  cases call with
  | peek =>
    obtain ⟨hanswer, hplace⟩ := peek_cursor a
    simp only [Cursor.step, step, hanswer, hplace]
  | advance => simp only [Cursor.step, step, advance_cursor]
  | form => simp only [Cursor.step, step, form_cursor]
  | next => simp only [Cursor.step, step, next_cursor]

theorem trace_eq (a : Lookahead) (calls : List Call) :
    trace step a calls = trace Cursor.step a.cursor calls :=
  (Reader.trace_of_step step_cursor calls a).1

theorem after_cursor (a : Lookahead) (calls : List Call) :
    (after step a calls).cursor = after Cursor.step a.cursor calls :=
  (Reader.trace_of_step step_cursor calls a).2

/-! ## The tokens that are used -/

theorem formTokens_of_none {a b : Lookahead} (h : a.advance = (none, b))
    (stack : List Reader.Opened) : a.formTokens stack = [] := by
  rw [formTokens]
  split
  next => rfl
  next heq => rw [h] at heq; cases heq

theorem formTokens_of_some {a b : Lookahead} {t : Token} (h : a.advance = (some t, b))
    (stack : List Reader.Opened) :
    a.formTokens stack = t :: match Reader.feed stack t with
      | .more stack => b.formTokens stack
      | .done _ | .failed _ => [] := by
  rw [formTokens]
  split
  next heq => rw [h] at heq; cases heq
  next heq => rw [h] at heq; cases heq; rfl

/-- Reading a form uses the tokens that it is read from and no others, and leaves the rest. -/
theorem formTokens_spec (stack : List Reader.Opened) (a : Lookahead) :
    Reader.readOne stack (a.formTokens stack) = ((a.formFrom stack).1, []) ∧
      a.formTokens stack ++ (a.formFrom stack).2.tokens = a.tokens := by
  fun_induction formFrom stack a with
  | case1 stack a b h hend =>
    obtain ⟨htokens, rfl⟩ := tokens_of_advance_eq_none h
    rw [formTokens_of_none h]
    simp [Reader.readOne, hend]
  | case2 stack a b h e hend =>
    obtain ⟨htokens, rfl⟩ := tokens_of_advance_eq_none h
    rw [formTokens_of_none h]
    simp [Reader.readOne, hend]
  | case3 stack a t b h stack' hfeed ih =>
    have htokens := (tokens_of_advance_eq_some h).1
    rw [formTokens_of_some h]
    simpa [Reader.readOne, hfeed, htokens] using ih
  | case4 stack a t b h form hfeed =>
    have htokens := (tokens_of_advance_eq_some h).1
    rw [formTokens_of_some h]
    simp [Reader.readOne, hfeed, htokens]
  | case5 stack a t b h e hfeed =>
    have htokens := (tokens_of_advance_eq_some h).1
    rw [formTokens_of_some h]
    simp [Reader.readOne, hfeed, htokens]

theorem next_of_ended {a : Lookahead} (h : a.ended = true) : a.next = (.ok none, a) := by
  rw [next, if_pos h]

theorem next_of_not_ended {a : Lookahead} (h : a.ended = false) :
    a.next.1 = a.form.1 ∧ a.next.2.tokens = a.form.2.tokens := by
  rw [next, if_neg (Bool.eq_false_iff.mp h)]
  obtain ⟨result, b⟩ := a.form
  match result with
  | .ok (some form) => exact ⟨rfl, rfl⟩
  | .ok none => exact ⟨rfl, rfl⟩
  | .error e => exact ⟨rfl, rfl⟩

/-- What a call uses and what it leaves are the tokens that there were. -/
theorem used_append_tokens (a : Lookahead) (call : Call) :
    a.used call ++ (a.step call).2.tokens = a.tokens := by
  cases call with
  | peek => exact congrArg Cursor.remaining (peek_cursor a).2
  | advance =>
    show a.advance.1.toList ++ a.advance.2.tokens = a.tokens
    rcases h : a.advance with ⟨token, b⟩
    cases token with
    | none =>
      obtain ⟨_, rfl⟩ := tokens_of_advance_eq_none h
      rfl
    | some t => exact (tokens_of_advance_eq_some h).1.symm
  | form => exact (formTokens_spec [] a).2
  | next =>
    show (if a.ended then [] else a.formTokens []) ++ a.next.2.tokens = a.tokens
    cases h : a.ended with
    | true =>
      rw [if_pos rfl, next_of_ended h]
      rfl
    | false =>
      rw [if_neg Bool.false_ne_true, (next_of_not_ended h).2]
      exact (formTokens_spec [] a).2

/-- The answer to a call that reads a form is made of the tokens that the call uses, all of them. -/
theorem readOne_used (a : Lookahead) :
    Reader.readOne [] (a.used .form) = (a.form.1, []) ∧
      Reader.readOne [] (a.used .next) = (a.next.1, []) := by
  have hform : Reader.readOne [] (a.used .form) = (a.form.1, []) := (formTokens_spec [] a).1
  refine ⟨hform, ?_⟩
  cases h : a.ended with
  | true =>
    rw [used, if_pos h, next_of_ended h]
    rfl
  | false =>
    rw [used, if_neg (Bool.eq_false_iff.mp h), (next_of_not_ended h).1]
    exact hform

/-- The tokens that some calls have used, in order, and those that they have left are the tokens that
there were. -/
theorem taken_append_tokens (a : Lookahead) (calls : List Call) :
    a.taken calls ++ (after step a calls).tokens = a.tokens := by
  induction calls generalizing a with
  | nil => rfl
  | cons call calls ih => rw [taken, after, List.append_assoc, ih, used_append_tokens]

/-- The next token, looked at any number of times, is the one that is used next. -/
theorem peek_after_peeks (a : Lookahead) (n : Nat) :
    (after step a (List.replicate n .peek)).peek.1 = a.advance.1 := by
  rw [← (peek_cursor _).1, after_cursor, Cursor.after_peeks]
  exact congrArg Prod.fst (advance_cursor a)

theorem peek_eq_none_iff (a : Lookahead) : a.peek.1 = none ↔ a.tokens = [] := by
  rw [← (peek_cursor a).1]
  exact List.head?_eq_none_iff

/-- Whatever the order of the calls, a text is read as by a cursor: without the peeks the other calls are
answered as they are with them; however often one looks, one sees the token that is used next, or
nothing if every token has been used; and the tokens that the calls use, those that end in an error too,
are the first ones of the text, each once and in order. -/
theorem calls_read_in_order (source : Text) (calls : List Call) :
    let a := ofSource source
    let b := after step a calls
    trace step a calls = trace Cursor.step (Cursor.ofSource source) calls ∧
      (trace step a calls).filter (fun entry => entry.1 ≠ .peek) =
        trace step a (calls.filter fun call => call ≠ .peek) ∧
      (∀ n, (after step b (List.replicate n .peek)).peek.1 = b.advance.1) ∧
      (b.peek.1 = none ↔ a.taken calls = lex source) ∧
      a.taken calls ++ b.tokens = lex source ∧
      Reader.readOne [] (b.used .form) = (b.form.1, []) ∧
      Reader.readOne [] (b.used .next) = (b.next.1, []) := by
  intro a b
  have hcursor : a.cursor = Cursor.ofSource source := rfl
  have htaken : a.taken calls ++ b.tokens = lex source := taken_append_tokens a calls
  have hfilter : (trace step a calls).filter (fun entry => entry.1 ≠ .peek) =
      trace step a (calls.filter fun call => call ≠ .peek) := by
    rw [trace_eq, trace_eq, Cursor.trace_filter]
  have hend : b.peek.1 = none ↔ a.taken calls = lex source := by
    rw [peek_eq_none_iff, ← htaken, List.self_eq_append_right]
  exact ⟨hcursor ▸ trace_eq a calls, hfilter, peek_after_peeks b, hend, htaken, readOne_used b⟩

end Lookahead
end SmallLisp
