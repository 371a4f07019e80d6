import SmallLisp.Proofs.Reader.Grammar

/-!
Reading tokens in pieces.

`progress` tells how far reading has come after some tokens: the forms that are finished, and the forms
that are open or the error that ended it.  Reading more tokens goes on from the open forms, and after an
error nothing more is read (`readAll_append`).
-/

namespace SmallLisp
namespace Reader

/-- How far reading has come: the finished forms, and the open ones unless there was an error. -/
structure Progress where
  forms : List Value
  status : Except SyntaxError (List Opened)

/-- How far reading comes with some tokens, starting with the open forms `stack`. -/
def progress (stack : List Opened) : List Token → Progress
  | [] => ⟨[], .ok stack⟩
  | t :: ts =>
    match feed stack t with
    | .more stack => progress stack ts
    | .done form => ⟨form :: (progress [] ts).forms, (progress [] ts).status⟩
    | .failed e => ⟨[], .error e⟩

namespace Progress

def finish (p : Progress) (ts : List Token) : Reading :=
  match p.status with
  | .ok stack => ⟨p.forms ++ (readAll stack ts).forms, (readAll stack ts).error⟩
  | .error e => ⟨p.forms, some e⟩

theorem finish_of_ok {p : Progress} {stack : List Opened} (h : p.status = .ok stack)
    (ts : List Token) :
    p.finish ts = ⟨p.forms ++ (readAll stack ts).forms, (readAll stack ts).error⟩ := by
  rw [finish, h]

theorem finish_of_error {p : Progress} {e : SyntaxError} (h : p.status = .error e)
    (ts : List Token) : p.finish ts = ⟨p.forms, some e⟩ := by
  rw [finish, h]

theorem finish_cons (form : Value) (p : Progress) (ts : List Token) :
    (⟨form :: p.forms, p.status⟩ : Progress).finish ts =
      ⟨form :: (p.finish ts).forms, (p.finish ts).error⟩ := by
  obtain ⟨forms, status⟩ := p
  cases status <;> rfl

end Progress

/-- Reading can be interrupted after any token. -/
theorem readAll_append (stack : List Opened) (ts us : List Token) :
    readAll stack (ts ++ us) = (progress stack ts).finish us := by
  induction ts generalizing stack with
  | nil => rfl
  | cons t ts ih =>
    rw [List.cons_append, readAll_cons, progress]
    cases feed stack t with
    | more stack => exact ih stack
    | done form =>
      rw [resume, ih]
      exact (Progress.finish_cons form (progress [] ts) us).symm
    | failed e => rfl

theorem deliver_ne_failed (v : Value) (stack : List Opened) (e : SyntaxError) :
    deliver v stack ≠ .failed e := by
  induction stack generalizing v with
  | nil =>
    intro h
    cases h
  | cons o rest ih =>
    rw [deliver]
    split
    · exact ih _
    · intro h
      cases h

/-- No further token can mend an error that a token leads to. -/
theorem incomplete_of_feed_eq_failed {stack : List Opened} {t : Token} {e : SyntaxError}
    (h : feed stack t = .failed e) : e.incomplete = false := by
  unfold feed at h
  split at h
  · cases h
  · cases h
  · cases stack with
    | nil =>
      cases h
      rfl
    | cons o rest =>
      rw [close] at h
      split at h
      · cases h
        rfl
      · exact absurd h (deliver_ne_failed _ _ _)
  · exact absurd h (deliver_ne_failed _ _ _)

theorem incomplete_of_progress {stack : List Opened} {ts : List Token} {e : SyntaxError}
    (h : (progress stack ts).status = .error e) : e.incomplete = false := by
  induction ts generalizing stack with
  | nil => cases h
  | cons t ts ih =>
    rw [progress] at h
    cases hstep : feed stack t with
    | more stack =>
      rw [hstep] at h
      exact ih h
    | done form =>
      rw [hstep] at h
      exact ih h
    | failed e' =>
      rw [hstep] at h
      cases h
      exact incomplete_of_feed_eq_failed hstep

/-- The end of the tokens is an error exactly if a form is open, and one that more tokens can mend. -/
theorem incomplete_of_endError {stack : List Opened} {e : SyntaxError} (h : endError stack = some e) :
    stack ≠ [] ∧ e.incomplete = true := by
  cases stack with
  | nil => cases h
  | cons o rest =>
    refine ⟨List.cons_ne_nil o rest, ?_⟩
    rw [endError] at h
    cases h
    split <;> rfl

end Reader
end SmallLisp
