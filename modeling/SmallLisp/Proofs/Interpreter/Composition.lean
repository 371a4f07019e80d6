import SmallLisp.Interpreter
import SmallLisp.Proofs.Eval.Effect
import SmallLisp.Proofs.Reader.Lines

/-!
Running a text in two parts.

A text is read before and while it is run, but the forms of a text that does not end inside a form are
those of its lines so far and those of the lines below (`read_append_newline`).  So running it is running
the first lines and then, if nothing has gone wrong, the others, where only the lines of a syntax error
are counted from another place (`Interpreter.eval_append_newline`).
-/

namespace SmallLisp

/-! ## Forms one after the other -/

section Forms

variable (ev : Evaluator) (frame : Nat) {last w : Value} {forms : List Value} {s t : State}

/-- The value that stands for no forms is seen only if there are none. -/
theorem evaluateForms_ok_of_last (h : evaluateForms ev frame last forms s = (.ok w, t)) (v : Value) :
    evaluateForms ev frame v forms s = (.ok (if forms.isEmpty then v else w), t) := by
  cases forms with
  | nil =>
    cases h
    rfl
  | cons e es => exact h

theorem evaluateForms_error_of_last {f : Fault}
    (h : evaluateForms ev frame last forms s = (.error f, t)) (v : Value) :
    evaluateForms ev frame v forms s = (.error f, t) := by
  cases forms with
  | nil => cases h
  | cons e es => exact h

variable {ev frame} {r : Reading}

theorem evaluateReading_of_error {f : Fault}
    (h : evaluateForms ev frame .unspecified r.forms s = (.error f, t)) :
    evaluateReading ev frame r s = (.error f, t) :=
  Run.bind_error h

theorem evaluateReading_of_ok (h : evaluateForms ev frame .unspecified r.forms s = (.ok w, t))
    (hr : r.error = none) : evaluateReading ev frame r s = (.ok w, t) := by
  rw [evaluateReading, Run.bind_ok h, hr]
  rfl

theorem evaluateReading_of_syntaxError
    (h : evaluateForms ev frame .unspecified r.forms s = (.ok w, t)) {e : SyntaxError}
    (hr : r.error = some e) :
    evaluateReading ev frame r s = (.error (.error (.syntaxError e)), t) := by
  rw [evaluateReading, Run.bind_ok h, hr]
  rfl

/-- A fault in what was read first is the fault of all that was read. -/
theorem evaluateReading_followedBy_of_error {f : Fault}
    (h : evaluateReading ev frame r s = (.error f, t)) (later : Reading) :
    evaluateReading ev frame (r.followedBy later) s = (.error f, t) := by
  cases hr : r.error with
  | some e =>
    rw [Reading.followedBy, hr]
    exact h
  | none =>
    rcases hforms : evaluateForms ev frame .unspecified r.forms s with ⟨result, u⟩
    cases result with
    | ok v =>
      have hok := (evaluateReading_of_ok hforms hr).symm.trans h
      cases hok
    | error f' =>
      have heq := (evaluateReading_of_error hforms).symm.trans h
      cases heq
      rw [Reading.followedBy, hr]
      refine evaluateReading_of_error ?_
      rw [evaluateForms_append, Run.bind_error hforms]

/-- After what was read first has a value, what was read next is run, from where that ended. -/
theorem evaluateForms_followedBy_of_ok {v : Value}
    (h : evaluateReading ev frame r s = (.ok v, t)) (later : Reading) :
    r.followedBy later = ⟨r.forms ++ later.forms, later.error⟩ ∧
      evaluateForms ev frame .unspecified (r.followedBy later).forms s =
        evaluateForms ev frame v later.forms t := by
  obtain ⟨v', t', hforms, hend⟩ := Run.eq_ok_of_bind_eq_ok h
  cases hr : r.error with
  | some e =>
    rw [hr] at hend
    cases hend
  | none =>
    rw [hr] at hend
    cases hend
    have hfollowed : r.followedBy later = ⟨r.forms ++ later.forms, later.error⟩ := by
      rw [Reading.followedBy, hr]
    refine ⟨hfollowed, ?_⟩
    rw [hfollowed, evaluateForms_append, Run.bind_ok hforms]

end Forms

/-! ## Texts one below the other -/

namespace Interpreter

theorem eval_append_eq (setup : Setup) (i : Interpreter) {s : Text} (h : needsMore s = false)
    (t : Text) :
    i.eval setup (s ++ "\n" ++ t) =
      evaluateReading setup.evaluator i.frame
        ((read s).followedBy ((read t).below (s.count (.char '\n') + 1))) := by
  have htext : s ++ "\n" ++ t = s ++ .char '\n' :: t := List.append_assoc s _ t
  rw [eval, htext, read_append_newline h]

/-- Running a text that does not end inside a form, and another one below it, is running the first and,
if that has a value, the second, down to the state that is left.  A fault of the first, or of a form of
the second, is the fault of both together; a syntax error of the second is found further down by the
lines of the first; and the value is that of the second, or that of the first if there are no forms in
the second. -/
theorem eval_append_newline (setup : Setup) (i : Interpreter) (s t : Text) (st : State)
    (h : needsMore s = false) :
    let whole := i.eval setup (s ++ "\n" ++ t) st
    (∀ f u, i.eval setup s st = (.error f, u) → whole = (.error f, u)) ∧
    (∀ v u, i.eval setup s st = (.ok v, u) →
      let forms := evaluateForms setup.evaluator i.frame .unspecified (read t).forms u
      (∀ f u', forms = (.error f, u') →
        i.eval setup t u = (.error f, u') ∧ whole = (.error f, u')) ∧
      (∀ w u', forms = (.ok w, u') → (read t).error = none →
        i.eval setup t u = (.ok w, u') ∧
          whole = (.ok (if (read t).forms.isEmpty then v else w), u')) ∧
      (∀ w u' e, forms = (.ok w, u') → (read t).error = some e →
        i.eval setup t u = (.error (.error (.syntaxError e)), u') ∧
          whole = (.error (.error (.syntaxError (e.below (s.count (.char '\n') + 1)))), u'))) := by
  intro whole
  have hwhole : whole = evaluateReading setup.evaluator i.frame
      ((read s).followedBy ((read t).below (s.count (.char '\n') + 1))) st :=
    congrFun (eval_append_eq setup i h t) st
  refine ⟨fun f u hs => hwhole.trans (evaluateReading_followedBy_of_error hs _), ?_⟩
  intro v u hs forms
  obtain ⟨hfollowed, hforms⟩ := evaluateForms_followedBy_of_ok hs
    ((read t).below (s.count (.char '\n') + 1))
  refine ⟨fun f u' ht => ?_, fun w u' ht hr => ?_, fun w u' e ht hr => ?_⟩
  · refine ⟨evaluateReading_of_error ht, hwhole.trans (evaluateReading_of_error ?_)⟩
    exact hforms.trans (evaluateForms_error_of_last _ _ ht v)
  · refine ⟨evaluateReading_of_ok ht hr, hwhole.trans (evaluateReading_of_ok ?_ ?_)⟩
    · exact hforms.trans (evaluateForms_ok_of_last _ _ ht v)
    · rw [hfollowed, Reading.below, hr]
      rfl
  · refine ⟨evaluateReading_of_syntaxError ht hr,
      hwhole.trans (evaluateReading_of_syntaxError (w := if (read t).forms.isEmpty then v else w)
        ?_ ?_)⟩
    · exact hforms.trans (evaluateForms_ok_of_last _ _ ht v)
    · rw [hfollowed, Reading.below, hr]
      rfl

/-- A definition and a comment on two lines, and below them the name and a parenthesis too many. -/
theorem eval_append_newline_commentBetween :
    let setup : Setup := ⟨⟨⟨[], []⟩, [], none, []⟩, 12, none⟩
    let st : State := ⟨⟨#[⟨[], none⟩], 0⟩, .start [], []⟩
    needsMore "(def x\n'a) ; )" = false ∧
      (eval setup ⟨0⟩ ("(def x\n'a) ; )" ++ "\n" ++ "x )") st).1 =
        .error (.error (.syntaxError ⟨"Unmatched ')'", some 3, some 3, false⟩)) := by
  intro setup st
  have hmore : needsMore "(def x\n'a) ; )" = false := by decide +kernel
  have hwhole := (eval_append_newline setup ⟨0⟩ "(def x\n'a) ; )" "x )" st hmore).2
  obtain ⟨v, hs⟩ := Run.exists_eq_ok (r := eval setup ⟨0⟩ "(def x\n'a) ; )" st) (by decide +kernel)
  obtain ⟨w, ht⟩ := Run.exists_eq_ok (r := evaluateForms setup.evaluator 0 .unspecified
    (read "x )").forms (eval setup ⟨0⟩ "(def x\n'a) ; )" st).2) (by decide +kernel)
  have herror : (read "x )").error = some ⟨"Unmatched ')'", some 1, some 3, false⟩ := by
    decide +kernel
  exact ⟨hmore, congrArg Prod.fst ((hwhole v _ hs).2.2 w _ _ ht herror).2⟩

end Interpreter
end SmallLisp
