import SmallLisp.Proofs.Eval.Subevaluation
import SmallLisp.Proofs.Reader.RoundTrip

/-!
A closure that is printed and read back.

The text of a closure is put together apart from that of lists, and yet it is the text of a form: of the
`λ` form that lists the formals and has the same body (`render_closure`).  If the closure comes from a form
that was read, the `λ` form is one that can be read too, since its formals and its body are parts of the
form.  So reading the text gives the `λ` form up to the signs of zeros in the body, and evaluating that
form makes a closure with the same formals.
-/

namespace SmallLisp
namespace Value

/-- The `λ` form with these formals and this body. -/
def lambdaForm (formals : List Text) (body : Value) : Value :=
  .list [.symbol "λ", .list (formals.map .symbol), body]

theorem renderAll_map_symbol (names : List Text) : renderAll (names.map .symbol) = names := by
  induction names with
  | nil => rfl
  | cons name names ih => rw [List.map_cons, renderAll, render, ih]

/-- A closure is printed as the form that makes it. -/
theorem render_closure (id : Nat) (formals : List Text) (body : Value) (home : Nat) :
    (closure id formals body home).render = (lambdaForm formals body).render := by
  have hopening : ("(λ (" : Text) = "(" ++ "λ" ++ " " ++ "(" := rfl
  have hmiddle : (") " : Text) = ")" ++ " " := rfl
  simp only [lambdaForm, render, renderAll, renderAll_map_symbol, Text.join, hopening, hmiddle,
    List.append_assoc]

theorem names?_map_symbol (names : List Text) : names? (names.map .symbol) = some names := by
  induction names with
  | nil => rfl
  | cons name names ih => rw [List.map_cons, names?, ih, Option.map_some]

theorem eq_map_symbol_of_names? {items : List Value} {names : List Text}
    (h : names? items = some names) : items = names.map .symbol := by
  induction items generalizing names with
  | nil =>
    cases h
    rfl
  | cons item rest ih =>
    cases item with
    | symbol name =>
      obtain ⟨others, hothers, rfl⟩ := Option.map_eq_some_iff.mp h
      rw [ih hothers, List.map_cons]
    | _ => cases h

/-- A part of a `lambda` form lists formals exactly if it is a list of their names. -/
theorem formals?_eq_some_iff {v : Value} {names : List Text} :
    v.formals? = some names ↔ v = .list (names.map .symbol) := by
  constructor
  · intro h
    cases v with
    | list items => rw [eq_map_symbol_of_names? h]
    | _ => cases h
  · intro h
    rw [h]
    exact names?_map_symbol names

theorem withPositiveZerosAll_map_symbol (names : List Text) :
    withPositiveZerosAll (names.map .symbol) = names.map .symbol := by
  induction names with
  | nil => rfl
  | cons name names ih =>
    rw [List.map_cons, withPositiveZerosAll, ih]
    rfl

theorem withPositiveZeros_lambdaForm (formals : List Text) (body : Value) :
    (lambdaForm formals body).withPositiveZeros = lambdaForm formals body.withPositiveZeros := by
  show list [symbol "λ", list (withPositiveZerosAll (formals.map .symbol)), body.withPositiveZeros] = _
  rw [withPositiveZerosAll_map_symbol]
  rfl

theorem readable_lambdaForm {formals : List Text} {body : Value}
    (hformals : ReadableAll (formals.map .symbol)) (hbody : body.Readable) :
    (lambdaForm formals body).Readable := by
  have hname : (symbol "λ").Readable := ⟨by decide +kernel, by decide +kernel⟩
  exact ⟨hname, hformals, hbody, trivial⟩

end Value

theorem evaluate_lambdaForm (host : Host) (n : Nat) (formals : List Text) (body : Value)
    (frame : Nat) (s : State) :
    evaluate host (n + 1) (Value.lambdaForm formals body) frame s =
      (.ok (.closure s.store.identities formals body frame),
        { s with store := s.store.newIdentity.2 }) := by
  have hhead : (Value.symbol "λ").specialForm? = some .lambda := by decide +kernel
  rw [Value.lambdaForm, evaluate_special host n hhead]
  show SpecialForm.runLambda frame (.list (formals.map .symbol)) body s = _
  rw [SpecialForm.runLambda, Value.formals?_eq_some_iff.mpr rfl]
  rfl

/-- If a `lambda` form has a value, its parts are a list of names and one body. -/
theorem evaluate_lambda_eq_ok {host : Host} {n frame : Nat} {head v : Value} {parts : List Value}
    {s t : State} (hhead : head.specialForm? = some .lambda)
    (h : evaluate host n (.list (head :: parts)) frame s = (.ok v, t)) :
    ∃ formals body, parts = [.list (formals.map .symbol), body] ∧
      v = .closure s.store.identities formals body frame := by
  cases n with
  | zero => cases h
  | succ n =>
    rw [evaluate_special host n hhead] at h
    match parts with
    | [formals, body] =>
      replace h : SpecialForm.runLambda frame formals body s = (.ok v, t) := h
      rw [SpecialForm.runLambda] at h
      cases hformals : formals.formals? with
      | none =>
        rw [hformals] at h
        cases h
      | some names =>
        rw [hformals] at h
        cases h
        exact ⟨names, body, by rw [Value.formals?_eq_some_iff.mp hformals], rfl⟩
    | [] | [_] | _ :: _ :: _ :: _ => cases h

/-- The closure that a form of a text makes is printed as one form, and in the frame of the closure that
form makes a closure again: with the same formals, and with a body that is the same. -/
theorem read_render_closure {source name : Text} {parts : List Value} {host : Host} {n frame : Nat}
    {s t : State} {f : Value} (hmem : .list (.symbol name :: parts) ∈ (read source).forms)
    (hname : name = "lambda" ∨ name = "λ")
    (heval : evaluate host n (.list (.symbol name :: parts)) frame s = (.ok f, t)) :
    ∃ id formals body form' body', f = .closure id formals body frame ∧
      read f.render = ⟨[form'], none⟩ ∧ body.same body' = true ∧
      ∀ host' n' s', evaluate host' (n' + 1) form' frame s' =
        (.ok (.closure s'.store.identities formals body' frame),
          { s' with store := s'.store.newIdentity.2 }) := by
  have hhead : (Value.symbol name).specialForm? = some .lambda := by
    rcases hname with rfl | rfl <;> decide +kernel
  obtain ⟨formals, body, rfl, rfl⟩ := evaluate_lambda_eq_ok hhead heval
  obtain ⟨_, hformals, hbody, _⟩ := readable_of_mem_forms hmem
  have hread := read_render (Value.readable_lambdaForm hformals hbody)
  rw [← Value.render_closure s.store.identities formals body frame,
    Value.withPositiveZeros_lambdaForm] at hread
  refine ⟨_, formals, body, _, body.withPositiveZeros, rfl, hread, ?_, ?_⟩
  · exact Value.same_withPositiveZeros hbody
  · intro host' n' s'
    exact evaluate_lambdaForm host' n' formals body.withPositiveZeros frame s'

theorem read_render_closure_repeatedFormal :
    let host : Host := ⟨⟨[], []⟩, [], none, []⟩
    let s : State := ⟨.empty, .start [], []⟩
    let form : Value := .list [.symbol "lambda", .list [.symbol "x", .symbol "x"], quotedZero]
    let f : Value := .closure 0 ["x", "x"] quotedZero 0
    form ∈ (read "(lambda (x x) '(a -0.0)) (").forms ∧ (evaluate host 1 form 0 s).1 = .ok f ∧
      ∃ form' body', read "(λ (x x) (quote (a 0)))" = ⟨[form'], none⟩ ∧
        quotedZero.same body' = true ∧
        (evaluate host 1 form' 0 s).1 = .ok (.closure 0 ["x", "x"] body' 0) := by
  intro host s form f
  have hmem : form ∈ (read "(lambda (x x) '(a -0.0)) (").forms := List.mem_singleton_self form
  have heval : evaluate host 1 form 0 s = (.ok f, { s with store := ⟨#[], 1⟩ }) := rfl
  have hrender : f.render = "(λ (x x) (quote (a 0)))" := by decide +kernel
  obtain ⟨id, formals, body, form', body', hf, hread, hsame, hagain⟩ :=
    read_render_closure hmem (.inl rfl) heval
  obtain ⟨rfl, rfl, rfl, -⟩ := Value.closure.inj hf
  rw [hrender] at hread
  refine ⟨hmem, rfl, form', body', hread, hsame, ?_⟩
  rw [hagain host 0 s]
  rfl

end SmallLisp
