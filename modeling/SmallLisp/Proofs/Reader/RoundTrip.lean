import SmallLisp.Proofs.Number.Decimal
import SmallLisp.Proofs.Reader.Readable
import SmallLisp.Value.Equality
import SmallLisp.Value.Printer

/-!
Reading what has been printed.

The text of a readable value is scanned to the tokens of a derivation of that value, whatever follows
the text, as long as it does not lengthen the last atom (`scan_render`).  A number that is zero comes
back with a plus sign, since its text has none, and nothing else changes.
-/

namespace SmallLisp

namespace Token

/-- A text before which an atom ends. -/
def Delimited (t : Text) : Prop := ∀ c ∈ t.head?, isAtomChar c = false

instance (t : Text) : Decidable (Delimited t) :=
  inferInstanceAs (Decidable (∀ c ∈ t.head?, isAtomChar c = false))

theorem delimited_nil : Delimited [] := nofun

theorem delimited_cons {c : CodePoint} (h : isAtomChar c = false) (t : Text) :
    Delimited (c :: t) := by
  rintro d ⟨⟩
  exact h

namespace Scanner

theorem step_atomChar (mode : Mode) (hmode : mode ≠ .comment) {c : CodePoint}
    (hc : isAtomChar c = true) (line column : Nat) :
    step ⟨mode, line, column⟩ c = ([], ⟨mode.extend column c, line, column + 1⟩) := by
  cases mode with
  | comment => exact absurd rfl hmode
  | gap | atom => exact if_pos hc

theorem scan_gather {t : Text} (ht : ∀ c ∈ t, isAtomChar c = true) (start line column : Nat)
    (reversed rest : Text) :
    scan ⟨.atom start reversed, line, column⟩ (t ++ rest) =
      scan ⟨.atom start (t.reverse ++ reversed), line, column + t.length⟩ rest := by
  induction t generalizing reversed column with
  | nil => rfl
  | cons c cs ih =>
    obtain ⟨hc, hcs⟩ := List.forall_mem_cons.mp ht
    rw [List.cons_append, scan_cons, step_atomChar (.atom start reversed) nofun hc]
    show scan ⟨.atom start (c :: reversed), line, column + 1⟩ (cs ++ rest) = _
    rw [ih hcs, List.reverse_cons, List.append_assoc, List.length_cons, Nat.add_assoc,
      Nat.add_comm 1]
    rfl

/-- An atom ends before a text that does not lengthen it. -/
theorem scan_delimited {rest : Text} (hrest : Delimited rest) (start line column : Nat)
    (reversed : Text) :
    scan ⟨.atom start reversed, line, column⟩ rest =
      ⟨.atom, reversed.reverse, line, start⟩ :: scan ⟨.gap, line, column⟩ rest := by
  cases rest with
  | nil =>
    rw [scan_nil, scan_nil]
    rfl
  | cons c cs =>
    have hc := hrest c rfl
    rw [scan_cons, scan_cons]
    simp only [step, hc, Bool.false_eq_true, if_false]
    split
    · rfl
    split
    · rfl
    · rfl

theorem scan_atom {t rest : Text} (ht : IsAtom t) (hrest : Delimited rest) (line column : Nat) :
    scan ⟨.gap, line, column⟩ (t ++ rest) =
      ⟨.atom, t, line, column⟩ :: scan ⟨.gap, line, column + t.length⟩ rest := by
  obtain ⟨hne, hatom⟩ := ht
  cases t with
  | nil => exact absurd rfl hne
  | cons c cs =>
    obtain ⟨hc, hcs⟩ := List.forall_mem_cons.mp hatom
    rw [List.cons_append, scan_cons, step_atomChar .gap nofun hc]
    show scan ⟨.atom column [c], line, column + 1⟩ (cs ++ rest) = _
    rw [scan_gather hcs, scan_delimited hrest, List.reverse_append, List.reverse_reverse,
      List.length_cons, Nat.add_assoc, Nat.add_comm 1]
    rfl

end Scanner
end Token
namespace Value

open Token SmallLisp.Derivation

mutual

def withPositiveZeros : Value → Value
  | .number x => .number x.withPositiveZero
  | .list items => .list (withPositiveZerosAll items)
  | v => v

def withPositiveZerosAll : List Value → List Value
  | [] => []
  | v :: vs => v.withPositiveZeros :: withPositiveZerosAll vs

end

mutual

theorem same_withPositiveZeros {v : Value} (h : v.Readable) : v.same v.withPositiveZeros = true := by
  cases v with
  | number x => exact Binary64.same_withPositiveZero h
  | symbol name => exact beq_self_eq_true name
  | list items => exact sameAll_withPositiveZerosAll h
  | bool | closure | builtin | unspecified => exact absurd h id

theorem sameAll_withPositiveZerosAll {vs : List Value} (h : ReadableAll vs) :
    sameAll vs (withPositiveZerosAll vs) = true := by
  cases vs with
  | nil => rfl
  | cons v vs =>
    rw [withPositiveZerosAll, sameAll, same_withPositiveZeros h.1, sameAll_withPositiveZerosAll h.2]
    rfl

end

mutual

theorem render_withPositiveZeros (v : Value) : v.withPositiveZeros.render = v.render := by
  cases v with
  | number x => exact Binary64.render_withPositiveZero x
  | list items => rw [withPositiveZeros, render, render, renderAll_withPositiveZerosAll items]
  | bool | symbol | closure | builtin | unspecified => rfl

theorem renderAll_withPositiveZerosAll (vs : List Value) :
    renderAll (withPositiveZerosAll vs) = renderAll vs := by
  cases vs with
  | nil => rfl
  | cons v vs =>
    rw [withPositiveZerosAll, renderAll, renderAll, render_withPositiveZeros v,
      renderAll_withPositiveZerosAll vs]

end

theorem ofAtom_render {x : Binary64} (hx : x ≠ .nan) :
    ofAtom x.render = .number x.withPositiveZero := by
  rw [ofAtom, Binary64.read?_render hx]

theorem ofAtom_symbol {name : Text} (h : Binary64.read? name = none) :
    ofAtom name = .symbol name := by
  rw [ofAtom, h]

/-- The tokens of an atom that stands for `v` are those of a derivation of `v`. -/
theorem scan_ofAtom {t rest : Text} {v : Value} (ht : IsAtom t) (hv : ofAtom t = v)
    (hrest : Delimited rest) (line column : Nat) :
    ∃ d : Derivation, d.value = v ∧ ∃ column', Scanner.scan ⟨.gap, line, column⟩ (t ++ rest) =
      d.tokens ++ Scanner.scan ⟨.gap, line, column'⟩ rest :=
  ⟨.atom ⟨.atom, t, line, column⟩ rfl, hv, _, Scanner.scan_atom ht hrest line column⟩

mutual

/-- The text of a readable value is scanned to a derivation of the value. -/
theorem scan_render {v : Value} (h : v.Readable) {rest : Text} (hrest : Delimited rest)
    (line column : Nat) :
    ∃ d : Derivation, d.value = v.withPositiveZeros ∧ ∃ column',
      Scanner.scan ⟨.gap, line, column⟩ (v.render ++ rest) =
        d.tokens ++ Scanner.scan ⟨.gap, line, column'⟩ rest := by
  cases v with
  | number x =>
    exact scan_ofAtom (isAtom_of_read? (Binary64.read?_render h)) (ofAtom_render h) hrest line column
  | symbol name => exact scan_ofAtom h.1 (ofAtom_symbol h.2) hrest line column
  | list items =>
    have htext : render (.list items) ++ rest =
        .char '(' :: (Text.join " " (renderAll items) ++ .char ')' :: rest) := by
      rw [render, List.append_assoc, List.append_assoc]
      rfl
    obtain ⟨ds, hds, column', hscan⟩ :=
      scan_renderAll h (delimited_cons (c := ')') (by decide) rest) line (column + 1)
    refine ⟨.group ⟨.lparen, "(", line, column⟩ ⟨.rparen, ")", line, column'⟩ rfl rfl ds, ?_, ?_⟩
    · rw [value, hds, withPositiveZeros]
    · refine ⟨column' + 1, ?_⟩
      rw [htext, Scanner.scan_opening, hscan, Scanner.scan_closing, tokens, List.cons_append,
        List.append_assoc]
      rfl
  | bool | closure | builtin | unspecified => exact absurd h id

theorem scan_renderAll {vs : List Value} (h : ReadableAll vs) {rest : Text}
    (hrest : Delimited rest) (line column : Nat) :
    ∃ ds, valueAll ds = withPositiveZerosAll vs ∧ ∃ column',
      Scanner.scan ⟨.gap, line, column⟩ (Text.join " " (renderAll vs) ++ rest) =
        tokensAll ds ++ Scanner.scan ⟨.gap, line, column'⟩ rest := by
  match vs, h with
  | [], _ => exact ⟨[], rfl, column, rfl⟩
  | [v], h =>
    obtain ⟨d, hd, column', hscan⟩ := scan_render h.1 hrest line column
    refine ⟨[d], by rw [valueAll, hd]; rfl, column', ?_⟩
    rw [tokensAll, tokensAll, List.append_nil]
    exact hscan
  | v :: w :: ws, h =>
    have htext : Text.join " " (renderAll (v :: w :: ws)) ++ rest =
        v.render ++ .char ' ' :: (Text.join " " (renderAll (w :: ws)) ++ rest) := by
      rw [renderAll, renderAll, Text.join, List.append_assoc, List.append_assoc]
      · rfl
      · exact nofun
    obtain ⟨d, hd, column₁, hfirst⟩ :=
      scan_render h.1 (delimited_cons (c := ' ') (by decide) _) line column
    obtain ⟨ds, hds, column₂, hothers⟩ := scan_renderAll h.2 hrest line (column₁ + 1)
    refine ⟨d :: ds, by rw [valueAll, hd, hds]; rfl, column₂, ?_⟩
    rw [htext, hfirst, Scanner.scan_space, hothers, tokensAll, List.append_assoc]

end

end Value

theorem read_render {v : Value} (h : v.Readable) :
    read v.render = ⟨[v.withPositiveZeros], none⟩ := by
  obtain ⟨d, hd, column, hscan⟩ := Value.scan_render h Token.delimited_nil 1 1
  have hlex : lex v.render = Derivation.tokensAll [d] := by
    rw [List.append_nil, Token.Scanner.scan_nil] at hscan
    rw [Derivation.tokensAll, Derivation.tokensAll]
    exact hscan
  rw [read, hlex, Reader.readAll_program, Derivation.valueAll, hd]
  rfl

/-- A form that was read is read again from its own text: as the one form of that text, with the same
lists, the same names and equal numbers, only that zeros lose a minus sign.  It is then printed as it
was before. -/
theorem read_render_of_mem_forms {source : Text} {form : Value} (h : form ∈ (read source).forms) :
    read form.render = ⟨[form.withPositiveZeros], none⟩ ∧
      form.same form.withPositiveZeros = true ∧
      form.withPositiveZeros.render = form.render := by
  have hreadable := readable_of_mem_forms h
  refine ⟨read_render hreadable, Value.same_withPositiveZeros hreadable, ?_⟩
  exact Value.render_withPositiveZeros form

def quotedZero : Value := .list [.symbol "quote", .list [.symbol "a", .number (.zero true)]]

theorem read_render_of_mem_forms_quotedZero :
    quotedZero ∈ (read "'(a -0.0) )").forms ∧ quotedZero.render = "(quote (a 0))" ∧
      read "(quote (a 0))" = ⟨[quotedZero.withPositiveZeros], none⟩ := by
  have hmem : quotedZero ∈ (read "'(a -0.0) )").forms := List.mem_singleton_self quotedZero
  have hrender : quotedZero.render = "(quote (a 0))" := by decide +kernel
  have hread := (read_render_of_mem_forms hmem).1
  rw [hrender] at hread
  exact ⟨hmem, hrender, hread⟩

end SmallLisp
