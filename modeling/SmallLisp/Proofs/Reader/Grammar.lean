import SmallLisp.Reader.Form

/-!
The grammar of forms, and the reader as its parser.

A program is a sequence of expressions; an expression is an atom, a quote before an expression, or a
group of expressions between parentheses.  A `Derivation` is the tree of one expression with the
tokens it is made of, and `Derivation.value` is the form it stands for.

The reader has no recursion, only a list of open forms.  Reading the tokens of a derivation does to
that list what delivering its value does (`readAll_tokens`), and in the other direction every list of
open forms that the reader can reach is made of derivations that are finished and openers that are not
(`Pending`), so that whenever the reader is content the derivations can be put together.
-/

namespace SmallLisp

/-- The derivation of an expression, with its tokens. -/
inductive Derivation where
  | atom (t : Token) (isAtom : t.kind = .atom)
  | quoted (t : Token) (isQuote : t.kind = .quote) (e : Derivation)
  | group (opening closing : Token) (isOpening : opening.kind = .lparen)
    (isClosing : closing.kind = .rparen) (items : List Derivation)

namespace Derivation

mutual

def tokens : Derivation → List Token
  | .atom t _ => [t]
  | .quoted t _ e => t :: e.tokens
  | .group opening closing _ _ items => opening :: (tokensAll items ++ [closing])

def tokensAll : List Derivation → List Token
  | [] => []
  | d :: ds => d.tokens ++ tokensAll ds

end

mutual

def value : Derivation → Value
  | .atom t _ => Value.ofAtom t.text
  | .quoted _ _ e => .list [.symbol "quote", e.value]
  | .group _ _ _ _ items => .list (valueAll items)

def valueAll : List Derivation → List Value
  | [] => []
  | d :: ds => d.value :: valueAll ds

end

theorem valueAll_eq_map (ds : List Derivation) : valueAll ds = ds.map value := by
  induction ds with
  | nil => rfl
  | cons d ds ih => rw [valueAll, ih, List.map_cons]

theorem tokensAll_append (ds es : List Derivation) :
    tokensAll (ds ++ es) = tokensAll ds ++ tokensAll es := by
  induction ds with
  | nil => rfl
  | cons d ds ih => rw [List.cons_append, tokensAll, ih, tokensAll, List.append_assoc]

/-! ## Each sequence of tokens has at most one derivation -/

/-- The kind of the first token, which tells the kinds of expressions apart. -/
def firstKind : Derivation → Token.Kind
  | .atom .. => .atom
  | .quoted .. => .quote
  | .group .. => .lparen

theorem tokens_eq_cons (d : Derivation) : ∃ t ts, d.tokens = t :: ts ∧ t.kind = d.firstKind := by
  cases d with
  | atom t h => exact ⟨t, [], rfl, h⟩
  | quoted t h e => exact ⟨t, e.tokens, rfl, h⟩
  | group opening closing h _ items => exact ⟨opening, _, rfl, h⟩

theorem firstKind_ne_rparen (d : Derivation) : d.firstKind ≠ .rparen := by
  cases d <;> exact nofun

theorem firstKind_eq_of_append {d e : Derivation} {ts us : List Token}
    (h : d.tokens ++ ts = e.tokens ++ us) : d.firstKind = e.firstKind := by
  obtain ⟨t, _, hd, ht⟩ := d.tokens_eq_cons
  obtain ⟨u, _, he, hu⟩ := e.tokens_eq_cons
  rw [hd, he] at h
  rw [← ht, ← hu, (List.cons.inj h).1]

/-- No expression starts here: the tokens are at an end, or at the end of a group. -/
def AtEnd (ts : List Token) : Prop := ∀ t ∈ ts.head?, t.kind = .rparen

theorem atEnd_cons {t : Token} (h : t.kind = .rparen) (ts : List Token) : AtEnd (t :: ts) := by
  intro u hu
  cases hu
  exact h

theorem not_atEnd_tokens_append (d : Derivation) (ts : List Token) : ¬AtEnd (d.tokens ++ ts) := by
  obtain ⟨t, us, h, hkind⟩ := d.tokens_eq_cons
  intro hend
  rw [h] at hend
  exact d.firstKind_ne_rparen (hkind.symm.trans (hend t rfl))

mutual

/-- Where an expression ends does not depend on what follows. -/
theorem tokens_append_inj (d e : Derivation) {ts us : List Token}
    (h : d.tokens ++ ts = e.tokens ++ us) : d = e ∧ ts = us := by
  have hkind := firstKind_eq_of_append h
  cases d with
  | atom t ht =>
    cases e with
    | atom u hu =>
      obtain ⟨rfl, rfl⟩ := List.cons.inj h
      exact ⟨rfl, rfl⟩
    | quoted | group => cases hkind
  | quoted t ht d =>
    cases e with
    | quoted u hu e =>
      obtain ⟨rfl, hrest⟩ := List.cons.inj h
      obtain ⟨rfl, rfl⟩ := tokens_append_inj d e hrest
      exact ⟨rfl, rfl⟩
    | atom | group => cases hkind
  | group opening closing ho hc items =>
    cases e with
    | group opening' closing' ho' hc' items' =>
      simp only [tokens, List.cons_append, List.append_assoc, List.nil_append] at h
      obtain ⟨rfl, hrest⟩ := List.cons.inj h
      obtain ⟨rfl, hclose⟩ := tokensAll_append_inj items items' (atEnd_cons hc ts)
        (atEnd_cons hc' us) hrest
      obtain ⟨rfl, rfl⟩ := List.cons.inj hclose
      exact ⟨rfl, rfl⟩
    | atom | quoted => cases hkind

theorem tokensAll_append_inj (ds es : List Derivation) {ts us : List Token} (hts : AtEnd ts)
    (hus : AtEnd us) (h : tokensAll ds ++ ts = tokensAll es ++ us) : ds = es ∧ ts = us := by
  cases ds with
  | nil =>
    cases es with
    | nil => exact ⟨rfl, h⟩
    | cons e es =>
      have h : ts = e.tokens ++ tokensAll es ++ us := h
      rw [h, List.append_assoc] at hts
      exact absurd hts (not_atEnd_tokens_append e _)
  | cons d ds =>
    cases es with
    | nil =>
      have h : d.tokens ++ tokensAll ds ++ ts = us := h
      rw [← h, List.append_assoc] at hus
      exact absurd hus (not_atEnd_tokens_append d _)
    | cons e es =>
      rw [tokensAll, tokensAll, List.append_assoc, List.append_assoc] at h
      obtain ⟨rfl, hrest⟩ := tokens_append_inj d e h
      obtain ⟨rfl, rfl⟩ := tokensAll_append_inj ds es hts hus hrest
      exact ⟨rfl, rfl⟩

end

theorem tokensAll_inj {ds es : List Derivation} (h : tokensAll ds = tokensAll es) : ds = es := by
  have hend : AtEnd [] := fun t ht => by cases ht
  exact (tokensAll_append_inj ds es hend hend (by rw [h])).1

end Derivation
namespace Reader

open SmallLisp.Derivation

/-! ## The reader finds every derivation -/

/-- Goes on reading after a token has led to `step`. -/
def resume : Step → List Token → Reading
  | .more stack, ts => readAll stack ts
  | .done form, ts => ⟨form :: (readAll [] ts).forms, (readAll [] ts).error⟩
  | .failed e, _ => ⟨[], some e⟩

theorem readAll_cons (stack : List Opened) (t : Token) (ts : List Token) :
    readAll stack (t :: ts) = resume (feed stack t) ts := by
  rw [readAll]
  cases feed stack t <;> rfl

theorem readAll_atom (stack : List Opened) {t : Token} (h : t.kind = .atom) (ts : List Token) :
    readAll stack (t :: ts) = resume (deliver (Value.ofAtom t.text) stack) ts := by
  rw [readAll_cons, feed, h]

theorem readAll_opener (stack : List Opened) {t : Token} (h : t.kind = .lparen ∨ t.kind = .quote)
    (ts : List Token) : readAll stack (t :: ts) = readAll (⟨t, []⟩ :: stack) ts := by
  rw [readAll_cons, feed]
  rcases h with h | h <;> rw [h] <;> rfl

theorem close_list (t : Token) {o : Opened} (ho : o.opener.kind ≠ .quote) (stack : List Opened) :
    close t (o :: stack) = deliver (.list o.items.reverse) stack := by
  rw [close, if_neg ho]

theorem close_quote (t : Token) {o : Opened} (ho : o.opener.kind = .quote) (stack : List Opened) :
    close t (o :: stack) = .failed (.danglingQuote o.opener false) := by
  rw [close, if_pos ho]

theorem readAll_closer {o : Opened} (ho : o.opener.kind ≠ .quote) (stack : List Opened) {t : Token}
    (h : t.kind = .rparen) (ts : List Token) :
    readAll (o :: stack) (t :: ts) = resume (deliver (.list o.items.reverse) stack) ts := by
  rw [readAll_cons, feed, h]
  simp only [close_list t ho]

theorem deliver_quote {o : Opened} (ho : o.opener.kind = .quote) (v : Value)
    (stack : List Opened) :
    deliver v (o :: stack) = deliver (.list [.symbol "quote", v]) stack := by
  rw [deliver, if_pos ho]

theorem deliver_list {o : Opened} (ho : o.opener.kind ≠ .quote) (v : Value)
    (stack : List Opened) :
    deliver v (o :: stack) = .more ({ o with items := v :: o.items } :: stack) := by
  rw [deliver, if_neg ho]

theorem kind_ne_quote {t : Token} (h : t.kind = .lparen) : t.kind ≠ .quote := by
  rw [h]
  exact nofun

mutual

/-- Reading the tokens of an expression delivers its form. -/
theorem readAll_tokens (d : Derivation) (stack : List Opened) (ts : List Token) :
    readAll stack (d.tokens ++ ts) = resume (deliver d.value stack) ts := by
  cases d with
  | atom t ht => exact readAll_atom stack ht ts
  | quoted t ht d =>
    rw [tokens, List.cons_append, readAll_opener stack (.inr ht), readAll_tokens d,
      deliver_quote ht, value]
  | group opening closing ho hc items =>
    rw [tokens, List.cons_append, readAll_opener stack (.inl ho), List.append_assoc,
      readAll_tokensAll items (kind_ne_quote ho), List.singleton_append,
      readAll_closer (kind_ne_quote ho) stack hc, value]
    simp only [List.append_nil, List.reverse_reverse]

/-- Reading the tokens of expressions inside a group adds their forms to it. -/
theorem readAll_tokensAll (ds : List Derivation) {o : Opened} (ho : o.opener.kind ≠ .quote)
    (stack : List Opened) (ts : List Token) :
    readAll (o :: stack) (tokensAll ds ++ ts) =
      readAll ({ o with items := (valueAll ds).reverse ++ o.items } :: stack) ts := by
  cases ds with
  | nil => rfl
  | cons d ds =>
    rw [tokensAll, List.append_assoc, readAll_tokens d, deliver_list ho]
    show readAll ({ o with items := d.value :: o.items } :: stack) (tokensAll ds ++ ts) = _
    rw [readAll_tokensAll ds (o := ⟨o.opener, d.value :: o.items⟩) ho, valueAll,
      List.reverse_cons, List.append_assoc]
    rfl

end

theorem readAll_program (ds : List Derivation) :
    readAll [] (tokensAll ds) = ⟨valueAll ds, none⟩ := by
  induction ds with
  | nil => rfl
  | cons d ds ih =>
    rw [tokensAll, readAll_tokens, deliver, resume, ih, valueAll]

/-! ## The reader finds nothing else -/

/-- A form that is open: its opener, and the derivations of its finished elements, the last one
first.  A quote is never open with something finished in it. -/
structure Pending where
  opener : Token
  items : List Derivation
  opens : opener.kind = .lparen ∨ opener.kind = .quote ∧ items = []

namespace Pending

def opened (p : Pending) : Opened := ⟨p.opener, valueAll p.items⟩

/-- The tokens of open forms, innermost form first. -/
def tokens : List Pending → List Token
  | [] => []
  | p :: rest => tokens rest ++ p.opener :: tokensAll p.items.reverse

end Pending

/-- What a step has made of the tokens `ts`: forms that are open, or one that is done.  Tokens that
fail can never be the beginning of anything. -/
def MadeFrom (ts : List Token) : Step → Prop
  | .more stack =>
    ∃ open_ : List Pending, stack = open_.map Pending.opened ∧ Pending.tokens open_ = ts
  | .done form => ∃ d : Derivation, form = d.value ∧ d.tokens = ts
  | .failed e => e.incomplete = false

theorem madeFrom_deliver (d : Derivation) (st : List Pending) :
    MadeFrom (Pending.tokens st ++ d.tokens) (deliver d.value (st.map Pending.opened)) := by
  induction st generalizing d with
  | nil => exact ⟨d, rfl, rfl⟩
  | cons p st ih =>
    rcases p.opens with ho | ⟨ho, hitems⟩
    · rw [List.map_cons, deliver_list (kind_ne_quote ho)]
      refine ⟨⟨p.opener, d :: p.items, .inl ho⟩ :: st, rfl, ?_⟩
      simp only [Pending.tokens, List.reverse_cons, tokensAll_append, tokensAll, List.append_nil,
        List.append_assoc, List.cons_append]
    · -- The quote is finished, and what is delivered next is the derivation made of it and `d`.
      have htokens : Pending.tokens (p :: st) ++ d.tokens =
          Pending.tokens st ++ (Derivation.quoted p.opener ho d).tokens := by
        simp only [Pending.tokens, hitems, List.reverse_nil, tokensAll, Derivation.tokens,
          List.append_assoc, List.cons_append, List.nil_append]
      rw [List.map_cons, deliver_quote ho, htokens]
      exact ih (.quoted p.opener ho d)

theorem madeFrom_feed (st : List Pending) (t : Token) :
    MadeFrom (Pending.tokens st ++ [t]) (feed (st.map Pending.opened) t) := by
  unfold feed
  split
  next hkind => exact ⟨⟨t, [], .inl hkind⟩ :: st, rfl, rfl⟩
  next hkind => exact ⟨⟨t, [], .inr ⟨hkind, rfl⟩⟩ :: st, rfl, rfl⟩
  next hkind =>
    cases st with
    | nil => rfl
    | cons p st =>
      rcases p.opens with ho | ⟨ho, _⟩
      · -- The group from the opener of `p` to `t` is done.
        have hvalue : (Derivation.group p.opener t ho hkind p.items.reverse).value =
            .list p.opened.items.reverse := by
          rw [value, Pending.opened, valueAll_eq_map, valueAll_eq_map, List.map_reverse]
        have htokens : Pending.tokens (p :: st) ++ [t] =
            Pending.tokens st ++ (Derivation.group p.opener t ho hkind p.items.reverse).tokens := by
          simp only [Pending.tokens, Derivation.tokens, List.append_assoc, List.cons_append]
        rw [List.map_cons, close_list t (o := p.opened) (kind_ne_quote ho), htokens, ← hvalue]
        exact madeFrom_deliver _ st
      · rw [List.map_cons, close_quote t (o := p.opened) ho]
        rfl
  next hkind => exact madeFrom_deliver (.atom t hkind) st

/-- If the reader has no complaint, the tokens from the first open form on are those of some
expressions. -/
theorem exists_derivations (st : List Pending) (ts : List Token)
    (h : (readAll (st.map Pending.opened) ts).error = none) :
    ∃ ds, tokensAll ds = Pending.tokens st ++ ts := by
  induction ts generalizing st with
  | nil =>
    cases st with
    | nil => exact ⟨[], rfl⟩
    | cons p st => cases h
  | cons t ts ih =>
    have hmade := madeFrom_feed st t
    rw [readAll_cons] at h
    cases hstep : feed (st.map Pending.opened) t with
    | more stack =>
      rw [hstep] at h hmade
      obtain ⟨st', rfl, htokens⟩ := hmade
      obtain ⟨ds, hds⟩ := ih st' h
      exact ⟨ds, by rw [hds, htokens, List.append_assoc, List.singleton_append]⟩
    | done form =>
      rw [hstep] at h hmade
      obtain ⟨d, rfl, htokens⟩ := hmade
      obtain ⟨ds, hds⟩ := ih [] h
      refine ⟨d :: ds, ?_⟩
      rw [tokensAll, hds, htokens, List.append_assoc]
      rfl
    | failed e =>
      rw [hstep] at h
      cases h

end Reader

/-- A text is read without an error if and only if its tokens are those of a sequence of expressions.
There is then only one such sequence, and the forms read are the forms of its expressions. -/
theorem read_accepts_exactly_grammar (source : Text) :
    ((read source).error = none ↔ ∃ ds, Derivation.tokensAll ds = lex source) ∧
      ∀ ds, Derivation.tokensAll ds = lex source →
        (read source).forms = ds.map Derivation.value ∧
          ∀ es, Derivation.tokensAll es = lex source → es = ds := by
  have hread (ds : List Derivation) (h : Derivation.tokensAll ds = lex source) :
      read source = ⟨ds.map Derivation.value, none⟩ := by
    rw [read, ← h, Reader.readAll_program, Derivation.valueAll_eq_map]
  refine ⟨⟨fun h => ?_, fun ⟨ds, h⟩ => by rw [hread ds h]⟩, fun ds h => ⟨by rw [hread ds h], ?_⟩⟩
  · exact Reader.exists_derivations [] (lex source) h
  · exact fun es hes => Derivation.tokensAll_inj (hes.trans h.symm)

def quotedSymbol : List Derivation :=
  [.quoted ⟨.quote, "'", 1, 1⟩ rfl (.atom ⟨.atom, "a", 1, 2⟩ rfl), .atom ⟨.atom, "b", 1, 4⟩ rfl]

theorem read_accepts_exactly_grammar_quotedSymbol :
    Derivation.tokensAll quotedSymbol = lex "'a b" ∧ (read "'a b").error = none ∧
      (read "'a b").forms = quotedSymbol.map Derivation.value := by
  obtain ⟨haccepts, htrees⟩ := read_accepts_exactly_grammar "'a b"
  have htokens : Derivation.tokensAll quotedSymbol = lex "'a b" := rfl
  exact ⟨htokens, haccepts.mpr ⟨quotedSymbol, htokens⟩, (htrees quotedSymbol htokens).1⟩

end SmallLisp
