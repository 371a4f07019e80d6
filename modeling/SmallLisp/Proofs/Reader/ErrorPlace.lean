import SmallLisp.Proofs.Reader.Progress

/-!
Where a syntax error points.

Tokens are viable if more tokens can make them those of a sequence of expressions.  As long as the reader
is content, what it has read is viable, because it consists of finished expressions and of openers that
can still be closed (`viable_of_pending`).  So the first closing parenthesis that it refuses ends the
shortest beginning that is not viable.

An error at the end of the tokens points at the innermost opener.  It is the one behind which nothing is
left open, and there is only one such opener (`Unfinished.unique`): an opener that stands inside a sequence
of expressions is closed there.
-/

namespace SmallLisp
namespace Reader

open SmallLisp.Derivation

/-- The tokens of a sequence of expressions. -/
def Complete (ts : List Token) : Prop := ∃ ds, tokensAll ds = ts

/-- Beginnings of the tokens of a sequence of expressions. -/
def Viable (ts : List Token) : Prop := ∃ us, Complete (ts ++ us)

/-- `start` is the shortest beginning of `ts` that nothing can follow to make it well formed. -/
structure ShortestDoomed (ts start : List Token) : Prop where
  starts : start <+: ts
  doomed : ¬Viable start
  shortest : ∀ other, other <+: ts → ¬Viable other → start.length ≤ other.length

/-- The token opens something in which all that follows it is finished: a list with complete expressions
behind it, or a quote with nothing behind it. -/
def Unfinished (opener : Token) (after : List Token) : Prop :=
  opener.kind = .lparen ∧ Complete after ∨ opener.kind = .quote ∧ after = []

/-- What is wrong if the text ends in something that the token has opened. -/
def unfinishedError (opener : Token) : SyntaxError :=
  if opener.kind = .quote then .danglingQuote opener true else .unterminated opener

/-! ## Viable tokens -/

theorem Viable.of_starts {start ts : List Token} (h : Viable ts) (hstart : start <+: ts) :
    Viable start := by
  obtain ⟨us, hcomplete⟩ := h
  obtain ⟨rest, rfl⟩ := hstart
  exact ⟨rest ++ us, by rwa [← List.append_assoc]⟩

/-- Open forms can be finished once there is something to finish them with. -/
theorem viable_pending_append (d : Derivation) (st : List Pending) :
    Viable (Pending.tokens st ++ d.tokens) := by
  induction st generalizing d with
  | nil => exact ⟨[], [d], by simp [tokensAll, Pending.tokens]⟩
  | cons p st ih =>
    rcases p.opens with ho | ⟨ho, hitems⟩
    · -- A closing parenthesis makes a group of the list that is open.
      obtain ⟨us, hcomplete⟩ :=
        ih (.group p.opener ⟨.rparen, ")", 0, 0⟩ ho rfl (p.items.reverse ++ [d]))
      refine ⟨⟨.rparen, ")", 0, 0⟩ :: us, ?_⟩
      simpa [Pending.tokens, tokens, tokensAll, tokensAll_append] using hcomplete
    · obtain ⟨us, hcomplete⟩ := ih (.quoted p.opener ho d)
      refine ⟨us, ?_⟩
      simpa [Pending.tokens, tokens, tokensAll, hitems] using hcomplete

theorem viable_of_pending (ds : List Derivation) (st : List Pending) :
    Viable (tokensAll ds ++ Pending.tokens st) := by
  obtain ⟨us, es, hes⟩ := viable_pending_append (.atom ⟨.atom, "a", 0, 0⟩ rfl) st
  refine ⟨⟨.atom, "a", 0, 0⟩ :: us, ds ++ es, ?_⟩
  rw [tokensAll_append, hes, List.append_assoc, List.append_assoc]
  rfl

/-! ## What has been read -/

/-- How reading the tokens has ended: with derivations that are finished and forms that are open, or at
a token that failed behind such. -/
def Reached (ts : List Token) : Except SyntaxError (List Opened) → Prop
  | .ok stack => ∃ ds st, stack = st.map Pending.opened ∧ ts = tokensAll ds ++ Pending.tokens st
  | .error e => ∃ ds st t after, feed (st.map Pending.opened) t = .failed e ∧
      ts = tokensAll ds ++ Pending.tokens st ++ t :: after

theorem Reached.prepend {ts : List Token} {status : Except SyntaxError (List Opened)}
    (h : Reached ts status) (d : Derivation) : Reached (d.tokens ++ ts) status := by
  cases status with
  | ok stack =>
    obtain ⟨ds, st, hstack, rfl⟩ := h
    exact ⟨d :: ds, st, hstack, by rw [tokensAll, List.append_assoc]⟩
  | error e =>
    obtain ⟨ds, st, t, after, hfeed, rfl⟩ := h
    exact ⟨d :: ds, st, t, after, hfeed, by simp only [tokensAll, List.append_assoc]⟩

theorem reached_progress (st : List Pending) (ts : List Token) :
    Reached (Pending.tokens st ++ ts) (progress (st.map Pending.opened) ts).status := by
  induction ts generalizing st with
  | nil => exact ⟨[], st, rfl, by rw [List.append_nil, tokensAll, List.nil_append]⟩
  | cons t ts ih =>
    have hmade := madeFrom_feed st t
    rw [progress]
    cases hstep : feed (st.map Pending.opened) t with
    | more stack =>
      rw [hstep] at hmade
      obtain ⟨st', rfl, htokens⟩ := hmade
      have hreached := ih st'
      rw [htokens, List.append_assoc, List.singleton_append] at hreached
      exact hreached
    | done form =>
      rw [hstep] at hmade
      obtain ⟨d, rfl, htokens⟩ := hmade
      have hreached := (ih []).prepend d
      rw [Pending.tokens, List.nil_append, htokens, List.append_assoc,
        List.singleton_append] at hreached
      exact hreached
    | failed e => exact ⟨[], st, t, ts, hstep, by rw [tokensAll, List.nil_append]⟩

/-- Only a closing parenthesis fails, where nothing is open or a quote is. -/
theorem feed_eq_failed {st : List Pending} {t : Token} {e : SyntaxError}
    (h : feed (st.map Pending.opened) t = .failed e) :
    t.kind = .rparen ∧ (st = [] ∧ e = .unmatched t ∨
      ∃ p rest, st = p :: rest ∧ p.opener.kind = .quote ∧ e = .danglingQuote p.opener false) := by
  unfold feed at h
  split at h
  · cases h
  · cases h
  next hkind =>
    refine ⟨hkind, ?_⟩
    cases st with
    | nil =>
      cases h
      exact .inl ⟨rfl, rfl⟩
    | cons p rest =>
      by_cases ho : p.opener.kind = .quote
      · rw [List.map_cons, close_quote t (o := p.opened) ho] at h
        cases h
        exact .inr ⟨p, rest, rfl, ho, rfl⟩
      · rw [List.map_cons, close_list t (o := p.opened) ho] at h
        exact absurd h (deliver_ne_failed _ _ _)
  · exact absurd h (deliver_ne_failed _ _ _)

/-! ## Reading it again -/

theorem readAll_tokensAll_append (ds : List Derivation) (ts : List Token) :
    (readAll [] (tokensAll ds ++ ts)).error = (readAll [] ts).error := by
  induction ds with
  | nil => rfl
  | cons d ds ih =>
    rw [tokensAll, List.append_assoc, readAll_tokens]
    exact ih

theorem readAll_pending_append (st : List Pending) (ts : List Token) :
    readAll [] (Pending.tokens st ++ ts) = readAll (st.map Pending.opened) ts := by
  induction st generalizing ts with
  | nil => rfl
  | cons p st ih =>
    rw [Pending.tokens, List.append_assoc, List.cons_append, ih, List.map_cons]
    rcases p.opens with ho | ⟨ho, hitems⟩
    · rw [readAll_opener _ (.inl ho), readAll_tokensAll _ (o := ⟨p.opener, []⟩) (kind_ne_quote ho)]
      simp only [List.append_nil, Pending.opened, valueAll_eq_map, List.map_reverse,
        List.reverse_reverse]
    · rw [readAll_opener _ (.inr ho), Pending.opened, hitems]
      rfl

theorem readAll_of_complete {ts : List Token} (h : Complete ts) : (readAll [] ts).error = none := by
  obtain ⟨ds, rfl⟩ := h
  rw [readAll_program]

/-- What a failing token ends cannot be continued. -/
theorem not_viable_of_failed (ds : List Derivation) {st : List Pending} {t : Token} {e : SyntaxError}
    (h : feed (st.map Pending.opened) t = .failed e) :
    ¬Viable (tokensAll ds ++ Pending.tokens st ++ [t]) := by
  rintro ⟨us, hcomplete⟩
  have hnone := readAll_of_complete hcomplete
  rw [List.append_assoc, List.append_assoc, readAll_tokensAll_append, List.singleton_append,
    readAll_pending_append, readAll_cons, h] at hnone
  cases hnone

/-! ## Openers without an end -/

theorem Unfinished.readAll_eq {opener : Token} {after : List Token} (h : Unfinished opener after)
    (stack : List Opened) :
    (readAll stack (opener :: after)).error = some (unfinishedError opener) := by
  rcases h with ⟨ho, ds, rfl⟩ | ⟨ho, rfl⟩
  · have hread := readAll_tokensAll ds (o := ⟨opener, []⟩) (kind_ne_quote ho) stack []
    rw [List.append_nil] at hread
    rw [readAll_opener stack (.inl ho), hread]
    rfl
  · rw [readAll_opener stack (.inr ho)]
    rfl

/-- Behind an opener without an end no sequence of expressions ends. -/
theorem Unfinished.not_complete {opener : Token} {after : List Token} (h : Unfinished opener after)
    (before : List Token) : ¬Complete (before ++ opener :: after) := by
  intro hcomplete
  have hnone := readAll_of_complete hcomplete
  rw [readAll_append] at hnone
  cases hstatus : (progress [] before).status with
  | error e =>
    rw [Progress.finish_of_error hstatus] at hnone
    cases hnone
  | ok stack =>
    rw [Progress.finish_of_ok hstatus, h.readAll_eq stack] at hnone
    cases hnone

/-- What follows an opener without an end holds no other one. -/
theorem Unfinished.not_inside {opener inner : Token} {between after : List Token}
    (h : Unfinished opener (between ++ inner :: after)) : ¬Unfinished inner after := by
  intro hinner
  rcases h with ⟨-, hcomplete⟩ | ⟨-, hnil⟩
  · exact hinner.not_complete between hcomplete
  · simp at hnil

theorem Unfinished.unique {before before' : List Token} {opener opener' : Token}
    {after after' : List Token} (h : Unfinished opener after) (h' : Unfinished opener' after')
    (heq : before ++ opener :: after = before' ++ opener' :: after') :
    before = before' ∧ opener = opener' ∧ after = after' := by
  -- One of the two stands behind the other, unless they are the same.
  rcases List.append_eq_append_iff.mp heq with ⟨us, hus, hrest⟩ | ⟨us, hus, hrest⟩
  · cases us with
    | nil =>
      obtain ⟨rfl, rfl⟩ := List.cons.inj hrest
      exact ⟨by rw [hus, List.append_nil], rfl, rfl⟩
    | cons t us =>
      rw [(List.cons.inj hrest).2] at h
      exact absurd h' h.not_inside
  · cases us with
    | nil =>
      obtain ⟨rfl, rfl⟩ := List.cons.inj hrest
      exact ⟨by rw [hus, List.append_nil], rfl, rfl⟩
    | cons t us =>
      rw [(List.cons.inj hrest).2] at h'
      exact absurd h h'.not_inside

theorem unfinished_of_pending (p : Pending) : Unfinished p.opener (tokensAll p.items.reverse) := by
  rcases p.opens with ho | ⟨ho, hitems⟩
  · exact .inl ⟨ho, _, rfl⟩
  · exact .inr ⟨ho, by rw [hitems]; rfl⟩

/-! ## The two kinds of errors -/

/-- The tokens, up to the closing parenthesis at which reading them failed. -/
theorem shortestDoomed_of_failed {ts after : List Token} {ds : List Derivation} {st : List Pending}
    {t : Token} {e : SyntaxError} (hfeed : feed (st.map Pending.opened) t = .failed e)
    (hts : ts = tokensAll ds ++ Pending.tokens st ++ t :: after) :
    ShortestDoomed ts (tokensAll ds ++ Pending.tokens st ++ [t]) where
  starts := ⟨after, by rw [hts, List.append_assoc, List.singleton_append]⟩
  doomed := not_viable_of_failed ds hfeed
  shortest other hother hdoomed := by
    refine Nat.le_of_not_lt fun hlt => hdoomed ?_
    rw [List.length_append, List.length_singleton] at hlt
    have hstart : other <+: tokensAll ds ++ Pending.tokens st :=
      List.prefix_of_prefix_length_le hother ⟨_, hts.symm⟩ (Nat.le_of_lt_succ hlt)
    exact (viable_of_pending ds st).of_starts hstart

/-- A failing token has complete expressions before it, or a quote without its expression. -/
theorem cause_of_failed (ds : List Derivation) {st : List Pending} {t : Token} {e : SyntaxError}
    (hfeed : feed (st.map Pending.opened) t = .failed e) :
    (Complete (tokensAll ds ++ Pending.tokens st) → e = .unmatched t) ∧
      (¬Complete (tokensAll ds ++ Pending.tokens st) → ∃ earlier quote,
        tokensAll ds ++ Pending.tokens st = earlier ++ [quote] ∧ quote.kind = .quote ∧
          e = .danglingQuote quote false) := by
  rcases (feed_eq_failed hfeed).2 with ⟨rfl, he⟩ | ⟨p, rest, rfl, ho, he⟩
  · exact ⟨fun _ => he, fun hnot => absurd ⟨ds, (List.append_nil _).symm⟩ hnot⟩
  · have hitems : p.items = [] := by
      rcases p.opens with hlparen | ⟨-, hitems⟩
      · exact absurd ho (kind_ne_quote hlparen)
      · exact hitems
    have hbefore : tokensAll ds ++ Pending.tokens (p :: rest) =
        tokensAll ds ++ Pending.tokens rest ++ [p.opener] := by
      rw [Pending.tokens, hitems, List.append_assoc]
      rfl
    have hunfinished : Unfinished p.opener [] := .inr ⟨ho, rfl⟩
    rw [hbefore]
    exact ⟨fun hcomplete => absurd hcomplete (hunfinished.not_complete _),
      fun _ => ⟨_, p.opener, rfl, ho, he⟩⟩

/-- If the tokens end while forms are open, the innermost opener is without an end. -/
theorem exists_unfinished {ts : List Token} {ds : List Derivation} {st : List Pending}
    {e : SyntaxError} (hend : endError (st.map Pending.opened) = some e)
    (hts : ts = tokensAll ds ++ Pending.tokens st) :
    ∃ before opener after, ts = before ++ opener :: after ∧ Unfinished opener after ∧
      e = unfinishedError opener := by
  cases st with
  | nil => cases hend
  | cons p rest =>
    cases hend
    refine ⟨tokensAll ds ++ Pending.tokens rest, p.opener, _, ?_, unfinished_of_pending p, rfl⟩
    rw [hts, Pending.tokens, List.append_assoc]

end Reader

open Reader

/-- Of a text that cannot be read, the error points at the token that is to blame.

If no more text could mend it, the shortest beginning of the tokens that nothing can follow ends in a
closing parenthesis.  This one is unmatched if complete expressions stand before it, and otherwise a quote
stands just before it, which lacks its expression.

If more text could mend it, there is just one opener in which all that follows it is finished; it is a
parenthesis that is not terminated or a quote that lacks its expression. -/
theorem read_error_place {source : Text} {e : SyntaxError} (h : (read source).error = some e) :
    (e.incomplete = false → ∃ before closing after,
      lex source = before ++ closing :: after ∧ closing.kind = .rparen ∧
      ShortestDoomed (lex source) (before ++ [closing]) ∧
      (Complete before → e = .unmatched closing) ∧
      (¬Complete before → ∃ earlier quote, before = earlier ++ [quote] ∧ quote.kind = .quote ∧
        e = .danglingQuote quote false)) ∧
    (e.incomplete = true → ∃ before opener after,
      (lex source = before ++ opener :: after ∧ Unfinished opener after) ∧
      (∀ before' opener' after', lex source = before' ++ opener' :: after' →
        Unfinished opener' after' → before' = before ∧ opener' = opener ∧ after' = after) ∧
      (opener.kind = .lparen → e = .unterminated opener) ∧
      (opener.kind = .quote → e = .danglingQuote opener true)) := by
  have hread : read source = (progress [] (lex source)).finish [] := by
    rw [← readAll_append, List.append_nil, read]
  have hreached := reached_progress [] (lex source)
  rw [Pending.tokens, List.nil_append, List.map_nil] at hreached
  cases hstatus : (progress [] (lex source)).status with
  | error e' =>
    rw [hread, Progress.finish_of_error hstatus] at h
    cases h
    have hincomplete := incomplete_of_progress hstatus
    rw [hstatus] at hreached
    obtain ⟨ds, st, closing, after, hfeed, htokens⟩ := hreached
    refine ⟨fun _ => ⟨_, closing, after, htokens, (feed_eq_failed hfeed).1,
      shortestDoomed_of_failed hfeed htokens, cause_of_failed ds hfeed⟩, fun htrue => ?_⟩
    rw [hincomplete] at htrue
    cases htrue
  | ok stack =>
    rw [hread, Progress.finish_of_ok hstatus] at h
    rw [hstatus] at hreached
    obtain ⟨ds, st, rfl, htokens⟩ := hreached
    refine ⟨fun hfalse => ?_, fun _ => ?_⟩
    · rw [(incomplete_of_endError h).2] at hfalse
      cases hfalse
    · obtain ⟨before, opener, after, hsplit, hunfinished, rfl⟩ := exists_unfinished h htokens
      refine ⟨before, opener, after, ⟨hsplit, hunfinished⟩, ?_, fun ho => ?_, fun ho => ?_⟩
      · intro before' opener' after' hsplit' hunfinished'
        exact hunfinished'.unique hunfinished (hsplit'.symm.trans hsplit)
      · rw [unfinishedError, if_neg (kind_ne_quote ho)]
      · rw [unfinishedError, if_pos ho]

theorem read_error_place_insideList :
    (∃ earlier quote closing after, lex "(a ') b" = earlier ++ quote :: closing :: after ∧
      ShortestDoomed (lex "(a ') b") (earlier ++ [quote, closing]) ∧
      quote.kind = .quote ∧ quote.line = 1 ∧ quote.column = 4) ∧
    ∀ before opener after, lex "'(b (c)" = before ++ opener :: after → Unfinished opener after →
      opener = ⟨.lparen, "(", 1, 2⟩ := by
  constructor
  · have hread : (read "(a ') b").error = some (.danglingQuote ⟨.quote, "'", 1, 4⟩ false) := rfl
    obtain ⟨before, closing, after, htokens, -, hdoomed, hcomplete, hquote⟩ :=
      (read_error_place hread).1 rfl
    have hmessage : ("Expected an expression after quote" : Text) ≠ "Unmatched ')'" := by decide
    have hnot : ¬Complete before := fun h => hmessage (congrArg SyntaxError.message (hcomplete h))
    obtain ⟨earlier, quote, rfl, hkind, he⟩ := hquote hnot
    rw [List.append_assoc] at htokens hdoomed
    cases quote
    cases he
    exact ⟨earlier, _, closing, after, htokens, hdoomed, hkind, rfl, rfl⟩
  · have hread : (read "'(b (c)").error = some (.unterminated ⟨.lparen, "(", 1, 2⟩) := rfl
    obtain ⟨before, opener, after, -, hunique, -⟩ := (read_error_place hread).2 rfl
    have hhere := hunique [⟨.quote, "'", 1, 1⟩] ⟨.lparen, "(", 1, 2⟩
      [⟨.atom, "b", 1, 3⟩, ⟨.lparen, "(", 1, 5⟩, ⟨.atom, "c", 1, 6⟩, ⟨.rparen, ")", 1, 7⟩] rfl
      (.inl ⟨rfl, [.atom _ rfl, .group _ _ rfl rfl [.atom _ rfl]], rfl⟩)
    intro before' opener' after' htokens hunfinished
    rw [(hunique before' opener' after' htokens hunfinished).2.1, ← hhere.2.1]

end SmallLisp
