import SmallLisp.CommandLine.Repl
import SmallLisp.Proofs.Eval.Effect
import SmallLisp.Proofs.Reader.Lines

/-!
How the read-eval-print loop cuts what is typed into sources.

A session is a number of turns in each of which a line is typed.  What has been typed is always what has
been handed to evaluation, followed by what is pending (`Session.text_eq`).  A source is handed over as
soon as it does not end inside a form, so by `read_append_newline` its forms are read from the whole text
just as they are read from the source (`read_complete`).
-/

namespace SmallLisp
namespace Repl

/-- The loop at a prompt: the source of the unfinished form, and the state. -/
structure Prompt where
  pending : Text
  state : State

/-- Shows the prompt and waits for what arrives. -/
def ask (pending : Text) : Run (Option Arrival) := do
  print (promptFor pending)
  nextArrival

/-- A turn in which a line is typed and the loop goes on, with the sources that it hands to
evaluation. -/
inductive Turn (setup : Setup) (i : Interpreter) :
    Prompt → (line : Text) → (handed : List Text) → Prompt → Prop
  | wait {p : Prompt} {text source : Text} {s : State}
      (arrives : ask p.pending p.state = (.ok (some (.line text)), s))
      (accepted : accept p.pending (withoutLineFeed text) = .pending source) :
      Turn setup i p (withoutLineFeed text) [] ⟨source, s⟩
  | evaluate {p : Prompt} {text source : Text} {s t : State} {success : Bool}
      (arrives : ask p.pending p.state = (.ok (some (.line text)), s))
      (accepted : accept p.pending (withoutLineFeed text) = .complete source)
      (evaluated : evalAndPrint setup i source s = (.ok success, t)) :
      Turn setup i p (withoutLineFeed text) [source] ⟨"", t⟩

/-- Turns one after the other: the lines that are typed and the sources that are handed to evaluation. -/
inductive Session (setup : Setup) (i : Interpreter) :
    Prompt → (lines : List Text) → (sources : List Text) → Prompt → Prop
  | start (p : Prompt) : Session setup i p [] [] p
  | turn {p q r : Prompt} {line : Text} {handed lines sources : List Text}
      (first : Turn setup i p line handed q) (rest : Session setup i q lines sources r) :
      Session setup i p (line :: lines) (handed ++ sources) r

/-- The text that lines make up. -/
def typed (lines : List Text) : Text := lines.flatMap fun line => line ++ "\n"

/-- A pending source is empty or ends inside a form. -/
def Unfinished (pending : Text) : Prop := pending = "" ∨ needsMore pending = true

/-- A source that ends with a line, and not inside a form. -/
def Complete (source : Text) : Prop := needsMore source = false ∧ ∃ s : Text, source = s ++ "\n"

section Accept

variable {pending line source : Text}

theorem accept_eq_pending (h : accept pending line = .pending source) :
    source = pending ++ line ++ "\n" ∧ needsMore source = true := by
  dsimp only [accept] at h
  split at h
  · rename_i hmore
    cases h
    exact ⟨rfl, hmore⟩
  · cases h

theorem accept_eq_complete (h : accept pending line = .complete source) :
    source = pending ++ line ++ "\n" ∧ needsMore source = false := by
  dsimp only [accept] at h
  split at h
  · cases h
  · rename_i hmore
    cases h
    exact ⟨rfl, eq_false_of_ne_true hmore⟩

end Accept

section Turns

variable {setup : Setup} {i : Interpreter} {p q : Prompt}

/-! ## What a turn does -/

theorem turns_succ_of_turn {pending next : Text} {arrival : Option Arrival} {s t u : State}
    (harrival : ask pending s = (.ok arrival, t))
    (hturn : turn setup i pending arrival t = (.ok (some next), u)) (fuel : Nat) :
    turns setup i (fuel + 1) pending s = turns setup i fuel next u := by
  have hprint : print (promptFor pending) s =
      (.ok (), { s with console := s.console.writeTo .standard (promptFor pending) }) := rfl
  have hnext : nextArrival { s with console := s.console.writeTo .standard (promptFor pending) } =
      (.ok arrival, t) := harrival
  rw [turns, Run.bind_ok hprint, Run.bind_ok hnext, Run.bind_ok hturn]

theorem Turn.turns_succ {line : Text} {handed : List Text} (h : Turn setup i p line handed q)
    (fuel : Nat) :
    turns setup i (fuel + 1) p.pending p.state = turns setup i fuel q.pending q.state := by
  cases h with
  | wait arrives accepted =>
    refine turns_succ_of_turn arrives ?_ fuel
    simp only [turn, accepted]
    rfl
  | evaluate arrives accepted evaluated =>
    refine turns_succ_of_turn arrives ?_ fuel
    simp only [turn, accepted]
    exact Run.bind_ok evaluated

theorem Turn.text_eq {line : Text} {handed : List Text} (h : Turn setup i p line handed q) :
    p.pending ++ (line ++ "\n") = handed.flatten ++ q.pending := by
  cases h with
  | wait arrives accepted => rw [(accept_eq_pending accepted).1, List.append_assoc]; rfl
  | evaluate arrives accepted evaluated =>
    rw [(accept_eq_complete accepted).1, List.append_assoc, List.flatten_singleton]
    exact (List.append_nil _).symm

theorem Turn.unfinished {line : Text} {handed : List Text} (h : Turn setup i p line handed q) :
    Unfinished q.pending := by
  cases h with
  | wait arrives accepted => exact .inr (accept_eq_pending accepted).2
  | evaluate arrives accepted evaluated => exact .inl rfl

theorem Turn.complete {line : Text} {handed : List Text} (h : Turn setup i p line handed q) :
    ∀ source ∈ handed, Complete source := by
  cases h with
  | wait arrives accepted => exact fun source hsource => nomatch hsource
  | evaluate arrives accepted evaluated =>
    intro source hsource
    obtain ⟨htext, hmore⟩ := accept_eq_complete accepted
    rw [List.mem_singleton.mp hsource]
    exact ⟨hmore, _, htext⟩

/-- A line that arrives makes a turn, unless evaluation ends the program. -/
theorem exists_turn {text : Text} {s : State}
    (h : ask p.pending p.state = (.ok (some (.line text)), s)) :
    (∃ handed q, Turn setup i p (withoutLineFeed text) handed q) ∨
      ∃ source f t, accept p.pending (withoutLineFeed text) = .complete source ∧
        evalAndPrint setup i source s = (.error f, t) := by
  cases haccept : accept p.pending (withoutLineFeed text) with
  | pending source => exact .inl ⟨[], _, .wait h haccept⟩
  | complete source =>
    match heval : evalAndPrint setup i source s with
    | (.ok success, t) => exact .inl ⟨[source], _, .evaluate h haccept heval⟩
    | (.error f, t) => exact .inr ⟨source, f, t, rfl, heval⟩

/-! ## What a session does -/

variable {lines sources : List Text}

theorem Session.turns_length_add (h : Session setup i p lines sources q) (fuel : Nat) :
    turns setup i (lines.length + fuel) p.pending p.state =
      turns setup i fuel q.pending q.state := by
  induction h with
  | start p => rw [List.length_nil, Nat.zero_add]
  | turn first rest ih => rw [List.length_cons, Nat.add_right_comm, first.turns_succ, ih]

theorem Session.text_eq (h : Session setup i p lines sources q) :
    p.pending ++ typed lines = sources.flatten ++ q.pending := by
  induction h with
  | start p => exact List.append_nil _
  | @turn p q r line handed lines sources first rest ih =>
    calc p.pending ++ typed (line :: lines)
        = p.pending ++ (line ++ "\n") ++ typed lines := (List.append_assoc _ _ _).symm
      _ = handed.flatten ++ (q.pending ++ typed lines) := by rw [first.text_eq, List.append_assoc]
      _ = (handed ++ sources).flatten ++ r.pending := by
          rw [ih, List.flatten_append, List.append_assoc]

theorem Session.unfinished (h : Session setup i p lines sources q) (hp : Unfinished p.pending) :
    Unfinished q.pending := by
  induction h with
  | start p => exact hp
  | turn first rest ih => exact ih first.unfinished

theorem Session.complete (h : Session setup i p lines sources q) :
    ∀ source ∈ sources, Complete source := by
  induction h with
  | start p => exact fun source hsource => nomatch hsource
  | turn first rest ih =>
    intro source hsource
    cases List.mem_append.mp hsource with
    | inl hhanded => exact first.complete source hhanded
    | inr hsources => exact ih source hsources

end Turns

/-! ## Reading what is typed -/

/-- A complete source and the text after it are read one after the other. -/
theorem read_complete {source : Text} (h : Complete source) (t : Text) :
    ∃ k, read (source ++ t) = (read source).followedBy ((read t).below k) := by
  obtain ⟨hmore, s, rfl⟩ := h
  have hs : needsMore s = false := by
    rw [needsMore, read_newline] at hmore
    exact hmore
  refine ⟨s.count (.char '\n') + 1, ?_⟩
  rw [read_newline, ← read_append_newline hs, List.append_assoc]
  rfl

/-- If the text of complete sources and what follows them is read without an error, its forms are those
of the sources and those of what follows. -/
theorem read_flatten_complete {sources : List Text} {rest : Text}
    (hsources : ∀ source ∈ sources, Complete source)
    (h : (read (sources.flatten ++ rest)).error = none) :
    (read (sources.flatten ++ rest)).forms =
        (sources.flatMap fun source => (read source).forms) ++ (read rest).forms ∧
      (read rest).error = none := by
  induction sources with
  | nil => exact ⟨rfl, h⟩
  | cons source sources ih =>
    obtain ⟨k, hk⟩ := read_complete (hsources source List.mem_cons_self) (sources.flatten ++ rest)
    rw [List.flatten_cons, List.append_assoc, hk] at h ⊢
    -- An error of the first source would be the error of the whole text.
    cases herror : (read source).error with
    | some e =>
      rw [Reading.followedBy, herror] at h
      rw [herror] at h
      cases h
    | none =>
      simp only [Reading.followedBy, herror, Reading.below, Option.map_eq_none_iff] at h ⊢
      obtain ⟨hforms, hrest⟩ := ih (fun t ht => hsources t (List.mem_cons_of_mem _ ht)) h
      rw [hforms, List.flatMap_cons, List.append_assoc]
      exact ⟨rfl, hrest⟩

theorem needsMore_eq_false {t : Text} (h : (read t).error = none) : needsMore t = false := by
  rw [needsMore, h]
  rfl

theorem Unfinished.eq_empty {pending : Text} (h : Unfinished pending)
    (herror : (read pending).error = none) : pending = "" := by
  cases h with
  | inl hempty => exact hempty
  | inr hmore =>
    rw [needsMore_eq_false herror] at hmore
    cases hmore

theorem Unfinished.promptFor_eq {pending : Text} (h : Unfinished pending) :
    promptFor pending = if needsMore pending then continuation else prompt := by
  cases h with
  | inl hempty =>
    have hprompt : promptFor "" = prompt := rfl
    have hmore : needsMore "" = false := rfl
    rw [hempty, hprompt, hmore, if_neg Bool.false_ne_true]
  | inr hmore =>
    have hne : pending.isEmpty = false := by
      cases pending with
      | nil => cases hmore
      | cons c cs => rfl
    rw [promptFor, hne, if_neg Bool.false_ne_true, if_pos hmore]

/-- After any lines the loop goes on from the pending source, which is empty or ends inside a form, and
the prompt tells which; the next line that arrives is taken, unless evaluation ends the program.  The
sources handed to evaluation and the pending source make up what was typed.  If that is read without an
error, the forms of the sources are all its forms, and nothing is pending. -/
theorem session_segments_exactly {setup : Setup} {i : Interpreter} {s : State}
    {lines sources : List Text} {q : Prompt} (h : Session setup i ⟨"", s⟩ lines sources q) :
    (∀ fuel, turns setup i (lines.length + fuel) "" s = turns setup i fuel q.pending q.state) ∧
    (q.pending = "" ∨ needsMore q.pending = true) ∧
    promptFor q.pending = (if needsMore q.pending then continuation else prompt) ∧
    (∀ text t, ask q.pending q.state = (.ok (some (.line text)), t) →
      (∃ handed r, Turn setup i q (withoutLineFeed text) handed r) ∨
        ∃ source f u, accept q.pending (withoutLineFeed text) = .complete source ∧
          evalAndPrint setup i source t = (.error f, u)) ∧
    typed lines = sources.flatten ++ q.pending ∧
    ((read (typed lines)).error = none →
      (sources.flatMap fun source => (read source).forms) = (read (typed lines)).forms ∧
        q.pending = "") := by
  have hpending : Unfinished q.pending := h.unfinished (.inl rfl)
  have htext : typed lines = sources.flatten ++ q.pending := h.text_eq
  refine ⟨h.turns_length_add, hpending, hpending.promptFor_eq, fun _ _ => exists_turn, htext,
    fun herror => ?_⟩
  rw [htext] at herror ⊢
  obtain ⟨hforms, hrest⟩ := read_flatten_complete h.complete herror
  have hempty := hpending.eq_empty hrest
  rw [hforms, hempty]
  exact ⟨(List.append_nil _).symm, rfl⟩

/-- A quote on one line; on the next what it quotes, another form, and a comment with a quote. -/
theorem session_segments_exactly_quoteAcrossLines :
    let setup : Setup := ⟨⟨⟨[], []⟩, [], none, []⟩, 9, none⟩
    let s : State := ⟨⟨#[⟨[], none⟩], 0⟩, .start [.line "'\n", .line "x y ; '\n"], []⟩
    ∃ q, Session setup ⟨0⟩ ⟨"", s⟩ ["'", "x y ; '"] ["'\nx y ; '\n"] q ∧ q.pending = "" ∧
      (read "'\nx y ; '\n").forms = (read (typed ["'", "x y ; '"])).forms := by
  intro setup s
  have hsession : ∃ q, Session setup ⟨0⟩ ⟨"", s⟩ ["'", "x y ; '"] ["'\nx y ; '\n"] q :=
    ⟨_, .turn (@Turn.wait setup ⟨0⟩ _ "'\n" _ _ rfl rfl)
      (.turn (@Turn.evaluate setup ⟨0⟩ _ "x y ; '\n" _ _ _ _ rfl rfl rfl) (.start _))⟩
  obtain ⟨q, hq⟩ := hsession
  obtain ⟨hforms, hpending⟩ := (session_segments_exactly hq).2.2.2.2.2 rfl
  exact ⟨q, hq, hpending, hforms⟩

end Repl
end SmallLisp
