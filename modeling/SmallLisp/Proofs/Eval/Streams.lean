import SmallLisp.Proofs.Eval.Adequacy
import SmallLisp.Proofs.Eval.Parts

/-!
How evaluation uses the streams.

A console is moved on by the primitive that writes a text and by the one that takes a line
(`Performance.Moves`).  The parts of an evaluation follow on each other: each of them begins with the
console that the one before left (`Evaluation.Chained`).  So the primitives that are run during an
evaluation, in the order in which they are run, lead from the console at the start to the one at the end
(`Evaluation.moveAll_performances`), and what that means for the streams is a matter of these primitives
alone (`Performance.MoveAll.recounts`).
-/

namespace SmallLisp

/-- What reading a line answers, by what arrives. -/
def Primitive.lineAnswer : Option Arrival → Except Fault Value
  | none => .ok (.symbol "")
  | some (.line text) => .ok (.symbol (withoutLineEnd text))
  | some .interrupted => .error .interrupt
  | some .failed => .error (.error .inputFailed)

theorem Primitive.readLine_eq (s : State) :
    readLine s = (lineAnswer s.console.input.head?,
      { s with console := s.console.setInput s.console.input.tail }) := by
  cases hinput : s.console.input with
  | nil =>
    have hnext : Run.nextArrival s = (.ok none, s) := by
      unfold Run.nextArrival
      rw [hinput]
    have hsame := s.console.setInput_input
    rw [hinput] at hsame
    rw [readLine, Run.bind_ok hnext, List.tail_nil, hsame]
    rfl
  | cons arrival rest =>
    have hnext : Run.nextArrival s =
        (.ok (some arrival), { s with console := s.console.setInput rest }) := by
      unfold Run.nextArrival
      rw [hinput]
    rw [readLine, Run.bind_ok hnext]
    cases arrival <;> rfl

/-! ## Primitives and the console -/

namespace Performance

/-- The text that the primitive has written, if it is the one that writes and has come to its end. -/
def text? : Performance → Option Text
  | ⟨.putstr, [v], _, .ok _⟩ => some (v.render ++ "\n")
  | _ => none

/-- The answer of the primitive, if it is the one that takes a line. -/
def lineAnswer? : Performance → Option (Except Fault Value)
  | ⟨.readline, _, _, answer⟩ => some answer
  | _ => none

def texts (done : List Performance) : List Text := done.filterMap text?

def lineAnswers (done : List Performance) : List (Except Fault Value) := done.filterMap lineAnswer?

theorem texts_append (done later : List Performance) :
    texts (done ++ later) = texts done ++ texts later :=
  List.filterMap_append

theorem lineAnswers_append (done later : List Performance) :
    lineAnswers (done ++ later) = lineAnswers done ++ lineAnswers later :=
  List.filterMap_append

/-- The primitive leads from one console to another one. -/
inductive Moves : Performance → Console → Console → Prop
  | written {v w : Value} {s : State} :
    Moves ⟨.putstr, [v], s, .ok w⟩ s.console (s.console.write (v.render ++ "\n"))
  | unwritten {v : Value} {s : State} {f : Fault} :
    Moves ⟨.putstr, [v], s, .error f⟩ s.console s.console
  | line {s : State} :
    Moves ⟨.readline, [], s, Primitive.lineAnswer s.console.input.head?⟩ s.console
      (s.console.setInput s.console.input.tail)
  | other {p : Performance} {c : Console} : p.op ≠ .putstr → p.op ≠ .readline → Moves p c c

/-- The primitives lead from one console to another one, one after the other. -/
inductive MoveAll : List Performance → Console → Console → Prop
  | nil {c : Console} : MoveAll [] c c
  | cons {p : Performance} {ps : List Performance} {c m d : Console} :
    p.Moves c m → MoveAll ps m d → MoveAll (p :: ps) c d

theorem MoveAll.append {ps qs : List Performance} {c m d : Console} (h : MoveAll ps c m)
    (h' : MoveAll qs m d) : MoveAll (ps ++ qs) c d := by
  induction h with
  | nil => exact h'
  | cons hp _ ih => exact .cons hp (ih h')

theorem MoveAll.exists_of_append {ps qs : List Performance} {c d : Console}
    (h : MoveAll (ps ++ qs) c d) : ∃ m, MoveAll ps c m ∧ MoveAll qs m d := by
  induction ps generalizing c with
  | nil => exact ⟨c, .nil, h⟩
  | cons p ps ih =>
    cases h with
    | cons hp hrest =>
      obtain ⟨m, hps, hqs⟩ := ih hrest
      exact ⟨m, .cons hp hps, hqs⟩

/-- A primitive that uses a stream begins with the console that it moves on. -/
theorem Moves.console_eq {p : Performance} {c d : Console} (h : p.Moves c d)
    (hop : p.op = .putstr ∨ p.op = .readline) : p.state.console = c := by
  cases h with
  | written | unwritten | line => rfl
  | other hputstr hreadline =>
    cases hop with
    | inl heq => exact absurd heq hputstr
    | inr heq => exact absurd heq hreadline

end Performance

/-- What the primitives that were run have made of a console: the streams are in place, the output has
been extended by the texts written, and each answer about a line is about the next line of the input. -/
structure Console.Recounts (c : Console) (done : List Performance) (d : Console) : Prop where
  installedOutput : d.installedOutput = c.installedOutput
  installedInput : d.installedInput.isSome = c.installedInput.isSome
  standardInput : c.installedInput.isSome = true → d.standardInput = c.standardInput
  text (output : Output) : d.text output =
    c.text output ++ if c.output = output then (Performance.texts done).flatten else []
  input : d.input = c.input.drop (Performance.lineAnswers done).length
  answers (i : Nat) : i < (Performance.lineAnswers done).length →
    (Performance.lineAnswers done)[i]? = some (Primitive.lineAnswer c.input[i]?)

namespace Console.Recounts

variable {c m d : Console} {done later : List Performance}

theorem of_nothing (htexts : Performance.texts done = []) (hanswers : Performance.lineAnswers done = []) :
    c.Recounts done c := by
  constructor
  · rfl
  · rfl
  · exact fun _ => rfl
  · intro output
    rw [htexts, List.flatten_nil, ite_self, List.append_nil]
  · rw [hanswers]
    rfl
  · intro i hi
    rw [hanswers] at hi
    cases hi

theorem append (h : c.Recounts done m) (h' : m.Recounts later d) : c.Recounts (done ++ later) d := by
  have houtput : m.output = c.output := by rw [Console.output, h.installedOutput, Console.output]
  constructor
  · rw [h'.installedOutput, h.installedOutput]
  · rw [h'.installedInput, h.installedInput]
  · intro hsome
    rw [h'.standardInput (by rw [h.installedInput, hsome]), h.standardInput hsome]
  · intro output
    rw [h'.text, h.text, houtput, Performance.texts_append, List.flatten_append, List.append_assoc]
    by_cases ho : c.output = output
    · rw [if_pos ho, if_pos ho, if_pos ho]
    · rw [if_neg ho, if_neg ho, if_neg ho, List.append_nil]
  · rw [h'.input, h.input, List.drop_drop, Performance.lineAnswers_append, List.length_append]
  · intro i hi
    rw [Performance.lineAnswers_append] at hi ⊢
    by_cases hfirst : i < (Performance.lineAnswers done).length
    · rw [List.getElem?_append_left hfirst, h.answers i hfirst]
    · have hge := Nat.le_of_not_lt hfirst
      rw [List.length_append] at hi
      have hlater := h'.answers (i - (Performance.lineAnswers done).length) (by omega)
      rw [List.getElem?_append_right hge, hlater, h.input, List.getElem?_drop,
        Nat.add_sub_cancel' hge]

end Console.Recounts

namespace Performance

theorem texts_singleton_of_ne {p : Performance} (h : p.op ≠ .putstr) : texts [p] = [] := by
  refine List.filterMap_cons_none ?_
  unfold text?
  split
  · exact absurd rfl h
  · rfl

theorem lineAnswers_singleton_of_ne {p : Performance} (h : p.op ≠ .readline) :
    lineAnswers [p] = [] := by
  refine List.filterMap_cons_none ?_
  unfold lineAnswer?
  split
  · exact absurd rfl h
  · rfl

theorem Moves.recounts {p : Performance} {c d : Console} (h : p.Moves c d) : c.Recounts [p] d := by
  cases h with
  | @written v w s =>
    constructor
    · rfl
    · rfl
    · exact fun _ => rfl
    · intro output
      show _ = _ ++ if s.console.output = output then [v.render ++ "\n"].flatten else []
      rw [Console.text_write, List.flatten_singleton]
    · rfl
    · exact nofun
  | unwritten => exact .of_nothing rfl rfl
  | @line s =>
    constructor
    · exact s.console.installedOutput_setInput _
    · exact s.console.isSome_installedInput_setInput _
    · exact s.console.standardInput_setInput _
    · intro output
      show _ = _ ++ if s.console.output = output then [].flatten else []
      rw [Console.text_setInput, List.flatten_nil, ite_self, List.append_nil]
    · rw [Console.input_setInput, ← List.drop_one]
      rfl
    · intro i hi
      have hzero : i = 0 := Nat.lt_one_iff.mp hi
      rw [hzero]
      show some (Primitive.lineAnswer s.console.input.head?) = _
      rw [List.head?_eq_getElem?]
  | other hputstr hreadline =>
    exact .of_nothing (texts_singleton_of_ne hputstr) (lineAnswers_singleton_of_ne hreadline)

theorem MoveAll.recounts {ps : List Performance} {c d : Console} (h : MoveAll ps c d) :
    c.Recounts ps d := by
  induction h with
  | nil => exact .of_nothing rfl rfl
  | cons hp _ ih => exact hp.recounts.append ih

/-- A primitive that uses a stream finds the console that the primitives before it have left. -/
theorem MoveAll.recounts_before {before after : List Performance} {p : Performance} {c d : Console}
    (h : MoveAll (before ++ p :: after) c d) (hop : p.op = .putstr ∨ p.op = .readline) :
    c.Recounts before p.state.console := by
  obtain ⟨m, hbefore, hrest⟩ := h.exists_of_append
  cases hrest with
  | cons hp _ =>
    rw [hp.console_eq hop]
    exact hbefore.recounts

end Performance

/-! ## What primitives do to the console -/

namespace Run

variable {α β : Type}

/-- The run does not use the streams. -/
def KeepsConsole (m : Run α) : Prop := ∀ s, (m s).2.console = s.console

theorem Quiet.keepsConsole {m : Run α} (hm : m.Quiet) : m.KeepsConsole := by
  intro s
  rw [hm s]

theorem KeepsConsole.bind {m : Run α} {f : α → Run β} (hm : m.KeepsConsole)
    (hf : ∀ a, (f a).KeepsConsole) : (m >>= f).KeepsConsole := by
  intro s
  have hs := hm s
  rcases bind_cases m f s with ⟨a, t, hmt, hb⟩ | ⟨e, t, hmt, hb⟩
  · rw [hmt] at hs
    rw [hb, hf a t, hs]
  · rw [hmt] at hs
    rw [hb, hs]

theorem keepsConsole_log (logger : Text) (level : Level) (message : Text) :
    (log logger level message).KeepsConsole := fun _ => rfl

theorem quiet_orFail (r : Except Error α) : (orFail r).Quiet := by
  cases r with
  | ok a => exact quiet_pure a
  | error e => exact quiet_fail e

theorem snd_bind_of_quiet (m : Run α) {f : α → Run β} (hf : ∀ a, (f a).Quiet) (s : State) :
    ((m >>= f) s).2 = (m s).2 := by
  rcases bind_cases m f s with ⟨a, t, hm, hb⟩ | ⟨e, t, hm, hb⟩
  · rw [hb, hm, hf a]
  · rw [hb, hm]

end Run

namespace Primitive

open Run

theorem keepsConsole_usedText (host : Host) (name : Value) : (usedText host name).KeepsConsole := by
  cases name with
  | symbol x =>
    refine (quiet_ofExcept _).keepsConsole.bind fun p => ?_
    refine (quiet_fileText host p).keepsConsole.bind fun found => ?_
    cases found with
    | error e => exact (quiet_fail _).keepsConsole
    | ok text => exact (keepsConsole_log _ _ _).bind fun _ => (quiet_pure text).keepsConsole
  | _ => exact (quiet_fail _).keepsConsole

/-- Only writing a text and taking a line use the streams. -/
theorem keepsConsole_perform {op : Primitive} (hputstr : op ≠ .putstr) (hreadline : op ≠ .readline)
    (args : List Value) : (op.perform args).KeepsConsole := by
  have hnumbers (op : Primitive) (f : List Binary64 → Value) : (ofNumbers op f args).Quiet :=
    (quiet_orFail _).bind fun xs => quiet_pure (f xs)
  have hexit (status : Int) : (exitWith status).KeepsConsole :=
    (keepsConsole_log _ _ _).bind fun _ => (quiet_fault _).keepsConsole
  cases op with
  | add | subtract | multiply | greater | greaterEq | less | lessEq =>
    exact (hnumbers _ _).keepsConsole
  | divide =>
    refine ((quiet_orFail _).bind fun xs => ?_).keepsConsole
    cases Binary64.quotient xs with
    | some x => exact quiet_pure _
    | none => exact quiet_fail _
  | isEmpty | count =>
    exact ((quiet_listArgument _ args).bind fun items => quiet_pure _).keepsConsole
  | equal | isList | type => cases args <;> exact (quiet_pure _).keepsConsole
  | list | eval | use => exact (quiet_pure _).keepsConsole
  | exit =>
    cases args with
    | nil => exact hexit 0
    | cons v rest => exact (quiet_orFail (statusOf v)).keepsConsole.bind hexit
  | putstr => exact absurd rfl hputstr
  | readline => exact absurd rfl hreadline

theorem keepsConsole_body (host : Host) (room : Headroom) (frame : Nat) {op : Primitive}
    (hop : ¬(op = .eval ∨ op = .use)) (hputstr : op ≠ .putstr) (hreadline : op ≠ .readline)
    (args : List Value) : (op.body host room frame args).KeepsConsole := by
  obtain ⟨need, hneed⟩ := bounded_body host frame (fun heval => hop (.inl heval))
    (fun huse => hop (.inr huse)) args
  rw [show op.body host room frame args = _ from hneed room]
  split
  · exact keepsConsole_perform hputstr hreadline args
  · exact (quiet_fault _).keepsConsole

theorem moves_putstr (host : Host) (room : Headroom) (frame : Nat) (v : Value) (s : State) :
    Performance.Moves ⟨.putstr, [v], s, (body host room frame .putstr [v] s).1⟩ s.console
      (body host room frame .putstr [v] s).2.console := by
  show Performance.Moves ⟨.putstr, [v], s, ((Run.shown room.frames v >>= _) s).1⟩ _
    ((Run.shown room.frames v >>= _) s).2.console
  by_cases hframes : v.rendersWithin room.frames = true
  · rw [Run.shown, if_pos hframes]
    exact .written
  · rw [Run.shown, if_neg hframes]
    exact .unwritten

/-- A primitive that evaluates nothing leads from the console at its start to the one at its end. -/
theorem moves_body (host : Host) (room : Headroom) (frame : Nat) {op : Primitive} {args : List Value}
    (hop : ¬(op = .eval ∨ op = .use)) (hadmits : op.arity.admits args.length = true) (s : State) :
    Performance.Moves ⟨op, args, s, (op.body host room frame args s).1⟩ s.console
      (op.body host room frame args s).2.console := by
  by_cases hputstr : op = .putstr
  · subst hputstr
    obtain ⟨v, rfl⟩ := Arity.eq_singleton_of_admits hadmits
    exact moves_putstr host room frame v s
  by_cases hreadline : op = .readline
  · subst hreadline
    have hnone : args = [] := by
      have hmost : (args.length : Int) ≤ 0 := of_decide_eq_true (Bool.and_eq_true_iff.mp hadmits).2
      exact List.length_eq_zero_iff.mp (by omega)
    subst hnone
    show Performance.Moves ⟨.readline, [], s, (readLine s).1⟩ s.console (readLine s).2.console
    rw [readLine_eq]
    exact .line
  · rw [keepsConsole_body host room frame hop hputstr hreadline args s]
    exact .other hputstr hreadline

end Primitive

/-! ## The console from one part of an evaluation to the next -/

namespace Evaluation

variable {host : Host}

/-- Each of the evaluations begins with the console that the one before has left. -/
def Chained (host : Host) (c : Console) : List Evaluation → Console → Prop
  | [], d => c = d
  | b :: bs, d => b.state.console = c ∧ Chained host (b.final host).console bs d

theorem chained_nil {m : Run Value} (hm : m.Quiet) (s : State) :
    Chained host s.console [] (m s).2.console :=
  (congrArg State.console (hm s)).symm

theorem Chained.append {bs later : List Evaluation} {c m d : Console} (h : Chained host c bs m)
    (h' : Chained host m later d) : Chained host c (bs ++ later) d := by
  induction bs generalizing c with
  | nil =>
    cases h
    exact h'
  | cons b bs ih => exact ⟨h.1, ih h.2⟩

theorem chained_followedBy {e : Evaluation} {rest : Value → State → List Evaluation} {d : Console}
    (hok : ∀ v t, e.run host = (.ok v, t) → Chained host t.console (rest v t) d)
    (herror : ∀ f t, e.run host = (.error f, t) → t.console = d) :
    Chained host e.state.console (e.followedBy host rest) d := by
  refine ⟨rfl, ?_⟩
  rw [final]
  rcases hrun : e.run host with ⟨f | v, t⟩
  · exact herror f t hrun
  · exact hok v t hrun

theorem chained_inOrder (frames frame : Nat) (forms : List Value) (s : State) :
    Chained host s.console (inOrder host frames frame forms s)
      (evaluateAll (evaluate host frames) frame forms s).2.console := by
  induction forms generalizing s with
  | nil => exact rfl
  | cons form forms ih =>
    rw [inOrder, evaluateAll]
    refine chained_followedBy (e := ⟨frames, form, frame, s⟩) (fun v t hform => ?_) fun f t hform => ?_
    · have hothers : ((evaluateAll (evaluate host frames) frame forms >>= fun vs =>
          (pure (v :: vs) : Run (List Value))) t).2 = _ :=
        Run.snd_bind_of_quiet _ (fun vs => Run.quiet_pure (v :: vs)) t
      rw [Run.bind_ok hform, hothers]
      exact ih t
    · rw [Run.bind_error hform]

theorem chained_reading (frames frame : Nat) (r : Reading) (s : State) :
    Chained host s.console (inOrder host frames frame r.forms s)
      (evaluateReading (evaluate host frames) frame r s).2.console := by
  have hforms : (evaluateReading (evaluate host frames) frame r s).2 =
      (evaluateAll (evaluate host frames) frame r.forms s).2 := by
    rw [evaluateReading, Run.snd_bind_of_quiet, evaluateForms_eq, Run.snd_bind_of_quiet]
    · exact fun vs => Run.quiet_pure _
    · intro v
      cases r.error with
      | none => exact Run.quiet_pure v
      | some e => exact Run.quiet_fail _
  rw [hforms]
  exact chained_inOrder frames frame r.forms s

theorem chained_special (n frame : Nat) (special : SpecialForm) (rest : List Value) (s : State) :
    Chained host s.console (special.parts host n frame s rest)
      (special.run (.ofFrames host n) frame rest s).2.console := by
  unfold SpecialForm.parts
  split
  next x form =>
    refine ⟨rfl, ?_⟩
    show (evaluate host n form frame s).2.console = ((evaluate host n form frame >>= _) s).2.console
    rcases Run.bind_cases (evaluate host n form frame) _ s with ⟨v, t, hform, hb⟩ | ⟨f, t, hform, hb⟩
    · rw [hform, hb]
      rfl
    · rw [hform, hb]
  next condition yes no =>
    show Chained host s.console _ ((evaluate host n condition frame >>= _) s).2.console
    refine chained_followedBy (e := ⟨n, condition, frame, s⟩) (fun v t hc => ?_) fun f t hc => ?_
    · rw [Run.bind_ok hc]
      cases v with
      | bool b => cases b <;> exact ⟨rfl, rfl⟩
      | _ => exact ⟨rfl, rfl⟩
    · rw [Run.bind_error hc]
  next hdefine hif =>
    -- Nothing is evaluated, whether the form is `lambda`, `quote` or one that is not well-formed.
    unfold SpecialForm.run
    split
    next name form =>
      cases name with
      | symbol x => exact absurd rfl (hdefine _ _ rfl)
      | _ => exact chained_nil ((Run.quiet_inspected _ _).bind fun _ => Run.quiet_fail _) s
    next formals body =>
      unfold SpecialForm.runLambda
      cases formals.formals? <;> rfl
    next condition yes no => exact absurd rfl (hif _ _ _ rfl)
    next form => rfl
    next => rfl

theorem application_parts_eq_nil {n frame id : Nat} {op : Primitive} {args : List Value} {s : State}
    (h : op = .eval ∨ op = .use → op.arity.admits args.length = false) :
    Application.parts host frame ⟨n, .builtin op id, args, s⟩ = [] := by
  unfold Application.parts
  split
  next heq => cases heq
  next heq =>
    cases heq
    cases h (.inl rfl)
  next heq =>
    cases heq
    cases h (.inr rfl)
  next => rfl

theorem chained_use (n frame id : Nat) (name : Value) (s : State) :
    Chained host s.console (Application.parts host frame ⟨n, .builtin .use id, [name], s⟩)
      (Primitive.useFile host (evaluate host (n - 3)) frame name s).2.console := by
  have hconsole := Primitive.keepsConsole_usedText host name s
  rw [Primitive.useFile_eq]
  rcases hrun : Primitive.usedText host name s with ⟨f | text, t⟩
  · rw [hrun] at hconsole
    simp only [Application.parts, hrun, Run.bind_error hrun]
    exact hconsole.symm
  · rw [hrun] at hconsole
    simp only [Application.parts, hrun, Run.bind_ok hrun]
    rw [← hconsole]
    exact chained_reading (n - 3) frame (read text) t

theorem chained_builtin (n frame : Nat) {op : Primitive} (id : Nat) {args : List Value}
    (hadmits : op.arity.admits args.length = true) (s : State) :
    ∃ m, Chained host s.console (Application.parts host frame ⟨n, .builtin op id, args, s⟩) m ∧
      Performance.Moves ⟨op, args, s, (apply host (.ofFrames host n) frame (.builtin op id) args s).1⟩ m
        (apply host (.ofFrames host n) frame (.builtin op id) args s).2.console := by
  by_cases hop : op = .eval ∨ op = .use
  · rcases hop with rfl | rfl
    · obtain ⟨form, rfl⟩ := Arity.eq_singleton_of_admits hadmits
      rw [apply_eval]
      exact ⟨_, ⟨rfl, rfl⟩, .other nofun nofun⟩
    · obtain ⟨name, rfl⟩ := Arity.eq_singleton_of_admits hadmits
      rw [apply_use]
      exact ⟨_, chained_use n frame id name s, .other nofun nofun⟩
  · have hcall : apply host (.ofFrames host n) frame (.builtin op id) args =
        op.body host ((Headroom.ofFrames host n).enter 3) frame args := if_pos hadmits
    rw [hcall, application_parts_eq_nil fun h => absurd h hop]
    exact ⟨_, rfl, Primitive.moves_body host _ frame hop hadmits s⟩

/-- Applying a procedure goes through the evaluations that this starts, and then does what the procedure
itself does, if it is a primitive. -/
theorem Applies.exists_chained {e : Evaluation} {n : Nat} {fn : Value} {args : List Value} {s : State}
    (h : e.Applies host n fn args s) :
    ∃ m, Chained host s.console (Application.parts host e.frame ⟨n, fn, args, s⟩) m ∧
      Performance.MoveAll (e.ownPerformance? host).toList m (e.final host).console := by
  have hown := h.ownPerformance?_eq
  rw [hown, final, h.run_eq]
  cases fn with
  | closure id formals body home =>
    refine ⟨_, ?_, .nil⟩
    by_cases hl : formals.length = args.length
    · rw [Application.parts, if_pos hl, apply_closure host n e.frame id body home hl s]
      exact ⟨rfl, rfl⟩
    · rw [Application.parts, if_neg hl]
      exact chained_nil (quiet_applyClosure_of_length_ne _ _ body home hl) s
  | builtin op id =>
    by_cases hadmits : op.arity.admits args.length = true
    · obtain ⟨m, hparts, hmoves⟩ := chained_builtin n e.frame id hadmits s
      refine ⟨m, hparts, ?_⟩
      show Performance.MoveAll (Option.toList (if _ then _ else _)) _ _
      rw [if_pos hadmits]
      exact .cons hmoves .nil
    · refine ⟨s.console, ?_, ?_⟩
      · rw [application_parts_eq_nil fun _ => Bool.eq_false_iff.mpr hadmits]
        rfl
      · show Performance.MoveAll (Option.toList (if _ then _ else _)) _ _
        rw [if_neg hadmits]
        have hcall : apply host (.ofFrames host n) e.frame (.builtin op id) args =
            Run.fail (.arity op.name op.arity args.length) := if_neg hadmits
        rw [hcall]
        exact .nil
  | _ =>
    refine ⟨_, ?_, .nil⟩
    exact chained_nil ((Run.quiet_shown _ _).bind fun _ => Run.quiet_fail _) s

theorem chained_operands (host : Host) (n frame : Nat) {head : Value} (operands : List Value) (s : State)
    (hs : head.specialForm? = none) :
    Chained host s.console (formParts host ⟨n + 1, .list (head :: operands), frame, s⟩)
      ((evaluate host n head frame >>= fun _ =>
        evaluateAll (evaluate host (n - 1)) frame operands) s).2.console := by
  rw [formParts_call hs]
  refine chained_followedBy (e := ⟨n, head, frame, s⟩) (fun fn t hhead => ?_) fun f t hhead => ?_
  · rw [Run.bind_ok hhead]
    exact chained_inOrder (n - 1) frame operands t
  · rw [Run.bind_error hhead]

theorem parts_of_no_application {e : Evaluation} (h : e.application? host = none) :
    e.parts host = e.formParts host ∧ e.ownPerformance? host = none := by
  rw [parts, ownPerformance?, h]
  exact ⟨List.append_nil _, rfl⟩

theorem exists_chained_call {n frame : Nat} {head : Value} (operands : List Value) (s : State)
    (hs : head.specialForm? = none) :
    let e : Evaluation := ⟨n + 1, .list (head :: operands), frame, s⟩
    ∃ m, Chained host s.console (e.parts host) m ∧
      Performance.MoveAll (e.ownPerformance? host).toList m (e.final host).console := by
  intro e
  have hform := chained_operands host n frame operands s hs
  have hfinal : e.final host = (evaluate host (n + 1) (.list (head :: operands)) frame s).2 := rfl
  rw [evaluate_call host n hs] at hfinal
  -- The parts of the call end at the first one without a value, and only if there is none is something
  -- applied.
  rcases hhead : evaluate host n head frame s with ⟨f | fn, s₁⟩
  · have hnone : e.application? host = none := by simp only [e, application?, hs, hhead]
    obtain ⟨hparts, hown⟩ := parts_of_no_application hnone
    rw [hparts, hown, hfinal, Run.bind_error hhead]
    rw [Run.bind_error hhead] at hform
    exact ⟨_, hform, .nil⟩
  rw [Run.bind_ok hhead] at hform hfinal
  rcases hoperands : evaluateAll (evaluate host (n - 1)) frame operands s₁ with ⟨f | args, s₂⟩
  · have hnone : e.application? host = none := by simp only [e, application?, hs, hhead, hoperands]
    obtain ⟨hparts, hown⟩ := parts_of_no_application hnone
    rw [hparts, hown, hfinal, Run.bind_error hoperands]
    rw [hoperands] at hform
    exact ⟨_, hform, .nil⟩
  · have happ : e.Applies host (n - 1) fn args s₂ := .intro hs hhead hoperands
    obtain ⟨m, hparts, hown⟩ := happ.exists_chained
    rw [hoperands] at hform
    rw [parts, happ.application?_eq]
    exact ⟨m, hform.append hparts, hown⟩

/-- An evaluation goes through its parts, each from where the one before has stopped, and then does what
it does itself. -/
theorem exists_chained (e : Evaluation) :
    ∃ m, Chained host e.state.console (e.parts host) m ∧
      Performance.MoveAll (e.ownPerformance? host).toList m (e.final host).console := by
  obtain ⟨frames, form, frame, s⟩ := e
  cases frames with
  | zero => exact ⟨s.console, rfl, .nil⟩
  | succ n =>
    cases form with
    | list items =>
      cases items with
      | nil => exact ⟨s.console, rfl, .nil⟩
      | cons head rest =>
        cases hs : head.specialForm? with
        | none => exact exists_chained_call rest s hs
        | some special =>
          have hnone : application? host ⟨n + 1, .list (head :: rest), frame, s⟩ = none := by
            simp only [application?, hs]
          obtain ⟨hparts, hown⟩ := parts_of_no_application hnone
          rw [hparts, hown, formParts_special hs, final, run, evaluate_special host n hs]
          exact ⟨_, chained_special (n - 1) frame special rest s, .nil⟩
    | symbol name => exact ⟨_, chained_nil (Run.quiet_lookup frame name) s, .nil⟩
    | _ => exact ⟨s.console, rfl, .nil⟩

theorem Chained.moveAll {bs : List Evaluation} {c d : Console} (h : Chained host c bs d)
    (hbs : ∀ b ∈ bs, Performance.MoveAll (b.performances host) b.state.console (b.final host).console) :
    Performance.MoveAll (bs.flatMap (performances host)) c d := by
  induction bs generalizing c with
  | nil =>
    cases h
    exact .nil
  | cons b bs ih =>
    obtain ⟨hb, hrest⟩ := List.forall_mem_cons.mp hbs
    obtain ⟨rfl, h⟩ := h
    rw [List.flatMap_cons]
    exact hb.append (ih h hrest)

/-- The primitives that are run during an evaluation lead from the console at its start to the one at its
end. -/
theorem moveAll_performances (e : Evaluation) :
    Performance.MoveAll (e.performances host) e.state.console (e.final host).console := by
  induction e using Starts.induction host with
  | step e ih =>
    obtain ⟨m, hparts, hown⟩ := e.exists_chained
    rw [performances_eq]
    exact (hparts.moveAll fun b hb => ih b (mem_parts_iff.mp hb)).append hown

end Evaluation

/-- Evaluation uses the streams once for each primitive that is run, and in the order in which they are
run.  The list of them leaves none out and has none besides, whatever closures are called, forms evaluated
and files used on the way; what it tells about the streams at the end is all that has happened to them,
and each primitive that writes or takes a line found them as those before it in the list left them. -/
theorem evaluate_uses_streams_in_order (host : Host) (frames : Nat) (form : Value) (frame : Nat)
    (s : State) :
    let e : Evaluation := ⟨frames, form, frame, s⟩
    let done := e.performances host
    (∀ p, p ∈ done ↔ ∃ c, Relation.ReflTransGen (Evaluation.Starts host) e c ∧ c.Runs host p) ∧
      s.console.Recounts done (evaluate host frames form frame s).2.console ∧
      ∀ before p after, done = before ++ p :: after → p.op = .putstr ∨ p.op = .readline →
        s.console.Recounts before p.state.console := by
  intro e done
  have hmoves : Performance.MoveAll done s.console (evaluate host frames form frame s).2.console :=
    e.moveAll_performances
  refine ⟨fun p => Evaluation.mem_performances_iff, hmoves.recounts, ?_⟩
  intro before p after hdone hop
  rw [hdone] at hmoves
  exact hmoves.recounts_before hop

end SmallLisp
