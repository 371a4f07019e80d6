import SmallLisp.CommandLine.Program
import SmallLisp.Proofs.Interpreter.Faults

/-!
How a program that is given one file or one piece of code ends.

Such a program runs its prelude and then the file or the code.  Either can fail (`Fails`), and what
becomes of the fault depends on the stage: it is reported on the error output and the status is one, or
it escapes (`Stage.Escapes`).  Evaluation itself shows nothing on the error output, as it leaves only
debug records in the journal (`callEffect_silent`).

Both outputs take every text, and no file or directory is forbidden.  A value that the output could not
encode, or a directory that may not be searched, would be one more thing to escape.
-/

namespace SmallLisp
namespace CommandLine

/-! ## The arguments -/

/-- The arguments are a file alone or code alone, neither of which begins with a dash. -/
inductive Plain : List Text → Task → Prop
  | file {name : Text} : name.head? ≠ some (.char '-') → Plain [name] (.file (.ofText name))
  | code {code : Text} : code.head? ≠ some (.char '-') → Plain ["-e", code] (.evaluate code)

theorem ne_endMark {t : Text} (h : t.head? ≠ some (.char '-')) : t ≠ endMark := by
  rintro rfl
  exact h rfl

theorem shapes_operand {t : Text} (h : t.head? ≠ some (.char '-')) : shapes [t] = [(t, .operand)] := by
  have hmark := ne_endMark h
  simp [shapes, shapeOf, hmark, h]

theorem parse_file {name : Text} (h : name.head? ≠ some (.char '-')) :
    parse [name] = .run ⟨some name, none, none⟩ := by
  have hmark := ne_endMark h
  simp [parse, shapes_operand h, ambiguity?, collect, takeOperands, Progress.start, fileOperands,
    Progress.finish, hmark]

theorem parse_code {code : Text} (h : code.head? ≠ some (.char '-')) :
    parse ["-e", code] = .run ⟨none, some (.text code), none⟩ := by
  have hmark := ne_endMark h
  have hshapes : shapes ["-e", code] = (("-e" : Text), .option .eval true none) :: shapes [code] := rfl
  simp [parse, hshapes, shapes_operand h, ambiguity?, collect, takeOperands, Progress.start, fileOperands,
    Progress.finish, Progress.setValue, OptionValue.ofText, Flag.takesValue, hmark]

theorem Plain.exists_options {arguments : List Text} {task : Task} (h : Plain arguments task) :
    ∃ options : Options, parse arguments = .run options ∧ options.task = task ∧
      options.logFile = none := by
  cases h with
  | file h => exact ⟨_, parse_file h, rfl, rfl⟩
  | code h => exact ⟨_, parse_code h, rfl, rfl⟩

/-- The surroundings of a program without a log file, and with the usual limit and log level. -/
def Invocation.setup (inv : Invocation) (time : Text) : Setup :=
  let settings := Settings.ofVariables inv.environmentVariables
  { host := ⟨inv.files, settings.searchPath, some ⟨.warning, none⟩, time⟩,
    frames := Limit.default.available,
    prelude := settings.prelude }

/-- The state in which a program starts. -/
def Invocation.start (inv : Invocation) : State := ⟨.empty, .start inv.input, []⟩

theorem run_eq_of_plain {inv : Invocation} {task : Task} (time : Text)
    (hplain : Plain inv.arguments task)
    (hlevel : (Settings.ofVariables inv.environmentVariables).logLevel = .warning)
    (hlimit : (Settings.ofVariables inv.environmentVariables).frameLimit = none) :
    let r := runNew (inv.setup time) inv.lineEditing task inv.start
    (run inv time).ending = (match r.1 with | .ok ending => ending | .error f => .fault f) ∧
      (run inv time).errors = shownNotices (inv.setup time).host r.2.journal := by
  obtain ⟨options, hparse, htask, hlog⟩ := hplain.exists_options
  have hplan : plan (.ofVariables inv.environmentVariables) options inv.files time =
      (inv.files, .ok (inv.setup time)) := by
    simp [plan, sinksOf, hlog, Log.Sinks.ofNames, Log.setUp, limitOf, hlimit, hlevel, Except.map,
      Invocation.setup]
  simp only [run, hparse, execute, hplan, htask]
  exact ⟨rfl, rfl⟩

/-! ## What the error output shows -/

/-- The error output shows the same after a run as before it. -/
def Silent (host : Host) (_frame : Nat) (s t : State) : Prop :=
  shownNotices host t.journal = shownNotices host s.journal

theorem shownNotices_cons (host : Host) (n : Notice) (journal : Journal) :
    shownNotices host (n :: journal) = shownNotices host journal ++ shownNotice host n := by
  simp [shownNotices]

/-- The console of the host shows warnings and what is more important. -/
def ShowsWarnings (host : Host) : Prop := ∃ file, host.sinks = some ⟨.warning, file⟩

theorem shownNotice_debug {host : Host} (h : ShowsWarnings host) (logger message : Text) :
    shownNotice host (.record ⟨logger, .debug, message⟩) = "" := by
  obtain ⟨file, hsinks⟩ := h
  have hlevel : ¬Level.warning ≤ Level.debug := by decide
  simp only [shownNotice, Log.shownOnConsole, hsinks]
  cases Log.isOwn logger <;> simp [hlevel]

theorem callEffect_silent {host : Host} (h : ShowsWarnings host) : CallEffect (Silent host) where
  refl _ _ := rfl
  trans hst htu := htu.trans hst
  define _ _ _ _ := rfl
  identity _ _ := rfl
  console _ _ _ := rfl
  note frame logger message s := by
    rw [Silent, shownNotices_cons, shownNotice_debug h]
    exact List.append_nil _
  call hst := hst

theorem Silent.of_journal_eq {host : Host} {frame : Nat} {s t : State} (h : t.journal = s.journal) :
    Silent host frame s t := by
  rw [Silent, h]

theorem journal_onStore {α : Type} (f : Store → α × Store) (s : State) :
    (Run.onStore f s).2.journal = s.journal := rfl

section Runs

variable {setup : Setup} (h : ShowsWarnings setup.host) (i : Interpreter)

include h

theorem silent_load (p : Path) : (i.load setup p).Within (Silent setup.host i.frame) := by
  have heffect := callEffect_silent h
  refine heffect.bind (heffect.log _ _) fun _ => ?_
  refine heffect.bind (heffect.quiet (Run.quiet_fileText _ p)) fun text => ?_
  cases text with
  | error e => exact heffect.quiet (Run.quiet_fault _)
  | ok text =>
    exact heffect.evaluateReading (heffect.evaluate_within setup.host setup.frames) (read text)

theorem silent_create : (Interpreter.create setup .file none none).Within (Silent setup.host 0) := by
  have heffect := callEffect_silent h
  refine heffect.bind (fun s => .of_journal_eq (journal_onStore _ s)) fun frame => ?_
  refine heffect.bind (fun s => .of_journal_eq (journal_onStore _ s)) fun _ => ?_
  refine heffect.bind (fun s => .of_journal_eq rfl) fun _ => ?_
  refine heffect.bind ?_ fun _ => heffect.quiet (Run.quiet_pure _)
  simp only [Interpreter.runPrelude]
  cases setup.prelude with
  | none => exact heffect.quiet (Run.quiet_pure ())
  | some p => exact heffect.bind (silent_load h _ p) fun _ => heffect.quiet (Run.quiet_pure ())

theorem silent_printAll (code : Text) :
    (Repl.printAll setup i code).Within (Silent setup.host i.frame) := by
  have heffect := callEffect_silent h
  have hvalue (v : Value) : (Repl.printValue setup.frames v).Within (Silent setup.host i.frame) := by
    unfold Repl.printValue
    split
    · exact heffect.quiet (Run.quiet_pure ())
    · exact heffect.bind (heffect.quiet (Run.quiet_shown _ _)) fun _ s => .of_journal_eq rfl
  have heach (forms : List Value) :
      (Repl.printEach setup i.frame forms).Within (Silent setup.host i.frame) := by
    induction forms with
    | nil => exact heffect.quiet (Run.quiet_pure ())
    | cons e es ih =>
      refine heffect.bind (heffect.evaluate_within setup.host setup.frames e i.frame) fun v => ?_
      exact heffect.bind (hvalue v) fun _ => ih
  refine heffect.bind (heach _) fun _ => ?_
  cases (read code).error with
  | none => exact heffect.quiet (Run.quiet_pure ())
  | some e => exact heffect.quiet (Run.quiet_fail _)

end Runs

/-! ## Where code fails -/

section Printing

variable {setup : Setup} {i : Interpreter} {code : Text} {f : Fault} {s t : State}

/-- The code fails: one of its forms does, a value is too deep to be printed, or the reader fails after
the last form. -/
inductive CodeFails (setup : Setup) (i : Interpreter) (code : Text) (s : State) : Fault → State → Prop
  | form {before after : List Value} {form : Value} {f : Fault} {t u : State} :
    (read code).forms = before ++ form :: after →
    Repl.printEach setup i.frame before s = (.ok (), t) →
    setup.evaluator form i.frame t = (.error f, u) → CodeFails setup i code s f u
  | value {before after : List Value} {form v : Value} {t u : State} :
    (read code).forms = before ++ form :: after →
    Repl.printEach setup i.frame before s = (.ok (), t) →
    setup.evaluator form i.frame t = (.ok v, u) → v ≠ .unspecified →
    v.rendersWithin setup.frames = false → CodeFails setup i code s .overflow u
  | reader {e : SyntaxError} {t : State} :
    Repl.printEach setup i.frame (read code).forms s = (.ok (), t) → (read code).error = some e →
    CodeFails setup i code s (.error (.syntaxError e)) t

theorem printEach_append (setup : Setup) (frame : Nat) (forms later : List Value) :
    Repl.printEach setup frame (forms ++ later) =
      Repl.printEach setup frame forms >>= fun _ => Repl.printEach setup frame later := by
  induction forms with
  | nil => rfl
  | cons e es ih =>
    rw [List.cons_append, Repl.printEach, Repl.printEach, Run.bind_assoc]
    congr 1
    funext v
    rw [Run.bind_assoc, ih]

theorem printValue_of_ne {v : Value} (h : v ≠ .unspecified) (frames : Nat) :
    Repl.printValue frames v = Run.shown frames v >>= fun text => Repl.print (text ++ "\n") := by
  cases v with
  | unspecified => exact absurd rfl h
  | _ => rfl

/-- Printing fails only by overflow, at a value that is too deep. -/
theorem printValue_eq_error_iff {frames : Nat} {v : Value} :
    Repl.printValue frames v s = (.error f, t) ↔
      v ≠ .unspecified ∧ v.rendersWithin frames = false ∧ f = .overflow ∧ t = s := by
  by_cases hv : v = .unspecified
  · subst hv
    exact ⟨nofun, fun h => absurd rfl h.1⟩
  rw [printValue_of_ne hv]
  cases hdeep : v.rendersWithin frames with
  | true =>
    have hshown : Run.shown frames v s = (.ok v.render, s) := by
      rw [Run.shown, if_pos hdeep]
      rfl
    rw [Run.bind_ok hshown]
    exact ⟨nofun, nofun⟩
  | false =>
    have hshown : Run.shown frames v s = (.error .overflow, s) := by
      rw [Run.shown, if_neg (by simp [hdeep])]
      rfl
    rw [Run.bind_error hshown]
    constructor
    · intro h
      cases h
      exact ⟨hv, rfl, rfl, rfl⟩
    · rintro ⟨-, -, rfl, rfl⟩
      rfl

theorem exists_of_printEach {forms : List Value} {frame : Nat}
    (h : Repl.printEach setup frame forms s = (.error f, t)) :
    ∃ before form after u, forms = before ++ form :: after ∧
      Repl.printEach setup frame before s = (.ok (), u) ∧
      (setup.evaluator form frame u = (.error f, t) ∨
        ∃ v, setup.evaluator form frame u = (.ok v, t) ∧ v ≠ .unspecified ∧
          v.rendersWithin setup.frames = false ∧ f = .overflow) := by
  induction forms generalizing s with
  | nil => cases h
  | cons e es ih =>
    rw [Repl.printEach] at h
    rcases hvalue : setup.evaluator e frame s with ⟨g | v, u⟩
    · rw [Run.bind_error hvalue] at h
      cases h
      exact ⟨[], e, es, s, rfl, rfl, .inl hvalue⟩
    · rw [Run.bind_ok hvalue] at h
      rcases hprint : Repl.printValue setup.frames v u with ⟨g | _, w⟩
      · rw [Run.bind_error hprint] at h
        cases h
        obtain ⟨hv, hdeep, rfl, rfl⟩ := printValue_eq_error_iff.mp hprint
        exact ⟨[], e, es, s, rfl, rfl, .inr ⟨v, hvalue, hv, hdeep, rfl⟩⟩
      · rw [Run.bind_ok hprint] at h
        obtain ⟨before, form, after, x, rfl, hbefore, hform⟩ := ih h
        refine ⟨e :: before, form, after, x, rfl, ?_, hform⟩
        rw [Repl.printEach, Run.bind_ok hvalue, Run.bind_ok hprint, hbefore]

theorem CodeFails.printAll_eq (h : CodeFails setup i code s f t) :
    Repl.printAll setup i code s = (.error f, t) := by
  cases h with
  | form hsplit hbefore hform =>
    rw [Repl.printAll, hsplit, printEach_append, Run.bind_assoc, Run.bind_ok hbefore]
    exact Run.bind_error (Run.bind_error hform)
  | @value before after form v u _ hsplit hbefore hform hv hdeep =>
    have hvalue : Repl.printValue setup.frames v t = (.error .overflow, t) :=
      printValue_eq_error_iff.mpr ⟨hv, hdeep, rfl, rfl⟩
    rw [Repl.printAll, hsplit, printEach_append, Run.bind_assoc, Run.bind_ok hbefore]
    exact Run.bind_error ((Run.bind_ok hform).trans (Run.bind_error hvalue))
  | reader hforms herror =>
    rw [Repl.printAll, Run.bind_ok hforms, herror]
    rfl

theorem printAll_eq_error_iff :
    Repl.printAll setup i code s = (.error f, t) ↔ CodeFails setup i code s f t := by
  refine ⟨fun h => ?_, CodeFails.printAll_eq⟩
  rw [Repl.printAll] at h
  rcases hforms : Repl.printEach setup i.frame (read code).forms s with ⟨g | _, u⟩
  · rw [Run.bind_error hforms] at h
    cases h
    obtain ⟨before, form, after, u, hsplit, hbefore, hform | ⟨v, hform, hv, hdeep, rfl⟩⟩ :=
      exists_of_printEach hforms
    · exact .form hsplit hbefore hform
    · exact .value hsplit hbefore hform hv hdeep
  · rw [Run.bind_ok hforms] at h
    cases herror : (read code).error with
    | none =>
      rw [herror] at h
      cases h
    | some e =>
      rw [herror] at h
      cases h
      exact .reader hforms herror

theorem CodeFails.ofEvaluation (h : CodeFails setup i code s f t) : f.OfEvaluation := by
  cases h with
  | form _ _ hform => exact ofEvaluation_of_evaluate hform
  | value => exact .documented (.inl .overflow)
  | reader => exact .documented (.inl (.error _))

end Printing

/-! ## Stages -/

/-- What a program runs. -/
inductive Stage where
  | prelude
  | file
  | code
  deriving DecidableEq

/-- A stage of the program ends in the fault `f`, in the state `t`. -/
inductive Fails (setup : Setup) (s : State) : Task → Stage → Fault → State → Prop
  | prelude {task : Task} {p : Path} {i : Interpreter} {f : Fault} {t u : State} :
    setup.prelude = some p → Interpreter.create setup .nothing none none s = (.ok i, t) →
    i.FileFails setup p (Interpreter.noted p t) f u → Fails setup s task .prelude f u
  | file {p : Path} {i : Interpreter} {f : Fault} {t u : State} :
    Interpreter.create setup .file none none s = (.ok i, t) →
    i.FileFails setup p (Interpreter.noted p t) f u → Fails setup s (.file p) .file f u
  | code {code : Text} {i : Interpreter} {f : Fault} {t u : State} :
    Interpreter.create setup .file none none s = (.ok i, t) → CodeFails setup i code t f u →
    Fails setup s (.evaluate code) .code f u

namespace Stage

/-- The faults that are not reported: the wish to end, an interrupt and a path that cannot be used at
any stage; overflow of the prelude; a file that is not decodable, be it the prelude or the program; and in
code a path that is too long. -/
inductive Escapes : Stage → Fault → Prop
  | exit (stage : Stage) (status : Int) : Escapes stage (.exit status)
  | interrupt (stage : Stage) : Escapes stage .interrupt
  | invalidPath (stage : Stage) (reason : Path.Invalid) : Escapes stage (.invalidPath reason)
  | overflow : Escapes .prelude .overflow
  | undecodable {stage : Stage} (h : stage ≠ .code) (malformed : Utf8.Malformed) :
    Escapes stage (.file (.undecodable malformed))
  | tooLong (path : Text) : Escapes .code (.file (.nameTooLong path))

/-- What a stage reports of a fault, if it does. -/
def message? : Stage → Fault → Option Text
  | .prelude, f => fileMessage? f
  | .file, .overflow => some Fault.overflow.describe
  | .file, f => fileMessage? f
  | .code, .error e => some e.message
  | .code, .overflow => some Fault.overflow.describe
  | .code, _ => none

theorem Escapes.message?_eq {stage : Stage} {f : Fault} (h : stage.Escapes f) :
    stage.message? f = none := by
  cases h with
  | exit | interrupt | invalidPath => cases stage <;> rfl
  | overflow | tooLong => rfl
  | undecodable hcode =>
    cases stage with
    | code => exact absurd rfl hcode
    | prelude | file => rfl

/-- The faults that can arise at a stage. -/
def Possible (stage : Stage) (f : Fault) : Prop :=
  f.OfEvaluation ∨ stage ≠ .code ∧ ∃ e, f = .file e

theorem Possible.message?_eq {stage : Stage} {f : Fault} (h : stage.Possible f)
    (hescapes : ¬stage.Escapes f) : stage.message? f = some f.describe := by
  rcases h with hevaluation | ⟨hcode, e, rfl⟩
  · cases hevaluation with
    | documented hdocumented =>
      rcases hdocumented with hordinary | rfl
      · cases hordinary with
        | error e => cases stage <;> rfl
        | exit status => exact absurd (.exit stage status) hescapes
        | overflow =>
          cases stage with
          | prelude => exact absurd .overflow hescapes
          | file | code => rfl
      · exact absurd (.interrupt stage) hescapes
    | invalidPath reason => exact absurd (.invalidPath stage reason) hescapes
    | tooLong path =>
      cases stage with
      | code => exact absurd (.tooLong path) hescapes
      | prelude | file => rfl
  · cases e with
    | undecodable malformed => exact absurd (.undecodable hcode malformed) hescapes
    | missing | notDirectory | isDirectory | nameTooLong =>
      cases stage with
      | code => exact absurd rfl hcode
      | prelude | file => rfl

end Stage

/-! ## What becomes of a fault -/

/-- The state after a report. -/
def reported (message : Text) (s : State) : State := (Repl.report message s).2

theorem shownNotices_reported {host : Host} (h : ShowsWarnings host) (message : Text) (s : State) :
    shownNotices host (reported message s).journal =
      shownNotices host s.journal ++ ("error: " ++ message ++ "\n") := by
  have hjournal : (reported message s).journal =
      .record ⟨Repl.logger, .debug, "evaluation failed"⟩ :: .line ("error: " ++ message ++ "\n") ::
        s.journal := rfl
  rw [hjournal, shownNotices_cons, shownNotices_cons, shownNotice_debug h]
  exact List.append_nil _

/-- The end of a program of which a stage ends in a fault. -/
def Stage.ends (stage : Stage) (f : Fault) (t : State) : Except Fault Ending × State :=
  match stage.message? f with
  | some message => (.ok (.status 1), reported message t)
  | none => (.error f, t)

section Ends

variable {setup : Setup} {lineEditing : Bool} {i : Interpreter} {task : Task} {stage : Stage} {f : Fault}
  {s t u : State}

theorem newInterpreter_of_ok (h : Interpreter.create setup .file none none s = (.ok i, t)) :
    newInterpreter setup s = (.ok (some i), t) := by
  rw [newInterpreter, Run.bind_ok (Run.outcome_of_run h)]
  rfl

theorem runNew_of_ok (h : Interpreter.create setup .file none none s = (.ok i, t)) :
    runNew setup lineEditing task s = runTask setup lineEditing i task t := by
  rw [runNew, Run.bind_ok (newInterpreter_of_ok h)]

theorem runNew_of_prelude (h : Interpreter.create setup .file none none s = (.error f, t)) :
    runNew setup lineEditing task s = Stage.prelude.ends f t := by
  rw [runNew, newInterpreter, Run.bind_assoc, Run.bind_ok (Run.outcome_of_run h)]
  simp only [Stage.ends, Stage.message?]
  cases fileMessage? f <;> rfl

theorem runTask_file {p : Path} (h : i.load setup p t = (.error f, u)) :
    runTask setup lineEditing i (.file p) t = Stage.file.ends f u := by
  rw [runTask, runFile, Run.bind_assoc, Run.bind_ok (Run.outcome_of_run h)]
  cases f with
  | error | exit | overflow | interrupt | inputFailed | invalidPath | listName => rfl
  | file e => cases e <;> rfl

theorem runTask_code {code : Text} (h : Repl.printAll setup i code t = (.error f, u)) :
    runTask setup lineEditing i (.evaluate code) t = Stage.code.ends f u := by
  rw [runTask, Repl.evalAndPrint, Run.bind_assoc, Run.bind_ok (Run.outcome_of_run h)]
  cases f <;> rfl

theorem Fails.runNew_eq (h : Fails setup s task stage f t) :
    runNew setup lineEditing task s = stage.ends f t := by
  cases h with
  | prelude hprelude hcreate hfails =>
    exact runNew_of_prelude (Interpreter.create_eq_error_iff.mpr ⟨_, _, _, hprelude, hcreate, hfails⟩)
  | file hcreate hfails => rw [runNew_of_ok hcreate, runTask_file hfails.load_eq]
  | code hcreate hfails => rw [runNew_of_ok hcreate, runTask_code hfails.printAll_eq]

/-- A stage fails, or the status is zero. -/
theorem runNew_cases {arguments : List Text} (hplain : Plain arguments task) (s : State)
    (h : ShowsWarnings setup.host) :
    (∃ stage f t, Fails setup s task stage f t) ∨
      ∃ t, runNew setup lineEditing task s = (.ok (.status 0), t) ∧ Silent setup.host 0 s t := by
  have hsilent := silent_create h s
  rcases hcreate : Interpreter.create setup .file none none s with ⟨f | i, t⟩
  · obtain ⟨p, i, u, hprelude, hnothing, hfails⟩ := Interpreter.create_eq_error_iff.mp hcreate
    exact .inl ⟨_, f, t, .prelude hprelude hnothing hfails⟩
  rw [hcreate] at hsilent
  cases hplain with
  | @file name _ =>
    have hrest := silent_load h i (.ofText name) t
    rcases hload : i.load setup (.ofText name) t with ⟨f | v, u⟩
    · exact .inl ⟨_, f, u, .file hcreate (Interpreter.load_eq_error_iff.mp hload)⟩
    · rw [hload] at hrest
      refine .inr ⟨u, ?_, hrest.trans hsilent⟩
      rw [runNew_of_ok hcreate, runTask, runFile, Run.bind_assoc,
        Run.bind_ok (Run.outcome_of_run hload)]
      rfl
  | @code code _ =>
    have hrest := silent_printAll h i code t
    rcases hprint : Repl.printAll setup i code t with ⟨f | _, u⟩
    · exact .inl ⟨_, f, u, .code hcreate (printAll_eq_error_iff.mp hprint)⟩
    · rw [hprint] at hrest
      refine .inr ⟨u, ?_, hrest.trans hsilent⟩
      rw [runNew_of_ok hcreate, runTask, Repl.evalAndPrint, Run.bind_assoc,
        Run.bind_ok (Run.outcome_of_run hprint)]
      rfl

theorem Fails.silent (h : Fails setup s task stage f t) (hhost : ShowsWarnings setup.host) :
    Silent setup.host 0 s t := by
  have hsilent := silent_create hhost s
  cases h with
  | prelude hprelude hcreate hfails =>
    have hfile := Interpreter.create_eq_error_iff.mpr ⟨_, _, _, hprelude, hcreate, hfails⟩
    rw [hfile] at hsilent
    exact hsilent
  | @file p i f t u hcreate hfails =>
    have hrest := silent_load hhost i p t
    rw [hfails.load_eq] at hrest
    rw [hcreate] at hsilent
    exact hrest.trans hsilent
  | @code code i f t u hcreate hfails =>
    have hrest := silent_printAll hhost i code t
    rw [hfails.printAll_eq] at hrest
    rw [hcreate] at hsilent
    exact hrest.trans hsilent

theorem Fails.possible (h : Fails setup s task stage f t) : stage.Possible f := by
  cases h with
  | prelude _ _ hfails => exact hfails.possible.imp id fun hfile => ⟨nofun, hfile⟩
  | file _ hfails => exact hfails.possible.imp id fun hfile => ⟨nofun, hfile⟩
  | code _ hfails => exact .inl hfails.ofEvaluation

end Ends

section Main

variable {inv : Invocation} {time : Text} {task : Task} {stage : Stage} {f : Fault} {t : State}

theorem showsWarnings_setup (inv : Invocation) (time : Text) : ShowsWarnings (inv.setup time).host :=
  ⟨none, rfl⟩

/-- How the program ends and what the error output shows. -/
def EndsWith (inv : Invocation) (time : Text) (ending : Ending) (errors : Text) : Prop :=
  (run inv time).ending = ending ∧ (run inv time).errors = errors

/-- The arguments are plain, and the settings for the log and the limit are the usual ones. -/
structure Usual (inv : Invocation) (task : Task) : Prop where
  plain : Plain inv.arguments task
  level : (Settings.ofVariables inv.environmentVariables).logLevel = .warning
  limit : (Settings.ofVariables inv.environmentVariables).frameLimit = none

theorem Usual.endsWith_status (h : Usual inv task)
    (hfails : Fails (inv.setup time) inv.start task stage f t) (hescapes : ¬stage.Escapes f) :
    EndsWith inv time (.status 1) ("error: " ++ f.describe ++ "\n") := by
  obtain ⟨hending, herrors⟩ := run_eq_of_plain time h.plain h.level h.limit
  have hshows := showsWarnings_setup inv time
  have hends : runNew (inv.setup time) inv.lineEditing task inv.start =
      (.ok (.status 1), reported f.describe t) := by
    rw [hfails.runNew_eq, Stage.ends, hfails.possible.message?_eq hescapes]
  rw [hends] at hending herrors
  refine ⟨hending, ?_⟩
  rw [herrors, shownNotices_reported hshows, hfails.silent hshows]
  rfl

theorem Usual.endsWith_fault (h : Usual inv task)
    (hfails : Fails (inv.setup time) inv.start task stage f t) (hescapes : stage.Escapes f) :
    EndsWith inv time (.fault f) "" := by
  obtain ⟨hending, herrors⟩ := run_eq_of_plain time h.plain h.level h.limit
  have hends : runNew (inv.setup time) inv.lineEditing task inv.start = (.error f, t) := by
    rw [hfails.runNew_eq, Stage.ends, hescapes.message?_eq]
  rw [hends] at hending herrors
  exact ⟨hending, herrors.trans (hfails.silent (showsWarnings_setup inv time))⟩

theorem Usual.endsWith_zero (h : Usual inv task)
    (hfails : ∀ stage f t, ¬Fails (inv.setup time) inv.start task stage f t) :
    EndsWith inv time (.status 0) "" := by
  obtain ⟨hending, herrors⟩ := run_eq_of_plain time h.plain h.level h.limit
  rcases runNew_cases h.plain inv.start (showsWarnings_setup inv time) with
    ⟨stage, f, t, hfail⟩ | ⟨t, hends, hsilent⟩
  · exact absurd hfail (hfails stage f t)
  · rw [hends] at hending herrors
    exact ⟨hending, herrors.trans hsilent⟩

theorem Usual.endsWith_cases (h : Usual inv task) (time : Text) :
    ((∀ stage f t, ¬Fails (inv.setup time) inv.start task stage f t) ∧
        EndsWith inv time (.status 0) "") ∨
      ∃ stage f t, Fails (inv.setup time) inv.start task stage f t ∧
        (stage.Escapes f ∧ EndsWith inv time (.fault f) "" ∨
          ¬stage.Escapes f ∧ EndsWith inv time (.status 1) ("error: " ++ f.describe ++ "\n")) := by
  by_cases hfails : ∃ stage f t, Fails (inv.setup time) inv.start task stage f t
  · obtain ⟨stage, f, t, hfail⟩ := hfails
    refine .inr ⟨stage, f, t, hfail, ?_⟩
    by_cases hescapes : stage.Escapes f
    · exact .inl ⟨hescapes, h.endsWith_fault hfail hescapes⟩
    · exact .inr ⟨hescapes, h.endsWith_status hfail hescapes⟩
  · have hnone : ∀ stage f t, ¬Fails (inv.setup time) inv.start task stage f t :=
      fun stage f t hfail => hfails ⟨stage, f, t, hfail⟩
    exact .inl ⟨hnone, h.endsWith_zero hnone⟩

/-- A program with one file or one piece of code has the status zero exactly if neither its prelude nor
the file or the code fails, and the status one exactly if one of them fails with a fault that does not
escape; the error output then shows that fault.  A fault that escapes is how the program ends, and then,
as after success, the error output is empty.  The outputs take every text that is printed, and the files
are those of a file tree, with nothing forbidden. -/
theorem status_of_usual (inv : Invocation) (time : Text) (task : Task) (h : Usual inv task) :
    ((run inv time).ending = .status 0 ↔
        ∀ stage f t, ¬Fails (inv.setup time) inv.start task stage f t) ∧
      ((run inv time).ending = .status 1 ↔
        ∃ stage f t, Fails (inv.setup time) inv.start task stage f t ∧ ¬stage.Escapes f) ∧
      (∀ f, (run inv time).ending = .fault f ↔
        ∃ stage t, Fails (inv.setup time) inv.start task stage f t ∧ stage.Escapes f) ∧
      (∀ stage f t, Fails (inv.setup time) inv.start task stage f t → ¬stage.Escapes f →
        (run inv time).errors = "error: " ++ f.describe ++ "\n") ∧
      ((run inv time).ending ≠ .status 1 → (run inv time).errors = "") := by
  have hfault {stage f t} (hfail : Fails (inv.setup time) inv.start task stage f t)
      (hescapes : stage.Escapes f) := h.endsWith_fault hfail hescapes
  have hstatus {stage f t} (hfail : Fails (inv.setup time) inv.start task stage f t)
      (hescapes : ¬stage.Escapes f) := h.endsWith_status hfail hescapes
  refine ⟨⟨fun hzero stage f t hfail => ?_, fun hnone => (h.endsWith_zero hnone).1⟩,
    ⟨fun hone => ?_, ?_⟩, fun f => ⟨fun hf => ?_, ?_⟩, ?_, fun hone => ?_⟩
  · by_cases hescapes : stage.Escapes f
    · cases hzero.symm.trans (hfault hfail hescapes).1
    · cases hzero.symm.trans (hstatus hfail hescapes).1
  · rcases h.endsWith_cases time with
      ⟨-, hends⟩ | ⟨stage, f, t, hfail, ⟨-, hends⟩ | ⟨hescapes, -⟩⟩
    · cases hone.symm.trans hends.1
    · cases hone.symm.trans hends.1
    · exact ⟨stage, f, t, hfail, hescapes⟩
  · rintro ⟨stage, f, t, hfail, hescapes⟩
    exact (hstatus hfail hescapes).1
  · rcases h.endsWith_cases time with
      ⟨-, hends⟩ | ⟨stage, g, t, hfail, ⟨hescapes, hends⟩ | ⟨-, hends⟩⟩
    · cases hf.symm.trans hends.1
    · cases hf.symm.trans hends.1
      exact ⟨stage, t, hfail, hescapes⟩
    · cases hf.symm.trans hends.1
  · rintro ⟨stage, t, hfail, hescapes⟩
    exact (hfault hfail hescapes).1
  · exact fun stage f t hfail hescapes => (hstatus hfail hescapes).2
  · rcases h.endsWith_cases time with
      ⟨-, hends⟩ | ⟨stage, f, t, -, ⟨-, hends⟩ | ⟨-, hends⟩⟩
    · exact hends.2
    · exact hends.2
    · exact absurd hends.1 hone

end Main

/-- A program with these arguments, one file and perhaps a prelude, and no input. -/
def invocation (arguments : List Text) (name : Text) (content : List UInt8) (prelude : Option Text) :
    Invocation :=
  ⟨arguments, (prelude.map fun p => (("CALLISP_PRELUDE" : Text), p)).toList,
    ⟨[], [([Utf8.toName name], .file content)]⟩, [], false⟩

theorem status_of_usual_unbound :
    let inv := invocation ["-e", "1 (a)"] "p" (Utf8.toName "(def b 2)") (some "p")
    (run inv "now").ending = .status 1 ∧ (run inv "now").output = "1\n" ∧
      ∃ f : Fault, (run inv "now").errors = "error: " ++ f.describe ++ "\n" := by
  intro inv
  have husual : Usual inv (.evaluate "1 (a)") := ⟨.code (by decide), by decide +kernel, by decide +kernel⟩
  have hending : (run inv "now").ending = .status 1 := by decide +kernel
  obtain ⟨-, hone, -, herrors, -⟩ := status_of_usual inv "now" _ husual
  obtain ⟨stage, f, t, hfail, hescapes⟩ := hone.mp hending
  exact ⟨hending, by decide +kernel, f, herrors stage f t hfail hescapes⟩

/-- A program that applies a list in lists, `depth` of them, which is no procedure. -/
def nestApplied (depth : Nat) : Text :=
  "('" ++ List.replicate depth (CodePoint.char '(') ++ List.replicate depth (CodePoint.char ')') ++ ")"

/-- A file that is not decodable is not reported.  Nor is a prelude that overflows, while a file that
overflows is. -/
theorem faults_escape :
    (run (invocation ["u"] "u" [0xff] none) "now").ending =
        .fault (.file (.undecodable ⟨0xff, 0, 1, .invalidStart⟩)) ∧
      (run (invocation ["u"] "u" [0xff] none) "now").errors = "" ∧
      (run (invocation ["-e", "1"] "p" (Utf8.toName (nestApplied 330)) (some "p")) "now").ending =
        .fault .overflow ∧
      (run (invocation ["p"] "p" (Utf8.toName (nestApplied 330)) none) "now").ending = .status 1 := by
  refine ⟨?_, ?_, ?_, ?_⟩ <;> decide +kernel

end CommandLine
end SmallLisp
