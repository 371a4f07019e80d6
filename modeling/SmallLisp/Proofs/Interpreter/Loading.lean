import Mathlib.Order.CompleteBooleanAlgebra
import Mathlib.Order.CompletePartialOrder
import SmallLisp.Interpreter
import SmallLisp.Proofs.Eval.Simulation
import SmallLisp.Proofs.Eval.StackLimit
import SmallLisp.Proofs.Eval.UsedFiles
import SmallLisp.Proofs.Files.Paths
import SmallLisp.Proofs.Interpreter.Faults
import SmallLisp.Proofs.Reader.RoundTrip

/-!
Three ways to run a file.

The file can be used by a form, loaded by its path, or read first and run as a text.  The first two ways
leave a record in the journal before the text is run, and the first one needs some more stack frames.
Where no log file is written, a journal is never looked at (`Interpreter.eval_of_same_state`), so all
three ways end alike.  Where one is written, they still do if none of them reads it (`ways_end_alike`);
a file that reads it can tell them apart.

Which files a run uses, can be seen from its end: each of them is noted in the journal, unless it keeps
the run from going on (`Interpreter.Uses.noted`).
-/

namespace SmallLisp

/-! ## Without a log file -/

namespace Host

variable {host : Host} {p : Path}

/-- The same files, and no log file. -/
def withoutLog (host : Host) : Host := { host with sinks := host.sinks.map Log.Sinks.withoutFile }

/-- The path leads to the log file. -/
def IsLog (host : Host) (p : Path) : Prop :=
  ∃ log, host.logFile? = some log ∧ host.files.leadsTo p log.names = true

instance (host : Host) (p : Path) : Decidable (host.IsLog p) :=
  decidable_of_iff ((host.logFile?.any fun log => host.files.leadsTo p log.names) = true)
    (Option.any_eq_true _ _)

theorem logFile?_withoutLog (host : Host) : host.withoutLog.logFile? = none := by
  unfold logFile? withoutLog
  cases host.sinks <;> rfl

theorem text_of_logFile?_eq_none (h : host.logFile? = none) (journal : Journal) (p : Path) :
    host.text journal p = host.files.text p := by
  unfold text
  rw [h]

theorem text_of_not_isLog (h : ¬host.IsLog p) (journal : Journal) :
    host.text journal p = host.files.text p := by
  unfold text
  cases hlog : host.logFile? with
  | none => rfl
  | some log =>
    have hleads : ¬host.files.leadsTo p log.names = true := fun hleads => h ⟨log, hlog, hleads⟩
    simp only [if_neg hleads]

theorem text_withoutLog (h : ¬host.IsLog p) (journal : Journal) :
    host.text journal p = host.withoutLog.text journal p := by
  rw [text_of_not_isLog h, text_of_logFile?_eq_none host.logFile?_withoutLog]
  rfl

theorem findsAs_withoutLog (host : Host) : host.FindsAs host.withoutLog := fun _ => rfl

end Host

def Setup.withoutLog (setup : Setup) : Setup := { setup with host := setup.host.withoutLog }

/-! ## States that differ in the journal -/

/-- Two runs have ended with the same value or fault, and all is the same but for the journal. -/
structure SameEnd (r r' : Except Fault Value × State) : Prop where
  result : r.1 = r'.1
  store : r.2.store = r'.2.store
  console : r.2.console = r'.2.console

theorem SameEnd.trans {r r' r'' : Except Fault Value × State} (h : SameEnd r r')
    (h' : SameEnd r' r'') : SameEnd r r'' :=
  ⟨h.result.trans h'.result, h.store.trans h'.store, h.console.trans h'.console⟩

theorem SameEnd.symm {r r' : Except Fault Value × State} (h : SameEnd r r') : SameEnd r' r :=
  ⟨h.result.symm, h.store.symm, h.console.symm⟩

namespace Matching

def sameButJournal : Matching Unit where
  states _ s t := s.store = t.store ∧ s.console = t.console
  frames _ := Eq
  identities _ := Eq

theorem lawful_sameButJournal {host : Host} (h : host.logFile? = none) :
    sameButJournal.Lawful host where
  frames_mono _ h := h
  identities_mono _ h := h
  distinct _ := by
    rintro i j i' j' rfl rfl
    exact Iff.rfl
  text p _ := by
    rw [Host.text_of_logFile?_eq_none h, Host.text_of_logFile?_eq_none h]
  input hst := by rw [hst.2]
  lookup {_ s t i j} name hst hij := by
    cases hij
    rw [hst.1]
    cases t.store.lookup? i name with
    | none => exact .none
    | some v => exact .some (Value.alike_eq_refl v)
  define {_ s t i j a b} name hst hij hv := by
    cases hij
    cases hv.eq
    exact ⟨by rw [hst.1], hst.2⟩
  identity {_ s t} hst := by
    refine ⟨(), le_refl _, ⟨?_, hst.2⟩, ?_⟩
    · rw [hst.1]
    · show s.store.identities = t.store.identities
      rw [hst.1]
  extend {_ s t i j as bs} formals hst hij hargs := by
    cases hij
    cases hargs.eq
    refine ⟨(), le_refl _, ⟨?_, hst.2⟩, ?_⟩
    · show (s.store.extend i formals as).2 = (t.store.extend i formals as).2
      rw [hst.1]
    · show s.store.frames.size = t.store.frames.size
      rw [hst.1]
  write text hst := ⟨hst.1, by rw [hst.2]⟩
  take rest hst := ⟨hst.1, by rw [hst.2]⟩
  note _ hst := hst

end Matching

namespace Interpreter

variable {setup : Setup} {i : Interpreter}

theorem eval_of_same_state (h : setup.host.logFile? = none) (source : Text) {s t : State}
    (hstore : s.store = t.store) (hconsole : s.console = t.console) :
    SameEnd (i.eval setup source s) (i.eval setup source t) := by
  have hlawful := Matching.lawful_sameButJournal h
  obtain ⟨_, _, hstates, hends⟩ := hlawful.simulates_evaluateReading (w := ())
    (hlawful.follows_evaluate setup.frames) ⟨hstore, hconsole⟩ (rfl : i.frame = i.frame) source
  exact ⟨hends.eq Value.Alike.eq, hstates.1, hstates.2⟩

/-! ## What a run uses -/

/-- While the interpreter runs the text, the file `p` is used. -/
def Uses (setup : Setup) (i : Interpreter) (source : Text) (s : State) (p : Path) : Prop :=
  ∃ e, Evaluation.OfText setup.host setup.frames i.frame (read source) s e ∧ e.Uses setup.host p

theorem eval_withoutLog {source : Text} {s : State}
    (h : ∀ p, i.Uses setup source s p → ¬setup.host.IsLog p) :
    i.eval setup source s = i.eval setup.withoutLog source s := by
  refine evaluateReading_congr fun before form after last t hforms hbefore => ?_
  refine Evaluation.run_eq_of_uses (e := ⟨setup.frames, form, i.frame, t⟩)
    setup.host.findsAs_withoutLog fun p hp journal => ?_
  exact Host.text_withoutLog (h p ⟨_, .intro hforms hbefore, hp⟩) journal

end Interpreter

/-! ## What the end of a run tells of the files -/

theorem Run.fileText_of_text {host : Host} {p : Path} {text : Text} {s : State}
    (hvalid : p.invalid? = none) (htext : host.text s.journal p = .ok text) :
    fileText host p s = (.ok (.ok text), s) := by
  rw [fileText_of_valid host hvalid, htext]

/-- The logger that a notice is from; the lines of reports are from none. -/
def Notice.logger? : Notice → Option Text
  | .record r => some r.logger
  | .line _ => none

/-- The file `p` cannot be used, and the fault says so. -/
inductive Fault.Blocks (p : Path) : Fault → Prop
  | invalid (reason : Path.Invalid) : Blocks p (.invalidPath reason)
  | unreadable (reason : FileError) : Blocks p (.error (.unreadable p.toText reason))

namespace Interpreter

variable {setup : Setup} {i : Interpreter} {source : Text} {s : State} {p : Path}

/-- A file that a run uses is noted in the journal, or it is what the run ends with. -/
theorem Uses.noted (h : i.Uses setup source s p) :
    Primitive.useNotice p ∈ (i.eval setup source s).2.journal ∨
      ∃ f, f.Blocks p ∧ (i.eval setup source s).1 = .error f := by
  obtain ⟨e, ⟨hforms, hbefore⟩, c, n, id, name, t, hinside, happ, hfind⟩ := h
  have hperforms : i.Performs setup source s c .use [.symbol name] t :=
    ⟨_, n, id, .intro hforms hbefore, hinside, happ⟩
  cases hinvalid : p.invalid? with
  | some reason =>
    obtain rfl := Primitive.invalid?_of_findFile hfind hinvalid
    have hends := eval_undocumented_iff.mpr ⟨c, name, t, hperforms, .invalid hinvalid⟩
    exact .inr ⟨_, .invalid reason, hends.1⟩
  | none =>
    cases htext : setup.host.text t.journal p with
    | error reason =>
      refine .inr ⟨_, .unreadable reason, ?_⟩
      rw [hperforms.eval_unreadable hfind hinvalid htext]
    | ok text =>
      have hnoted := Evaluation.useNotice_mem_final happ hfind (Run.fileText_of_text hinvalid htext)
        hinside
      exact .inl (callEffect_journal.evaluateReading_rest
        (callEffect_journal.evaluate_within setup.host setup.frames) hforms hbefore hnoted)

/-- Without a search path, a file that a run uses without being stopped by it has one of the names that are
noted. -/
theorem Uses.exists_of_notices (h : i.Uses setup source s p) (hsearch : setup.host.searchPath = [])
    (hend : ∀ f, f.Blocks p → (i.eval setup source s).1 ≠ .error f) {names : List Text}
    (hnotices : ∀ n ∈ (i.eval setup source s).2.journal, n.logger? = some Primitive.logger →
      ∃ name ∈ names, n = Primitive.useNotice (.ofText name)) :
    ∃ name ∈ names, p = .ofText name := by
  have hnoted : Primitive.useNotice p ∈ (i.eval setup source s).2.journal := by
    rcases h.noted with hnoted | ⟨f, hblocks, herror⟩
    · exact hnoted
    · exact absurd herror (hend f hblocks)
  obtain ⟨e, -, c, n, id, name, t, -, -, hfind⟩ := h
  obtain rfl := Primitive.eq_ofText_of_findFile hsearch hfind
  obtain ⟨name', hname', heq⟩ := hnotices _ hnoted rfl
  exact ⟨name', hname', Path.ofText_eq_of_toText_eq (Primitive.toText_eq_of_useNotice_eq heq)⟩

end Interpreter

/-! ## The form that uses a file -/

/-- The text of a form that uses the file of a name. -/
def useText (name : Text) : Text := "(use '" ++ name ++ ")"

def useForm (name : Text) : Value :=
  .list [.symbol "use", .list [.symbol "quote", .symbol name]]

theorem read_useText {name : Text} (hname : Token.IsAtom name) (hnumber : Binary64.read? name = none) :
    read (useText name) = ⟨[useForm name], none⟩ := by
  have htext : useText name =
      .char '(' :: (("use" : Text) ++ .char ' ' :: .char '\'' :: (name ++ .char ')' :: [])) := by
    rw [useText, List.append_assoc]
    rfl
  have huse : Token.IsAtom "use" := by decide
  have hspace : Token.Delimited (.char ' ' :: .char '\'' :: (name ++ .char ')' :: [])) :=
    Token.delimited_cons (by decide) _
  have hclosing : Token.Delimited (.char ')' :: []) := Token.delimited_cons (by decide) _
  let column := 1 + 1 + ("use" : Text).length + 1 + 1
  let d : Derivation := .group ⟨.lparen, "(", 1, 1⟩ ⟨.rparen, ")", 1, column + name.length⟩ rfl rfl
    [.atom ⟨.atom, "use", 1, 1 + 1⟩ rfl,
      .quoted ⟨.quote, "'", 1, 1 + 1 + ("use" : Text).length + 1⟩ rfl
        (.atom ⟨.atom, name, 1, column⟩ rfl)]
  have hlex : lex (useText name) = Derivation.tokensAll [d] := by
    rw [Token.lex_eq_scan, htext, Token.Scanner.start, Token.Scanner.scan_opening,
      Token.Scanner.scan_atom huse hspace, Token.Scanner.scan_space, Token.Scanner.scan_quote,
      Token.Scanner.scan_atom hname hclosing, Token.Scanner.scan_closing, Token.Scanner.scan_nil]
    rfl
  have hvalue : d.value = useForm name := by
    show Value.list [.ofAtom "use", .list [.symbol "quote", .ofAtom name]] = _
    rw [Value.ofAtom_symbol hnumber]
    rfl
  rw [read, hlex, Reader.readAll_program, Derivation.valueAll, Derivation.valueAll, hvalue]

theorem evaluateReading_single (ev : Evaluator) (frame : Nat) (form : Value) (s : State) :
    evaluateReading ev frame ⟨[form], none⟩ s = ev form frame s := by
  rcases Run.bind_cases (ev form frame) (fun v => evaluateForms ev frame v []) s with
    ⟨v, t, hv, hb⟩ | ⟨f, t, hf, hb⟩
  · rw [evaluateReading, evaluateForms, Run.bind_ok (hb.trans rfl), hv]
    rfl
  · rw [evaluateReading, evaluateForms, Run.bind_error hb, hf]

/-- With five more stack frames, using a file is noting that and running its text. -/
theorem evaluate_useForm {host : Host} (n : Nat) {frame id : Nat} {name text : Text} {p : Path}
    {s : State} (huse : s.store.lookup? frame "use" = some (.builtin .use id))
    (hfind : Primitive.findFile host name = .ok p)
    (htext : Run.fileText host p s = (.ok (.ok text), s)) :
    evaluate host (n + 5) (useForm name) frame s =
      evaluateReading (evaluate host n) frame (read text)
        { s with journal :=
            .record ⟨Primitive.logger, .debug, "use: evaluating " ++ p.toText⟩ :: s.journal } := by
  have hhead : evaluate host (n + 4) (.symbol "use") frame s = (.ok (.builtin .use id), s) := by
    rw [evaluate_succ]
    simp only [evaluateStep, Run.lookup, huse]
  have hquoted : evaluate host (n + 3) (.list [.symbol "quote", .symbol name]) frame s =
      (.ok (.symbol name), s) := by
    have hspecial : (Value.symbol "quote").specialForm? = some .quote := rfl
    rw [evaluate_special host (n + 2) hspecial]
    rfl
  have hargs : evaluateAll (evaluate host (n + 3)) frame
      [.list [.symbol "quote", .symbol name]] s = (.ok [.symbol name], s) := by
    rw [evaluateAll, Run.bind_ok hquoted]
    rfl
  rw [useForm, evaluate_call host (n + 4) rfl, Run.bind_ok hhead]
  show (evaluateAll (evaluate host (n + 3)) frame _ >>= _) s = _
  rw [Run.bind_ok hargs]
  show apply host (.ofFrames host (n + 3)) frame _ _ s = _
  rw [apply_use]
  exact useFile_of_text (evaluate host n) frame hfind htext rfl

/-! ## Three ways -/

/-- How a file is run: by a form that uses it, by its path, or by its text. -/
inductive Way where
  | form
  | path
  | text

namespace Way

/-- Runs the file of a name, which holds the text `source`. -/
def run (setup : Setup) (i : Interpreter) (name source : Text) : Way → Run Value
  | .form => i.eval setup (useText name)
  | .path => i.load setup (.ofText name)
  | .text => i.eval setup source

/-- While the file is run, the file `p` is used.  Loading reads the file itself after it has left a
record. -/
def Uses (setup : Setup) (i : Interpreter) (name source : Text) (s : State) (p : Path) : Way → Prop
  | .form => i.Uses setup (useText name) s p
  | .path =>
    p = .ofText name ∨
      i.Uses setup source
        (Run.log Interpreter.logger .debug ("loading " ++ (Path.ofText name).toText) s).2 p
  | .text => i.Uses setup source s p

end Way

section Ways

variable {setup : Setup} {i : Interpreter} {name content : Text} {bytes : List UInt8} {s : State}

theorem FileTree.text_of_resolve {t : FileTree} {p : Path} (hfile : t.resolve p = .ok (.file bytes))
    (hcontent : Utf8.decode bytes = .ok content) : t.text p = .ok (Text.unifyNewlines content) := by
  simp only [text, FileTree.bytes, hfile, hcontent]

theorem Primitive.findFile_of_resolve {host : Host} (hvalid : (Path.ofText name).invalid? = none)
    (hfile : host.files.resolve (.ofText name) = .ok (.file bytes)) :
    findFile host name = .ok (.ofText name) := by
  have hisFile : isFile host.files (.ofText name) = .ok true := by
    simp only [isFile, hvalid, hfile]
  unfold findFile
  simp only [hisFile]
  split <;> rfl

/-- Loading a file is noting that and running its text. -/
theorem Interpreter.load_eq {p : Path} {source : Text} (hvalid : p.invalid? = none)
    (htext : ∀ journal, setup.host.text journal p = .ok source) :
    i.load setup p s =
      i.eval setup source (Run.log logger .debug ("loading " ++ p.toText) s).2 := by
  exact (Run.bind_ok (log_loading p s)).trans
    (Run.bind_ok (Run.fileText_of_text hvalid (htext _)))

/-- Without a log file, the three ways end alike. -/
theorem Way.sameEnd_text (hlog : setup.host.logFile? = none) {id : Nat}
    (huse : s.store.lookup? i.frame "use" = some (.builtin .use id)) (hname : Token.IsAtom name)
    (hnumber : Binary64.read? name = none) (hvalid : (Path.ofText name).invalid? = none)
    (hfile : setup.host.files.resolve (.ofText name) = .ok (.file bytes))
    (hcontent : Utf8.decode bytes = .ok content) (way : Way)
    (hlimit : (way.run setup i name (Text.unifyNewlines content) s).1 ≠ .error .overflow) :
    SameEnd (way.run setup i name (Text.unifyNewlines content) s)
      (i.eval setup (Text.unifyNewlines content) s) := by
  have htext (journal : Journal) :
      setup.host.text journal (.ofText name) = .ok (Text.unifyNewlines content) := by
    rw [Host.text_of_logFile?_eq_none hlog, FileTree.text_of_resolve hfile hcontent]
  cases way with
  | text => exact ⟨rfl, rfl, rfl⟩
  | path =>
    have hload : Way.path.run setup i name (Text.unifyNewlines content) s = _ :=
      Interpreter.load_eq hvalid htext
    rw [hload]
    exact Interpreter.eval_of_same_state hlog _ rfl rfl
  | form =>
    have hform : Way.form.run setup i name (Text.unifyNewlines content) s =
        evaluate setup.host setup.frames (useForm name) i.frame s := by
      show evaluateReading setup.evaluator i.frame (read (useText name)) s = _
      rw [read_useText hname hnumber, evaluateReading_single]
      rfl
    rw [hform] at hlimit ⊢
    -- The run does not overflow, so it ends as it would with the five stack frames more.
    have hends : (evaluate setup.host (setup.frames + 5) (useForm name) i.frame).Ends s
        (evaluate setup.host setup.frames (useForm name) i.frame s).1
        (evaluate setup.host setup.frames (useForm name) i.frame s).2 :=
      evaluate_approximates setup.host (Nat.le_add_right setup.frames 5) (useForm name) i.frame s _ _
        ⟨rfl, hlimit⟩
    have hmore : evaluate setup.host setup.frames (useForm name) i.frame s = _ :=
      hends.run_eq.symm.trans (evaluate_useForm setup.frames huse
        (Primitive.findFile_of_resolve hvalid hfile) (Run.fileText_of_text hvalid (htext _)))
    rw [hmore]
    exact Interpreter.eval_of_same_state hlog _ rfl rfl

/-- If the log file is not used, it makes no difference that there is one. -/
theorem Way.run_withoutLog (hvalid : (Path.ofText name).invalid? = none)
    (hfile : setup.host.files.resolve (.ofText name) = .ok (.file bytes))
    (hcontent : Utf8.decode bytes = .ok content) (way : Way)
    (huses : ∀ p, way.Uses setup i name (Text.unifyNewlines content) s p → ¬setup.host.IsLog p) :
    way.run setup i name (Text.unifyNewlines content) s =
      way.run setup.withoutLog i name (Text.unifyNewlines content) s := by
  cases way with
  | form => exact Interpreter.eval_withoutLog huses
  | text => exact Interpreter.eval_withoutLog huses
  | path =>
    have hnotLog : ¬setup.host.IsLog (.ofText name) := huses _ (.inl rfl)
    have htext (journal : Journal) :
        setup.host.text journal (.ofText name) = .ok (Text.unifyNewlines content) := by
      rw [Host.text_of_not_isLog hnotLog, FileTree.text_of_resolve hfile hcontent]
    have htext' (journal : Journal) : setup.withoutLog.host.text journal (.ofText name) =
        .ok (Text.unifyNewlines content) := by
      rw [← htext journal, Host.text_withoutLog hnotLog]
      rfl
    have hload : Way.path.run setup i name (Text.unifyNewlines content) s = _ :=
      Interpreter.load_eq hvalid htext
    have hload' : Way.path.run setup.withoutLog i name (Text.unifyNewlines content) s = _ :=
      Interpreter.load_eq hvalid htext'
    rw [hload, hload']
    exact Interpreter.eval_withoutLog fun p hp => huses p (.inr hp)

end Ways

/-- In a state in which `use` is the primitive, a file whose name is an atom and no number, and which holds
a text, is run with the same end in all three ways: with the same value or fault, the same store, the same
output and the same input left.  None of the runs may overflow or use the log file. -/
theorem Way.ways_end_alike (setup : Setup) (i : Interpreter) (s : State) (name content : Text)
    (bytes : List UInt8) (id : Nat)
    (huse : s.store.lookup? i.frame "use" = some (.builtin .use id)) (hname : Token.IsAtom name)
    (hnumber : Binary64.read? name = none) (hvalid : (Path.ofText name).invalid? = none)
    (hfile : setup.host.files.resolve (.ofText name) = .ok (.file bytes))
    (hcontent : Utf8.decode bytes = .ok content)
    (hlimit : ∀ way : Way, (way.run setup i name (Text.unifyNewlines content) s).1 ≠
      .error .overflow)
    (huses : ∀ (way : Way) (p : Path), way.Uses setup i name (Text.unifyNewlines content) s p →
      ¬setup.host.IsLog p)
    (way way' : Way) :
    SameEnd (way.run setup i name (Text.unifyNewlines content) s)
      (way'.run setup i name (Text.unifyNewlines content) s) := by
  have hend (way : Way) : SameEnd (way.run setup i name (Text.unifyNewlines content) s)
      (i.eval setup.withoutLog (Text.unifyNewlines content) s) := by
    have hrun := run_withoutLog hvalid hfile hcontent way (huses way)
    have hlimit := hlimit way
    rw [hrun] at hlimit ⊢
    have hlog : setup.withoutLog.host.logFile? = none := setup.host.logFile?_withoutLog
    exact sameEnd_text hlog huse hname hnumber hvalid hfile hcontent way hlimit
  exact (hend way).trans (hend way').symm

theorem Run.ne_fault {α : Type} {result : Except Fault α} {f : Fault}
    (h : (result.map fun _ => ()) ≠ .error f) : result ≠ .error f := by
  rintro rfl
  exact h rfl

namespace Loading

/-- The global frame binds `use` and nothing else. -/
def state : State := ⟨⟨#[⟨[("use", .builtin .use 0)], none⟩], 1⟩, .start [], []⟩

/-- The working directory holds the file `f` with some text, the file `g` with a quoted symbol, and the
log file `log`, which starts with a quoted symbol as well. -/
def setup (content : Text) : Setup :=
  let file (name content : Text) : List FileName × FileTree.Node :=
    ([Utf8.toName name], .file (Utf8.toName content))
  ⟨⟨⟨[], [file "f" content, file "g" "'x", file "log" "'x"]⟩, [],
    some ⟨.warning, some (.ofText "log")⟩, "now"⟩, 40, none⟩

/-- The run ends because `b` is no procedure, and the files that it has noted are `f` and `g`. -/
def FailsLast (r : Except Fault Value × State) : Prop :=
  r.1.map (fun _ => ()) = .error (.error (.notCallable "b")) ∧
    ∀ n ∈ r.2.journal, n.logger? = some Primitive.logger →
      ∃ name ∈ (["f", "g"] : List Text), n = Primitive.useNotice (.ofText name)

instance (r : Except Fault Value × State) : Decidable (FailsLast r) :=
  inferInstanceAs (Decidable (_ ∧ _))

theorem FailsLast.not_isLog {setup : Setup} {i : Interpreter} {source : Text} {s : State} {p : Path}
    (hend : FailsLast (i.eval setup source s)) (hsearch : setup.host.searchPath = [])
    (hnames : ∀ name ∈ (["f", "g"] : List Text), ¬setup.host.IsLog (.ofText name))
    (h : i.Uses setup source s p) : ¬setup.host.IsLog p := by
  have hblocks (f : Fault) (hf : f.Blocks p) : (i.eval setup source s).1 ≠ .error f := by
    refine Run.ne_fault ?_
    rw [hend.1]
    cases hf <;> exact nofun
  obtain ⟨name, hname, rfl⟩ := h.exists_of_notices hsearch hblocks hend.2
  exact hnames name hname

end Loading

/-- A file that defines a name, uses another file and then goes wrong.  There is a log file, to which the
runs do not add the same, and which none of them reads. -/
theorem Way.ways_end_alike_failsMidway :
    let content : Text := "(def a 'b)\r(use 'g)\r\n(a)"
    let setup := Loading.setup content
    let run (way : Way) := way.run setup ⟨0⟩ "f" (Text.unifyNewlines content) Loading.state
    setup.host.IsLog (.ofText "log") ∧
      (run .text).1.map (fun _ => ()) = .error (.error (.notCallable "b")) ∧
      (run .path).2.journal ≠ (run .text).2.journal ∧
      SameEnd (run .form) (run .path) ∧ SameEnd (run .path) (run .text) := by
  intro content setup run
  have hfails (way : Way) : Loading.FailsLast (run way) := by cases way <;> decide +kernel
  have hnames : ∀ name ∈ (["f", "g"] : List Text), ¬setup.host.IsLog (.ofText name) := by
    decide +kernel
  have hlimit (way : Way) : (run way).1 ≠ .error .overflow := by
    refine Run.ne_fault ?_
    rw [(hfails way).1]
    exact nofun
  have huses (way : Way) (p : Path)
      (h : way.Uses setup ⟨0⟩ "f" (Text.unifyNewlines content) Loading.state p) :
      ¬setup.host.IsLog p := by
    cases way with
    | form => exact (hfails .form).not_isLog rfl hnames h
    | text => exact (hfails .text).not_isLog rfl hnames h
    | path =>
      have hload : Loading.FailsLast ((⟨0⟩ : Interpreter).eval setup (Text.unifyNewlines content)
          (Interpreter.noted (.ofText "f") Loading.state)) := by
        decide +kernel
      rcases h with rfl | h
      · exact hnames "f" List.mem_cons_self
      · exact hload.not_isLog rfl hnames h
  have hends := ways_end_alike setup ⟨0⟩ Loading.state "f" content (Utf8.toName content) 0 rfl
    (by decide) (by decide +kernel) (by decide +kernel) (by decide +kernel) (by decide +kernel)
    hlimit huses
  refine ⟨by decide +kernel, (hfails .text).1, by decide +kernel, ?_, ?_⟩
  · exact hends .form .path
  · exact hends .path .text

/-- A file that uses the log file.  Loading it leaves a record there first, which is then run as part of
the program; running its text leaves none. -/
theorem Way.not_ways_end_alike_at_log :
    ¬∀ (setup : Setup) (i : Interpreter) (s : State) (name content : Text) (bytes : List UInt8)
      (id : Nat), s.store.lookup? i.frame "use" = some (.builtin .use id) → Token.IsAtom name →
      Binary64.read? name = none → (Path.ofText name).invalid? = none →
      setup.host.files.resolve (.ofText name) = .ok (.file bytes) →
      Utf8.decode bytes = .ok content →
      (∀ way : Way, (way.run setup i name (Text.unifyNewlines content) s).1 ≠ .error .overflow) →
      ∀ way way' : Way, SameEnd (way.run setup i name (Text.unifyNewlines content) s)
        (way'.run setup i name (Text.unifyNewlines content) s) := by
  intro hall
  let content : Text := "(use 'log)"
  let setup := Loading.setup content
  let run (way : Way) := way.run setup ⟨0⟩ "f" (Text.unifyNewlines content) Loading.state
  have hlimit (way : Way) : (run way).1 ≠ .error .overflow := by
    refine Run.ne_fault ?_
    cases way <;> decide +kernel
  have hends : SameEnd (run .path) (run .text) :=
    hall setup ⟨0⟩ Loading.state "f" content (Utf8.toName content) 0 rfl (by decide)
      (by decide +kernel) (by decide +kernel) (by decide +kernel) (by decide +kernel) hlimit .path .text
  have hpath : (run .path).1.map (fun _ => ()) = .error (.error (.unbound "DEBUG")) := by
    decide +kernel
  have htext : (run .text).1.map (fun _ => ()) = .ok () := by decide +kernel
  rw [hends.result, htext] at hpath
  cases hpath

end SmallLisp
