import SmallLisp.Interpreter
import SmallLisp.Proofs.Eval.Faults
import SmallLisp.Proofs.Files.Names

/-!
The faults that leave an interpreter.

A text ends in an error of its own, in its wish to end, in overflow, in an interrupt of the input, or
else because `use` was applied to a name that the file system does not take (`Primitive.Rejects`).
`TextFails` and `FileFails` say where it ends: at the first form that fails, or at the reader's error
after all of them.  Since nothing catches a fault, what happens to one application inside happens to the
whole text, and in the state in which it happened (`Performs.eval_error`).

The list is complete for the surroundings that are modelled: outputs that take every text, and files of
which none is forbidden.
-/

namespace SmallLisp

/-- A fault that is ordinary, or an interrupt of the input. -/
def Fault.Documented (f : Fault) : Prop := f.Ordinary ∨ f = .interrupt

theorem Fault.Ordinary.ne_interrupt {f : Fault} (h : f.Ordinary) : f ≠ .interrupt := by
  rintro rfl
  cases h

namespace Primitive

variable {host : Host} {name : Text} {s : State} {f : Fault}

theorem Rejects.not_documented (h : Rejects host name f) : ¬f.Documented := by
  rintro (hordinary | rfl)
  · cases h <;> cases hordinary
  · cases h

/-- `use` breaks off exactly if the name is rejected. -/
theorem breaks_use_iff {args : List Value} :
    Primitive.Breaks host .use args s f ↔ ∃ name, args = [.symbol name] ∧ Rejects host name f := by
  constructor
  · rintro (hfind | ⟨hfind, hinvalid⟩)
    · exact ⟨_, rfl, findFile_eq_error_iff.mp hfind⟩
    · obtain rfl := invalid?_of_findFile hfind hinvalid
      exact ⟨_, rfl, .invalid hinvalid⟩
  · rintro ⟨name, rfl, hrejects⟩
    cases hrejects with
    | invalid hinvalid =>
      exact .path (findFile_of_invalid host (Option.ne_none_iff_exists'.mpr ⟨_, hinvalid⟩)) hinvalid
    | tooLong hrelative hcandidates hbefore hvalid hresolve =>
      exact .find (findFile_eq_error_iff.mpr (.tooLong hrelative hcandidates hbefore hvalid hresolve))

theorem exists_findFile (h : ∀ f, ¬Rejects host name f) :
    ∃ p, findFile host name = .ok p ∧ p.invalid? = none := by
  cases hfind : findFile host name with
  | error reason => exact absurd (findFile_eq_error_iff.mp hfind) (h _)
  | ok p =>
    refine ⟨p, rfl, Option.eq_none_iff_forall_ne_some.mpr fun reason hinvalid => ?_⟩
    obtain rfl := invalid?_of_findFile hfind hinvalid
    exact h _ (.invalid hinvalid)

/-- The primitives that look at their first argument without asking whether there is one. -/
def looksAtFirst : Primitive → Bool
  | .subtract | .divide | .isList | .isEmpty | .count | .type | .eval | .use | .putstr => true
  | _ => false

theorem not_admits_zero {op : Primitive} (h : op.looksAtFirst = true) : op.arity.admits 0 = false := by
  cases op <;> first | rfl | cases h

end Primitive

/-! ## The kinds of faults -/

/-- The faults that an evaluation can end in. -/
inductive Fault.OfEvaluation : Fault → Prop
  | documented {f : Fault} : f.Documented → OfEvaluation f
  | invalidPath (reason : Path.Invalid) : OfEvaluation (.invalidPath reason)
  | tooLong (path : Text) : OfEvaluation (.file (.nameTooLong path))

theorem Primitive.Breaks.ofEvaluation {host : Host} {op : Primitive} {args : List Value} {s : State}
    {f : Fault} (h : op.Breaks host args s f) : f.OfEvaluation := by
  cases h with
  | find hfind =>
    cases findFile_eq_error_iff.mp hfind with
    | tooLong => exact .tooLong _
  | path => exact .invalidPath _
  | interrupt => exact .documented (.inr rfl)

theorem ofEvaluation_of_evaluate {host : Host} {frames frame : Nat} {form : Value} {s t : State}
    {f : Fault} (h : evaluate host frames form frame s = (.error f, t)) : f.OfEvaluation := by
  by_cases hf : f.Ordinary
  · exact .documented (.inl hf)
  · have hrun : ((⟨frames, form, frame, s⟩ : Evaluation).run host).1 = .error f := by
      rw [Evaluation.run, h]
    obtain ⟨_, _, _, _, _, _, -, -, hbreaks⟩ := (Evaluation.run_error_iff hf).mp hrun
    exact hbreaks.ofEvaluation

/-! ## Where a text or a file fails -/

theorem Run.fileText_of_invalid (host : Host) {p : Path} {reason : Path.Invalid}
    (h : p.invalid? = some reason) (s : State) :
    fileText host p s = (.error (.invalidPath reason), s) := by
  simp only [fileText, h]

theorem Run.fileText_of_valid (host : Host) {p : Path} (h : p.invalid? = none) (s : State) :
    fileText host p s = (.ok (host.text s.journal p), s) := by
  simp only [fileText, h]

theorem evaluateForms_eq_error_iff {ev : Evaluator} {frame : Nat} {first : Value} {forms : List Value}
    {s u : State} {f : Fault} :
    evaluateForms ev frame first forms s = (.error f, u) ↔
      ∃ before form after last t, forms = before ++ form :: after ∧
        evaluateForms ev frame first before s = (.ok last, t) ∧ ev form frame t = (.error f, u) := by
  constructor
  · intro h
    induction forms generalizing first s with
    | nil => cases h
    | cons e es ih =>
      rcases Run.bind_cases (ev e frame) (fun v => evaluateForms ev frame v es) s with
        ⟨v, t, hv, hrest⟩ | ⟨g, t, hg, hrest⟩
      · obtain ⟨before, form, after, last, t', rfl, hbefore, hform⟩ := ih (hrest.symm.trans h)
        refine ⟨e :: before, form, after, last, t', rfl, ?_, hform⟩
        rw [evaluateForms, Run.bind_ok hv]
        exact hbefore
      · cases hrest.symm.trans h
        exact ⟨[], e, es, first, s, rfl, rfl, hg⟩
  · rintro ⟨before, form, after, last, t, rfl, hbefore, hform⟩
    exact evaluateForms_error hbefore hform after

namespace Interpreter

/-- The text fails: one of its forms does, or the reader does after the last one. -/
inductive TextFails (setup : Setup) (i : Interpreter) (source : Text) (s : State) :
    Fault → State → Prop
  | form {before after : List Value} {form last : Value} {f : Fault} {t u : State} :
    (read source).forms = before ++ form :: after →
    evaluateForms setup.evaluator i.frame .unspecified before s = (.ok last, t) →
    setup.evaluator form i.frame t = (.error f, u) → TextFails setup i source s f u
  | reader {e : SyntaxError} {last : Value} {t : State} :
    evaluateForms setup.evaluator i.frame .unspecified (read source).forms s = (.ok last, t) →
    (read source).error = some e → TextFails setup i source s (.error (.syntaxError e)) t

/-- The file fails: its path cannot be used, it cannot be read or decoded, or its text fails. -/
inductive FileFails (setup : Setup) (i : Interpreter) (p : Path) (s : State) : Fault → State → Prop
  | path {reason : Path.Invalid} :
    p.invalid? = some reason → FileFails setup i p s (.invalidPath reason) s
  | unreadable {e : FileError} : p.invalid? = none → setup.host.text s.journal p = .error e →
    FileFails setup i p s (.file e) s
  | text {source : Text} {f : Fault} {t : State} : p.invalid? = none →
    setup.host.text s.journal p = .ok source → i.TextFails setup source s f t →
    FileFails setup i p s f t

section Fails

variable {setup : Setup} {i : Interpreter} {source : Text} {p : Path} {s t : State} {f : Fault}

theorem TextFails.eval_eq (h : i.TextFails setup source s f t) :
    i.eval setup source s = (.error f, t) := by
  cases h with
  | form hsplit hbefore hform =>
    have hforms := evaluateForms_error hbefore hform
    rw [eval, evaluateReading, hsplit, Run.bind_error (hforms _)]
  | reader hforms herror =>
    rw [eval, evaluateReading, Run.bind_ok hforms, herror]
    rfl

theorem eval_eq_error_iff :
    i.eval setup source s = (.error f, t) ↔ i.TextFails setup source s f t := by
  refine ⟨fun h => ?_, TextFails.eval_eq⟩
  rw [eval, evaluateReading] at h
  rcases hforms : evaluateForms setup.evaluator i.frame .unspecified (read source).forms s with
    ⟨g | v, u⟩
  · rw [Run.bind_error hforms] at h
    cases h
    obtain ⟨before, form, after, last, w, hsplit, hbefore, hform⟩ :=
      evaluateForms_eq_error_iff.mp hforms
    exact .form hsplit hbefore hform
  · rw [Run.bind_ok hforms] at h
    cases herror : (read source).error with
    | none =>
      rw [herror] at h
      cases h
    | some e =>
      rw [herror] at h
      cases h
      exact .reader hforms herror

/-- The state in which a file is looked at: a record of it has been made. -/
def noted (p : Path) (s : State) : State := (Run.log logger .debug ("loading " ++ p.toText) s).2

theorem log_loading (p : Path) (s : State) :
    Run.log logger .debug ("loading " ++ p.toText) s = (.ok (), noted p s) := rfl

theorem FileFails.load_eq (h : i.FileFails setup p (noted p s) f t) :
    i.load setup p s = (.error f, t) := by
  rw [load, Run.bind_ok (log_loading p s)]
  cases h with
  | path hinvalid => exact Run.bind_error (Run.fileText_of_invalid setup.host hinvalid _)
  | unreadable hvalid hread =>
    rw [Run.bind_ok (Run.fileText_of_valid setup.host hvalid _), hread]
    rfl
  | text hvalid hread hfails =>
    rw [Run.bind_ok (Run.fileText_of_valid setup.host hvalid _), hread]
    exact hfails.eval_eq

theorem load_eq_error_iff :
    i.load setup p s = (.error f, t) ↔ i.FileFails setup p (noted p s) f t := by
  refine ⟨fun h => ?_, FileFails.load_eq⟩
  rw [load, Run.bind_ok (log_loading p s)] at h
  cases hinvalid : p.invalid? with
  | some reason =>
    rw [Run.bind_error (Run.fileText_of_invalid setup.host hinvalid _)] at h
    cases h
    exact .path hinvalid
  | none =>
    rw [Run.bind_ok (Run.fileText_of_valid setup.host hinvalid _)] at h
    cases hread : setup.host.text (noted p s).journal p with
    | error e =>
      rw [hread] at h
      cases h
      exact .unreadable hinvalid hread
    | ok source =>
      rw [hread] at h
      exact .text hinvalid hread (eval_eq_error_iff.mp h)

/-- A new interpreter is there before its prelude runs. -/
theorem exists_create_nothing (setup : Setup) (input : Option Input) (output : Option Output)
    (s : State) :
    ∃ i t, create setup .nothing input output s = (.ok i, t) ∧
      ∀ prelude, create setup prelude input output s =
        (i.runPrelude setup prelude >>= fun _ => pure i) t := by
  obtain ⟨frame, s₁, hframe⟩ :
      ∃ frame s₁, Run.onStore (fun store => store.newFrame none) s = (.ok frame, s₁) := ⟨_, _, rfl⟩
  obtain ⟨s₂, hregister⟩ :
      ∃ s₂, Run.modifyStore (fun store => store.register frame) s₁ = (.ok (), s₂) := ⟨_, rfl⟩
  obtain ⟨s₃, hinstall⟩ :
      ∃ s₃, Run.modifyConsole (fun c => c.install input output) s₂ = (.ok (), s₃) := ⟨_, rfl⟩
  have hcreate (prelude : Prelude) : create setup prelude input output s =
      ((⟨frame⟩ : Interpreter).runPrelude setup prelude >>= fun _ => pure ⟨frame⟩) s₃ := by
    rw [create, Run.bind_ok hframe, Run.bind_ok hregister, Run.bind_ok hinstall]
  exact ⟨⟨frame⟩, s₃, hcreate .nothing, hcreate⟩

/-- Making an interpreter fails exactly if its prelude does. -/
theorem create_eq_error_iff :
    create setup .file none none s = (.error f, t) ↔
      ∃ p i u, setup.prelude = some p ∧ create setup .nothing none none s = (.ok i, u) ∧
        i.FileFails setup p (noted p u) f t := by
  obtain ⟨i, u, hnothing, hcreate⟩ := exists_create_nothing setup none none s
  rw [hcreate .file, runPrelude]
  cases hprelude : setup.prelude with
  | none =>
    refine ⟨nofun, ?_⟩
    rintro ⟨p, _, _, hp, _⟩
    cases hp
  | some p =>
    simp only [Run.bind_assoc]
    constructor
    · intro h
      rcases hload : i.load setup p u with ⟨g | v, w⟩
      · rw [Run.bind_error hload] at h
        cases h
        exact ⟨p, i, u, rfl, hnothing, load_eq_error_iff.mp hload⟩
      · rw [Run.bind_ok hload] at h
        cases h
    · rintro ⟨q, j, w, hq, hj, hfails⟩
      cases hq
      cases hnothing.symm.trans hj
      exact Run.bind_error hfails.load_eq

theorem TextFails.ofEvaluation (h : i.TextFails setup source s f t) : f.OfEvaluation := by
  cases h with
  | form _ _ hform => exact ofEvaluation_of_evaluate hform
  | reader => exact .documented (.inl (.error _))

theorem FileFails.possible (h : i.FileFails setup p s f t) : f.OfEvaluation ∨ ∃ e, f = .file e := by
  cases h with
  | path => exact .inl (.invalidPath _)
  | unreadable => exact .inr ⟨_, rfl⟩
  | text _ _ htext => exact .inl htext.ofEvaluation

end Fails

/-! ## Primitives that are applied -/

open Evaluation

/-- While the text is evaluated, the evaluation `c` comes to apply a primitive, in the state `t`. -/
def Performs (setup : Setup) (i : Interpreter) (source : Text) (s : State) (c : Evaluation)
    (op : Primitive) (args : List Value) (t : State) : Prop :=
  ∃ e n id, OfText setup.host setup.frames i.frame (read source) s e ∧
    Relation.ReflTransGen (Starts setup.host) e c ∧ c.Applies setup.host n (.builtin op id) args t

variable {setup : Setup} {i : Interpreter} {source : Text} {s t : State} {c : Evaluation}
  {op : Primitive} {args : List Value} {f : Fault}

/-- The whole text ends as the application does if this is in a fault. -/
theorem Performs.eval_error {u : State} (h : i.Performs setup source s c op args t)
    (happly : ∀ n id, apply setup.host (.ofFrames setup.host n) c.frame (.builtin op id) args t =
      (.error f, u)) :
    i.eval setup source s = (.error f, u) := by
  obtain ⟨e, n, id, ⟨hforms, hbefore⟩, hinside, happlies⟩ := h
  have hc : c.run setup.host = (.error f, u) := happlies.run_eq.trans (happly n id)
  exact (TextFails.form hforms hbefore (run_error_of_inside hinside hc)).eval_eq

theorem eval_error_iff (hf : ¬f.Ordinary) :
    (i.eval setup source s).1 = .error f ↔
      ∃ c op args t, i.Performs setup source s c op args t ∧ op.Breaks setup.host args t f := by
  rw [eval, Setup.evaluator, evaluateReading_error_iff hf]
  constructor
  · rintro ⟨e, htext, c, n, id, op, args, t, hinside, happlies, hbreaks⟩
    exact ⟨c, op, args, t, ⟨e, n, id, htext, hinside, happlies⟩, hbreaks⟩
  · rintro ⟨c, op, args, t, ⟨e, n, id, htext, hinside, happlies⟩, hbreaks⟩
    exact ⟨e, htext, c, n, id, op, args, t, hinside, happlies, hbreaks⟩

theorem eval_undocumented_iff :
    (i.eval setup source s).1 = .error f ∧ ¬f.Documented ↔
      ∃ c name t, i.Performs setup source s c .use [.symbol name] t ∧
        Primitive.Rejects setup.host name f := by
  constructor
  · rintro ⟨herror, hf⟩
    have hordinary : ¬f.Ordinary := fun h => hf (.inl h)
    obtain ⟨c, op, args, t, hperforms, hbreaks⟩ := (eval_error_iff hordinary).mp herror
    have huse : op = .use := by
      cases hbreaks with
      | find | path => rfl
      | interrupt => exact absurd (.inr rfl) hf
    subst huse
    obtain ⟨name, rfl, hrejects⟩ := Primitive.breaks_use_iff.mp hbreaks
    exact ⟨c, name, t, hperforms, hrejects⟩
  · rintro ⟨c, name, t, hperforms, hrejects⟩
    have hf := hrejects.not_documented
    have hbreaks : Primitive.Breaks setup.host .use [.symbol name] t f :=
      Primitive.breaks_use_iff.mpr ⟨name, rfl, hrejects⟩
    exact ⟨(eval_error_iff fun h => hf (.inl h)).mpr ⟨c, _, _, t, hperforms, hbreaks⟩, hf⟩

theorem eval_interrupt_iff :
    (i.eval setup source s).1 = .error .interrupt ↔
      ∃ c t rest, i.Performs setup source s c .readline [] t ∧
        t.console.input = .interrupted :: rest := by
  rw [eval_error_iff fun h => h.ne_interrupt rfl]
  constructor
  · rintro ⟨c, op, args, t, hperforms, hbreaks⟩
    cases hbreaks with
    | interrupt hinput => exact ⟨c, t, _, hperforms, hinput⟩
  · rintro ⟨c, t, rest, hperforms, hinput⟩
    exact ⟨c, _, _, t, hperforms, .interrupt hinput⟩

/-- The number of arguments is checked before any of them is looked at. -/
theorem Performs.eval_arity (h : i.Performs setup source s c op args t)
    (hargs : op.arity.admits args.length = false) :
    i.eval setup source s = (.error (.error (.arity op.name op.arity args.length)), t) := by
  refine h.eval_error fun n id => ?_
  show op.call setup.host _ c.frame args t = _
  rw [Primitive.call, if_neg (by rw [hargs]; exact Bool.false_ne_true)]
  rfl

theorem Performs.eval_unreadable {name : Text} {p : Path} {reason : FileError}
    (h : i.Performs setup source s c .use [.symbol name] t)
    (hfind : Primitive.findFile setup.host name = .ok p) (hvalid : p.invalid? = none)
    (htext : setup.host.text t.journal p = .error reason) :
    i.eval setup source s = (.error (.error (.unreadable p.toText reason)), t) := by
  refine h.eval_error fun n id => ?_
  rw [apply_use]
  have hp : Run.ofExcept ((Primitive.findFile setup.host name).mapError Fault.file) t = (.ok p, t) := by
    rw [hfind]
    rfl
  have hread : Run.fileText setup.host p t = (.ok (.error reason), t) := by
    rw [Run.fileText_of_valid setup.host hvalid, htext]
  exact (Run.bind_ok hp).trans ((Run.bind_ok hread).trans rfl)

/-- A text ends in a fault that is not documented exactly if `use` is applied to a name that the file
system rejects, and in an interrupt exactly if `readline` finds one in the input.  No primitive looks at
an argument that is missing.  A file that cannot be read although its name is not rejected is an error of
the program.  Outputs take every text here, and every directory can be searched; an output or a directory
that refuses would be one more way out. -/
theorem eval_faults (setup : Setup) (i : Interpreter) (source : Text) (s : State) :
    (∀ f, (i.eval setup source s).1 = .error f ∧ ¬f.Documented ↔
        ∃ c name t, i.Performs setup source s c .use [.symbol name] t ∧
          Primitive.Rejects setup.host name f) ∧
      ((i.eval setup source s).1 = .error .interrupt ↔
        ∃ c t rest, i.Performs setup source s c .readline [] t ∧
          t.console.input = .interrupted :: rest) ∧
      (∀ (c : Evaluation) (op : Primitive) (t : State), i.Performs setup source s c op [] t →
        op.looksAtFirst = true →
        i.eval setup source s = (.error (.error (.arity op.name op.arity 0)), t)) ∧
      ∀ c name t, i.Performs setup source s c .use [.symbol name] t →
        (∀ f, ¬Primitive.Rejects setup.host name f) →
        ∃ p, Primitive.findFile setup.host name = .ok p ∧
          ∀ reason, setup.host.text t.journal p = .error reason →
            i.eval setup source s = (.error (.error (.unreadable p.toText reason)), t) := by
  refine ⟨fun f => eval_undocumented_iff, eval_interrupt_iff, fun c op t hperforms hop => ?_,
    fun c name t hperforms hname => ?_⟩
  · exact hperforms.eval_arity (Primitive.not_admits_zero hop)
  · obtain ⟨p, hfind, hvalid⟩ := Primitive.exists_findFile hname
    exact ⟨p, hfind, fun reason htext => hperforms.eval_unreadable hfind hvalid htext⟩

/-- The global frame binds `use` and `type`. -/
def usesAndTypes : State :=
  ⟨⟨#[⟨[("use", .builtin .use 0), ("type", .builtin .type 1)], none⟩], 2⟩, .start [], []⟩

/-- There are no files but the empty working directory. -/
def withoutFiles : Setup := ⟨⟨⟨[], []⟩, [], none, []⟩, 20, none⟩

theorem eval_faults_withoutFiles :
    ((⟨0⟩ : Interpreter).eval withoutFiles "(use 'a)" usesAndTypes).1.map (fun _ => ()) =
        .error (.error (.unreadable "a" (.missing "a"))) ∧
      ((⟨0⟩ : Interpreter).eval withoutFiles "(type)" usesAndTypes).1.map (fun _ => ()) =
        .error (.error (.arity "type" (.exactly 1) 0)) := by
  obtain ⟨-, -, -, hreadable⟩ := eval_faults withoutFiles ⟨0⟩ "(use 'a)" usesAndTypes
  obtain ⟨-, -, harity, -⟩ := eval_faults withoutFiles ⟨0⟩ "(type)" usesAndTypes
  have huse : Performs withoutFiles ⟨0⟩ "(use 'a)" usesAndTypes
      ⟨20, .list [.symbol "use", .list [.symbol "quote", .symbol "a"]], 0, usesAndTypes⟩ .use
      [.symbol "a"] usesAndTypes :=
    ⟨_, 18, 0, .intro (show (read "(use 'a)").forms = [] ++ _ :: [] from rfl) rfl, .refl,
      .intro rfl rfl rfl⟩
  have htype : Performs withoutFiles ⟨0⟩ "(type)" usesAndTypes
      ⟨20, .list [.symbol "type"], 0, usesAndTypes⟩ .type [] usesAndTypes :=
    ⟨_, 18, 1, .intro (show (read "(type)").forms = [] ++ _ :: [] from rfl) rfl, .refl,
      .intro rfl rfl rfl⟩
  have hfind : Primitive.findFile withoutFiles.host "a" = .ok (.ofText "a") := rfl
  have hname (f : Fault) : ¬Primitive.Rejects withoutFiles.host "a" f := by
    intro h
    cases h with
    | invalid hinvalid => cases hinvalid
    | tooLong hrelative hcandidates hbefore hvalid hresolve =>
      have herror := Primitive.findFile_eq_error_iff.mpr
        (.tooLong hrelative hcandidates hbefore hvalid hresolve)
      rw [hfind] at herror
      cases herror
  obtain ⟨p, hp, hends⟩ := hreadable _ _ _ huse hname
  rw [hfind] at hp
  cases hp
  rw [hends (.missing "a") rfl, harity _ _ _ htype rfl]
  exact ⟨rfl, rfl⟩

/-- A name with the character number zero, a name with a surrogate that stands for no byte, and a
relative name that is too long end a text in faults that are not documented. -/
theorem eval_use_undocumented :
    let ending (name : Text) :=
      ((⟨0⟩ : Interpreter).eval withoutFiles ("(use '" ++ name ++ ")") usesAndTypes).1.map fun _ => ()
    let name : Text := List.replicate 256 (CodePoint.char 'x')
    ending "a\x00b" = .error (.invalidPath .nul) ∧
      ending [.surrogate 0] = .error (.invalidPath (.surrogates (.surrogate 0) 0 1)) ∧
      ending name = .error (.file (.nameTooLong name)) ∧
      ¬(Fault.invalidPath .nul).Documented ∧ ¬(Fault.file (.nameTooLong name)).Documented := by
  refine ⟨by decide +kernel, by decide +kernel, by decide +kernel, ?_, ?_⟩
  · rintro (h | h) <;> cases h
  · rintro (h | h) <;> cases h

end Interpreter
end SmallLisp
