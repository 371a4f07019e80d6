import Mathlib.Logic.Relation
import SmallLisp.Proofs.Eval.Effect
import SmallLisp.Proofs.Store.Frames

/-!
The evaluations inside an evaluation.

`Evaluation.Starts` lists the evaluations that an evaluation starts directly, each with the state it
starts from, and `Evaluation.Calls` finds the calls of closures in those that it starts at any depth.
Those that are started have fewer stack frames left, so what they hand on is true of all evaluations
(`Starts.induction`).  What an evaluation does after one that it has started is again an effect in its
own frame (`Starts.rest`).  Nothing is left out: what is true of an evaluation because of one of its
parts can be traced back to that part (`Traceable.traced`).  So every frame that appears while a form is
evaluated is the frame of one of the calls (`exists_calls`).
-/

namespace SmallLisp

theorem Headroom.enter_ofFrames (host : Host) (frames n : Nat) :
    (Headroom.ofFrames host frames).enter n = .ofFrames host (frames - n) := by
  simp only [enter, ofFrames, Headroom.mk.injEq, true_and]
  funext used
  rw [Nat.sub_sub]

theorem Headroom.evaluate_ofFrames (host : Host) (frames : Nat) :
    (Headroom.ofFrames host frames).evaluate = SmallLisp.evaluate host frames := rfl

theorem evaluate_call (host : Host) (n : Nat) {head : Value} (hs : head.specialForm? = none)
    (operands : List Value) (frame : Nat) :
    evaluate host (n + 1) (.list (head :: operands)) frame = (do
      let fn ← evaluate host n head frame
      let args ← evaluateAll (evaluate host (n - 1)) frame operands
      apply host (.ofFrames host (n - 1)) frame fn args) := by
  rw [evaluate_succ]
  simp only [evaluateStep, hs, evaluateCall, Headroom.enter_ofFrames, Headroom.evaluate_ofFrames]

theorem evaluate_special (host : Host) (n : Nat) {head : Value} {special : SpecialForm}
    (hs : head.specialForm? = some special) (parts : List Value) (frame : Nat) :
    evaluate host (n + 1) (.list (head :: parts)) frame =
      special.run (.ofFrames host (n - 1)) frame parts := by
  rw [evaluate_succ]
  simp only [evaluateStep, hs, Headroom.enter_ofFrames]

/-- The evaluation of a form in a frame, from a state on, with so many stack frames. -/
structure Evaluation where
  frames : Nat
  form : Value
  frame : Nat
  state : State

namespace Evaluation

def run (host : Host) (e : Evaluation) : Except Fault Value × State :=
  evaluate host e.frames e.form e.frame e.state

/-- The state in which the evaluation ends, whether or not it has a value. -/
def final (host : Host) (e : Evaluation) : State := (e.run host).2

/-- The evaluation comes to apply `fn` to `args`, with `n` stack frames left and in the state `s`. -/
inductive Applies (host : Host) : Evaluation → Nat → Value → List Value → State → Prop
  | intro {n frame : Nat} {head fn : Value} {operands args : List Value} {s s₁ s₂ : State} :
    head.specialForm? = none → evaluate host n head frame s = (.ok fn, s₁) →
    evaluateAll (evaluate host (n - 1)) frame operands s₁ = (.ok args, s₂) →
    Applies host ⟨n + 1, .list (head :: operands), frame, s⟩ (n - 1) fn args s₂

/-- The evaluations that an evaluation starts directly: of the head and the operands of a call, of the
body of a closure, of the forms that primitives are given, and of the parts of special forms. -/
inductive Starts (host : Host) : Evaluation → Evaluation → Prop
  | head {n frame : Nat} {head : Value} {operands : List Value} {s : State} :
    head.specialForm? = none →
    Starts host ⟨n + 1, .list (head :: operands), frame, s⟩ ⟨n, head, frame, s⟩
  | operand {n frame : Nat} {head fn operand : Value} {before after vs : List Value}
    {s s₁ s₂ : State} :
    head.specialForm? = none → evaluate host n head frame s = (.ok fn, s₁) →
    evaluateAll (evaluate host (n - 1)) frame before s₁ = (.ok vs, s₂) →
    Starts host ⟨n + 1, .list (head :: (before ++ operand :: after)), frame, s⟩
      ⟨n - 1, operand, frame, s₂⟩
  | body {e : Evaluation} {n id home : Nat} {formals : List Text} {body : Value}
    {args : List Value} {s : State} :
    e.Applies host n (.closure id formals body home) args s → formals.length = args.length →
    Starts host e ⟨n - 1, body, s.store.frames.size, s.extend home formals args⟩
  | evalForm {e : Evaluation} {n id : Nat} {form : Value} {s : State} :
    e.Applies host n (.builtin .eval id) [form] s → Starts host e ⟨n - 3, form, e.frame, s⟩
  | useForm {e : Evaluation} {n id : Nat} {name text : Text} {p : Path} {form last : Value}
    {before after : List Value} {s s₁ s₂ : State} :
    e.Applies host n (.builtin .use id) [.symbol name] s →
    Primitive.findFile host name = .ok p → Run.fileText host p s = (.ok (.ok text), s) →
    Run.log Primitive.logger .debug ("use: evaluating " ++ p.toText) s = (.ok (), s₁) →
    (read text).forms = before ++ form :: after →
    evaluateForms (evaluate host (n - 3)) e.frame .unspecified before s₁ = (.ok last, s₂) →
    Starts host e ⟨n - 3, form, e.frame, s₂⟩
  | defined {n frame : Nat} {head form : Value} {x : Text} {s : State} :
    head.specialForm? = some .define →
    Starts host ⟨n + 1, .list [head, .symbol x, form], frame, s⟩ ⟨n - 1, form, frame, s⟩
  | condition {n frame : Nat} {head condition yes no : Value} {s : State} :
    head.specialForm? = some .ifElse →
    Starts host ⟨n + 1, .list [head, condition, yes, no], frame, s⟩ ⟨n - 1, condition, frame, s⟩
  | yes {n frame : Nat} {head condition yes no v : Value} {s s₁ : State} :
    head.specialForm? = some .ifElse →
    evaluate host (n - 1) condition frame s = (.ok v, s₁) → v ≠ .bool false →
    Starts host ⟨n + 1, .list [head, condition, yes, no], frame, s⟩ ⟨n - 1, yes, frame, s₁⟩
  | no {n frame : Nat} {head condition yes no : Value} {s s₁ : State} :
    head.specialForm? = some .ifElse →
    evaluate host (n - 1) condition frame s = (.ok (.bool false), s₁) →
    Starts host ⟨n + 1, .list [head, condition, yes, no], frame, s⟩ ⟨n - 1, no, frame, s₁⟩

/-- The evaluation is that of one of the forms of a text, after the forms before it. -/
inductive OfText (host : Host) (frames frame : Nat) (r : Reading) (s : State) : Evaluation → Prop
  | intro {before after : List Value} {form last : Value} {t : State} :
    r.forms = before ++ form :: after →
    evaluateForms (evaluate host frames) frame .unspecified before s = (.ok last, t) →
    OfText host frames frame r s ⟨frames, form, frame, t⟩

/-- Inside the evaluation a closure is called: `inner` is the frame made for the call, and `t` the
state in which the call ends. -/
def Calls (host : Host) (e : Evaluation) (inner : Nat) (t : State) : Prop :=
  ∃ (c : Evaluation) (n id home : Nat) (formals : List Text) (body : Value) (args : List Value)
      (s : State),
    Relation.ReflTransGen (Starts host) e c ∧
      c.Applies host n (.closure id formals body home) args s ∧ formals.length = args.length ∧
      s.store.frames.size = inner ∧
      (apply host (.ofFrames host n) c.frame (.closure id formals body home) args s).2 = t

theorem Applies.run_eq {host : Host} {e : Evaluation} {n : Nat} {fn : Value} {args : List Value}
    {s : State} (h : e.Applies host n fn args s) :
    e.run host = apply host (.ofFrames host n) e.frame fn args s := by
  cases h with
  | @intro n frame head fn operands args s₀ s₁ s hs hhead hoperands =>
    show evaluate host (n + 1) (.list (head :: operands)) frame s₀ = _
    rw [evaluate_call host n hs, Run.bind_ok hhead, Run.bind_ok hoperands]

end Evaluation

theorem apply_closure (host : Host) (n frame id : Nat) {formals : List Text} (body : Value)
    (home : Nat) {args : List Value} (hl : formals.length = args.length) (s : State) :
    apply host (.ofFrames host n) frame (.closure id formals body home) args s =
      evaluate host (n - 1) body s.store.frames.size (s.extend home formals args) := by
  show applyClosure ((Headroom.ofFrames host n).enter 1) _ formals body home args s = _
  rw [applyClosure_of_length_eq _ _ body home hl s, Headroom.enter_ofFrames]
  rfl

theorem apply_eval (host : Host) (n frame id : Nat) (form : Value) :
    apply host (.ofFrames host n) frame (.builtin .eval id) [form] =
      evaluate host (n - 3) form frame := by
  show Primitive.call host ((Headroom.ofFrames host n).enter 3) frame .eval [form] = _
  rw [Headroom.enter_ofFrames]
  rfl

theorem apply_use (host : Host) (n frame id : Nat) (name : Value) :
    apply host (.ofFrames host n) frame (.builtin .use id) [name] =
      Primitive.useFile host (evaluate host (n - 3)) frame name := by
  show Primitive.call host ((Headroom.ofFrames host n).enter 3) frame .use [name] = _
  rw [Headroom.enter_ofFrames]
  rfl

theorem useFile_of_text {host : Host} (ev : Evaluator) (frame : Nat) {name text : Text} {p : Path}
    {s t : State} (hp : Primitive.findFile host name = .ok p)
    (ht : Run.fileText host p s = (.ok (.ok text), s))
    (hl : Run.log Primitive.logger .debug ("use: evaluating " ++ p.toText) s = (.ok (), t)) :
    Primitive.useFile host ev frame (.symbol name) s = evaluateReading ev frame (read text) t := by
  have hfind : Run.ofExcept ((Primitive.findFile host name).mapError Fault.file) s = (.ok p, s) := by
    rw [hp]
    rfl
  exact (Run.bind_ok hfind).trans ((Run.bind_ok ht).trans (Run.bind_ok hl))

/-! ## What is left to do after a started evaluation -/

section Rest

variable {R : Nat → State → State → Prop} {frame : Nat} {ev : Evaluator}

theorem Effect.evaluateAll_rest (h : Effect R) (hev : ev.Within R) {before vs : List Value}
    (operand : Value) (after : List Value) {s t : State}
    (hbefore : SmallLisp.evaluateAll ev frame before s = (.ok vs, t)) :
    R frame (ev operand frame t).2
      (SmallLisp.evaluateAll ev frame (before ++ operand :: after) s).2 := by
  induction before generalizing vs s with
  | nil =>
    cases hbefore
    refine h.rest _ (fun v => ?_) t
    exact h.bind (h.evaluateAll hev after) fun vs => h.quiet (Run.quiet_pure (v :: vs))
  | cons e es ih =>
    obtain ⟨v, s₁, he, hrest⟩ := Run.eq_ok_of_bind_eq_ok hbefore
    obtain ⟨ws, s₂, hes, hpure⟩ := Run.eq_ok_of_bind_eq_ok hrest
    cases hpure
    rw [List.cons_append, SmallLisp.evaluateAll, Run.bind_ok he]
    refine h.trans (ih hes) (h.rest _ (fun vs => ?_) s₁)
    exact h.quiet (Run.quiet_pure (v :: vs))

theorem Effect.evaluateForms_rest (h : Effect R) (hev : ev.Within R) {before : List Value}
    {first last : Value} (form : Value) (after : List Value) {s t : State}
    (hbefore : SmallLisp.evaluateForms ev frame first before s = (.ok last, t)) :
    R frame (ev form frame t).2
      (SmallLisp.evaluateForms ev frame first (before ++ form :: after) s).2 := by
  rw [evaluateForms_append, Run.bind_ok hbefore]
  exact h.rest _ (fun v => h.evaluateForms hev v after) t

theorem Effect.evaluateReading_rest (h : Effect R) (hev : ev.Within R) {r : Reading}
    {before after : List Value} {form last : Value} {s t : State}
    (hforms : r.forms = before ++ form :: after)
    (hbefore : SmallLisp.evaluateForms ev frame .unspecified before s = (.ok last, t)) :
    R frame (ev form frame t).2 (SmallLisp.evaluateReading ev frame r s).2 := by
  rw [SmallLisp.evaluateReading, hforms]
  refine h.trans (h.evaluateForms_rest hev form after hbefore) (h.rest _ (fun v => ?_) s)
  cases r.error with
  | none => exact h.quiet (Run.quiet_pure v)
  | some e => exact h.quiet (Run.quiet_fail _)

/-- What an evaluation does after one that it has started is an effect in its own frame. -/
theorem Evaluation.Starts.rest (h : CallEffect R) {host : Host} {a b : Evaluation}
    (hab : Evaluation.Starts host a b) : R a.frame (b.final host) (a.final host) := by
  have hev (n : Nat) : Evaluator.Within R (evaluate host n) := h.evaluate_within host n
  cases hab with
  | @head n frame head operands s hs =>
    show R frame (evaluate host n head frame s).2 (evaluate host (n + 1) _ frame s).2
    rw [evaluate_call host n hs]
    refine h.rest _ (fun fn => ?_) s
    refine h.bind (h.evaluateAll (hev (n - 1)) operands) fun args => ?_
    exact h.apply host (h.headroom host (n - 1)) fn args
  | @operand n frame head fn operand before after vs s s₁ s₂ hs hhead hbefore =>
    show R frame (evaluate host (n - 1) operand frame s₂).2 (evaluate host (n + 1) _ frame s).2
    rw [evaluate_call host n hs, Run.bind_ok hhead]
    refine h.trans (h.evaluateAll_rest (hev (n - 1)) operand after hbefore) (h.rest _ ?_ s₁)
    exact fun args => h.apply host (h.headroom host (n - 1)) fn args
  | @body a n id home formals body args s happ hl =>
    unfold final
    rw [happ.run_eq, apply_closure host n a.frame id body home hl s]
    exact h.refl a.frame _
  | @evalForm a n id form s happ =>
    unfold final
    rw [happ.run_eq, apply_eval]
    exact h.refl a.frame _
  | @useForm a n id name text p form last before after s s₁ s₂ happ hp htext hlog hforms hbefore =>
    unfold final
    rw [happ.run_eq, apply_use, useFile_of_text _ _ hp htext hlog]
    exact h.evaluateReading_rest (hev (n - 3)) hforms hbefore
  | @defined n frame head form x s hs =>
    show R frame (evaluate host (n - 1) form frame s).2 (evaluate host (n + 1) _ frame s).2
    rw [evaluate_special host n hs]
    refine h.rest _ (fun v => ?_) s
    exact h.bind (fun s => h.define frame x v s) fun _ => h.quiet (Run.quiet_pure v)
  | @condition n frame head condition yes no s hs =>
    show R frame (evaluate host (n - 1) condition frame s).2 (evaluate host (n + 1) _ frame s).2
    rw [evaluate_special host n hs]
    refine h.rest _ (fun v => ?_) s
    split
    · exact hev (n - 1) no frame
    · exact hev (n - 1) yes frame
  | @yes n frame head condition yes no v s s₁ hs hc hv =>
    show R frame (evaluate host (n - 1) yes frame s₁).2 (evaluate host (n + 1) _ frame s).2
    rw [evaluate_special host n hs, SpecialForm.run, SpecialForm.runIf, Headroom.evaluate_ofFrames,
      Run.bind_ok hc]
    split
    · exact absurd rfl hv
    · exact h.refl frame _
  | @no n frame head condition yes no s s₁ hs hc =>
    show R frame (evaluate host (n - 1) no frame s₁).2 (evaluate host (n + 1) _ frame s).2
    rw [evaluate_special host n hs, SpecialForm.run, SpecialForm.runIf, Headroom.evaluate_ofFrames,
      Run.bind_ok hc]
    exact h.refl frame _

end Rest

/-! ## Going back from a run to its parts -/

theorem Run.Quiet.eq_of_run {α : Type} {m : Run α} (hm : m.Quiet) {s t : State}
    {r : Except Fault α} (h : m s = (r, t)) : t = s := by
  have hs := hm s
  rw [h] at hs
  exact hs

theorem Primitive.findFile_of_run {host : Host} {name : Text} {p : Path} {s t : State}
    (h : Run.ofExcept ((findFile host name).mapError Fault.file) s = (.ok p, t)) :
    findFile host name = .ok p ∧ t = s := by
  cases hf : findFile host name with
  | error e =>
    rw [hf] at h
    cases h
  | ok q =>
    rw [hf] at h
    cases h
    exact ⟨rfl, rfl⟩

theorem Primitive.call_of_length_ne (host : Host) (room : Headroom) (frame : Nat) {op : Primitive}
    (hop : op.arity = .exactly 1) {args : List Value} (hl : args.length ≠ 1) :
    op.call host room frame args = Run.fail (.arity op.name op.arity args.length) := by
  have hadmits : ¬op.arity.admits args.length = true := by
    simp only [hop, Arity.admits, Arity.exactly, Option.all_some, Bool.and_eq_true,
      decide_eq_true_eq]
    omega
  rw [call, if_neg hadmits]

/-- A property of runs that goes back to a part of the run: if a run in two parts has it, then so has the
first part, or the second one from where the first one stopped.  The steps that evaluation takes on the
way do not have it. -/
structure Traceable (Q : (α : Type) → Run α → State → Prop) : Prop where
  bind {α β : Type} {m : Run α} {f : α → Run β} {s : State} :
    Q β (m >>= f) s → Q α m s ∨ ∃ a t, m s = (.ok a, t) ∧ Q β (f a) t
  pure {α : Type} (a : α) (s : State) : ¬Q α (pure a) s
  fail {α : Type} (e : Error) (s : State) : ¬Q α (Run.fail e) s
  overflow {α : Type} (s : State) : ¬Q α (Run.fault .overflow) s
  lookup (frame : Nat) (name : Text) (s : State) : ¬Q Value (Run.lookup frame name) s
  define (frame : Nat) (name : Text) (v : Value) (s : State) :
    ¬Q Unit (Run.modifyStore fun store => store.define frame name v) s
  identity (s : State) : ¬Q Nat (Run.onStore Store.newIdentity) s
  note (n : Notice) (s : State) : ¬Q Unit (Run.note n) s

/-- Where an evaluation has a property of runs from: from an evaluation that it starts, from the frame
made for a call, from a primitive that evaluates nothing, or from looking for a file or reading it. -/
inductive Evaluation.Traced (Q : (α : Type) → Run α → State → Prop) (host : Host)
    (e : Evaluation) : Prop
  | started {b : Evaluation} : Starts host e b →
    Q Value (evaluate host b.frames b.form b.frame) b.state → Traced Q host e
  | call {n id home : Nat} {formals : List Text} {body : Value} {args : List Value} {s : State} :
    e.Applies host n (.closure id formals body home) args s → formals.length = args.length →
    Q Nat (Run.onStore fun store => store.extend home formals args) s → Traced Q host e
  | primitive {n id : Nat} {op : Primitive} {args : List Value} {s : State} :
    e.Applies host n (.builtin op id) args s → ¬(op = .eval ∨ op = .use) →
    Q Value (op.call host ((Headroom.ofFrames host n).enter 3) e.frame args) s → Traced Q host e
  | find {n id : Nat} {name : Text} {s : State} :
    e.Applies host n (.builtin .use id) [.symbol name] s →
    Q Path (Run.ofExcept ((Primitive.findFile host name).mapError Fault.file)) s → Traced Q host e
  | text {n id : Nat} {name : Text} {p : Path} {s : State} :
    e.Applies host n (.builtin .use id) [.symbol name] s → Primitive.findFile host name = .ok p →
    Q (Except FileError Text) (Run.fileText host p) s → Traced Q host e

namespace Traceable

open Evaluation

variable {Q : (α : Type) → Run α → State → Prop} {host : Host} {e : Evaluation} {ev : Evaluator}
  {frame : Nat}

theorem shown (h : Traceable Q) (frames : Nat) (v : Value) (s : State) :
    ¬Q Text (Run.shown frames v) s := by
  unfold Run.shown
  split
  · exact h.pure _ s
  · exact h.overflow s

theorem inspected (h : Traceable Q) (frames : Nat) (v : Value) (s : State) :
    ¬Q Text (Run.inspected frames v) s := by
  unfold Run.inspected
  split
  · exact h.pure _ s
  · exact h.overflow s

theorem not_bind {α β : Type} (h : Traceable Q) {m : Run α} {f : α → Run β} (hm : ∀ s, ¬Q α m s)
    (hf : ∀ a s, ¬Q β (f a) s) (s : State) : ¬Q β (m >>= f) s := by
  intro hq
  rcases h.bind hq with hq | ⟨a, t, -, hq⟩
  · exact hm s hq
  · exact hf a t hq

theorem exists_operand (h : Traceable Q) {forms : List Value} {s : State}
    (hq : Q (List Value) (evaluateAll ev frame forms) s) :
    ∃ before operand after vs t, forms = before ++ operand :: after ∧
      evaluateAll ev frame before s = (.ok vs, t) ∧ Q Value (ev operand frame) t := by
  induction forms generalizing s with
  | nil => exact absurd hq (h.pure _ s)
  | cons e es ih =>
    rcases h.bind hq with hq | ⟨v, s₁, he, hq⟩
    · exact ⟨[], e, es, [], s, rfl, rfl, hq⟩
    · rcases h.bind hq with hq | ⟨vs, s₂, _, hq⟩
      · obtain ⟨before, operand, after, vs, t, rfl, hbefore, hop⟩ := ih hq
        refine ⟨e :: before, operand, after, v :: vs, t, rfl, ?_, hop⟩
        rw [evaluateAll, Run.bind_ok he, Run.bind_ok hbefore]
        rfl
      · exact absurd hq (h.pure _ s₂)

theorem exists_form (h : Traceable Q) {forms : List Value} {first : Value} {s : State}
    (hq : Q Value (evaluateForms ev frame first forms) s) :
    ∃ before form after last t, forms = before ++ form :: after ∧
      evaluateForms ev frame first before s = (.ok last, t) ∧ Q Value (ev form frame) t := by
  induction forms generalizing first s with
  | nil => exact absurd hq (h.pure _ s)
  | cons e es ih =>
    rcases h.bind hq with hq | ⟨v, s₁, he, hq⟩
    · exact ⟨[], e, es, first, s, rfl, rfl, hq⟩
    · obtain ⟨before, form, after, last, t, rfl, hbefore, hform⟩ := ih hq
      refine ⟨e :: before, form, after, last, t, rfl, ?_, hform⟩
      rw [evaluateForms, Run.bind_ok he]
      exact hbefore

theorem exists_form_of_reading (h : Traceable Q) {r : Reading} {s : State}
    (hq : Q Value (evaluateReading ev frame r) s) :
    ∃ before form after last t, r.forms = before ++ form :: after ∧
      evaluateForms ev frame .unspecified before s = (.ok last, t) ∧ Q Value (ev form frame) t := by
  rcases h.bind hq with hq | ⟨v, t, _, hq⟩
  · exact h.exists_form hq
  · cases hr : r.error with
    | none =>
      rw [hr] at hq
      exact absurd hq (h.pure v t)
    | some e =>
      rw [hr] at hq
      exact absurd hq (h.fail _ t)

theorem traced_of_use (h : Traceable Q) {n id : Nat} {name : Value} {s : State}
    (happ : e.Applies host n (.builtin .use id) [name] s)
    (hq : Q Value (Primitive.useFile host (evaluate host (n - 3)) e.frame name) s) :
    e.Traced Q host := by
  cases name with
  | symbol x =>
    rcases h.bind hq with hfound | ⟨p, s₁, hp, hrest⟩
    · exact .find happ hfound
    obtain ⟨hfind, rfl⟩ := Primitive.findFile_of_run hp
    rcases h.bind hrest with hread | ⟨text, s₂, htext, hrest⟩
    · exact .text happ hfind hread
    obtain rfl := (Run.quiet_fileText host p).eq_of_run htext
    cases text with
    | error e => exact absurd hrest (h.fail _ s₂)
    | ok text =>
      rcases h.bind hrest with hnoted | ⟨_, s₃, hlog, hrest⟩
      · exact absurd hnoted (h.note _ s₂)
      obtain ⟨before, form, after, last, t, hforms, hbefore, hform⟩ := h.exists_form_of_reading hrest
      exact .started (.useForm happ hfind htext hlog hforms hbefore) hform
  | _ => exact absurd hq (h.fail _ s)

theorem traced_of_apply (h : Traceable Q) {n : Nat} {fn : Value} {args : List Value} {s : State}
    (happ : e.Applies host n fn args s)
    (hq : Q Value (apply host (.ofFrames host n) e.frame fn args) s) : e.Traced Q host := by
  cases fn with
  | closure id formals body home =>
    replace hq : Q Value (applyClosure ((Headroom.ofFrames host n).enter 1) _ formals body home args) s :=
      hq
    rw [Headroom.enter_ofFrames] at hq
    rcases h.bind hq with hq | ⟨inner, t, hcall, hq⟩
    · by_cases hl : formals.length = args.length
      · rw [callFrame, if_pos hl] at hq
        exact .call happ hl hq
      · rw [callFrame, if_neg hl] at hq
        exact absurd hq (h.not_bind (h.shown _ _) (fun _ => h.fail _) s)
    · by_cases hl : formals.length = args.length
      · rw [callFrame, if_pos hl] at hcall
        cases hcall
        exact .started (.body happ hl) hq
      · rw [callFrame, if_neg hl] at hcall
        obtain ⟨f, hf⟩ := Run.fails_bind_fail (Run.quiet_shown _ _) _ s
        rw [hf] at hcall
        cases hcall
  | builtin op id =>
    by_cases heval : op = .eval ∨ op = .use
    · have harity : op.arity = .exactly 1 := by rcases heval with rfl | rfl <;> rfl
      by_cases hl : args.length = 1
      · obtain ⟨arg, rfl⟩ := List.length_eq_one_iff.mp hl
        rcases heval with rfl | rfl
        · rw [apply_eval] at hq
          exact .started (.evalForm happ) hq
        · rw [apply_use] at hq
          exact h.traced_of_use happ hq
      · replace hq : Q Value (op.call host _ e.frame args) s := hq
        rw [Primitive.call_of_length_ne host _ e.frame harity hl] at hq
        exact absurd hq (h.fail _ s)
    · exact .primitive happ heval hq
  | _ => exact absurd hq (h.not_bind (h.shown _ _) (fun _ => h.fail _) s)

theorem traced_of_special (h : Traceable Q) {n frame : Nat} {head : Value} {special : SpecialForm}
    {parts : List Value} {s : State} (hspecial : head.specialForm? = some special)
    (hq : Q Value (special.run (.ofFrames host (n - 1)) frame parts) s) :
    Traced Q host ⟨n + 1, .list (head :: parts), frame, s⟩ := by
  unfold SpecialForm.run at hq
  split at hq
  next name form =>
    cases name with
    | symbol x =>
      rcases h.bind hq with hq | ⟨v, s₁, _, hq⟩
      · exact .started (.defined hspecial) hq
      · rcases h.bind hq with hq | ⟨_, s₂, _, hq⟩
        · exact absurd hq (h.define frame x v s₁)
        · exact absurd hq (h.pure v s₂)
    | _ => exact absurd hq (h.not_bind (h.inspected _ _) (fun _ => h.fail _) s)
  next formals body =>
    unfold SpecialForm.runLambda at hq
    split at hq
    · exact absurd hq (h.fail _ s)
    · rcases h.bind hq with hq | ⟨id, s₁, _, hq⟩
      · exact absurd hq (h.identity s)
      · exact absurd hq (h.pure _ s₁)
  next condition yes no =>
    rcases h.bind hq with hq | ⟨v, s₁, hc, hq⟩
    · exact .started (.condition hspecial) hq
    · split at hq
      · exact .started (.no hspecial hc) hq
      · next hv => exact .started (.yes hspecial hc (fun e => hv e)) hq
  next form => exact absurd hq (h.pure form s)
  next => exact absurd hq (h.fail _ s)

/-- An evaluation has a property from one of its parts. -/
theorem traced (h : Traceable Q) (hq : Q Value (evaluate host e.frames e.form e.frame) e.state) :
    e.Traced Q host := by
  obtain ⟨frames, form, frame, s⟩ := e
  replace hq : Q Value (evaluate host frames form frame) s := hq
  cases frames with
  | zero => exact absurd hq (h.overflow s)
  | succ n =>
    cases form with
    | list items =>
      cases items with
      | nil => exact absurd hq (h.fail _ s)
      | cons head rest =>
        cases hspecial : head.specialForm? with
        | some special =>
          rw [evaluate_special host n hspecial] at hq
          exact h.traced_of_special hspecial hq
        | none =>
          rw [evaluate_call host n hspecial] at hq
          rcases h.bind hq with hq | ⟨fn, s₁, hhead, hq⟩
          · exact .started (.head hspecial) hq
          rcases h.bind hq with hq | ⟨args, s₂, hoperands, hq⟩
          · obtain ⟨before, operand, after, vs, t, rfl, hbefore, hoperand⟩ := h.exists_operand hq
            exact .started (.operand hspecial hhead hbefore) hoperand
          · exact h.traced_of_apply (.intro hspecial hhead hoperands) hq
    | symbol name => exact absurd hq (h.lookup frame name s)
    | _ => exact absurd hq (h.pure _ s)

end Traceable

/-! ## Every new frame is the frame of a call -/

/-- Without a call there are as many frames as before. -/
theorem effect_size :
    Effect fun _ s t => t.store.frames.size = s.store.frames.size where
  refl _ _ := rfl
  trans hst htu := htu.trans hst
  define frame name v s := Store.size_define s.store frame name v
  identity _ _ := rfl
  console _ _ _ := rfl
  note _ _ _ _ := rfl

/-- The frame `inner` appears during the run. -/
def Run.Makes (inner : Nat) (α : Type) (m : Run α) (s : State) : Prop :=
  s.store.frames.size ≤ inner ∧ inner < (m s).2.store.frames.size

section NewFrame

variable {inner : Nat}

theorem Run.not_makes_of_size {α : Type} {m : Run α} {s : State}
    (h : (m s).2.store.frames.size = s.store.frames.size) : ¬Run.Makes inner α m s := by
  rintro ⟨hold, hnew⟩
  omega

theorem Run.not_makes_of_quiet {α : Type} {m : Run α} (hm : m.Quiet) (s : State) :
    ¬Run.Makes inner α m s :=
  not_makes_of_size (by rw [hm s])

theorem Run.traceable_makes (inner : Nat) : Traceable (Run.Makes inner) where
  bind {α β m f s} h := by
    obtain ⟨hold, hnew⟩ := h
    by_cases hm : inner < (m s).2.store.frames.size
    · exact .inl ⟨hold, hm⟩
    · rcases bind_cases m f s with ⟨a, t, hms, hb⟩ | ⟨e, t, hms, hb⟩
      · rw [hms] at hm
        rw [hb] at hnew
        exact .inr ⟨a, t, hms, Nat.le_of_not_lt hm, hnew⟩
      · rw [hms] at hm
        rw [hb] at hnew
        exact absurd hnew hm
  pure a := not_makes_of_quiet (quiet_pure a)
  fail e := not_makes_of_quiet (quiet_fail e)
  overflow := not_makes_of_quiet (quiet_fault _)
  lookup frame name := not_makes_of_quiet (quiet_lookup frame name)
  define frame name v s := not_makes_of_size (Store.size_define s.store frame name v)
  identity _ := not_makes_of_size rfl
  note _ _ := not_makes_of_size rfl

namespace Evaluation

variable {host : Host} {a b e : Evaluation}

/-- The frame `inner` appears during the evaluation. -/
def Makes (host : Host) (e : Evaluation) (inner : Nat) : Prop :=
  e.state.store.frames.size ≤ inner ∧ inner < (e.final host).store.frames.size

theorem Applies.frames_lt {n : Nat} {fn : Value} {args : List Value} {s : State}
    (h : e.Applies host n fn args s) : n < e.frames := by
  cases h with
  | intro => show _ - 1 < _ + 1; omega

theorem Starts.frames_lt (h : Starts host a b) : b.frames < a.frames := by
  cases h with
  | body happ | evalForm happ | useForm happ =>
    have := happ.frames_lt
    show _ - _ < _
    omega
  | _ =>
    simp only
    omega

/-- What an evaluation owes to those that it starts holds of every evaluation: those that are started have
fewer stack frames left. -/
theorem Starts.induction (host : Host) {motive : Evaluation → Prop}
    (step : ∀ e, (∀ b, Starts host e b → motive b) → motive e) (e : Evaluation) : motive e := by
  generalize hn : e.frames = n
  induction n using Nat.strongRecOn generalizing e with
  | ind n ih => exact step e fun b hb => ih b.frames (hn ▸ hb.frames_lt) b rfl

theorem Calls.of_starts {t : State} (hab : Starts host a b) (h : b.Calls host inner t) :
    a.Calls host inner t := by
  obtain ⟨c, n, id, home, formals, body, args, s, hbc, hcall⟩ := h
  exact ⟨c, n, id, home, formals, body, args, s, hbc.head hab, hcall⟩

/-- A frame that appears during an evaluation is the frame of a call inside it. -/
theorem exists_calls (h : e.Makes host inner) : ∃ t, e.Calls host inner t := by
  induction e using Starts.induction host with
  | step e ih =>
    cases (Run.traceable_makes inner).traced h with
    | started hb hmakes =>
      obtain ⟨t, ht⟩ := ih _ hb hmakes
      exact ⟨t, ht.of_starts hb⟩
    | @call n id home formals body args s happ hl hmakes =>
      obtain ⟨hold, hnew⟩ := hmakes
      have hsize : ((Run.onStore fun store => store.extend home formals args) s).2.store.frames.size =
          s.store.frames.size + 1 := Store.size_extend s.store home formals args
      have hinner : s.store.frames.size = inner := by omega
      exact ⟨_, e, n, id, home, formals, body, args, s, .refl, happ, hl, hinner, rfl⟩
    | primitive happ heval hmakes =>
      exact absurd hmakes (Run.not_makes_of_size
        (effect_size.primitiveCall host _ (fun hop => absurd hop heval) _ _))
    | find happ hmakes => exact absurd hmakes (Run.not_makes_of_quiet (Run.quiet_ofExcept _) _)
    | text happ hfind hmakes =>
      exact absurd hmakes (Run.not_makes_of_quiet (Run.quiet_fileText host _) _)

end Evaluation
end NewFrame
end SmallLisp
