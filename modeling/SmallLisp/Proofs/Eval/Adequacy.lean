import Mathlib.Data.List.Basic
import Mathlib.Order.Filter.AtTopBot.Basic
import SmallLisp.Proofs.Eval.NaturalSemantics
import SmallLisp.Proofs.Eval.StackLimit
import SmallLisp.Proofs.Eval.Subevaluation

/-!
Evaluation on a stack follows the rules of evaluation.

What evaluation finds out with some number of stack frames, overflow apart, is derivable
(`evaluates_of_ends`), and what is derivable is found out with every number of stack frames from some
number on (`Evaluates.settles`).  The first is an induction on the stack frames, the second one on the
derivation: each rule needs a few frames more than its premises.
-/

namespace SmallLisp

variable {α β : Type}

/-! ## What evaluation finds out is derivable -/

theorem Primitive.useFile_eq (host : Host) (ev : Evaluator) (frame : Nat) (name : Value) :
    useFile host ev frame name =
      usedText host name >>= fun text => evaluateReading ev frame (read text) := by
  cases name with
  | symbol x =>
    rw [useFile, usedText, Run.bind_assoc]
    congr 1
    funext p
    rw [Run.bind_assoc]
    congr 1
    funext text
    cases text <;> rfl
  | _ => rfl

theorem Run.Bounded.ends {m : Headroom → Run α} {full : Run α} (h : Bounded m full)
    {room : Headroom} {s t : State} {r : Except Fault α} (hm : (m room).Ends s r t) :
    full.Ends s r t := by
  obtain ⟨need, hneed⟩ := h
  rw [hneed] at hm
  split at hm
  · exact hm
  · exact absurd hm not_ends_overflow

/-- Whatever `ev` finds out is derivable. -/
def Evaluator.Sound (host : Host) (ev : Evaluator) : Prop :=
  ∀ form frame s r t, (ev form frame).Ends s r t → Evaluates host form frame s r t

section Sound

variable {host : Host} {ev : Evaluator} {room : Headroom} {frame : Nat} {s t : State}

theorem evaluatesAll_of_ends (hev : ev.Sound host) {forms : List Value}
    {r : Except Fault (List Value)} (h : (evaluateAll ev frame forms).Ends s r t) :
    EvaluatesAll host forms frame s r t := by
  induction forms generalizing s r with
  | nil =>
    cases h.run_eq
    exact .nil
  | cons e es ih =>
    rcases h.bind_cases with ⟨v, s₁, he, hrest⟩ | ⟨f, he, rfl⟩
    · have he := hev _ _ _ _ _ he
      rcases hrest.bind_cases with ⟨vs, s₂, hes, hpure⟩ | ⟨f, hes, rfl⟩
      · cases hpure.run_eq
        exact .cons he (ih hes)
      · exact .restFault he (ih hes)
    · exact .fault (hev _ _ _ _ _ he)

theorem evaluatesForms_of_ends (hev : ev.Sound host) {last : Value} {reading : Reading}
    {r : Except Fault Value}
    (h : (evaluateForms ev frame last reading.forms >>= fun v =>
      match reading.error with
      | none => pure v
      | some e => Run.fail (.syntaxError e)).Ends s r t) :
    EvaluatesForms host last reading.forms reading.error frame s r t := by
  obtain ⟨forms, error⟩ := reading
  simp only at h ⊢
  induction forms generalizing s last with
  | nil =>
    cases error with
    | none =>
      cases h.run_eq
      exact .done
    | some e =>
      cases h.run_eq
      exact .syntaxError
  | cons form forms ih =>
    rw [evaluateForms, Run.bind_assoc] at h
    rcases h.bind_cases with ⟨v, s₁, hform, hrest⟩ | ⟨f, hform, rfl⟩
    · exact .next (hev _ _ _ _ _ hform) (ih hrest)
    · exact .fault (hev _ _ _ _ _ hform)

theorem evaluates_of_special (hev : room.evaluate.Sound host) {head : Value}
    {special : SpecialForm} (hspecial : head.specialForm? = some special) {parts : List Value}
    {r : Except Fault Value} (h : (special.run room frame parts).Ends s r t) :
    Evaluates host (.list (head :: parts)) frame s r t := by
  unfold SpecialForm.run at h
  split at h
  next name form =>
    by_cases hname : ∃ x, name = .symbol x
    · obtain ⟨x, rfl⟩ := hname
      rcases h.bind_cases with ⟨v, s₁, hform, hrest⟩ | ⟨f, hform, rfl⟩
      · cases hrest.run_eq
        exact .define hspecial (hev _ _ _ _ _ hform)
      · exact .defineFault hspecial (hev _ _ _ _ _ hform)
    · have hshown : (Run.fail (.defineName name.inspect) : Run Value).Ends s r t := by
        cases name with
        | symbol x => exact absurd ⟨x, rfl⟩ hname
        | _ => exact ((Run.bounded_inspected _).bind fun text => Run.fail (.defineName text)).ends h
      cases hshown.run_eq
      refine .defineName hspecial ?_
      cases name with
      | symbol x => exact absurd ⟨x, rfl⟩ hname
      | _ => rfl
  next formals body =>
    unfold SpecialForm.runLambda at h
    split at h
    next hformals =>
      cases h.run_eq
      exact .lambdaFormals hspecial hformals
    next names hformals =>
      cases h.run_eq
      exact .lambda hspecial hformals
  next condition yes no =>
    rcases h.bind_cases with ⟨v, s₁, hcondition, hbranch⟩ | ⟨f, hcondition, rfl⟩
    · have hcondition := hev _ _ _ _ _ hcondition
      split at hbranch
      next => exact .no hspecial hcondition (hev _ _ _ _ _ hbranch)
      next hv => exact .yes hspecial hcondition (fun he => hv he) (hev _ _ _ _ _ hbranch)
    · exact .conditionFault hspecial (hev _ _ _ _ _ hcondition)
  next form =>
    cases h.run_eq
    exact .quote hspecial
  next hdefine hlambda hif hquote =>
    cases h.run_eq
    refine .formArity hspecial fun hl => ?_
    cases special with
    | define =>
      obtain ⟨name, form, rfl⟩ := List.length_eq_two.mp hl
      exact hdefine name form rfl rfl
    | lambda =>
      obtain ⟨formals, body, rfl⟩ := List.length_eq_two.mp hl
      exact hlambda formals body rfl rfl
    | ifElse =>
      obtain ⟨condition, yes, no, rfl⟩ := List.length_eq_three.mp hl
      exact hif condition yes no rfl rfl
    | quote =>
      obtain ⟨form, rfl⟩ := List.length_eq_one_iff.mp hl
      exact hquote form rfl rfl

theorem bounded_applyClosure_of_length_ne (closure : Value) {formals : List Text} (body : Value)
    (home : Nat) {args : List Value} (hl : formals.length ≠ args.length) :
    Run.Bounded (fun room => applyClosure room closure formals body home args)
      (Run.fail (.closureArity closure.render formals.length args.length)) := by
  have hframe : Run.Bounded (fun room => callFrame (room.enter 1).frames closure formals home args)
      (Run.fail (.closureArity closure.render formals.length args.length)) := by
    simp only [callFrame, if_neg hl]
    exact ((Run.bounded_shown closure).bind _).enter 1
  exact hframe.bind_fail fun room inner => room.evaluate body inner

theorem Arity.eq_singleton_of_admits {args : List α}
    (h : (Arity.exactly 1).admits args.length = true) : ∃ arg, args = [arg] := by
  rw [admits, Bool.and_eq_true] at h
  have hleast : (1 : Int) ≤ args.length := of_decide_eq_true h.1
  have hmost : (args.length : Int) ≤ 1 := of_decide_eq_true h.2
  have hl : args.length = 1 := by omega
  exact List.length_eq_one_iff.mp hl

theorem applies_of_builtin (hev : room.evaluate.Sound host) {op : Primitive} {id : Nat}
    {args : List Value} {r : Except Fault Value} (h : (op.call host room frame args).Ends s r t) :
    Applies host (.builtin op id) args frame s r t := by
  unfold Primitive.call at h
  split at h
  next hadmits =>
    by_cases heval : op = .eval
    · subst heval
      obtain ⟨form, rfl⟩ := Arity.eq_singleton_of_admits hadmits
      exact .eval (hev _ _ _ _ _ h)
    by_cases huse : op = .use
    · subst huse
      obtain ⟨name, rfl⟩ := Arity.eq_singleton_of_admits hadmits
      have h : (Primitive.useFile host room.evaluate frame name).Ends s r t := h
      rw [Primitive.useFile_eq] at h
      rcases h.bind_cases with ⟨text, s₁, htext, hforms⟩ | ⟨f, htext, rfl⟩
      · exact .use htext.run_eq (evaluatesForms_of_ends hev hforms)
      · exact .useFault htext.run_eq
    · have hbody := (Primitive.bounded_body host frame heval huse args).ends h
      exact .primitive heval huse hadmits hbody.run_eq
  next hadmits =>
    cases h.run_eq
    exact .arity (Bool.eq_false_iff.mpr hadmits)

theorem applies_of_ends (hev : ∀ used, (room.evaluateBelow used).Sound host) {fn : Value}
    {args : List Value} {r : Except Fault Value} (h : (apply host room frame fn args).Ends s r t) :
    Applies host fn args frame s r t := by
  cases fn with
  | closure id formals body home =>
    by_cases hl : formals.length = args.length
    · obtain ⟨hrun, hne⟩ := h
      have hcall := applyClosure_of_length_eq (room.enter 1) (.closure id formals body home) body
        home hl s
      exact .closure hl (hev _ _ _ _ _ _ ⟨hcall.symm.trans hrun, hne⟩)
    · have hfail := (bounded_applyClosure_of_length_ne _ body home hl).ends h
      cases hfail.run_eq
      exact .closureArity hl
  | builtin op id => exact applies_of_builtin (hev 3) h
  | _ =>
    have hshown := ((Run.bounded_shown _).bind fun text => Run.fail (.notCallable text)).ends h
    cases hshown.run_eq
    exact .notCallable rfl

end Sound

/-- What is found out with some number of stack frames is derivable. -/
theorem evaluates_of_ends (host : Host) (n : Nat) : (evaluate host n).Sound host := by
  induction n using Nat.strongRecOn with
  | ind n ih =>
    intro form frame s r t h
    cases n with
    | zero => exact absurd h Run.not_ends_overflow
    | succ n =>
      have hroom (k used : Nat) : ((Headroom.ofFrames host (n - k)).evaluateBelow used).Sound host :=
        ih (n - k - used) (by omega)
      cases form with
      | symbol name =>
        have hrun : Run.lookup frame name s = (r, t) := h.run_eq
        unfold Run.lookup at hrun
        split at hrun
        next v hv =>
          cases hrun
          exact .bound hv
        next hv =>
          cases hrun
          exact .unbound hv
      | list items =>
        cases items with
        | nil =>
          cases h.run_eq
          exact .empty
        | cons head rest =>
          cases hspecial : head.specialForm? with
          | some special =>
            rw [evaluate_special host n hspecial] at h
            exact evaluates_of_special (hroom 1 0) hspecial h
          | none =>
            rw [evaluate_call host n hspecial] at h
            rcases h.bind_cases with ⟨fn, s₁, hhead, hrest⟩ | ⟨f, hhead, rfl⟩
            · have hhead := ih n (by omega) _ _ _ _ _ hhead
              rcases hrest.bind_cases with ⟨args, s₂, hoperands, happly⟩ | ⟨f, hoperands, rfl⟩
              · have hoperands := evaluatesAll_of_ends (ih (n - 1) (by omega)) hoperands
                exact .call hspecial hhead hoperands (applies_of_ends (hroom 1) happly)
              · have hoperands := evaluatesAll_of_ends (ih (n - 1) (by omega)) hoperands
                exact .operandFault hspecial hhead hoperands
            · exact .headFault hspecial (ih n (by omega) _ _ _ _ _ hhead)
      | _ =>
        cases h.run_eq
        exact .itself rfl rfl

/-! ## What is derivable is found out

What the rules take from primitives and files knows of no stack, so it cannot overflow. -/

namespace Run

/-- The run does not overflow, wherever it starts. -/
def Safe (m : Run α) : Prop := ∀ s, (m s).1 ≠ .error .overflow

theorem safe_pure (a : α) : (pure a : Run α).Safe := fun _ => nofun

theorem safe_fail (e : Error) : (fail e : Run α).Safe := fun _ => nofun

theorem safe_orFail (r : Except Error α) : (orFail r).Safe := by
  cases r with
  | ok a => exact safe_pure a
  | error e => exact safe_fail e

theorem Safe.bind {m : Run α} {f : α → Run β} (hm : m.Safe) (hf : ∀ a, (f a).Safe) :
    (m >>= f).Safe := by
  intro s
  rcases bind_cases m f s with ⟨a, t, hma, hb⟩ | ⟨e, t, hme, hb⟩
  · rw [hb]
    exact hf a t
  · have hs := hm s
    rw [hme] at hs
    rw [hb]
    intro h
    cases h
    exact hs rfl

theorem Safe.ends {m : Run α} (h : m.Safe) {s t : State} {r : Except Fault α} (hm : m s = (r, t)) :
    m.Ends s r t := by
  have hs := h s
  rw [hm] at hs
  exact ⟨hm, hs⟩

end Run

namespace Primitive

theorem safe_readLine : readLine.Safe := by
  have hnext : Run.nextArrival.Safe := by
    intro s
    unfold Run.nextArrival
    split <;> exact nofun
  refine hnext.bind fun arrival => ?_
  split
  · exact Run.safe_pure _
  · exact Run.safe_pure _
  · exact fun _ => nofun
  · exact Run.safe_fail _

theorem safe_exitWith (status : Int) : (exitWith status).Safe := fun _ => nofun

theorem safe_listArgument (name : Text) (args : List Value) : (listArgument name args).Safe := by
  unfold listArgument
  split
  · exact Run.safe_pure _
  · exact Run.safe_fail _
  · exact Run.safe_pure _

theorem safe_ofNumbers (op : Primitive) (f : List Binary64 → Value) (args : List Value) :
    (ofNumbers op f args).Safe :=
  (Run.safe_orFail _).bind fun xs => Run.safe_pure (f xs)

theorem safe_perform (op : Primitive) (args : List Value) : (op.perform args).Safe := by
  unfold perform
  split
  · exact safe_ofNumbers _ _ _
  · exact safe_ofNumbers _ _ _
  · exact safe_ofNumbers _ _ _
  · refine (Run.safe_orFail _).bind fun xs => ?_
    cases Binary64.quotient xs with
    | some x => exact Run.safe_pure _
    | none => exact Run.safe_fail _
  · exact safe_ofNumbers _ _ _
  · exact safe_ofNumbers _ _ _
  · exact safe_ofNumbers _ _ _
  · exact safe_ofNumbers _ _ _
  · exact Run.safe_pure _
  · exact Run.safe_pure _
  · exact Run.safe_pure _
  · exact Run.safe_pure _
  · exact (safe_listArgument _ _).bind fun _ => Run.safe_pure _
  · exact (safe_listArgument _ _).bind fun _ => Run.safe_pure _
  · exact Run.safe_pure _
  · exact fun _ => nofun
  · exact safe_readLine
  · exact safe_exitWith 0
  · exact (Run.safe_orFail _).bind safe_exitWith
  · exact Run.safe_pure _

theorem safe_usedText (host : Host) (name : Value) : (usedText host name).Safe := by
  cases name with
  | symbol x =>
    have hfile (p : Path) : (Run.fileText host p).Safe := by
      intro s
      unfold Run.fileText
      split <;> exact nofun
    have hfind : (Run.ofExcept ((findFile host x).mapError Fault.file)).Safe := by
      cases findFile host x with
      | ok p => exact Run.safe_pure p
      | error e => exact fun _ => nofun
    refine hfind.bind fun p => (hfile p).bind fun text => ?_
    cases text with
    | error e => exact Run.safe_fail _
    | ok text => exact fun _ => nofun
  | _ => exact Run.safe_fail _

end Primitive

open Filter (atTop)

namespace Run

/-- From some number of stack frames on, the run ends in this way. -/
def Settles (m : Nat → Run α) (s : State) (r : Except Fault α) (t : State) : Prop :=
  ∀ᶠ n in atTop, (m n).Ends s r t

variable {m : Nat → Run α} {f : Nat → α → Run β} {s t u : State} {a : α}

theorem Ends.settles {m : Run α} {r : Except Fault α} (h : m.Ends s r t) :
    Settles (fun _ => m) s r t :=
  Filter.Eventually.of_forall fun _ => h

theorem Settles.bind {r : Except Fault β} (hm : Settles m s (.ok a) t)
    (hf : Settles (fun n => f n a) t r u) : Settles (fun n => m n >>= f n) s r u := by
  filter_upwards [hm, hf] with n hm hf
  exact hm.bind hf

theorem Settles.bind_error {e : Fault} (hm : Settles m s (.error e) t) (f : Nat → α → Run β) :
    Settles (fun n => m n >>= f n) s (.error e) t := by
  filter_upwards [hm] with n hm
  exact hm.bind_error (f n)

theorem Settles.below {r : Except Fault α} (h : Settles m s r t) (k : Nat) :
    Settles (fun n => m (n - k)) s r t :=
  (Filter.tendsto_sub_atTop_nat k).eventually h

theorem Settles.above {r : Except Fault α} (h : Settles (fun n => m (n + 1)) s r t) :
    Settles m s r t := by
  filter_upwards [h.below 1, Filter.eventually_ge_atTop 1] with n hn hpos
  rwa [Nat.sub_add_cancel hpos] at hn

theorem Bounded.settles {m : Headroom → Run α} {full : Run α} (h : Bounded m full) (host : Host)
    {r : Except Fault α} (hfull : full.Ends s r t) :
    Settles (fun n => m (.ofFrames host n)) s r t := by
  obtain ⟨need, hneed⟩ := h
  filter_upwards [Filter.eventually_ge_atTop need] with n hn
  rw [hneed]
  exact (if_pos hn).symm ▸ hfull

end Run

/-! ### One rule at a time -/

section Settles

variable {host : Host} {frame : Nat} {s t : State} {r : Except Fault Value}

theorem settles_call {head : Value} (hs : head.specialForm? = none) {operands : List Value}
    (h : Run.Settles (fun n => do
      let fn ← evaluate host n head frame
      let args ← evaluateAll (evaluate host (n - 1)) frame operands
      apply host (.ofFrames host (n - 1)) frame fn args) s r t) :
    Run.Settles (fun n => evaluate host n (.list (head :: operands)) frame) s r t := by
  refine Run.Settles.above ?_
  simp only [evaluate_call host _ hs]
  exact h

theorem settles_special {head : Value} {special : SpecialForm}
    (hs : head.specialForm? = some special) {parts : List Value}
    (h : Run.Settles (fun n => special.run (.ofFrames host n) frame parts) s r t) :
    Run.Settles (fun n => evaluate host n (.list (head :: parts)) frame) s r t := by
  refine Run.Settles.above ?_
  simp only [evaluate_special host _ hs]
  exact h.below 1

theorem settles_builtin {op : Primitive} {id : Nat} {args : List Value}
    (hadmits : op.arity.admits args.length = true)
    (h : Run.Settles (fun n => op.body host (.ofFrames host n) frame args) s r t) :
    Run.Settles (fun n => apply host (.ofFrames host n) frame (.builtin op id) args) s r t := by
  have hcall (n : Nat) : apply host (.ofFrames host n) frame (.builtin op id) args =
      op.body host (.ofFrames host (n - 3)) frame args := by
    show op.call host ((Headroom.ofFrames host n).enter 3) frame args = _
    rw [Primitive.call, if_pos hadmits, Headroom.enter_ofFrames]
  simp only [hcall]
  exact h.below 3

theorem settles_of_step {form : Value} (h : ∀ n, (evaluate host (n + 1) form frame).Ends s r t) :
    Run.Settles (fun n => evaluate host n form frame) s r t :=
  Run.Settles.above (Filter.Eventually.of_forall h)

theorem settles_itself {form : Value} (hsymbol : form.symbol? = none) (hlist : form.list? = none) :
    Run.Settles (fun n => evaluate host n form frame) s (.ok form) s := by
  refine settles_of_step fun n => ?_
  cases form with
  | symbol name => cases hsymbol
  | list items => cases hlist
  | _ => exact Run.ends_pure _ s

theorem settles_lookup {name : Text} (h : (Run.lookup frame name).Ends s r t) :
    Run.Settles (fun n => evaluate host n (.symbol name) frame) s r t :=
  settles_of_step fun _ => h

theorem settles_formArity {head : Value} {special : SpecialForm}
    (hs : head.specialForm? = some special) {parts : List Value}
    (hl : parts.length ≠ special.partCount) :
    Run.Settles (fun n => evaluate host n (.list (head :: parts)) frame) s
      (.error (.error (.formArity special))) s := by
  refine settles_special hs (Filter.Eventually.of_forall fun n => ?_)
  unfold SpecialForm.run
  split
  · exact absurd rfl hl
  · exact absurd rfl hl
  · exact absurd rfl hl
  · exact absurd rfl hl
  · exact Run.ends_fail _ s

theorem settles_defineName {head name form : Value} (hs : head.specialForm? = some .define)
    (hname : name.symbol? = none) :
    Run.Settles (fun n => evaluate host n (.list [head, name, form]) frame) s
      (.error (.error (.defineName name.inspect))) s := by
  have hshown := ((Run.bounded_inspected name).bind fun text =>
    (Run.fail (.defineName text) : Run Value)).settles host (Run.ends_fail _ s)
  refine settles_special hs ?_
  cases name with
  | symbol x => cases hname
  | _ => exact hshown

theorem settles_yes {head condition yes no v : Value} (hs : head.specialForm? = some .ifElse)
    (hv : v ≠ .bool false) {u : State}
    (hcondition : Run.Settles (fun n => evaluate host n condition frame) s (.ok v) u)
    (hyes : Run.Settles (fun n => evaluate host n yes frame) u r t) :
    Run.Settles (fun n => evaluate host n (.list [head, condition, yes, no]) frame) s r t := by
  refine settles_special hs (hcondition.bind ?_)
  split
  · exact absurd rfl hv
  · exact hyes

theorem settles_notCallable {fn : Value} (h : fn.isProcedure = false) {args : List Value} :
    Run.Settles (fun n => apply host (.ofFrames host n) frame fn args) s
      (.error (.error (.notCallable fn.render))) s := by
  have hshown := ((Run.bounded_shown fn).bind fun text =>
    (Run.fail (.notCallable text) : Run Value)).settles host (Run.ends_fail _ s)
  cases fn with
  | closure | builtin => cases h
  | _ => exact hshown

theorem settles_arity {op : Primitive} {id : Nat} {args : List Value}
    (h : op.arity.admits args.length = false) :
    Run.Settles (fun n => apply host (.ofFrames host n) frame (.builtin op id) args) s
      (.error (.error (.arity op.name op.arity args.length))) s := by
  refine Filter.Eventually.of_forall fun n => ?_
  simp only [apply, Primitive.call, h]
  exact Run.ends_fail _ s

theorem settles_use {id : Nat} {name : Value}
    (h : Run.Settles (fun n => Primitive.usedText host name >>= fun text =>
      evaluateReading (evaluate host n) frame (read text)) s r t) :
    Run.Settles (fun n => apply host (.ofFrames host n) frame (.builtin .use id) [name]) s r t := by
  simp only [apply_use, Primitive.useFile_eq]
  exact h.below 3

end Settles

mutual

theorem Evaluates.settles {host : Host} {form : Value} {frame : Nat} {s t : State}
    {r : Except Fault Value} :
    Evaluates host form frame s r t →
      Run.Settles (fun n => evaluate host n form frame) s r t
  | .itself hsymbol hlist => settles_itself hsymbol hlist
  | .bound h => settles_lookup ⟨by simp only [Run.lookup, h], nofun⟩
  | .unbound h => settles_lookup ⟨by simp only [Run.lookup, h], nofun⟩
  | .empty => settles_of_step fun _ => Run.ends_fail _ _
  | .formArity hs hl => settles_formArity hs hl
  | .defineName hs hname => settles_defineName hs hname
  | .defineFault hs hform => settles_special hs (hform.settles.bind_error _)
  | .define hs hform => settles_special hs (hform.settles.bind (Run.Ends.settles ⟨rfl, nofun⟩))
  | .lambdaFormals hs hformals =>
    settles_special hs (Run.Ends.settles ⟨by simp only [hformals]; rfl, nofun⟩)
  | .lambda hs hformals =>
    settles_special hs (Run.Ends.settles ⟨by simp only [hformals]; rfl, nofun⟩)
  | .conditionFault hs hcondition => settles_special hs (hcondition.settles.bind_error _)
  | .yes hs hcondition hv hbranch => settles_yes hs hv hcondition.settles hbranch.settles
  | .no hs hcondition hbranch => settles_special hs (hcondition.settles.bind hbranch.settles)
  | .quote hs => settles_special hs (Run.Ends.settles (Run.ends_pure _ _))
  | .headFault hs hhead => settles_call hs (hhead.settles.bind_error _)
  | .operandFault hs hhead hoperands =>
    settles_call hs (hhead.settles.bind ((hoperands.settles.below 1).bind_error _))
  | .call hs hhead hoperands happly =>
    settles_call hs (hhead.settles.bind ((hoperands.settles.below 1).bind (happly.settles.below 1)))

theorem EvaluatesAll.settles {host : Host} {forms : List Value} {frame : Nat} {s t : State}
    {r : Except Fault (List Value)} :
    EvaluatesAll host forms frame s r t →
      Run.Settles (fun n => evaluateAll (evaluate host n) frame forms) s r t
  | .nil => Run.Ends.settles (Run.ends_pure _ _)
  | .fault he => he.settles.bind_error _
  | .restFault he hes => he.settles.bind (hes.settles.bind_error _)
  | .cons he hes => he.settles.bind (hes.settles.bind (Run.Ends.settles (Run.ends_pure _ _)))

theorem Applies.settles {host : Host} {fn : Value} {args : List Value} {frame : Nat}
    {s t : State} {r : Except Fault Value} :
    Applies host fn args frame s r t →
      Run.Settles (fun n => apply host (.ofFrames host n) frame fn args) s r t
  | .notCallable h => settles_notCallable h
  | .closureArity hl =>
    ((bounded_applyClosure_of_length_ne _ _ _ hl).enter 1).settles host (Run.ends_fail _ _)
  | .closure hl hbody => by
    filter_upwards [hbody.settles.below 1] with n hn
    exact ⟨(apply_closure host n _ _ _ _ hl _).trans hn.run_eq, hn.ne_overflow⟩
  | .arity h => settles_arity h
  | .primitive heval huse hadmits hrun =>
    settles_builtin hadmits ((Primitive.bounded_body host _ heval huse _).settles host
      ((Primitive.safe_perform _ _).ends hrun))
  | .eval hform => settles_builtin rfl hform.settles
  | .useFault htext =>
    settles_use (((Primitive.safe_usedText host _).ends htext).settles.bind_error _)
  | .use htext hforms =>
    settles_use (((Primitive.safe_usedText host _).ends htext).settles.bind hforms.settles)

theorem EvaluatesForms.settles {host : Host} {last : Value} {forms : List Value}
    {error : Option SyntaxError} {frame : Nat} {s t : State} {r : Except Fault Value} :
    EvaluatesForms host last forms error frame s r t →
      Run.Settles (fun n => evaluateForms (evaluate host n) frame last forms >>= fun v =>
        match error with
        | none => pure v
        | some e => Run.fail (.syntaxError e)) s r t
  | .done => Run.Ends.settles (Run.ends_pure _ _)
  | .syntaxError => Run.Ends.settles (Run.ends_fail _ _)
  | .fault hform => (hform.settles.bind_error _).bind_error _
  | .next hform hforms => by
    simp only [evaluateForms, Run.bind_assoc]
    exact hform.settles.bind hforms.settles

end

/-- The rules derive how an evaluation ends if and only if it ends so with every number of stack frames
from some number on, and not in an overflow.  If they derive nothing, the evaluation overflows however
many stack frames it has. -/
theorem evaluate_adequate_for_rules (host : Host) (form : Value) (frame : Nat) (s : State) :
    (∀ r t, Evaluates host form frame s r t ↔
      r ≠ .error .overflow ∧
        ∃ least, ∀ frames, least ≤ frames → evaluate host frames form frame s = (r, t)) ∧
    ((∀ r t, ¬Evaluates host form frame s r t) →
      ∀ frames, (evaluate host frames form frame s).1 = .error .overflow) := by
  refine ⟨fun r t => ⟨fun h => ?_, fun ⟨hne, least, h⟩ => ?_⟩, fun h frames => ?_⟩
  · obtain ⟨least, hleast⟩ := Filter.eventually_atTop.mp h.settles
    exact ⟨(hleast least (Nat.le_refl least)).ne_overflow, least, fun n hn => (hleast n hn).run_eq⟩
  · exact evaluates_of_ends host least form frame s r t ⟨h least (Nat.le_refl least), hne⟩
  · by_contra hne
    exact h _ _ (evaluates_of_ends host frames form frame s _ _ ⟨rfl, hne⟩)

/-- A form that, where `x` is bound to it, asks for nothing but its own value. -/
def endlessForm : Value := .list [.builtin .eval 0, .symbol "x"]

def endlessState : State := ⟨⟨#[⟨[("x", endlessForm)], none⟩], 1⟩, .start [], []⟩

theorem evaluate_endlessForm (host : Host) (n : Nat) :
    evaluate host n endlessForm 0 endlessState = (.error .overflow, endlessState) := by
  induction n using Nat.strongRecOn with
  | ind n ih =>
    match n with
    | 0 | 1 => rfl
    | 2 => rfl
    | n + 3 =>
      have hhead : evaluate host (n + 2) (.builtin .eval 0) 0 endlessState =
          (.ok (.builtin .eval 0), endlessState) := rfl
      have hoperands : evaluateAll (evaluate host (n + 1)) 0 [.symbol "x"] endlessState =
          (.ok [endlessForm], endlessState) := rfl
      rw [endlessForm, evaluate_call host (n + 2) rfl, Run.bind_ok hhead]
      rw [show n + 2 - 1 = n + 1 from rfl, Run.bind_ok hoperands, apply_eval]
      exact ih (n + 1 - 3) (by omega)

/-- The rules derive the value of a call, which is found with frames enough, and nothing about a form
that is evaluated endlessly. -/
theorem evaluate_adequate_for_rules_endlessForm :
    let host : Host := ⟨⟨[], []⟩, [], none, []⟩
    let call : Value := .list [.closure 0 ["y"] (.symbol "y") 0, .bool true]
    (∃ t least, ∀ frames, least ≤ frames →
      evaluate host frames call 0 endlessState = (.ok (.bool true), t)) ∧
    (∀ r t, ¬Evaluates host endlessForm 0 endlessState r t) ∧
    ∀ frames, (evaluate host frames endlessForm 0 endlessState).1 = .error .overflow := by
  intro host call
  have hcall : ∃ t, Evaluates host call 0 endlessState (.ok (.bool true)) t :=
    ⟨_, .call rfl (.itself rfl rfl) (.cons (.itself rfl rfl) .nil) (.closure rfl (.bound rfl))⟩
  obtain ⟨t, hcall⟩ := hcall
  have hnone : ∀ r t, ¬Evaluates host endlessForm 0 endlessState r t := by
    intro r t h
    obtain ⟨hne, least, hleast⟩ :=
      ((evaluate_adequate_for_rules host endlessForm 0 endlessState).1 r t).mp h
    have heq := (evaluate_endlessForm host least).symm.trans (hleast least (Nat.le_refl least))
    exact hne (Prod.mk.inj heq).1.symm
  exact ⟨⟨t, (((evaluate_adequate_for_rules host call 0 endlessState).1 _ _).mp hcall).2⟩, hnone,
    (evaluate_adequate_for_rules host endlessForm 0 endlessState).2 hnone⟩

end SmallLisp
