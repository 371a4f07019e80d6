import SmallLisp.Eval.Evaluate

/-!
What evaluation can do to the state of a program.

An effect is a relation between the state before and the state after, which may depend on the frame
that is evaluated in.  `Effect` lists the few ways in which an evaluation changes the state without
calling a closure: it binds a name in its own frame, gives out an identity, uses the console and adds
debug records to the journal.  `CallEffect` adds the one other way, running the body of a closure in a
frame made for the call.  A relation that holds of each of these and composes holds of every
evaluation, however it ends (`CallEffect.evaluate_within`).
-/

namespace SmallLisp

variable {α β : Type}

namespace Run

/-- The run leads only from states to states that `R` relates to them. -/
def Within (R : State → State → Prop) (m : Run α) : Prop := ∀ s, R s (m s).2

/-- The run changes nothing, whatever it answers. -/
def Quiet (m : Run α) : Prop := ∀ s, (m s).2 = s

theorem bind_ok {m : Run α} {f : α → Run β} {s t : State} {a : α} (h : m s = (.ok a, t)) :
    (m >>= f) s = f a t := by
  show Run.bind m f s = f a t
  simp only [Run.bind, h]

theorem bind_error {m : Run α} {f : α → Run β} {s t : State} {e : Fault}
    (h : m s = (.error e, t)) : (m >>= f) s = (.error e, t) := by
  show Run.bind m f s = (.error e, t)
  simp only [Run.bind, h]

/-- A run in two parts ends in its first part or goes on from where the first part stopped. -/
theorem bind_cases (m : Run α) (f : α → Run β) (s : State) :
    (∃ a t, m s = (.ok a, t) ∧ (m >>= f) s = f a t) ∨
      ∃ e t, m s = (.error e, t) ∧ (m >>= f) s = (.error e, t) := by
  match h : m s with
  | (.ok a, t) => exact .inl ⟨a, t, rfl, bind_ok h⟩
  | (.error e, t) => exact .inr ⟨e, t, rfl, bind_error h⟩

theorem bind_assoc {γ : Type} (m : Run α) (f : α → Run β) (g : β → Run γ) :
    (m >>= f) >>= g = m >>= fun a => f a >>= g := by
  funext s
  rcases bind_cases m f s with ⟨a, t, hm, hb⟩ | ⟨e, t, hm, hb⟩
  · rw [bind_ok hm]
    show Run.bind (m >>= f) g s = Run.bind (f a) g t
    rw [Run.bind, hb]
    rfl
  · rw [bind_error hm, bind_error hb]

/-- A run in two parts has a value only if both parts have. -/
theorem eq_ok_of_bind_eq_ok {m : Run α} {f : α → Run β} {s u : State} {b : β}
    (h : (m >>= f) s = (.ok b, u)) : ∃ a t, m s = (.ok a, t) ∧ f a t = (.ok b, u) := by
  rcases bind_cases m f s with ⟨a, t, hm, hb⟩ | ⟨e, t, hm, hb⟩
  · exact ⟨a, t, hm, hb.symm.trans h⟩
  · rw [hb] at h
    cases h

theorem outcome_of_run {m : Run α} {r : Except Fault α} {s t : State} (h : m s = (r, t)) :
    outcome m s = (.ok r, t) := by
  simp only [outcome, h]

theorem exists_eq_ok {r : Except Fault α × State} (h : r.1.isOk = true) :
    ∃ a, r = (.ok a, r.2) := by
  obtain ⟨result, t⟩ := r
  cases result with
  | ok a => exact ⟨a, rfl⟩
  | error f => cases h

theorem quiet_pure (a : α) : Quiet (pure a : Run α) := fun _ => rfl

theorem quiet_fault (f : Fault) : Quiet (fault f : Run α) := fun _ => rfl

theorem quiet_fail (e : Error) : Quiet (fail e : Run α) := fun _ => rfl

theorem Quiet.bind {m : Run α} {f : α → Run β} (hm : m.Quiet) (hf : ∀ a, (f a).Quiet) :
    (m >>= f).Quiet := by
  intro s
  have hs := hm s
  rcases bind_cases m f s with ⟨a, t, h, hb⟩ | ⟨e, t, h, hb⟩
  · rw [hb, hf a t, ← hs, h]
  · rw [hb, ← hs, h]

def Fails (m : Run α) : Prop := ∀ s, ∃ e, m s = (.error e, s)

theorem Fails.quiet {m : Run α} (hm : m.Fails) : m.Quiet := by
  intro s
  obtain ⟨e, he⟩ := hm s
  rw [he]

theorem Fails.bind {m : Run α} (hm : m.Fails) (f : α → Run β) : (m >>= f).Fails := by
  intro s
  obtain ⟨e, he⟩ := hm s
  exact ⟨e, bind_error he⟩

theorem fails_bind_fail {m : Run α} (hm : m.Quiet) (error : α → Error) :
    (m >>= fun a => (fail (error a) : Run β)).Fails := by
  intro s
  have hs := hm s
  rcases bind_cases m (fun a => (fail (error a) : Run β)) s with ⟨a, t, h, hb⟩ | ⟨e, t, h, hb⟩
  · rw [h] at hs
    exact ⟨.error (error a), by rw [hb, ← hs]; rfl⟩
  · rw [h] at hs
    exact ⟨e, by rw [hb, ← hs]⟩

theorem quiet_ofExcept (r : Except Fault α) : (ofExcept r).Quiet := by
  cases r with
  | ok a => exact quiet_pure a
  | error f => exact quiet_fault f

theorem quiet_shown (frames : Nat) (v : Value) : (shown frames v).Quiet := by
  intro s
  unfold shown
  split <;> rfl

theorem quiet_inspected (frames : Nat) (v : Value) : (inspected frames v).Quiet := by
  intro s
  unfold inspected
  split <;> rfl

theorem quiet_lookup (frame : Nat) (name : Text) : (lookup frame name).Quiet := by
  intro s
  unfold lookup
  split <;> rfl

theorem quiet_fileText (host : Host) (p : Path) : (fileText host p).Quiet := by
  intro s
  unfold fileText
  split <;> rfl

end Run

theorem evaluateForms_append (ev : Evaluator) (frame : Nat) (last : Value)
    (forms later : List Value) :
    evaluateForms ev frame last (forms ++ later) =
      evaluateForms ev frame last forms >>= fun v => evaluateForms ev frame v later := by
  induction forms generalizing last with
  | nil => rfl
  | cons e es ih =>
    rw [List.cons_append, evaluateForms, evaluateForms, Run.bind_assoc]
    congr 1
    funext v
    exact ih v

/-! ## Primitives that only look at their arguments -/

namespace Primitive

theorem quiet_numbers (frames : Nat) (name : Text) (args : List Value) :
    (numbers frames name args).Quiet := by
  induction args with
  | nil => exact Run.quiet_pure []
  | cons v rest ih =>
    cases v with
    | number x => exact ih.bind fun xs => Run.quiet_pure (x :: xs)
    | _ => exact (Run.quiet_shown frames _).bind fun _ => Run.quiet_fail _

theorem quiet_listArgument (name : Text) (args : List Value) : (listArgument name args).Quiet := by
  cases args with
  | nil => exact Run.quiet_pure []
  | cons v rest =>
    cases v with
    | list items => exact Run.quiet_pure items
    | _ => exact Run.quiet_fail _

theorem quiet_compare (frames : Nat) (op : Primitive) (rel : Binary64 → Binary64 → Bool)
    (args : List Value) : (compare frames op rel args).Quiet :=
  (quiet_numbers frames op.name args).bind fun _ => Run.quiet_pure _

theorem quiet_exitStatus (frames : Nat) (v : Value) : (exitStatus frames v).Quiet := by
  refine (quiet_numbers frames "exit" [v]).bind fun xs => ?_
  cases xs with
  | nil => exact Run.quiet_pure 0
  | cons x rest =>
    simp only
    split
    · exact Run.quiet_pure _
    · exact (Run.quiet_shown frames v).bind fun _ => Run.quiet_fail _

end Primitive

/-! ## Effects -/

/-- The state with the frame for a call added. -/
def State.extend (s : State) (home : Nat) (formals : List Text) (args : List Value) : State :=
  { s with store := (s.store.extend home formals args).2 }

/-- `R frame` relates the states before and after everything that an evaluation in `frame` does
without a call, and what it relates composes. -/
structure Effect (R : Nat → State → State → Prop) : Prop where
  refl (frame : Nat) (s : State) : R frame s s
  trans {frame : Nat} {s t u : State} : R frame s t → R frame t u → R frame s u
  define (frame : Nat) (name : Text) (v : Value) (s : State) :
    R frame s { s with store := s.store.define frame name v }
  identity (frame : Nat) (s : State) : R frame s { s with store := s.store.newIdentity.2 }
  console (frame : Nat) (c : Console) (s : State) : R frame s { s with console := c }
  note (frame : Nat) (logger message : Text) (s : State) :
    R frame s { s with journal := .record ⟨logger, .debug, message⟩ :: s.journal }

/-- What a call does is allowed in the frame of the caller if it is allowed in the frame made for the
call, which is the first one that was not there before. -/
structure CallEffect (R : Nat → State → State → Prop) : Prop extends Effect R where
  call {frame home : Nat} {formals : List Text} {args : List Value} {s t : State} :
    R s.store.frames.size (s.extend home formals args) t → R frame s t

/-- Every evaluation by `ev` has the effect `R`. -/
def Evaluator.Within (R : Nat → State → State → Prop) (ev : Evaluator) : Prop :=
  ∀ form frame, (ev form frame).Within (R frame)

/-- Every evaluation that is left room for has the effect `R`. -/
def Headroom.Within (R : Nat → State → State → Prop) (room : Headroom) : Prop :=
  ∀ used, Evaluator.Within R (room.evaluateBelow used)

theorem Headroom.Within.enter {R : Nat → State → State → Prop} {room : Headroom}
    (h : room.Within R) (n : Nat) : (room.enter n).Within R :=
  fun used => h (n + used)

theorem Headroom.Within.evaluate {R : Nat → State → State → Prop} {room : Headroom}
    (h : room.Within R) : Evaluator.Within R room.evaluate :=
  h 0

namespace Effect

variable {R : Nat → State → State → Prop} {frame : Nat}

theorem quiet (h : Effect R) {m : Run α} (hm : m.Quiet) : m.Within (R frame) := by
  intro s
  rw [hm s]
  exact h.refl frame s

/-- What is left of a run after its first part has the effect that every second part has. -/
theorem rest (h : Effect R) (m : Run α) {f : α → Run β} (hf : ∀ a, (f a).Within (R frame))
    (s : State) : R frame (m s).2 ((m >>= f) s).2 := by
  rcases Run.bind_cases m f s with ⟨a, t, hmt, hb⟩ | ⟨e, t, hmt, hb⟩
  · rw [hb, hmt]
    exact hf a t
  · rw [hb, hmt]
    exact h.refl frame t

theorem bind (h : Effect R) {m : Run α} {f : α → Run β} (hm : m.Within (R frame))
    (hf : ∀ a, (f a).Within (R frame)) : (m >>= f).Within (R frame) :=
  fun s => h.trans (hm s) (h.rest m hf s)

theorem log (h : Effect R) (logger message : Text) :
    (Run.log logger .debug message).Within (R frame) :=
  fun s => h.note frame logger message s

theorem write (h : Effect R) (text : Text) : (Run.write text).Within (R frame) :=
  fun s => h.console frame _ s

theorem nextArrival (h : Effect R) : Run.nextArrival.Within (R frame) := by
  intro s
  unfold Run.nextArrival
  split
  · exact h.refl frame s
  · exact h.console frame _ s

/-! ### Forms -/

theorem evaluateAll (h : Effect R) {ev : Evaluator} (hev : ev.Within R) (forms : List Value) :
    (evaluateAll ev frame forms).Within (R frame) := by
  induction forms with
  | nil => exact h.quiet (Run.quiet_pure [])
  | cons e es ih =>
    refine h.bind (hev e frame) fun v => ?_
    exact h.bind ih fun vs => h.quiet (Run.quiet_pure (v :: vs))

theorem evaluateForms (h : Effect R) {ev : Evaluator} (hev : ev.Within R) (last : Value)
    (forms : List Value) : (evaluateForms ev frame last forms).Within (R frame) := by
  induction forms generalizing last with
  | nil => exact h.quiet (Run.quiet_pure last)
  | cons e es ih => exact h.bind (hev e frame) fun v => ih v

theorem evaluateReading (h : Effect R) {ev : Evaluator} (hev : ev.Within R) (r : Reading) :
    (evaluateReading ev frame r).Within (R frame) := by
  refine h.bind (h.evaluateForms hev .unspecified r.forms) fun v => ?_
  cases r.error with
  | none => exact h.quiet (Run.quiet_pure v)
  | some e => exact h.quiet (Run.quiet_fail _)

theorem runDefine (h : Effect R) {room : Headroom} (hroom : room.Within R) (name form : Value) :
    (SpecialForm.runDefine room frame name form).Within (R frame) := by
  cases name with
  | symbol x =>
    refine h.bind (hroom.evaluate form frame) fun v => ?_
    exact h.bind (fun s => h.define frame x v s) fun _ => h.quiet (Run.quiet_pure v)
  | _ => exact h.bind (h.quiet (Run.quiet_inspected _ _)) fun _ => h.quiet (Run.quiet_fail _)

theorem runLambda (h : Effect R) (formals body : Value) :
    (SpecialForm.runLambda frame formals body).Within (R frame) := by
  unfold SpecialForm.runLambda
  split
  · exact h.quiet (Run.quiet_fail _)
  · exact h.bind (fun s => h.identity frame s) fun _ => h.quiet (Run.quiet_pure _)

theorem runIf (h : Effect R) {room : Headroom} (hroom : room.Within R) (condition yes no : Value) :
    (SpecialForm.runIf room frame condition yes no).Within (R frame) := by
  refine h.bind (hroom.evaluate condition frame) fun v => ?_
  split
  · exact hroom.evaluate no frame
  · exact hroom.evaluate yes frame

theorem specialForm (h : Effect R) {room : Headroom} (hroom : room.Within R)
    (special : SpecialForm) (parts : List Value) :
    (special.run room frame parts).Within (R frame) := by
  unfold SpecialForm.run
  split
  · exact h.runDefine hroom _ _
  · exact h.runLambda _ _
  · exact h.runIf hroom _ _ _
  · exact h.quiet (Run.quiet_pure _)
  · exact h.quiet (Run.quiet_fail _)

/-! ### Procedures -/

theorem useFile (h : Effect R) (host : Host) {ev : Evaluator} (hev : ev.Within R) (name : Value) :
    (Primitive.useFile host ev frame name).Within (R frame) := by
  cases name with
  | symbol x =>
    refine h.bind (h.quiet (Run.quiet_ofExcept _)) fun p => ?_
    refine h.bind (h.quiet (Run.quiet_fileText host p)) fun text => ?_
    cases text with
    | error e => exact h.quiet (Run.quiet_fail _)
    | ok text => exact h.bind (h.log _ _) fun _ => h.evaluateReading hev (read text)
  | _ => exact h.quiet (Run.quiet_fail _)

theorem readLine (h : Effect R) : Primitive.readLine.Within (R frame) := by
  refine h.bind h.nextArrival fun arrival => ?_
  split
  · exact h.quiet (Run.quiet_pure _)
  · exact h.quiet (Run.quiet_pure _)
  · exact h.quiet (Run.quiet_fault _)
  · exact h.quiet (Run.quiet_fail _)

theorem exitWith (h : Effect R) (status : Int) :
    (Primitive.exitWith status).Within (R frame) :=
  h.bind (h.log _ _) fun _ => h.quiet (Run.quiet_fault _)

theorem primitiveBody (h : Effect R) (host : Host) {room : Headroom} (op : Primitive)
    (hroom : op = .eval ∨ op = .use → room.Within R) (args : List Value) :
    (op.body host room frame args).Within (R frame) := by
  unfold Primitive.body
  split
  · exact h.quiet ((Primitive.quiet_numbers _ _ _).bind fun _ => Run.quiet_pure _)
  · exact h.quiet ((Primitive.quiet_numbers _ _ _).bind fun _ => Run.quiet_pure _)
  · exact h.quiet ((Primitive.quiet_numbers _ _ _).bind fun _ => Run.quiet_pure _)
  · refine h.quiet ((Primitive.quiet_numbers _ _ _).bind fun xs => ?_)
    cases Binary64.quotient xs with
    | some x => exact Run.quiet_pure _
    | none => exact Run.quiet_fail _
  · exact h.quiet (Primitive.quiet_compare _ _ _ _)
  · exact h.quiet (Primitive.quiet_compare _ _ _ _)
  · exact h.quiet (Primitive.quiet_compare _ _ _ _)
  · exact h.quiet (Primitive.quiet_compare _ _ _ _)
  · exact h.quiet (Run.quiet_pure _)
  · split
    · exact h.quiet (Run.quiet_pure _)
    · exact h.quiet (Run.quiet_fault _)
  · exact h.quiet (Run.quiet_pure _)
  · exact h.quiet (Run.quiet_pure _)
  · exact h.quiet ((Primitive.quiet_listArgument _ _).bind fun _ => Run.quiet_pure _)
  · exact h.quiet ((Primitive.quiet_listArgument _ _).bind fun _ => Run.quiet_pure _)
  · exact h.quiet (Run.quiet_pure _)
  · exact (hroom (.inl rfl)).evaluate _ frame
  · exact h.useFile host (hroom (.inr rfl)).evaluate _
  · refine h.bind (h.quiet (Run.quiet_shown _ _)) fun text => ?_
    exact h.bind (h.write _) fun _ => h.quiet (Run.quiet_pure _)
  · exact h.readLine
  · exact h.exitWith 0
  · exact h.bind (h.quiet (Primitive.quiet_exitStatus _ _)) fun status => h.exitWith status
  · exact h.quiet (Run.quiet_pure _)

theorem primitiveCall (h : Effect R) (host : Host) {room : Headroom} (op : Primitive)
    (hroom : op = .eval ∨ op = .use → room.Within R) (args : List Value) :
    (op.call host room frame args).Within (R frame) := by
  unfold Primitive.call
  split
  · exact h.primitiveBody host op hroom args
  · exact h.quiet (Run.quiet_fail _)

end Effect

/-! ### Calls -/

/-- A call with the right number of arguments evaluates the body in the first frame that was not
there before. -/
theorem applyClosure_of_length_eq (room : Headroom) (closure : Value) {formals : List Text}
    (body : Value) (home : Nat) {args : List Value} (hl : formals.length = args.length)
    (s : State) :
    applyClosure room closure formals body home args s =
      room.evaluate body s.store.frames.size (s.extend home formals args) := by
  have hcall : callFrame (room.enter 1).frames closure formals home args s =
      (.ok s.store.frames.size, s.extend home formals args) := by
    simp only [callFrame, hl, if_true]
    rfl
  exact Run.bind_ok hcall

/-- A call with a wrong number of arguments ends before a frame is made. -/
theorem quiet_applyClosure_of_length_ne (room : Headroom) (closure : Value) {formals : List Text}
    (body : Value) (home : Nat) {args : List Value} (hl : formals.length ≠ args.length) :
    (applyClosure room closure formals body home args).Quiet := by
  have hframe : (callFrame (room.enter 1).frames closure formals home args).Fails := by
    unfold callFrame
    rw [if_neg hl]
    exact Run.fails_bind_fail (Run.quiet_shown _ _) _
  exact (hframe.bind fun inner => room.evaluate body inner).quiet

namespace CallEffect

variable {R : Nat → State → State → Prop} {frame : Nat}

theorem applyClosure (h : CallEffect R) {room : Headroom} (hroom : room.Within R) (closure : Value)
    (formals : List Text) (body : Value) (home : Nat) (args : List Value) :
    (applyClosure room closure formals body home args).Within (R frame) := by
  by_cases hl : formals.length = args.length
  · intro s
    rw [applyClosure_of_length_eq room closure body home hl s]
    exact h.call (hroom.evaluate body s.store.frames.size (s.extend home formals args))
  · exact h.quiet (quiet_applyClosure_of_length_ne room closure body home hl)

theorem apply (h : CallEffect R) (host : Host) {room : Headroom} (hroom : room.Within R) (fn : Value)
    (args : List Value) : (apply host room frame fn args).Within (R frame) := by
  unfold SmallLisp.apply
  split
  · exact h.applyClosure (hroom.enter 1) _ _ _ _ args
  · exact h.primitiveCall host _ (fun _ => hroom.enter 3) args
  · exact h.bind (h.quiet (Run.quiet_shown _ _)) fun _ => h.quiet (Run.quiet_fail _)

theorem evaluateCall (h : CallEffect R) (host : Host) {room : Headroom} (hroom : room.Within R)
    (head : Value) (operands : List Value) :
    (evaluateCall host room frame head operands).Within (R frame) := by
  refine h.bind (hroom.evaluate head frame) fun fn => ?_
  refine h.bind (h.evaluateAll (hroom.enter 1).evaluate operands) fun args => ?_
  exact h.apply host (hroom.enter 1) fn args

theorem evaluateStep (h : CallEffect R) (host : Host) {room : Headroom} (hroom : room.Within R) :
    Evaluator.Within R (evaluateStep host room) := by
  intro form frame
  unfold SmallLisp.evaluateStep
  split
  · exact h.quiet (Run.quiet_lookup _ _)
  · exact h.quiet (Run.quiet_fail _)
  · split
    · exact h.specialForm (hroom.enter 1) _ _
    · exact h.evaluateCall host hroom _ _
  · exact h.quiet (Run.quiet_pure _)

/-- Whatever is evaluated, wherever, and however it ends, the effect is the one allowed. -/
theorem evaluate_within (h : CallEffect R) (host : Host) (frames : Nat) :
    Evaluator.Within R (evaluate host frames) := by
  induction frames using Nat.strongRecOn with
  | ind frames ih =>
    cases frames with
    | zero => exact fun form frame => h.quiet (Run.quiet_fault _)
    | succ n =>
      rw [evaluate_succ]
      exact h.evaluateStep host fun used => ih (n - used) (by omega)

theorem headroom (h : CallEffect R) (host : Host) (frames : Nat) :
    (Headroom.ofFrames host frames).Within R :=
  fun used => h.evaluate_within host (frames - used)

end CallEffect
end SmallLisp
