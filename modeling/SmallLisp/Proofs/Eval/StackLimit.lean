import SmallLisp.Proofs.Eval.Bounded

/-!
More stack frames change nothing but overflow.

A run approximates another one if the other one ends in the same way whenever the first one does not
overflow.  Every part of evaluation passes an overflow on and none looks at the number of frames
otherwise, so a part approximates itself with more frames if the evaluations inside do.  By induction on
the frames, evaluation approximates evaluation with more of them (`evaluate_approximates`).
-/

namespace SmallLisp

variable {α β : Type}

namespace Run

/-- The run ends in this way, and not because the stack is used up. -/
structure Ends (m : Run α) (s : State) (r : Except Fault α) (t : State) : Prop where
  run_eq : m s = (r, t)
  ne_overflow : r ≠ .error .overflow

section Ends

variable {m : Run α} {f : α → Run β} {s t u : State} {a : α}

theorem ends_pure (a : α) (s : State) : (pure a : Run α).Ends s (.ok a) s := ⟨rfl, nofun⟩

theorem ends_fail (e : Error) (s : State) : (fail e : Run α).Ends s (.error (.error e)) s :=
  ⟨rfl, nofun⟩

theorem not_ends_overflow {r : Except Fault α} : ¬(fault .overflow : Run α).Ends s r t := by
  rintro ⟨hrun, hne⟩
  cases hrun
  exact hne rfl

theorem Ends.bind {r : Except Fault β} (hm : m.Ends s (.ok a) t) (hf : (f a).Ends t r u) :
    (m >>= f).Ends s r u :=
  ⟨(bind_ok hm.run_eq).trans hf.run_eq, hf.ne_overflow⟩

theorem Ends.bind_error {e : Fault} (hm : m.Ends s (.error e) t) (f : α → Run β) :
    (m >>= f).Ends s (.error e) t := by
  refine ⟨Run.bind_error hm.run_eq, ?_⟩
  intro h
  cases h
  exact hm.ne_overflow rfl

theorem Ends.bind_cases {r : Except Fault β} (h : (m >>= f).Ends s r u) :
    (∃ a t, m.Ends s (.ok a) t ∧ (f a).Ends t r u) ∨
      ∃ e, m.Ends s (.error e) u ∧ r = .error e := by
  obtain ⟨hrun, hne⟩ := h
  rcases Run.bind_cases m f s with ⟨a, t, hm, hb⟩ | ⟨e, t, hm, hb⟩
  · exact .inl ⟨a, t, ⟨hm, nofun⟩, hb.symm.trans hrun, hne⟩
  · obtain ⟨rfl, rfl⟩ := Prod.mk.inj (hb.symm.trans hrun)
    refine .inr ⟨e, ⟨hm, ?_⟩, rfl⟩
    intro he
    cases he
    exact hne rfl

end Ends

def Approximates (m n : Run α) : Prop := ∀ s r t, m.Ends s r t → n.Ends s r t

theorem Approximates.refl (m : Run α) : m.Approximates m := fun _ _ _ => id

theorem approximates_of_overflow (m : Run α) : (fault .overflow : Run α).Approximates m :=
  fun _ _ _ h => absurd h not_ends_overflow

theorem Approximates.bind {m m' : Run α} {f f' : α → Run β} (hm : m.Approximates m')
    (hf : ∀ a, (f a).Approximates (f' a)) : (m >>= f).Approximates (m' >>= f') := by
  intro s r t h
  rcases h.bind_cases with ⟨a, u, hma, hfa⟩ | ⟨e, hme, rfl⟩
  · exact (hm _ _ _ hma).bind (hf a _ _ _ hfa)
  · exact (hm _ _ _ hme).bind_error f'

theorem Bounded.approximates {m : Headroom → Run α} {full : Run α} (h : Bounded m full)
    {room room' : Headroom} (hle : room.frames ≤ room'.frames) :
    (m room).Approximates (m room') := by
  obtain ⟨need, hneed⟩ := h
  rw [hneed room, hneed room']
  by_cases hroom : need ≤ room.frames
  · rw [if_pos hroom, if_pos (Nat.le_trans hroom hle)]
    exact .refl full
  · rw [if_neg hroom]
    exact approximates_of_overflow _

end Run

def Evaluator.Approximates (ev ev' : Evaluator) : Prop :=
  ∀ form frame, (ev form frame).Approximates (ev' form frame)

structure Headroom.Approximates (room room' : Headroom) : Prop where
  frames_le : room.frames ≤ room'.frames
  below (used : Nat) : (room.evaluateBelow used).Approximates (room'.evaluateBelow used)

namespace Headroom.Approximates

variable {room room' : Headroom}

theorem enter (h : room.Approximates room') (n : Nat) :
    (room.enter n).Approximates (room'.enter n) :=
  ⟨Nat.sub_le_sub_right h.frames_le n, fun used => h.below (n + used)⟩

theorem evaluate (h : room.Approximates room') : room.evaluate.Approximates room'.evaluate :=
  h.below 0

end Headroom.Approximates

/-! ## The parts of evaluation -/

section Parts

variable {ev ev' : Evaluator} {room room' : Headroom}

theorem approximates_evaluateAll (h : ev.Approximates ev') (frame : Nat) (forms : List Value) :
    (evaluateAll ev frame forms).Approximates (evaluateAll ev' frame forms) := by
  induction forms with
  | nil => exact .refl _
  | cons e es ih => exact (h e frame).bind fun v => ih.bind fun vs => .refl _

theorem approximates_evaluateForms (h : ev.Approximates ev') (frame : Nat) (last : Value)
    (forms : List Value) :
    (evaluateForms ev frame last forms).Approximates (evaluateForms ev' frame last forms) := by
  induction forms generalizing last with
  | nil => exact .refl _
  | cons e es ih => exact (h e frame).bind fun v => ih v

theorem approximates_evaluateReading (h : ev.Approximates ev') (frame : Nat) (r : Reading) :
    (evaluateReading ev frame r).Approximates (evaluateReading ev' frame r) :=
  (approximates_evaluateForms h frame .unspecified r.forms).bind fun _ => .refl _

theorem approximates_specialForm (h : room.Approximates room') (frame : Nat)
    (special : SpecialForm) (parts : List Value) :
    (special.run room frame parts).Approximates (special.run room' frame parts) := by
  unfold SpecialForm.run
  split
  next name form =>
    cases name with
    | symbol x => exact (h.evaluate form frame).bind fun v => .refl _
    | _ => exact ((Run.bounded_inspected _).bind _).approximates h.frames_le
  next formals body => exact .refl _
  next condition yes no =>
    refine (h.evaluate condition frame).bind fun v => ?_
    split
    · exact h.evaluate no frame
    · exact h.evaluate yes frame
  next form => exact .refl _
  next => exact .refl _

theorem approximates_useFile (host : Host) (h : ev.Approximates ev') (frame : Nat) (name : Value) :
    (Primitive.useFile host ev frame name).Approximates (Primitive.useFile host ev' frame name) := by
  cases name with
  | symbol x =>
    refine (Run.Approximates.refl _).bind fun p => (Run.Approximates.refl _).bind fun text => ?_
    cases text with
    | error e => exact .refl _
    | ok text =>
      exact (Run.Approximates.refl _).bind fun _ => approximates_evaluateReading h frame _
  | _ => exact .refl _

theorem approximates_primitiveBody (host : Host) (h : room.Approximates room') (frame : Nat)
    (op : Primitive) (args : List Value) :
    (op.body host room frame args).Approximates (op.body host room' frame args) := by
  by_cases heval : op = .eval
  · subst heval
    cases args with
    | nil => exact .refl _
    | cons form rest => exact h.evaluate form frame
  by_cases huse : op = .use
  · subst huse
    cases args with
    | nil => exact .refl _
    | cons name rest => exact approximates_useFile host h.evaluate frame name
  · exact (Primitive.bounded_body host frame heval huse args).approximates h.frames_le

theorem approximates_applyClosure (h : room.Approximates room') (closure : Value)
    (formals : List Text) (body : Value) (home : Nat) (args : List Value) :
    (applyClosure room closure formals body home args).Approximates
      (applyClosure room' closure formals body home args) := by
  refine Run.Approximates.bind ?_ fun inner => h.evaluate body inner
  unfold callFrame
  split
  · exact .refl _
  · exact ((Run.bounded_shown closure).bind _).approximates (h.enter 1).frames_le

theorem approximates_apply (host : Host) (h : room.Approximates room') (frame : Nat) (fn : Value)
    (args : List Value) :
    (apply host room frame fn args).Approximates (apply host room' frame fn args) := by
  cases fn with
  | closure id formals body home =>
    exact approximates_applyClosure (h.enter 1) _ formals body home args
  | builtin op id =>
    simp only [apply, Primitive.call]
    split
    · exact approximates_primitiveBody host (h.enter 3) frame op args
    · exact .refl _
  | _ => exact ((Run.bounded_shown _).bind _).approximates h.frames_le

theorem approximates_evaluateStep (host : Host) (h : room.Approximates room') :
    Evaluator.Approximates (evaluateStep host room) (evaluateStep host room') := by
  intro form frame
  unfold evaluateStep
  split
  · exact .refl _
  · exact .refl _
  · split
    · exact approximates_specialForm (h.enter 1) frame _ _
    · refine (h.evaluate _ frame).bind fun fn => ?_
      refine (approximates_evaluateAll (h.enter 1).evaluate frame _).bind fun args => ?_
      exact approximates_apply host (h.enter 1) frame fn args
  · exact .refl _

end Parts

theorem evaluate_approximates (host : Host) {m n : Nat} (hmn : m ≤ n) :
    (evaluate host m).Approximates (evaluate host n) := by
  induction m using Nat.strongRecOn generalizing n with
  | ind m ih =>
    cases m with
    | zero => exact fun form frame => Run.approximates_of_overflow _
    | succ m =>
      cases n with
      | zero => omega
      | succ n =>
        have hmn : m ≤ n := by omega
        have hroom : (Headroom.ofFrames host m).Approximates (.ofFrames host n) :=
          ⟨hmn, fun used => ih (m - used) (by omega) (Nat.sub_le_sub_right hmn used)⟩
        rw [evaluate_succ, evaluate_succ]
        exact approximates_evaluateStep host hroom

/-- An evaluation that does not overflow ends in the same way with more stack frames: with the same
value or fault, the same store, the same console and the same journal. -/
theorem evaluate_unchanged_by_more_frames (host : Host) {fewer more : Nat} (hle : fewer ≤ more)
    (form : Value) (frame : Nat) (s : State)
    (h : (evaluate host fewer form frame s).1 ≠ .error .overflow) :
    evaluate host more form frame s = evaluate host fewer form frame s := by
  have hends : (evaluate host fewer form frame).Ends s (evaluate host fewer form frame s).1
      (evaluate host fewer form frame s).2 := ⟨rfl, h⟩
  exact (evaluate_approximates host hle form frame _ _ _ hends).run_eq

/-- A form that calls a closure and then finds out that what the call yields is no procedure. -/
def callOfTruth : Value :=
  .list [.list [.list [.symbol "lambda", .list [.symbol "x"], .symbol "x"], .bool true]]

theorem evaluate_unchanged_by_more_frames_callOfTruth :
    let host : Host := ⟨⟨[], []⟩, [], none, []⟩
    let s : State := ⟨⟨#[⟨[], none⟩], 0⟩, .start [], []⟩
    (evaluate host 6 callOfTruth 0 s).1 = .error (.error (.notCallable "true")) ∧
      evaluate host 1000 callOfTruth 0 s = evaluate host 6 callOfTruth 0 s := by
  intro host s
  have hvalue : (evaluate host 6 callOfTruth 0 s).1 = .error (.error (.notCallable "true")) := rfl
  refine ⟨hvalue, evaluate_unchanged_by_more_frames host (by decide) callOfTruth 0 s ?_⟩
  rw [hvalue]
  exact nofun

end SmallLisp
