import SmallLisp.Proofs.Eval.Subevaluation

/-!
Which frames an evaluation can change.

An evaluation writes to its own frame and to frames that it makes, and to no other
(`Store.SameOutside`).  A frame made for a call is written to until the call ends and never again:
the frames of the evaluations around the call were there before it, and what they do afterwards stays
in their own frames.
-/

namespace SmallLisp

namespace Store

/-- Nothing is gone, and of the frames of `s` at most `frame` is another one in `t`. -/
structure SameOutside (frame : Nat) (s t : Store) : Prop where
  size_le : s.frames.size ≤ t.frames.size
  frame?_eq (i : Nat) : i < s.frames.size → i ≠ frame → t.frame? i = s.frame? i

namespace SameOutside

variable {frame : Nat} {s t u : Store}

theorem refl (frame : Nat) (s : Store) : s.SameOutside frame s :=
  ⟨Nat.le_refl _, fun _ _ _ => rfl⟩

theorem trans (hst : s.SameOutside frame t) (htu : t.SameOutside frame u) :
    s.SameOutside frame u := by
  refine ⟨Nat.le_trans hst.size_le htu.size_le, fun i hi hne => ?_⟩
  rw [htu.frame?_eq i (Nat.lt_of_lt_of_le hi hst.size_le) hne, hst.frame?_eq i hi hne]

theorem define (frame : Nat) (s : Store) (name : Text) (v : Value) :
    s.SameOutside frame (s.define frame name v) :=
  ⟨Nat.le_of_eq (size_define s frame name v).symm,
    fun _ _ hne => frame?_define_of_ne s hne name v⟩

/-- What happens outside the frame of a call only concerns frames that were not there before. -/
theorem of_call {home : Nat} {formals : List Text} {args : List Value}
    (h : (s.extend home formals args).2.SameOutside s.frames.size t) (frame : Nat) :
    s.SameOutside frame t := by
  have hsize : s.frames.size + 1 ≤ t.frames.size := by
    rw [← size_extend s home formals args]
    exact h.size_le
  refine ⟨by omega, fun i hi _ => ?_⟩
  have hlt : i < (s.extend home formals args).2.frames.size := by
    rw [size_extend]
    omega
  rw [h.frame?_eq i hlt (Nat.ne_of_lt hi), frame?_extend_of_lt s home formals args hi]

end SameOutside
end Store

theorem callEffect_sameOutside :
    CallEffect fun frame s t => s.store.SameOutside frame t.store where
  refl frame s := .refl frame s.store
  trans hst htu := hst.trans htu
  define frame name v s := .define frame s.store name v
  identity _ _ := ⟨Nat.le_refl _, fun _ _ _ => rfl⟩
  console frame _ s := .refl frame s.store
  note frame _ _ s := .refl frame s.store
  call h := h.of_call _

/-! ## Frames of calls -/

namespace Evaluation

variable {host : Host} {e a b : Evaluation} {inner : Nat} {t : State}

theorem size_le_of_run {α : Type} {frame : Nat} {m : Run α} {r : Except Fault α} {s t : State}
    (hm : m.Within fun s t => s.store.SameOutside frame t.store) (h : m s = (r, t)) :
    s.store.frames.size ≤ t.store.frames.size := by
  have hsize := (hm s).size_le
  rw [h] at hsize
  exact hsize

theorem Applies.size_le {n : Nat} {fn : Value} {args : List Value} {s : State}
    (h : e.Applies host n fn args s) : e.state.store.frames.size ≤ s.store.frames.size := by
  have hev (n : Nat) := callEffect_sameOutside.evaluate_within host n
  cases h with
  | @intro n _ _ _ operands _ _ _ _ _ hhead hoperands =>
    exact Nat.le_trans (size_le_of_run (hev n _ _) hhead)
      (size_le_of_run (callEffect_sameOutside.evaluateAll (hev (n - 1)) operands) hoperands)

theorem Starts.size_le (hab : Starts host a b) :
    a.state.store.frames.size ≤ b.state.store.frames.size := by
  have hev (n : Nat) := callEffect_sameOutside.evaluate_within host n
  cases hab with
  | head | defined | condition => exact Nat.le_refl _
  | @operand n _ _ _ _ before _ _ _ _ _ _ hhead hbefore =>
    exact Nat.le_trans (size_le_of_run (hev n _ _) hhead)
      (size_le_of_run (callEffect_sameOutside.evaluateAll (hev (n - 1)) before) hbefore)
  | @body _ _ _ home formals _ args s happ =>
    have hsize : (s.extend home formals args).store.frames.size = s.store.frames.size + 1 :=
      Store.size_extend s.store home formals args
    have := happ.size_le
    simp only
    omega
  | evalForm happ => exact happ.size_le
  | @useForm _ n _ _ _ _ _ _ before _ _ _ _ happ _ _ hlog _ hbefore =>
    cases hlog
    have hforms :=
      size_le_of_run (callEffect_sameOutside.evaluateForms (hev (n - 3)) _ before) hbefore
    exact Nat.le_trans happ.size_le hforms
  | @yes n _ _ _ _ _ _ _ _ _ hc => exact size_le_of_run (hev (n - 1) _ _) hc
  | @no n _ _ _ _ _ _ _ _ hc => exact size_le_of_run (hev (n - 1) _ _) hc

/-- What is started, is started in the same frame or in one that has just been made. -/
theorem Starts.frame_lt (hab : Starts host a b) (ha : a.frame < a.state.store.frames.size) :
    b.frame < b.state.store.frames.size := by
  have hsize := hab.size_le
  cases hab with
  | @body _ _ _ home formals _ args s =>
    show s.store.frames.size < (s.store.extend home formals args).2.frames.size
    rw [Store.size_extend]
    omega
  | _ => exact Nat.lt_of_lt_of_le ha hsize

/-- After a call has ended, its frame stays as it is until the evaluation around the call ends. -/
theorem Calls.frame?_final (h : e.Calls host inner t)
    (hframe : e.frame < e.state.store.frames.size) :
    e.state.store.frames.size ≤ inner ∧ inner < (e.final host).store.frames.size ∧
      (e.final host).store.frame? inner = t.store.frame? inner := by
  obtain ⟨c, n, id, home, formals, body, args, s, hec, happ, hl, rfl, rfl⟩ := h
  -- From the call outwards, one evaluation at a time.
  induction hec using Relation.ReflTransGen.head_induction_on with
  | refl =>
    refine ⟨happ.size_le, ?_, ?_⟩
    · have hbody := (callEffect_sameOutside.evaluate_within host (n - 1) body s.store.frames.size
        (s.extend home formals args)).size_le
      have hsize : (s.extend home formals args).store.frames.size = s.store.frames.size + 1 :=
        Store.size_extend s.store home formals args
      unfold final
      rw [happ.run_eq, apply_closure host n c.frame id body home hl s]
      omega
    · unfold final
      rw [happ.run_eq]
  | @head a b hab _ ih =>
    obtain ⟨hle, hlt, heq⟩ := ih (hab.frame_lt hframe)
    have hrest := hab.rest callEffect_sameOutside
    have hinner : a.state.store.frames.size ≤ s.store.frames.size := Nat.le_trans hab.size_le hle
    refine ⟨hinner, Nat.lt_of_lt_of_le hlt hrest.size_le, ?_⟩
    rw [hrest.frame?_eq _ hlt (by omega), heq]

end Evaluation

/-- Something to be evaluated, where, and in which surroundings. -/
structure Request where
  host : Host
  frames : Nat
  form : Value
  frame : Nat

/-- The state after evaluations one after the other, however each of them ends. -/
def State.after (s : State) (requests : List Request) : State :=
  requests.foldl (fun s r => (evaluate r.host r.frames r.form r.frame s).2) s

theorem State.frame?_after {requests : List Request} {i : Nat} (h : ∀ r ∈ requests, r.frame ≠ i)
    (s : State) (hi : i < s.store.frames.size) :
    (s.after requests).store.frame? i = s.store.frame? i := by
  induction requests generalizing s with
  | nil => rfl
  | cons r rest ih =>
    have hstep := callEffect_sameOutside.evaluate_within r.host r.frames r.form r.frame s
    show (State.after (evaluate r.host r.frames r.form r.frame s).2 rest).store.frame? i = _
    rw [ih (fun r hr => h r (List.mem_cons_of_mem _ hr)) _ (Nat.lt_of_lt_of_le hi hstep.size_le)]
    exact hstep.frame?_eq i hi (h r List.mem_cons_self).symm

/-- An evaluation leaves every frame but its own as it was, and calling a closure leaves every frame
as it was.  The frames that appear during an evaluation are those of the calls in it, and none of them
changes after its call has ended: neither in what is left of the evaluation nor in later ones in other
frames. -/
theorem evaluate_changes_only_own_frame (host : Host) (frames : Nat) (form : Value) (frame : Nat)
    (s : State) :
    (∀ i, i < s.store.frames.size → i ≠ frame →
      (evaluate host frames form frame s).2.store.frame? i = s.store.frame? i) ∧
    (∀ (id home : Nat) (formals : List Text) (body : Value) (args : List Value) (i : Nat),
      i < s.store.frames.size →
      (apply host (.ofFrames host frames) frame (.closure id formals body home) args
        s).2.store.frame? i = s.store.frame? i) ∧
    (∀ inner, s.store.frames.size ≤ inner →
      inner < (evaluate host frames form frame s).2.store.frames.size →
      ∃ t, Evaluation.Calls host ⟨frames, form, frame, s⟩ inner t) ∧
    (frame < s.store.frames.size → ∀ inner t,
      Evaluation.Calls host ⟨frames, form, frame, s⟩ inner t →
      ∀ later : List Request, (∀ r ∈ later, r.frame ≠ inner) →
        ((evaluate host frames form frame s).2.after later).store.frame? inner =
          t.store.frame? inner) := by
  refine ⟨?_, ?_, ?_, ?_⟩
  · exact (callEffect_sameOutside.evaluate_within host frames form frame s).frame?_eq
  · intro id home formals body args i hi
    -- A call may be made from any frame, also from one that is not there yet.
    have hcall : s.store.SameOutside s.store.frames.size
        (apply host (.ofFrames host frames) frame (.closure id formals body home) args s).2.store :=
      callEffect_sameOutside.applyClosure ((callEffect_sameOutside.headroom host frames).enter 1)
        (.closure id formals body home) formals body home args s
    exact hcall.frame?_eq i hi (Nat.ne_of_lt hi)
  · exact fun inner hle hlt => Evaluation.exists_calls ⟨hle, hlt⟩
  · intro hframe inner t hcall later hlater
    obtain ⟨_, hlt, heq⟩ := hcall.frame?_final hframe
    exact (State.frame?_after hlater _ hlt).trans heq

/-- A closure that was made in frame 1 and defines a name in the frame made for each call. -/
def definingClosure : Value :=
  .closure 0 ["x"] (.list [.symbol "def", .symbol "y", .symbol "x"]) 1

/-- A call of it from frame 0. -/
def definingCall : Evaluation where
  frames := 20
  form := .list [definingClosure, .bool true]
  frame := 0
  state := ⟨⟨#[⟨[], none⟩, ⟨[], some 0⟩], 1⟩, .start [], []⟩

theorem evaluate_changes_only_own_frame_definingCall :
    let host : Host := ⟨⟨[], []⟩, [], none, []⟩
    let later : Request := ⟨host, 20, .list [.symbol "def", .symbol "y", .bool false], 0⟩
    (definingCall.final host).store.frame? 1 = definingCall.state.store.frame? 1 ∧
      (apply host (.ofFrames host 20) 0 definingClosure [.bool true]
        definingCall.state).2.store.frame? 0 = definingCall.state.store.frame? 0 ∧
      (∃ t, definingCall.Calls host 2 t) ∧
      ((definingCall.final host).after [later]).store.frame? 2 =
        some ⟨[("x", .bool true), ("y", .bool true)], some 1⟩ := by
  intro host later
  obtain ⟨hown, happly, hmade, hcall⟩ := evaluate_changes_only_own_frame host 20
    definingCall.form 0 definingCall.state
  refine ⟨hown 1 (by decide) (by decide), happly 0 1 _ _ _ 0 (by decide),
    hmade 2 (by decide) (by decide), ?_⟩
  have happlies : definingCall.Applies host 18 definingClosure [.bool true] definingCall.state :=
    .intro rfl rfl rfl
  have hcalls : definingCall.Calls host 2 _ :=
    ⟨definingCall, 18, 0, 1, ["x"], _, _, _, .refl, happlies, rfl, rfl, rfl⟩
  have hlater : ∀ r ∈ [later], r.frame ≠ 2 := by
    intro r hr
    rw [List.mem_singleton.mp hr]
    exact Nat.zero_ne_add_one 1
  exact (hcall (by decide) 2 _ hcalls [later] hlater).trans rfl

end SmallLisp
