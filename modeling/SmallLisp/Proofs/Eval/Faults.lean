import SmallLisp.Proofs.Eval.Bounded
import SmallLisp.Proofs.Eval.Subevaluation

/-!
Where faults come from.

Nothing in a program catches a fault, so an evaluation ends in the fault that one inside it ends in
(`Starts.run_error`).  Errors of the program, its wish to end and overflow can arise anywhere.  All other
faults arise where a primitive looks for a file or reads a line (`Primitive.Breaks`), and an evaluation
ends in one of them exactly if that happens inside it (`Evaluation.run_error_iff`).
-/

namespace SmallLisp

/-- An error of the program, its wish to end, or overflow. -/
inductive Fault.Ordinary : Fault → Prop
  | error (e : Error) : Ordinary (.error e)
  | exit (status : Int) : Ordinary (.exit status)
  | overflow : Ordinary .overflow

/-- The primitive breaks off with a fault that is not ordinary. -/
inductive Primitive.Breaks (host : Host) : Primitive → List Value → State → Fault → Prop
  | find {name : Text} {s : State} {reason : FileError} :
    findFile host name = .error reason → Breaks host .use [.symbol name] s (.file reason)
  | path {name : Text} {p : Path} {s : State} {reason : Path.Invalid} :
    findFile host name = .ok p → p.invalid? = some reason →
    Breaks host .use [.symbol name] s (.invalidPath reason)
  | interrupt {s : State} {rest : Input} :
    s.console.input = .interrupted :: rest → Breaks host .readline [] s .interrupt

/-- The run ends in the fault. -/
def Run.EndsIn (f : Fault) (α : Type) (m : Run α) (s : State) : Prop := (m s).1 = .error f

section Ordinary

variable {f : Fault}

theorem Run.not_endsIn_fault (hf : ¬f.Ordinary) {g : Fault} (hg : g.Ordinary) {α : Type} (s : State) :
    ¬Run.EndsIn f α (fault g) s := by
  intro h
  cases h
  exact hf hg

theorem Run.traceable_endsIn (hf : ¬f.Ordinary) : Traceable (Run.EndsIn f) where
  bind {α β m g s} h := by
    rcases bind_cases m g s with ⟨a, t, hm, hb⟩ | ⟨e, t, hm, hb⟩
    · refine .inr ⟨a, t, hm, ?_⟩
      rw [EndsIn, ← hb]
      exact h
    · refine .inl ?_
      rw [EndsIn, hm]
      rw [EndsIn, hb] at h
      cases h
      rfl
  pure _ _ := nofun
  fail e := not_endsIn_fault hf (.error e)
  overflow := not_endsIn_fault hf .overflow
  lookup frame name s := by
    intro h
    unfold EndsIn lookup at h
    split at h
    · cases h
    · cases h
      exact hf (.error _)
  define _ _ _ _ := nofun
  identity _ := nofun
  note _ _ := nofun

namespace Primitive

theorem not_endsIn_orFail (hf : ¬f.Ordinary) {α : Type} (r : Except Error α) (s : State) :
    ¬Run.EndsIn f α (Run.orFail r) s := by
  cases r with
  | ok a => exact nofun
  | error e => exact Run.not_endsIn_fault hf (.error e) s

theorem not_endsIn_exitWith (hf : ¬f.Ordinary) (status : Int) (s : State) :
    ¬Run.EndsIn f Value (exitWith status) s := by
  have htrace := Run.traceable_endsIn hf
  exact htrace.not_bind (htrace.note _) (fun _ => Run.not_endsIn_fault hf (.exit status)) s

theorem not_endsIn_listArgument (hf : ¬f.Ordinary) (name : Text) (args : List Value) (s : State) :
    ¬Run.EndsIn f (List Value) (listArgument name args) s := by
  unfold listArgument
  split
  · exact nofun
  · exact Run.not_endsIn_fault hf (.error _) s
  · exact nofun

/-- A line is not read only if the input is interrupted. -/
theorem interrupted_of_readLine (hf : ¬f.Ordinary) {s : State} (h : Run.EndsIn f Value readLine s) :
    f = .interrupt ∧ ∃ rest, s.console.input = .interrupted :: rest := by
  unfold Run.EndsIn readLine at h
  cases hinput : s.console.input with
  | nil =>
    have hnext : Run.nextArrival s = (.ok none, s) := by
      simp only [Run.nextArrival, hinput]
    rw [Run.bind_ok hnext] at h
    cases h
  | cons arrival rest =>
    have hnext : Run.nextArrival s =
        (.ok (some arrival), { s with console := s.console.setInput rest }) := by
      simp only [Run.nextArrival, hinput]
    rw [Run.bind_ok hnext] at h
    cases arrival with
    | line text => cases h
    | interrupted =>
      cases h
      exact ⟨rfl, rest, rfl⟩
    | failed =>
      cases h
      exact absurd (.error _) hf

/-- On an unbounded stack, the only primitive besides `eval` and `use` that breaks off is `readline`. -/
theorem readline_of_perform (hf : ¬f.Ordinary) {op : Primitive} {args : List Value} {s : State}
    (h : Run.EndsIn f Value (op.perform args) s) : op = .readline := by
  have htrace := Run.traceable_endsIn hf
  have hnumbers (op : Primitive) (g : List Binary64 → Value) (s : State) :
      ¬Run.EndsIn f Value (ofNumbers op g args) s :=
    htrace.not_bind (not_endsIn_orFail hf _) (fun _ => htrace.pure _) s
  have hlist (name : Text) (g : List Value → Value) (s : State) :
      ¬Run.EndsIn f Value (listArgument name args >>= fun items => pure (g items)) s :=
    htrace.not_bind (not_endsIn_listArgument hf name args) (fun _ => htrace.pure _) s
  cases op with
  | readline => rfl
  | add | subtract | multiply | greater | greaterEq | less | lessEq => exact absurd h (hnumbers _ _ s)
  | divide =>
    refine absurd h (htrace.not_bind (not_endsIn_orFail hf _) (fun xs s => ?_) s)
    cases Binary64.quotient xs with
    | some x => exact nofun
    | none => exact htrace.fail _ s
  | isEmpty | count => exact absurd h (hlist _ _ s)
  | exit =>
    cases args with
    | nil => exact absurd h (not_endsIn_exitWith hf 0 s)
    | cons v rest =>
      exact absurd h (htrace.not_bind (not_endsIn_orFail hf _) (not_endsIn_exitWith hf) s)
  | equal | isList | type | putstr => cases args <;> cases h
  | list | eval | use => cases h

theorem breaks_of_call (hf : ¬f.Ordinary) {host : Host} {room : Headroom} {frame : Nat}
    {op : Primitive} (hop : ¬(op = .eval ∨ op = .use)) {args : List Value} {s : State}
    (h : Run.EndsIn f Value (op.call host room frame args) s) : op.Breaks host args s f := by
  unfold call at h
  split at h
  next hadmits =>
    obtain ⟨need, hneed⟩ := bounded_body host frame (fun he => hop (.inl he)) (fun hu => hop (.inr hu))
      args
    replace hneed := hneed room
    simp only at hneed
    rw [hneed] at h
    split at h
    · obtain rfl := readline_of_perform hf h
      obtain ⟨rfl, rest, hinput⟩ := interrupted_of_readLine hf h
      cases args with
      | nil => exact .interrupt hinput
      | cons v vs => cases hadmits
    · exact absurd h (Run.not_endsIn_fault hf .overflow s)
  next => exact absurd h (Run.not_endsIn_fault hf (.error _) s)

end Primitive
end Ordinary

/-! ## Nothing catches a fault -/

section Propagation

variable {ev : Evaluator} {frame : Nat} {f : Fault}

theorem evaluateAll_error {before vs : List Value} {operand : Value} {s t u : State}
    (hbefore : evaluateAll ev frame before s = (.ok vs, t))
    (h : ev operand frame t = (.error f, u)) (after : List Value) :
    evaluateAll ev frame (before ++ operand :: after) s = (.error f, u) := by
  induction before generalizing vs s with
  | nil =>
    cases hbefore
    exact Run.bind_error h
  | cons e es ih =>
    obtain ⟨v, s₁, he, hrest⟩ := Run.eq_ok_of_bind_eq_ok hbefore
    obtain ⟨ws, s₂, hes, hpure⟩ := Run.eq_ok_of_bind_eq_ok hrest
    cases hpure
    rw [List.cons_append, evaluateAll, Run.bind_ok he, Run.bind_error (ih hes)]

theorem evaluateForms_error {before : List Value} {form first last : Value} {s t u : State}
    (hbefore : evaluateForms ev frame first before s = (.ok last, t))
    (h : ev form frame t = (.error f, u)) (after : List Value) :
    evaluateForms ev frame first (before ++ form :: after) s = (.error f, u) := by
  rw [evaluateForms_append, Run.bind_ok hbefore]
  exact Run.bind_error h

namespace Evaluation

variable {host : Host} {a b e : Evaluation}

theorem Starts.run_error {u : State} (hab : Starts host a b) (h : b.run host = (.error f, u)) :
    a.run host = (.error f, u) := by
  cases hab with
  | @head n frame head operands s hs =>
    show evaluate host (n + 1) _ frame s = _
    rw [evaluate_call host n hs]
    exact Run.bind_error h
  | @operand n frame head fn operand before after vs s s₁ s₂ hs hhead hbefore =>
    show evaluate host (n + 1) _ frame s = _
    rw [evaluate_call host n hs, Run.bind_ok hhead]
    exact Run.bind_error (evaluateAll_error hbefore h after)
  | @body a n id home formals body args s happ hl =>
    rw [happ.run_eq, apply_closure host n a.frame id body home hl s]
    exact h
  | @evalForm a n id form s happ =>
    rw [happ.run_eq, apply_eval]
    exact h
  | @useForm a n id name text p form last before after s s₁ s₂ happ hp htext hlog hforms hbefore =>
    rw [happ.run_eq, apply_use, useFile_of_text _ _ hp htext hlog, evaluateReading, hforms]
    exact Run.bind_error (evaluateForms_error hbefore h after)
  | @defined n frame head form x s hs =>
    show evaluate host (n + 1) _ frame s = _
    rw [evaluate_special host n hs]
    exact Run.bind_error h
  | @condition n frame head condition yes no s hs =>
    show evaluate host (n + 1) _ frame s = _
    rw [evaluate_special host n hs]
    exact Run.bind_error h
  | @yes n frame head condition yes no v s s₁ hs hc hv =>
    show evaluate host (n + 1) _ frame s = _
    rw [evaluate_special host n hs, SpecialForm.run, SpecialForm.runIf, Headroom.evaluate_ofFrames,
      Run.bind_ok hc]
    split
    · exact absurd rfl hv
    · exact h
  | @no n frame head condition yes no s s₁ hs hc =>
    show evaluate host (n + 1) _ frame s = _
    rw [evaluate_special host n hs, SpecialForm.run, SpecialForm.runIf, Headroom.evaluate_ofFrames,
      Run.bind_ok hc]
    exact h

theorem run_error_of_inside {u : State} (hab : Relation.ReflTransGen (Starts host) a b)
    (h : b.run host = (.error f, u)) : a.run host = (.error f, u) := by
  induction hab using Relation.ReflTransGen.head_induction_on with
  | refl => exact h
  | head hstart _ ih => exact hstart.run_error ih

/-- Somewhere inside the evaluation a primitive breaks off with the fault. -/
def Breaks (host : Host) (e : Evaluation) (f : Fault) : Prop :=
  ∃ (c : Evaluation) (n id : Nat) (op : Primitive) (args : List Value) (s : State),
    Relation.ReflTransGen (Starts host) e c ∧ c.Applies host n (.builtin op id) args s ∧
      op.Breaks host args s f

theorem Breaks.of_starts (hab : Starts host a b) (h : b.Breaks host f) : a.Breaks host f := by
  obtain ⟨c, n, id, op, args, s, hbc, hrest⟩ := h
  exact ⟨c, n, id, op, args, s, hbc.head hab, hrest⟩

theorem Applies.run_of_breaks {n id : Nat} {op : Primitive} {args : List Value} {s : State}
    (happ : e.Applies host n (.builtin op id) args s) (h : op.Breaks host args s f) :
    ∃ u, e.run host = (.error f, u) := by
  rw [happ.run_eq]
  cases h with
  | @find name s reason hfind =>
    rw [apply_use]
    refine ⟨s, Run.bind_error ?_⟩
    rw [hfind]
    rfl
  | @path name p s reason hfind hinvalid =>
    rw [apply_use]
    have hp : Run.ofExcept ((Primitive.findFile host name).mapError Fault.file) s = (.ok p, s) := by
      rw [hfind]
      rfl
    have htext : Run.fileText host p s = (.error (.invalidPath reason), s) := by
      simp only [Run.fileText, hinvalid]
    exact ⟨s, (Run.bind_ok hp).trans (Run.bind_error htext)⟩
  | @interrupt s rest hinput =>
    have hnext : Run.nextArrival s =
        (.ok (some .interrupted), { s with console := s.console.setInput rest }) := by
      simp only [Run.nextArrival, hinput]
    exact ⟨_, Run.bind_ok hnext⟩

/-- An evaluation ends in a fault that is not ordinary exactly if a primitive breaks off with it. -/
theorem run_error_iff (hf : ¬f.Ordinary) : (e.run host).1 = .error f ↔ e.Breaks host f := by
  refine ⟨fun h => ?_, ?_⟩
  · induction e using Starts.induction host with
    | step e ih =>
      cases (Run.traceable_endsIn hf).traced h with
      | started hb hends => exact (ih _ hb hends).of_starts hb
      | call happ hl hends => cases hends
      | primitive happ hop hends =>
        exact ⟨e, _, _, _, _, _, .refl, happ, Primitive.breaks_of_call hf hop hends⟩
      | @find n id name s happ hends =>
        cases hfind : Primitive.findFile host name with
        | ok p =>
          rw [hfind] at hends
          cases hends
        | error reason =>
          rw [hfind] at hends
          cases hends
          exact ⟨e, _, _, _, _, _, .refl, happ, .find hfind⟩
      | @text n id name p s happ hfind hends =>
        unfold Run.EndsIn Run.fileText at hends
        cases hinvalid : p.invalid? with
        | none =>
          simp only [hinvalid] at hends
          cases hends
        | some reason =>
          simp only [hinvalid] at hends
          cases hends
          exact ⟨e, _, _, _, _, _, .refl, happ, .path hfind hinvalid⟩
  · rintro ⟨c, n, id, op, args, s, hec, happ, hbreaks⟩
    obtain ⟨u, hu⟩ := happ.run_of_breaks hbreaks
    rw [run_error_of_inside hec hu]

end Evaluation

/-- A text ends in a fault that is not ordinary exactly if a primitive breaks off with it in one of the
forms. -/
theorem evaluateReading_error_iff (hf : ¬f.Ordinary) {host : Host} {frames frame : Nat} {r : Reading}
    {s : State} : (evaluateReading (evaluate host frames) frame r s).1 = .error f ↔
      ∃ e, Evaluation.OfText host frames frame r s e ∧ e.Breaks host f := by
  refine ⟨fun h => ?_, ?_⟩
  · obtain ⟨before, form, after, last, t, hforms, hbefore, hform⟩ :=
      (Run.traceable_endsIn hf).exists_form_of_reading h
    exact ⟨_, .intro hforms hbefore, (Evaluation.run_error_iff hf).mp hform⟩
  · rintro ⟨_, @⟨before, after, form, last, t, hforms, hbefore⟩, hbreaks⟩
    have hform : evaluate host frames form frame t = (.error f, _) :=
      Prod.ext ((Evaluation.run_error_iff hf).mpr hbreaks) rfl
    rw [evaluateReading, hforms, Run.bind_error (evaluateForms_error hbefore hform after)]

end Propagation
end SmallLisp
