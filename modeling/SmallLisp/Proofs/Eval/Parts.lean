import SmallLisp.Proofs.Eval.NaturalSemantics
import SmallLisp.Proofs.Eval.Subevaluation

/-!
The parts of an evaluation in their order.

`Evaluation.Starts` tells which evaluations an evaluation starts, but not in which order, nor how often,
since the same form can be evaluated twice in one state.  `Evaluation.parts` lists them in the order in
which they are evaluated: first those of the parts of the form, from left to right, up to the first one
that has no value, and then those that come from applying a procedure (`mem_parts_iff`).
-/

namespace SmallLisp

theorem evaluateForms_eq (ev : Evaluator) (frame : Nat) (last : Value) (forms : List Value) :
    evaluateForms ev frame last forms =
      evaluateAll ev frame forms >>= fun vs => pure (vs.getLastD last) := by
  induction forms generalizing last with
  | nil => rfl
  | cons form forms ih =>
    rw [evaluateForms, evaluateAll, Run.bind_assoc]
    congr 1
    funext v
    rw [ih, Run.bind_assoc]
    congr 1
    funext vs
    show _ = pure ((v :: vs).getLastD last)
    rw [List.getLastD_cons]

theorem exists_evaluateForms_iff {ev : Evaluator} {frame : Nat} {first : Value} {forms : List Value}
    {s t : State} :
    (∃ last, evaluateForms ev frame first forms s = (.ok last, t)) ↔
      ∃ vs, evaluateAll ev frame forms s = (.ok vs, t) := by
  rw [evaluateForms_eq]
  constructor
  · rintro ⟨last, h⟩
    obtain ⟨vs, u, hvs, hlast⟩ := Run.eq_ok_of_bind_eq_ok h
    cases hlast
    exact ⟨vs, hvs⟩
  · rintro ⟨vs, h⟩
    exact ⟨vs.getLastD first, Run.bind_ok h⟩

theorem Primitive.usedText_eq_ok_iff {host : Host} {name : Value} {text : Text} {s t : State} :
    usedText host name s = (.ok text, t) ↔
      ∃ x p, name = .symbol x ∧ findFile host x = .ok p ∧
        Run.fileText host p s = (.ok (.ok text), s) ∧
        Run.log logger .debug ("use: evaluating " ++ p.toText) s = (.ok (), t) := by
  constructor
  · intro h
    cases name with
    | symbol x =>
      obtain ⟨p, s₁, hp, hread⟩ := Run.eq_ok_of_bind_eq_ok h
      obtain ⟨hfind, rfl⟩ := findFile_of_run hp
      obtain ⟨found, s₂, hfound, hnoted⟩ := Run.eq_ok_of_bind_eq_ok hread
      obtain rfl := (Run.quiet_fileText host p).eq_of_run hfound
      cases found with
      | error e => cases hnoted
      | ok text =>
        obtain ⟨_, s₃, hlog, hpure⟩ := Run.eq_ok_of_bind_eq_ok hnoted
        cases hpure
        exact ⟨x, p, rfl, hfind, hfound, hlog⟩
    | _ => cases h
  · rintro ⟨x, p, rfl, hfind, htext, hlog⟩
    have hp : Run.ofExcept ((findFile host x).mapError Fault.file) s = (.ok p, s) := by
      rw [hfind]
      rfl
    exact (Run.bind_ok hp).trans ((Run.bind_ok htext).trans (Run.bind_ok hlog))

namespace Evaluation

variable {host : Host} {b e : Evaluation}

/-- The evaluation, and what follows on it if it has a value. -/
def followedBy (host : Host) (e : Evaluation) (rest : Value → State → List Evaluation) :
    List Evaluation :=
  e :: match e.run host with
    | (.ok v, t) => rest v t
    | (.error _, _) => []

theorem mem_followedBy_iff {rest : Value → State → List Evaluation} :
    b ∈ e.followedBy host rest ↔ b = e ∨ ∃ v t, e.run host = (.ok v, t) ∧ b ∈ rest v t := by
  rw [followedBy, List.mem_cons]
  refine or_congr_right ?_
  rcases e.run host with ⟨f | v, t⟩
  · constructor
    · exact nofun
    · rintro ⟨v, u, h, _⟩
      cases h
  · constructor
    · exact fun hb => ⟨v, t, rfl, hb⟩
    · rintro ⟨_, _, ⟨⟩, hb⟩
      exact hb

/-- The evaluations of some forms from left to right, up to the first one without a value. -/
def inOrder (host : Host) (frames frame : Nat) : List Value → State → List Evaluation
  | [], _ => []
  | form :: forms, s =>
    (⟨frames, form, frame, s⟩ : Evaluation).followedBy host fun _ t =>
      inOrder host frames frame forms t

theorem mem_inOrder_iff {frames frame : Nat} {forms : List Value} {s : State} :
    b ∈ inOrder host frames frame forms s ↔
      ∃ before form after vs t, forms = before ++ form :: after ∧
        evaluateAll (evaluate host frames) frame before s = (.ok vs, t) ∧
        b = ⟨frames, form, frame, t⟩ := by
  induction forms generalizing s with
  | nil => simp [inOrder]
  | cons first forms ih =>
    rw [inOrder, mem_followedBy_iff]
    constructor
    · rintro (rfl | ⟨v, t, hfirst, hb⟩)
      · exact ⟨[], first, forms, [], s, rfl, rfl, rfl⟩
      · obtain ⟨before, form, after, vs, u, rfl, hbefore, rfl⟩ := ih.mp hb
        refine ⟨first :: before, form, after, v :: vs, u, rfl, ?_, rfl⟩
        exact (Run.bind_ok hfirst).trans (Run.bind_ok hbefore)
    · rintro ⟨before, form, after, vs, t, hforms, hbefore, rfl⟩
      cases before with
      | nil =>
        cases hforms
        cases hbefore
        exact .inl rfl
      | cons first' before =>
        cases hforms
        obtain ⟨v, u, hfirst, hrest⟩ := Run.eq_ok_of_bind_eq_ok hbefore
        obtain ⟨ws, u', hbefore, hpure⟩ := Run.eq_ok_of_bind_eq_ok hrest
        cases hpure
        exact .inr ⟨v, u, hfirst, ih.mpr ⟨before, form, after, ws, _, rfl, hbefore, rfl⟩⟩

end Evaluation

/-- A procedure that is applied to arguments, with so many stack frames left and in a state. -/
structure Application where
  frames : Nat
  fn : Value
  args : List Value
  state : State

/-- The evaluations that applying a procedure starts, when the call is evaluated in `frame`. -/
def Application.parts (host : Host) (frame : Nat) : Application → List Evaluation
  | ⟨n, .closure _ formals body home, args, s⟩ =>
    if formals.length = args.length then
      [⟨n - 1, body, s.store.frames.size, s.extend home formals args⟩]
    else []
  | ⟨n, .builtin .eval _, [form], s⟩ => [⟨n - 3, form, frame, s⟩]
  | ⟨n, .builtin .use _, [name], s⟩ =>
    match Primitive.usedText host name s with
    | (.ok text, t) => Evaluation.inOrder host (n - 3) frame (read text).forms t
    | (.error _, _) => []
  | _ => []

/-- The evaluations that a special form starts, in `frame` and from the state `s` on. -/
def SpecialForm.parts (host : Host) (frames frame : Nat) (s : State) :
    SpecialForm → List Value → List Evaluation
  | .define, [.symbol _, form] => [⟨frames, form, frame, s⟩]
  | .ifElse, [condition, yes, no] =>
    (⟨frames, condition, frame, s⟩ : Evaluation).followedBy host fun v t =>
      match v with
      | .bool false => [⟨frames, no, frame, t⟩]
      | _ => [⟨frames, yes, frame, t⟩]
  | _, _ => []

namespace Evaluation

variable {host : Host} {b e : Evaluation}

/-- What the evaluation comes to apply to what, if it is that of a call. -/
def application? (host : Host) : Evaluation → Option Application
  | ⟨n + 1, .list (head :: operands), frame, s⟩ =>
    match head.specialForm?, evaluate host n head frame s with
    | none, (.ok fn, s₁) =>
      match evaluateAll (evaluate host (n - 1)) frame operands s₁ with
      | (.ok args, s₂) => some ⟨n - 1, fn, args, s₂⟩
      | (.error _, _) => none
    | _, _ => none
  | _ => none

theorem Applies.application?_eq {n : Nat} {fn : Value} {args : List Value} {s : State}
    (h : e.Applies host n fn args s) : e.application? host = some ⟨n, fn, args, s⟩ := by
  cases h with
  | intro hs hhead hoperands =>
    simp only [application?, hs, hhead, hoperands]

theorem applies_of_application? {a : Application} (h : e.application? host = some a) :
    e.Applies host a.frames a.fn a.args a.state := by
  unfold application? at h
  split at h
  next n head operands frame s =>
    split at h
    next fn s₁ hs hhead =>
      split at h
      next args s₂ hoperands =>
        cases h
        exact .intro hs hhead hoperands
      next => cases h
    next => cases h
  next => cases h

/-- The evaluations of parts of the form. -/
def formParts (host : Host) : Evaluation → List Evaluation
  | ⟨n + 1, .list (head :: rest), frame, s⟩ =>
    match head.specialForm? with
    | some special => special.parts host (n - 1) frame s rest
    | none =>
      (⟨n, head, frame, s⟩ : Evaluation).followedBy host fun _ t =>
        inOrder host (n - 1) frame rest t
  | _ => []

theorem formParts_special {n frame : Nat} {head : Value} {special : SpecialForm} {rest : List Value}
    {s : State} (hs : head.specialForm? = some special) :
    formParts host ⟨n + 1, .list (head :: rest), frame, s⟩ =
      special.parts host (n - 1) frame s rest := by
  simp only [formParts, hs]

theorem formParts_call {n frame : Nat} {head : Value} {operands : List Value} {s : State}
    (hs : head.specialForm? = none) :
    formParts host ⟨n + 1, .list (head :: operands), frame, s⟩ =
      (⟨n, head, frame, s⟩ : Evaluation).followedBy host fun _ t =>
        inOrder host (n - 1) frame operands t := by
  simp only [formParts, hs]

/-- The evaluations that the evaluation starts, in the order in which it does. -/
def parts (host : Host) (e : Evaluation) : List Evaluation :=
  e.formParts host ++
    match e.application? host with
    | some a => a.parts host e.frame
    | none => []

/-! ## The parts are what is started -/

theorem Applies.starts_of_mem_parts {n : Nat} {fn : Value} {args : List Value} {s : State}
    (happ : e.Applies host n fn args s) (hb : b ∈ Application.parts host e.frame ⟨n, fn, args, s⟩) :
    Starts host e b := by
  unfold Application.parts at hb
  split at hb
  next heq =>
    cases heq
    split at hb
    next hl =>
      cases List.mem_singleton.mp hb
      exact .body happ hl
    next => cases hb
  next heq =>
    cases heq
    cases List.mem_singleton.mp hb
    exact .evalForm happ
  next heq =>
    cases heq
    split at hb
    next text t htext =>
      obtain ⟨x, p, rfl, hfind, hread, hlog⟩ := Primitive.usedText_eq_ok_iff.mp htext
      obtain ⟨before, form, after, vs, u, hforms, hbefore, rfl⟩ := mem_inOrder_iff.mp hb
      obtain ⟨last, hlast⟩ := exists_evaluateForms_iff.mpr ⟨vs, hbefore⟩
      exact .useForm happ hfind hread hlog hforms hlast
    next => cases hb
  next => cases hb

theorem starts_of_mem_formParts (hb : b ∈ e.formParts host) : Starts host e b := by
  unfold formParts at hb
  split at hb
  next n head rest frame s =>
    split at hb
    next special hs =>
      unfold SpecialForm.parts at hb
      split at hb
      next x form =>
        cases List.mem_singleton.mp hb
        exact .defined hs
      next condition yes no =>
        rcases mem_followedBy_iff.mp hb with rfl | ⟨v, t, hcondition, hb⟩
        · exact .condition hs
        · split at hb
          next =>
            cases List.mem_singleton.mp hb
            exact .no hs hcondition
          next hv =>
            cases List.mem_singleton.mp hb
            exact .yes hs hcondition fun heq => hv heq
      next => cases hb
    next hs =>
      rcases mem_followedBy_iff.mp hb with rfl | ⟨fn, t, hhead, hb⟩
      · exact .head hs
      · obtain ⟨before, operand, after, vs, u, rfl, hbefore, rfl⟩ := mem_inOrder_iff.mp hb
        exact .operand hs hhead hbefore
  next => cases hb

theorem starts_of_mem_parts (hb : b ∈ e.parts host) : Starts host e b := by
  rcases List.mem_append.mp hb with hb | hb
  · exact starts_of_mem_formParts hb
  · cases happ : e.application? host with
    | none =>
      rw [happ] at hb
      cases hb
    | some a =>
      rw [happ] at hb
      exact (applies_of_application? happ).starts_of_mem_parts hb

theorem mem_parts_of_special {n frame : Nat} {head : Value} {special : SpecialForm}
    {rest : List Value} {s : State} (hs : head.specialForm? = some special)
    (hb : b ∈ special.parts host (n - 1) frame s rest) :
    b ∈ parts host ⟨n + 1, .list (head :: rest), frame, s⟩ := by
  refine List.mem_append_left _ ?_
  rw [formParts_special hs]
  exact hb

theorem mem_parts_of_call {n frame : Nat} {head : Value} {operands : List Value} {s : State}
    (hs : head.specialForm? = none)
    (hb : b ∈ (⟨n, head, frame, s⟩ : Evaluation).followedBy host fun _ t =>
      inOrder host (n - 1) frame operands t) :
    b ∈ parts host ⟨n + 1, .list (head :: operands), frame, s⟩ := by
  refine List.mem_append_left _ ?_
  rw [formParts_call hs]
  exact hb

theorem Applies.mem_parts {n : Nat} {fn : Value} {args : List Value} {s : State}
    (happ : e.Applies host n fn args s) (hb : b ∈ Application.parts host e.frame ⟨n, fn, args, s⟩) :
    b ∈ e.parts host := by
  rw [parts, happ.application?_eq]
  exact List.mem_append_right _ hb

theorem Starts.mem_parts (h : Starts host e b) : b ∈ e.parts host := by
  cases h with
  | head hs => exact mem_parts_of_call hs (mem_followedBy_iff.mpr (.inl rfl))
  | operand hs hhead hbefore =>
    refine mem_parts_of_call hs (mem_followedBy_iff.mpr (.inr ⟨_, _, hhead, ?_⟩))
    exact mem_inOrder_iff.mpr ⟨_, _, _, _, _, rfl, hbefore, rfl⟩
  | body happ hl =>
    refine happ.mem_parts ?_
    rw [Application.parts, if_pos hl]
    exact List.mem_singleton_self _
  | evalForm happ => exact happ.mem_parts (List.mem_singleton_self _)
  | useForm happ hfind hread hlog hforms hlast =>
    have htext := Primitive.usedText_eq_ok_iff.mpr ⟨_, _, rfl, hfind, hread, hlog⟩
    obtain ⟨vs, hbefore⟩ := exists_evaluateForms_iff.mp ⟨_, hlast⟩
    refine happ.mem_parts ?_
    simp only [Application.parts, htext]
    exact mem_inOrder_iff.mpr ⟨_, _, _, vs, _, hforms, hbefore, rfl⟩
  | defined hs => exact mem_parts_of_special hs (List.mem_singleton_self _)
  | condition hs => exact mem_parts_of_special hs (mem_followedBy_iff.mpr (.inl rfl))
  | yes hs hcondition hv =>
    refine mem_parts_of_special hs (mem_followedBy_iff.mpr (.inr ⟨_, _, hcondition, ?_⟩))
    split
    · exact absurd rfl hv
    · exact List.mem_singleton_self _
  | no hs hcondition =>
    refine mem_parts_of_special hs (mem_followedBy_iff.mpr (.inr ⟨_, _, hcondition, ?_⟩))
    exact List.mem_singleton_self _

theorem mem_parts_iff : b ∈ e.parts host ↔ Starts host e b :=
  ⟨starts_of_mem_parts, Starts.mem_parts⟩

end Evaluation

/-! ## Primitives in the order in which they are run -/

/-- A primitive that was run on a number of arguments that it takes: the state in which it began, and
how it ended. -/
structure Performance where
  op : Primitive
  args : List Value
  state : State
  answer : Except Fault Value

namespace Evaluation

variable {host : Host} {e : Evaluation} {p : Performance}

/-- The evaluation itself runs the primitive, and what that gives is what the evaluation gives. -/
def Runs (host : Host) (e : Evaluation) (p : Performance) : Prop :=
  ∃ n id, e.Applies host n (.builtin p.op id) p.args p.state ∧
    p.op.arity.admits p.args.length = true ∧ p.answer = (e.run host).1

/-- The primitive that the evaluation itself runs, if there is one. -/
def ownPerformance? (host : Host) (e : Evaluation) : Option Performance :=
  match e.application? host with
  | some ⟨_, .builtin op _, args, s⟩ =>
    if op.arity.admits args.length then some ⟨op, args, s, (e.run host).1⟩ else none
  | _ => none

theorem Applies.ownPerformance?_eq {n : Nat} {fn : Value} {args : List Value} {s : State}
    (h : e.Applies host n fn args s) :
    e.ownPerformance? host =
      match fn with
      | .builtin op _ =>
        if op.arity.admits args.length then some ⟨op, args, s, (e.run host).1⟩ else none
      | _ => none := by
  rw [ownPerformance?, h.application?_eq]
  cases fn <;> rfl

theorem ownPerformance?_eq_some_iff : e.ownPerformance? host = some p ↔ e.Runs host p := by
  constructor
  · intro h
    unfold ownPerformance? at h
    split at h
    next n op id args s happ =>
      by_cases hadmits : op.arity.admits args.length = true
      · rw [if_pos hadmits] at h
        cases h
        exact ⟨n, id, applies_of_application? happ, hadmits, rfl⟩
      · rw [if_neg hadmits] at h
        cases h
    next => cases h
  · rintro ⟨n, id, happ, hadmits, hanswer⟩
    rw [happ.ownPerformance?_eq]
    show (if p.op.arity.admits p.args.length then _ else _) = _
    rw [if_pos hadmits, ← hanswer]

/-- The primitives that are run during the evaluation, in the order in which they come to an end. -/
def performances (host : Host) (e : Evaluation) : List Performance :=
  (e.parts host).attach.flatMap (fun b => performances host b.1) ++ (e.ownPerformance? host).toList
termination_by e.frames
-- What is started has fewer stack frames left.
decreasing_by exact (mem_parts_iff.mp b.2).frames_lt

theorem performances_eq (host : Host) (e : Evaluation) :
    e.performances host =
      (e.parts host).flatMap (performances host) ++ (e.ownPerformance? host).toList := by
  rw [performances, List.flatMap_subtype fun _ _ => rfl, List.unattach_attach]

/-- Those are all primitives that are run, by the evaluation itself or by one inside it. -/
theorem mem_performances_iff :
    p ∈ e.performances host ↔
      ∃ c, Relation.ReflTransGen (Starts host) e c ∧ c.Runs host p := by
  induction e using Starts.induction host with
  | step e ih =>
    rw [performances_eq, List.mem_append, List.mem_flatMap, Option.mem_toList,
      ownPerformance?_eq_some_iff]
    constructor
    · rintro (⟨b, hb, hp⟩ | hruns)
      · have hstart := mem_parts_iff.mp hb
        obtain ⟨c, hbc, hruns⟩ := (ih b hstart).mp hp
        exact ⟨c, hbc.head hstart, hruns⟩
      · exact ⟨e, .refl, hruns⟩
    · rintro ⟨c, hec, hruns⟩
      rcases hec.cases_head with rfl | ⟨b, heb, hbc⟩
      · exact .inr hruns
      · exact .inl ⟨b, mem_parts_iff.mpr heb, (ih b heb).mpr ⟨c, hbc, hruns⟩⟩

end Evaluation
end SmallLisp
