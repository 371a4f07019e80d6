import SmallLisp.Interpreter
import SmallLisp.Proofs.Eval.Steady
import SmallLisp.Proofs.Store.Hiding

/-!
Bindings that nothing mentions are not noticed.

A run ignores a binding if it goes the same way with it and without it, and ends in states that differ by
it again (`Run.Ignores`).  Forms that do not mention the name only ever have values that do not mention
it, since names come from forms, from values that are bound, and from the primitive that names the
variant of a value; the input and files, which may hold any name, are left out.  So an evaluation ignores
the binding if the evaluations do that it starts (`ignores_of_starts`), and therefore all do.
-/

namespace SmallLisp

variable {α β : Type} {b : Store.Binding}

/-- The states differ only in one binding more, which nothing mentions. -/
structure State.Adds (b : Store.Binding) (s t : State) : Prop where
  store : s.store.Adds b t.store
  console_eq : t.console = s.console
  journal_eq : t.journal = s.journal

theorem State.Adds.adding {s t : State} (h : s.Adds b t) (texts : List Text) (notices : List Notice) :
    (s.adding texts notices).Adds b (t.adding texts notices) where
  store := h.store
  console_eq := congrArg (texts.foldl Console.write) h.console_eq
  journal_eq := congrArg (notices ++ ·) h.journal_eq

namespace Run

/-- With one binding more the run goes the same way, and what it answers satisfies `P`. -/
def Ignores (b : Store.Binding) (P : α → Prop) (m : Run α) (s : State) : Prop :=
  ∀ t, s.Adds b t → ∃ r s' t', m s = (r, s') ∧ m t = (r, t') ∧ s'.Adds b t' ∧ ∀ a, r = .ok a → P a

variable {P : α → Prop} {Q : β → Prop} {m : Run α} {f : α → Run β} {s : State}

theorem Ignores.bind (hm : Ignores b P m s)
    (hf : ∀ a s', m s = (.ok a, s') → P a → Ignores b Q (f a) s') : Ignores b Q (m >>= f) s := by
  intro t hst
  obtain ⟨r, s', t', hms, hmt, hst', hP⟩ := hm t hst
  cases r with
  | error e => exact ⟨.error e, s', t', bind_error hms, bind_error hmt, hst', nofun⟩
  | ok a =>
    rw [bind_ok hms, bind_ok hmt]
    exact hf a s' hms (hP a rfl) t' hst'

theorem Steady.ignores (hm : m.Steady) (hP : ∀ a s', m s = (.ok a, s') → P a) :
    Ignores b P m s := by
  intro t hst
  obtain ⟨r, texts, notices, hm⟩ := hm
  refine ⟨r, _, _, hm s, hm t, hst.adding texts notices, fun a hr => hP a (s.adding texts notices) ?_⟩
  rw [hm s, hr]

theorem ignores_pure {a : α} (ha : P a) : Ignores b P (pure a) s :=
  (steady_pure a).ignores fun _ _ h => by
    cases h
    exact ha

theorem ignores_fail (e : Error) : Ignores b P (fail e) s :=
  (steady_fail e).ignores fun _ _ h => nomatch h

theorem ignores_onStore {f : Store → α × Store}
    (h : ∀ t, s.store.Adds b t → (f t).1 = (f s.store).1 ∧ (f s.store).2.Adds b (f t).2) :
    Ignores b (fun _ => True) (onStore f) s := by
  intro t hst
  obtain ⟨hanswer, hstore⟩ := h t.store hst.store
  refine ⟨.ok (f s.store).1, ⟨(f s.store).2, s.console, s.journal⟩, ⟨(f t.store).2, t.console, t.journal⟩,
    rfl, ?_, ⟨hstore, hst.console_eq, hst.journal_eq⟩, fun _ _ => trivial⟩
  rw [← hanswer]
  rfl

/-- A complaint about something steady ignores every binding. -/
theorem ignores_complaint (hm : m.Steady) (error : α → Error) :
    Ignores b Q (m >>= fun a => fail (error a)) s :=
  (hm.ignores (P := fun _ => True) fun _ _ _ => trivial).bind fun a _ _ _ => ignores_fail (error a)

end Run

/-! ## Steps of evaluation -/

/-- The value does not mention the name of the binding. -/
abbrev Value.Free (b : Store.Binding) (v : Value) : Prop := v.mentions b.name = false

variable {s : State}

theorem ignores_lookup (frame : Nat) {name : Text} (h : name ≠ b.name) :
    Run.Ignores b (Value.Free b) (Run.lookup frame name) s := by
  intro t hst
  have hlookup := hst.store.lookup?_eq h frame
  unfold Run.lookup
  rw [hlookup]
  cases hv : s.store.lookup? frame name with
  | none => exact ⟨_, s, t, rfl, rfl, hst, nofun⟩
  | some v =>
    refine ⟨_, s, t, rfl, rfl, hst, fun a ha => ?_⟩
    cases ha
    exact Store.mentions_lookup? hst.store.unmentioned hv

theorem ignores_evaluateAll {ev : Evaluator} {frame : Nat} {forms : List Value}
    (h : ∀ before form after vs t, forms = before ++ form :: after →
      evaluateAll ev frame before s = (.ok vs, t) → Run.Ignores b (Value.Free b) (ev form frame) t) :
    Run.Ignores b (fun vs => ∀ v ∈ vs, v.Free b) (evaluateAll ev frame forms) s := by
  induction forms generalizing s with
  | nil => exact Run.ignores_pure nofun
  | cons e es ih =>
    refine (h [] e es [] s rfl rfl).bind fun v t hv hfree => ?_
    refine (ih fun before form after vs u heq hbefore => ?_).bind fun vs u _ hrest => ?_
    · refine h (e :: before) form after (v :: vs) u (by rw [heq]; rfl) ?_
      rw [evaluateAll, Run.bind_ok hv, Run.bind_ok hbefore]
      rfl
    · exact Run.ignores_pure (List.forall_mem_cons.mpr ⟨hfree, hrest⟩)

/-! ## Primitives -/

namespace Primitive

theorem free_of_andPure {m : Run α} {g : α → Value} {t : State} {w : Value} (hg : ∀ a, (g a).Free b)
    (h : (m >>= fun a => (pure (g a) : Run Value)) s = (.ok w, t)) : w.Free b := by
  obtain ⟨a, u, -, hpure⟩ := Run.eq_ok_of_bind_eq_ok h
  cases hpure
  exact hg a

theorem exitWith_ne_ok (status : Int) {t : State} {w : Value} : exitWith status s ≠ (.ok w, t) := by
  intro h
  obtain ⟨_, _, -, hfault⟩ := Run.eq_ok_of_bind_eq_ok h
  cases hfault

/-- The value of a primitive that neither evaluates something nor reads a line holds no names but those
in the arguments and those of variants. -/
theorem free_of_body {host : Host} {room : Headroom} {frame : Nat} {op : Primitive}
    {args : List Value} {t : State} {w : Value} (hop : op ≠ .eval ∧ op ≠ .use ∧ op ≠ .readline)
    (hargs : ∀ arg ∈ args, arg.Free b) (hkinds : b.name ∉ Value.kinds)
    (h : op.body host room frame args s = (.ok w, t)) : w.Free b := by
  obtain ⟨heval, huse, hreadline⟩ := hop
  unfold body at h
  split at h
  · exact free_of_andPure (fun _ => rfl) h
  · exact free_of_andPure (fun _ => rfl) h
  · exact free_of_andPure (fun _ => rfl) h
  · obtain ⟨xs, u, -, hquotient⟩ := Run.eq_ok_of_bind_eq_ok h
    generalize Binary64.quotient xs = q at hquotient
    cases q <;> cases hquotient
    rfl
  · exact free_of_andPure (fun _ => rfl) h
  · exact free_of_andPure (fun _ => rfl) h
  · exact free_of_andPure (fun _ => rfl) h
  · exact free_of_andPure (fun _ => rfl) h
  · cases h
    rfl
  · generalize Value.allSameWithin _ _ _ = same at h
    cases same <;> cases h
    rfl
  · cases h
    exact Value.anyMentions_eq_false_iff.mpr hargs
  · cases h
    rfl
  · exact free_of_andPure (fun _ => rfl) h
  · exact free_of_andPure (fun _ => rfl) h
  · cases h
    exact beq_eq_false_iff_ne.mpr fun heq => hkinds (heq ▸ Value.kind_mem_kinds _)
  · exact absurd rfl heval
  · exact absurd rfl huse
  · obtain ⟨_, _, -, h⟩ := Run.eq_ok_of_bind_eq_ok h
    exact free_of_andPure (fun _ => rfl) h
  · exact absurd rfl hreadline
  · exact absurd h (exitWith_ne_ok 0)
  · obtain ⟨status, _, -, h⟩ := Run.eq_ok_of_bind_eq_ok h
    exact absurd h (exitWith_ne_ok status)
  · cases h
    rfl

theorem ignores_call {host : Host} {room : Headroom} {frame : Nat} {op : Primitive} {args : List Value}
    (hop : op.arity.admits args.length → op ≠ .eval ∧ op ≠ .use ∧ op ≠ .readline)
    (hargs : ∀ arg ∈ args, arg.Free b) (hkinds : b.name ∉ Value.kinds) :
    Run.Ignores b (Value.Free b) (op.call host room frame args) s := by
  refine (steady_call host room frame hop).ignores fun w t h => ?_
  unfold call at h
  split at h
  next hadmits => exact free_of_body (hop hadmits) hargs hkinds h
  next => cases h

end Primitive

/-! ## Evaluations -/

namespace Evaluation

variable {host : Host} {e : Evaluation}

/-- With one binding more the evaluation goes the same way, and its value does not mention the name. -/
def Ignores (host : Host) (e : Evaluation) (b : Store.Binding) : Prop :=
  Run.Ignores b (Value.Free b) (evaluate host e.frames e.form e.frame) e.state

theorem ignores_apply (hkinds : b.name ∉ Value.kinds)
    (hstarts : ∀ a, Starts host e a → a.form.Free b → a.Ignores host b) {n : Nat} {fn : Value}
    {args : List Value} (happ : e.Applies host n fn args s) (hfn : fn.Free b)
    (hargs : ∀ arg ∈ args, arg.Free b)
    (hop : ∀ op id, fn = .builtin op id → op.arity.admits args.length → op ≠ .use ∧ op ≠ .readline) :
    Run.Ignores b (Value.Free b) (apply host (.ofFrames host n) e.frame fn args) s := by
  cases fn with
  | closure id formals body home =>
    obtain ⟨hformals, hbody⟩ := Bool.or_eq_false_iff.mp hfn
    by_cases hl : formals.length = args.length
    · intro t hst
      rw [apply_closure host n e.frame id body home hl s, apply_closure host n e.frame id body home hl t,
        hst.store.size_eq]
      refine hstarts _ (.body happ hl) hbody _ ⟨?_, hst.console_eq, hst.journal_eq⟩
      exact hst.store.extend home (by simpa using hformals) hargs
    · refine Run.Ignores.bind (P := fun _ => False) ?_ fun _ _ _ hfalse => hfalse.elim
      rw [callFrame, if_neg hl]
      exact Run.ignores_complaint (Run.steady_shown _ _) _
  | builtin op id =>
    by_cases heval : op = .eval
    · subst heval
      by_cases hl : args.length = 1
      · obtain ⟨arg, rfl⟩ := List.length_eq_one_iff.mp hl
        rw [apply_eval]
        exact hstarts _ (.evalForm happ) (hargs arg (List.mem_singleton_self arg))
      · have harity : Primitive.eval.arity = .exactly 1 := rfl
        simp only [apply, Primitive.call_of_length_ne _ _ e.frame harity hl]
        exact Run.ignores_fail _
    · exact Primitive.ignores_call (fun hadmits => ⟨heval, hop op id rfl hadmits⟩) hargs hkinds
  | _ => exact Run.ignores_complaint (Run.steady_shown _ _) _

theorem ignores_special {n frame : Nat} {head : Value} {special : SpecialForm} {parts : List Value}
    (hspecial : head.specialForm? = some special) (hparts : ∀ part ∈ parts, part.Free b)
    (hstarts : ∀ a, Starts host ⟨n + 1, .list (head :: parts), frame, s⟩ a → a.form.Free b →
      a.Ignores host b) :
    Run.Ignores b (Value.Free b) (special.run (.ofFrames host (n - 1)) frame parts) s := by
  unfold SpecialForm.run
  split
  next name form =>
    have hform : form.Free b := hparts form (by simp)
    cases name with
    | symbol x =>
      have hx : x ≠ b.name := beq_eq_false_iff_ne.mp (hparts (.symbol x) (by simp))
      refine (hstarts _ (.defined hspecial) hform).bind fun v t _ hv => ?_
      refine (Run.ignores_onStore fun u hst => ⟨rfl, hst.define frame hx hv⟩).bind fun _ _ _ _ => ?_
      exact Run.ignores_pure hv
    | _ => exact Run.ignores_complaint (Run.steady_inspected _ _) _
  next formals body =>
    unfold SpecialForm.runLambda
    split
    · exact Run.ignores_fail _
    next names hnames =>
      have hformals : formals.Free b := hparts formals (by simp)
      have hbody : body.Free b := hparts body (by simp)
      have hvalue (id : Nat) : (Value.closure id names body frame).Free b := by
        have hnot : b.name ∉ names := Value.formals?_of_not_mentions hformals hnames
        simpa [Value.Free, Value.mentions, hnot] using hbody
      refine (Run.ignores_onStore fun t hst => ⟨?_, hst.newIdentity⟩).bind fun id _ _ _ => ?_
      · exact hst.identities_eq
      · exact Run.ignores_pure (hvalue id)
  next condition yes no =>
    have hcondition : condition.Free b := hparts condition (by simp)
    refine (hstarts _ (.condition hspecial) hcondition).bind fun v t hc _ => ?_
    split
    · exact hstarts _ (.no hspecial hc) (hparts no (by simp))
    · next hv => exact hstarts _ (.yes hspecial hc (fun e => hv e)) (hparts yes (by simp))
  next form => exact Run.ignores_pure (hparts form (by simp))
  next => exact Run.ignores_fail _

/-- An evaluation ignores a binding if those that it starts do, and if it neither uses a file nor reads a
line itself. -/
theorem ignores_of_starts (hkinds : b.name ∉ Value.kinds) (hform : e.form.Free b)
    (hstarts : ∀ a, Starts host e a → a.form.Free b → a.Ignores host b)
    (hop : ∀ n op id args s, e.Applies host n (.builtin op id) args s → op.arity.admits args.length →
      op ≠ .use ∧ op ≠ .readline) :
    e.Ignores host b := by
  obtain ⟨frames, form, frame, s⟩ := e
  show Run.Ignores b (Value.Free b) (evaluate host frames form frame) s
  cases frames with
  | zero => exact (Run.steady_fault _).ignores fun _ _ h => nomatch h
  | succ n =>
    cases form with
    | symbol name => exact ignores_lookup frame (beq_eq_false_iff_ne.mp hform)
    | list items =>
      cases items with
      | nil => exact Run.ignores_fail _
      | cons head rest =>
        obtain ⟨hhead, hrest⟩ := Bool.or_eq_false_iff.mp hform
        have hoperands := Value.anyMentions_eq_false_iff.mp hrest
        cases hspecial : head.specialForm? with
        | some special =>
          rw [evaluate_special host n hspecial]
          exact ignores_special hspecial hoperands hstarts
        | none =>
          rw [evaluate_call host n hspecial]
          refine (hstarts _ (.head hspecial) hhead).bind fun fn t hfn hfree => ?_
          refine (ignores_evaluateAll fun before operand after vs u heq hbefore => ?_).bind
            fun args u hargs hfreeArgs => ?_
          · subst heq
            exact hstarts _ (.operand hspecial hfn hbefore) (hoperands operand (by simp))
          · have happ : Applies host ⟨n + 1, .list (head :: rest), frame, s⟩ (n - 1) fn args u :=
              .intro hspecial hfn hargs
            refine ignores_apply hkinds hstarts happ hfree hfreeArgs fun op id heq hadmits => ?_
            subst heq
            exact hop _ op id args u happ hadmits
    | _ => exact Run.ignores_pure hform

theorem ignores_of_not_performs (hkinds : b.name ∉ Value.kinds) (hform : e.form.Free b)
    (huse : ¬e.Performs host .use) (hreadline : ¬e.Performs host .readline) : e.Ignores host b := by
  induction e using Starts.induction host with
  | step e ih =>
    refine ignores_of_starts hkinds hform (fun a ha hfree => ?_) fun n op id args s happ hadmits => ?_
    · exact ih a ha hfree (fun h => huse (h.of_starts ha)) fun h => hreadline (h.of_starts ha)
    · constructor
      · rintro rfl
        exact huse ⟨e, n, id, args, s, .refl, happ, hadmits⟩
      · rintro rfl
        exact hreadline ⟨e, n, id, args, s, .refl, happ, hadmits⟩

end Evaluation

/-- If neither a form nor the store mentions a name, and it is not that of a variant, then evaluating the
form with a binding of the name in any frame has the same result as without it.  What is written and noted
is the same, and the stores differ by the binding again, unless a file is used or a line read. -/
theorem evaluate_ignores_unmentioned {host : Host} {frames frame : Nat} {form : Value} {s : State}
    {b : Store.Binding} (hframe : b.frame < s.store.frames.size) (hform : form.mentions b.name = false)
    (hstore : s.store.mentions b.name = false) (hkinds : b.name ∉ Value.kinds)
    (huse : ¬Evaluation.Performs host ⟨frames, form, frame, s⟩ .use)
    (hreadline : ¬Evaluation.Performs host ⟨frames, form, frame, s⟩ .readline) :
    ∃ r s' t', evaluate host frames form frame s = (r, s') ∧
      evaluate host frames form frame { s with store := s.store.define b.frame b.name b.value } = (r, t') ∧
      t'.console = s'.console ∧ t'.journal = s'.journal ∧ s'.store.Adds b t'.store := by
  have hignores : Evaluation.Ignores host ⟨frames, form, frame, s⟩ b :=
    Evaluation.ignores_of_not_performs hkinds hform huse hreadline
  have hadds : s.Adds b { s with store := s.store.define b.frame b.name b.value } :=
    ⟨Store.adds_define hframe hstore, rfl, rfl⟩
  obtain ⟨r, s', t', hs, ht, hst, -⟩ := hignores _ hadds
  exact ⟨r, s', t', hs, ht, hst.console_eq, hst.journal_eq, hst.store⟩

/-- The name of the variant of a list is defined, in a store with a binding of `b` to itself. -/
theorem evaluate_ignores_unmentioned_typeName :
    let host : Host := ⟨⟨[], []⟩, [], none, []⟩
    let setup : Setup := ⟨host, 20, none⟩
    let s := (Interpreter.create setup .nothing none none ⟨.empty, .start [], []⟩).2
    let kind : Value := .list [.symbol "type", .list [.symbol "quote", .list [.symbol "a"]]]
    let form : Value := .list [.symbol "def", .symbol "c", kind]
    let b : Store.Binding := ⟨0, "b", .symbol "b"⟩
    (b.frame < s.store.frames.size ∧ form.mentions b.name = false ∧ s.store.mentions b.name = false ∧
        b.name ∉ Value.kinds) ∧
      (∀ op ∈ [Primitive.use, .readline], ¬Evaluation.Performs host ⟨20, form, 0, s⟩ op) ∧
      (evaluate host 20 form 0 s).1 = .ok (.symbol "list") ∧
      ∃ r s' t', evaluate host 20 form 0 s = (r, s') ∧
        evaluate host 20 form 0 { s with store := s.store.define b.frame b.name b.value } = (r, t') ∧
        t'.console = s'.console ∧ t'.journal = s'.journal ∧ s'.store.Adds b t'.store := by
  intro host setup s kind form b
  have hframe : b.frame < s.store.frames.size := by decide +kernel
  have hform : form.mentions b.name = false := by decide
  have hstore : s.store.mentions b.name = false := by decide +kernel
  have hkinds : b.name ∉ Value.kinds := by decide
  have hperforms : ∀ op ∈ [Primitive.use, .readline], ¬Evaluation.Performs host ⟨20, form, 0, s⟩ op := by
    have hne : ∀ op ∈ [Primitive.use, .readline], Primitive.type ≠ op := by decide
    intro op hop
    have hhead : evaluate host 16 (.symbol "type") 0 s = (.ok (.builtin .type 0), s) := rfl
    refine Evaluation.not_performs_of_define rfl (List.forall_mem_cons.mpr
      ⟨Evaluation.not_performs_of_not_list rfl, List.forall_mem_singleton.mpr ?_⟩)
    exact Evaluation.not_performs_of_call rfl hhead ⟨hne op hop, nofun, nofun⟩ rfl
      (List.forall_mem_singleton.mpr fun m u => Evaluation.not_performs_of_inert (.inr rfl))
  refine ⟨⟨hframe, hform, hstore, hkinds⟩, hperforms, rfl, ?_⟩
  exact evaluate_ignores_unmentioned hframe hform hstore hkinds (hperforms _ (by decide))
    (hperforms _ (by decide))

end SmallLisp
