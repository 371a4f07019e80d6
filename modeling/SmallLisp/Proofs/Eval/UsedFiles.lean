import SmallLisp.Proofs.Eval.Subevaluation

/-!
Evaluation depends only on the files that it uses.

`Evaluation.Uses` says that somewhere inside an evaluation a file is read.  An evaluation is determined by
the evaluations that it starts and by the texts of the files that it uses itself (`run_eq_of_starts`).
So if two hosts look for files in the same way and the files that are used have the same texts, the
evaluation is the same on both (`run_eq_of_uses`).

`use` notes a file before it runs it, and what has been noted stays in the journal (`callEffect_journal`),
so the end of an evaluation shows which files have been run inside (`useNotice_mem_final`).
-/

namespace SmallLisp

variable {α β : Type}

theorem Run.bind_congr {m m' : Run α} {f f' : α → Run β} {s : State} (hm : m s = m' s)
    (hf : ∀ a t, m s = (.ok a, t) → f a t = f' a t) : (m >>= f) s = (m' >>= f') s := by
  rcases bind_cases m f s with ⟨a, t, hma, hb⟩ | ⟨e, t, hme, hb⟩
  · rw [hb, bind_ok (hm.symm.trans hma), hf a t hma]
  · rw [hb, bind_error (hm.symm.trans hme)]

/-! ## Forms one after the other -/

section Forms

variable {ev ev' : Evaluator} {frame : Nat}

theorem evaluateAll_congr {forms : List Value} {s : State}
    (h : ∀ before form after vs t, forms = before ++ form :: after →
      evaluateAll ev frame before s = (.ok vs, t) → ev form frame t = ev' form frame t) :
    evaluateAll ev frame forms s = evaluateAll ev' frame forms s := by
  induction forms generalizing s with
  | nil => rfl
  | cons e es ih =>
    refine Run.bind_congr (h [] e es [] s rfl rfl) fun v t hv => ?_
    refine Run.bind_congr (ih fun before form after vs u heq hbefore => ?_) fun _ _ _ => rfl
    refine h (e :: before) form after (v :: vs) u ?_ ?_
    · rw [heq]
      rfl
    · rw [evaluateAll, Run.bind_ok hv, Run.bind_ok hbefore]
      rfl

theorem evaluateForms_congr {last : Value} {forms : List Value} {s : State}
    (h : ∀ before form after v t, forms = before ++ form :: after →
      evaluateForms ev frame last before s = (.ok v, t) → ev form frame t = ev' form frame t) :
    evaluateForms ev frame last forms s = evaluateForms ev' frame last forms s := by
  induction forms generalizing last s with
  | nil => rfl
  | cons e es ih =>
    refine Run.bind_congr (h [] e es last s rfl rfl) fun v t hv => ?_
    refine ih fun before form after w u heq hbefore => ?_
    refine h (e :: before) form after w u ?_ ?_
    · rw [heq]
      rfl
    · rw [evaluateForms, Run.bind_ok hv]
      exact hbefore

theorem evaluateReading_congr {r : Reading} {s : State}
    (h : ∀ before form after v t, r.forms = before ++ form :: after →
      evaluateForms ev frame .unspecified before s = (.ok v, t) →
        ev form frame t = ev' form frame t) :
    evaluateReading ev frame r s = evaluateReading ev' frame r s :=
  Run.bind_congr (evaluateForms_congr h) fun _ _ _ => rfl

end Forms

/-! ## Two hosts -/

/-- The hosts look for files in the same places and find the same ones there. -/
def Host.FindsAs (host host' : Host) : Prop :=
  ∀ name, Primitive.findFile host name = Primitive.findFile host' name

section Hosts

variable {host host' : Host}

theorem Run.fileText_congr {p : Path} {s : State}
    (h : host.text s.journal p = host'.text s.journal p) :
    Run.fileText host p s = Run.fileText host' p s := by
  unfold Run.fileText
  rw [h]

/-- Primitives that evaluate nothing do not look at the host. -/
theorem Primitive.call_congr (host host' : Host) (n frame : Nat) {op : Primitive}
    (hop : ¬(op = .eval ∨ op = .use)) (args : List Value) :
    op.call host ((Headroom.ofFrames host n).enter 3) frame args =
      op.call host' ((Headroom.ofFrames host' n).enter 3) frame args := by
  unfold call
  split
  · cases op with
    | eval => exact absurd (.inl rfl) hop
    | use => exact absurd (.inr rfl) hop
    | _ => cases args <;> simp only [body, compare, Headroom.enter, Headroom.ofFrames]
  · rfl

namespace Evaluation

/-- Somewhere inside the evaluation the file `p` is read. -/
def Uses (host : Host) (e : Evaluation) (p : Path) : Prop :=
  ∃ (c : Evaluation) (n id : Nat) (name : Text) (s : State),
    Relation.ReflTransGen (Starts host) e c ∧
      c.Applies host n (.builtin .use id) [.symbol name] s ∧
      Primitive.findFile host name = .ok p

theorem Uses.of_starts {a b : Evaluation} {p : Path} (hab : Starts host a b) (h : b.Uses host p) :
    a.Uses host p := by
  obtain ⟨c, n, id, name, s, hbc, hrest⟩ := h
  exact ⟨c, n, id, name, s, hbc.head hab, hrest⟩

variable {e : Evaluation}

theorem use_congr (hfind : host.FindsAs host')
    (hstarts : ∀ b, Starts host e b → b.run host = b.run host') {n id : Nat} {name : Text} {s : State}
    (happ : e.Applies host n (.builtin .use id) [.symbol name] s)
    (htext : ∀ p, Primitive.findFile host name = .ok p →
      host.text s.journal p = host'.text s.journal p) :
    Primitive.useFile host (evaluate host (n - 3)) e.frame (.symbol name) s =
      Primitive.useFile host' (evaluate host' (n - 3)) e.frame (.symbol name) s := by
  refine Run.bind_congr (by rw [hfind name]) fun p t hp => ?_
  obtain ⟨hfound, rfl⟩ := Primitive.findFile_of_run hp
  refine Run.bind_congr (Run.fileText_congr (htext p hfound)) fun r u hr => ?_
  obtain rfl := (Run.quiet_fileText host p).eq_of_run hr
  cases r with
  | error reason => rfl
  | ok text =>
    refine Run.bind_congr rfl fun _ v hlog => ?_
    refine evaluateReading_congr fun before form after last w hforms hbefore => ?_
    exact hstarts _ (.useForm happ hfound hr hlog hforms hbefore)

theorem apply_congr (hfind : host.FindsAs host')
    (hstarts : ∀ b, Starts host e b → b.run host = b.run host') {n : Nat} {fn : Value}
    {args : List Value} {s : State} (happ : e.Applies host n fn args s)
    (htext : ∀ id name p, fn = .builtin .use id → args = [.symbol name] →
      Primitive.findFile host name = .ok p → host.text s.journal p = host'.text s.journal p) :
    apply host (.ofFrames host n) e.frame fn args s =
      apply host' (.ofFrames host' n) e.frame fn args s := by
  cases fn with
  | closure id formals body home =>
    by_cases hl : formals.length = args.length
    · rw [apply_closure host n e.frame id body home hl s, apply_closure host' n e.frame id body home hl s]
      exact hstarts _ (.body happ hl)
    · simp only [apply, applyClosure, callFrame, if_neg hl, Headroom.enter, Headroom.ofFrames]
      refine Run.bind_congr rfl fun inner t hframe => ?_
      obtain ⟨f, hf⟩ := Run.fails_bind_fail (Run.quiet_shown _ _) _ s
      rw [hf] at hframe
      cases hframe
  | builtin op id =>
    by_cases heval : op = .eval ∨ op = .use
    · have harity : op.arity = .exactly 1 := by rcases heval with rfl | rfl <;> rfl
      by_cases hl : args.length = 1
      · obtain ⟨arg, rfl⟩ := List.length_eq_one_iff.mp hl
        rcases heval with rfl | rfl
        · rw [apply_eval, apply_eval]
          exact hstarts _ (.evalForm happ)
        · rw [apply_use, apply_use]
          cases arg with
          | symbol name => exact use_congr hfind hstarts happ fun p => htext id name p rfl rfl
          | _ => simp only [Primitive.useFile]
      · simp only [apply, Primitive.call_of_length_ne _ _ e.frame harity hl]
    · simp only [apply]
      rw [Primitive.call_congr host host' n e.frame heval args]
  | _ => simp only [apply, Headroom.ofFrames]

theorem special_congr {n frame : Nat} {head : Value} {special : SpecialForm} {parts : List Value}
    {s : State} (hspecial : head.specialForm? = some special)
    (hstarts : ∀ b, Starts host ⟨n + 1, .list (head :: parts), frame, s⟩ b →
      b.run host = b.run host') :
    special.run (.ofFrames host (n - 1)) frame parts s =
      special.run (.ofFrames host' (n - 1)) frame parts s := by
  match parts with
  | [name, form] =>
    cases special with
    | define =>
      cases name with
      | symbol x => exact Run.bind_congr (hstarts _ (.defined hspecial)) fun _ _ _ => rfl
      | _ => simp only [SpecialForm.run, SpecialForm.runDefine, Headroom.ofFrames]
    | _ => simp only [SpecialForm.run]
  | [condition, yes, no] =>
    cases special with
    | ifElse =>
      refine Run.bind_congr (hstarts _ (.condition hspecial)) fun v t hc => ?_
      by_cases hv : v = .bool false
      · subst hv
        exact hstarts _ (.no hspecial hc)
      · have hyes := hstarts _ (.yes hspecial hc hv)
        split
        · exact absurd rfl hv
        · exact hyes
    | _ => simp only [SpecialForm.run]
  | [] | [_] | _ :: _ :: _ :: _ :: _ => cases special <;> simp only [SpecialForm.run]

/-- An evaluation is determined by those that it starts and by the file that it uses itself. -/
theorem run_eq_of_starts (hfind : host.FindsAs host')
    (hstarts : ∀ b, Starts host e b → b.run host = b.run host')
    (htext : ∀ n id name s p, e.Applies host n (.builtin .use id) [.symbol name] s →
      Primitive.findFile host name = .ok p → host.text s.journal p = host'.text s.journal p) :
    e.run host = e.run host' := by
  obtain ⟨frames, form, frame, s⟩ := e
  show evaluate host frames form frame s = evaluate host' frames form frame s
  cases frames with
  | zero => rfl
  | succ n =>
    cases form with
    | list items =>
      cases items with
      | nil => rw [evaluate_succ, evaluate_succ, evaluateStep, evaluateStep]
      | cons head rest =>
        cases hspecial : head.specialForm? with
        | some special =>
          rw [evaluate_special host n hspecial, evaluate_special host' n hspecial]
          exact special_congr hspecial hstarts
        | none =>
          rw [evaluate_call host n hspecial, evaluate_call host' n hspecial]
          refine Run.bind_congr (hstarts _ (.head hspecial)) fun fn t hhead => ?_
          refine Run.bind_congr (evaluateAll_congr fun before operand after vs u heq hbefore => ?_)
            fun args u hargs => ?_
          · subst heq
            exact hstarts _ (.operand hspecial hhead hbefore)
          · have happ : Applies host ⟨n + 1, .list (head :: rest), frame, s⟩ (n - 1) fn args u :=
              .intro hspecial hhead hargs
            refine apply_congr hfind hstarts happ fun id name p hfn hname hp => ?_
            subst hfn hname
            exact htext _ id name u p happ hp
    | _ => simp only [evaluate_succ, evaluateStep]

theorem run_eq_of_uses (hfind : host.FindsAs host')
    (htext : ∀ p, e.Uses host p → ∀ journal, host.text journal p = host'.text journal p) :
    e.run host = e.run host' := by
  induction e using Starts.induction host with
  | step e ih =>
    refine run_eq_of_starts hfind (fun b hb => ?_) fun n id name s p happ hp => ?_
    · exact ih b hb fun p hp => htext p (hp.of_starts hb)
    · exact htext p ⟨e, n, id, name, s, .refl, happ, hp⟩ s.journal

end Evaluation
end Hosts

/-! ## The traces of files -/

/-- What has been noted stays noted. -/
theorem callEffect_journal : CallEffect fun _ s t => s.journal ⊆ t.journal where
  refl _ s := List.Subset.refl s.journal
  trans hst htu := List.Subset.trans hst htu
  define _ _ _ s := List.Subset.refl s.journal
  identity _ s := List.Subset.refl s.journal
  console _ _ s := List.Subset.refl s.journal
  note _ _ _ s := List.subset_cons_self _ s.journal
  call hst := hst

/-- What `use` notes of a file before it runs it. -/
def Primitive.useNotice (p : Path) : Notice :=
  .record ⟨logger, .debug, "use: evaluating " ++ p.toText⟩

theorem Primitive.toText_eq_of_useNotice_eq {p q : Path} (h : useNotice p = useNotice q) :
    p.toText = q.toText :=
  List.append_cancel_left (Record.mk.inj (Notice.record.inj h)).2.2

namespace Evaluation

variable {host : Host} {e c : Evaluation}

/-- Nothing that an evaluation inside has noted is lost on the way out. -/
theorem journal_final_subset (hec : Relation.ReflTransGen (Starts host) e c) :
    (c.final host).journal ⊆ (e.final host).journal := by
  induction hec using Relation.ReflTransGen.head_induction_on with
  | refl => exact List.Subset.refl _
  | head hstart _ ih => exact List.Subset.trans ih (hstart.rest callEffect_journal)

/-- A file that `use` finds and can read is noted. -/
theorem useNotice_mem_final {n id : Nat} {name text : Text} {p : Path} {s : State}
    (happ : c.Applies host n (.builtin .use id) [.symbol name] s)
    (hfind : Primitive.findFile host name = .ok p)
    (htext : Run.fileText host p s = (.ok (.ok text), s))
    (hec : Relation.ReflTransGen (Starts host) e c) :
    Primitive.useNotice p ∈ (e.final host).journal := by
  refine journal_final_subset hec ?_
  have hkept : (evaluateReading (evaluate host (n - 3)) c.frame (read text)).Within
      fun s t => s.journal ⊆ t.journal :=
    callEffect_journal.evaluateReading (callEffect_journal.evaluate_within host (n - 3)) (read text)
  rw [final, happ.run_eq, apply_use, useFile_of_text _ _ hfind htext rfl]
  exact hkept _ List.mem_cons_self

end Evaluation
end SmallLisp
