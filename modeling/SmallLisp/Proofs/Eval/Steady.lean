import SmallLisp.Proofs.Eval.Subevaluation

/-!
Runs that do the same in every state.

A steady run does not look at the state: it always ends in the same way, having written the same texts
and made the same notices (`Run.Steady`).  Primitives are steady, unless they evaluate something or take
a line from the input (`Primitive.steady_call`).  So an evaluation can only take something from the input
if the primitive that does is performed somewhere inside it (`Evaluation.performs_readline`).
-/

namespace SmallLisp

variable {α β : Type}

/-- The state after some texts have been written and some notices made. -/
def State.adding (s : State) (texts : List Text) (notices : List Notice) : State :=
  { s with console := texts.foldl Console.write s.console, journal := notices ++ s.journal }

theorem State.adding_adding (s : State) (texts texts' : List Text) (notices notices' : List Notice) :
    (s.adding texts notices).adding texts' notices' =
      s.adding (texts ++ texts') (notices' ++ notices) := by
  simp only [adding, List.foldl_append, List.append_assoc]

theorem Console.input_foldl_write (c : Console) (texts : List Text) :
    (texts.foldl Console.write c).input = c.input := by
  induction texts generalizing c with
  | nil => rfl
  | cons text rest ih => exact ih (c.write text)

namespace Run

/-- In every state the run has the same result, writes the same texts and makes the same notices. -/
def Steady (m : Run α) : Prop :=
  ∃ (r : Except Fault α) (texts : List Text) (notices : List Notice),
    ∀ s, m s = (r, s.adding texts notices)

theorem steady_pure (a : α) : Steady (pure a : Run α) := ⟨.ok a, [], [], fun _ => rfl⟩

theorem steady_fault (f : Fault) : Steady (fault f : Run α) := ⟨.error f, [], [], fun _ => rfl⟩

theorem steady_fail (e : Error) : Steady (fail e : Run α) := steady_fault _

theorem steady_shown (frames : Nat) (v : Value) : Steady (shown frames v) := by
  unfold shown
  split
  · exact steady_pure _
  · exact steady_fault _

theorem steady_inspected (frames : Nat) (v : Value) : Steady (inspected frames v) := by
  unfold inspected
  split
  · exact steady_pure _
  · exact steady_fault _

theorem steady_write (text : Text) : Steady (write text) := ⟨.ok (), [text], [], fun _ => rfl⟩

theorem steady_log (logger : Text) (level : Level) (message : Text) :
    Steady (log logger level message) :=
  ⟨.ok (), [], [.record ⟨logger, level, message⟩], fun _ => rfl⟩

theorem Steady.bind {m : Run α} {f : α → Run β} (hm : m.Steady) (hf : ∀ a, (f a).Steady) :
    (m >>= f).Steady := by
  obtain ⟨r, texts, notices, hm⟩ := hm
  cases r with
  | error e => exact ⟨.error e, texts, notices, fun s => bind_error (hm s)⟩
  | ok a =>
    obtain ⟨r, texts', notices', hf⟩ := hf a
    refine ⟨r, texts ++ texts', notices' ++ notices, fun s => ?_⟩
    rw [bind_ok (hm s), hf, State.adding_adding]

theorem Steady.andPure {m : Run α} (hm : m.Steady) (f : α → β) :
    (m >>= fun a => (pure (f a) : Run β)).Steady :=
  hm.bind fun a => steady_pure (f a)

theorem Steady.input_eq {m : Run α} (hm : m.Steady) (s : State) :
    (m s).2.console.input = s.console.input := by
  obtain ⟨r, texts, notices, hm⟩ := hm
  rw [hm]
  exact Console.input_foldl_write s.console texts

end Run

/-! ## Primitives -/

namespace Primitive

open Run

theorem steady_numbers (frames : Nat) (name : Text) (args : List Value) :
    (numbers frames name args).Steady := by
  induction args with
  | nil => exact steady_pure []
  | cons v rest ih =>
    cases v with
    | number x => exact ih.andPure _
    | _ => exact (steady_shown frames _).bind fun _ => steady_fail _

theorem steady_listArgument (name : Text) (args : List Value) : (listArgument name args).Steady := by
  cases args with
  | nil => exact steady_pure []
  | cons v rest =>
    cases v with
    | list items => exact steady_pure items
    | _ => exact steady_fail _

theorem steady_exitWith (status : Int) : (exitWith status).Steady :=
  (steady_log _ _ _).bind fun _ => steady_fault _

theorem steady_exitStatus (frames : Nat) (v : Value) : (exitStatus frames v).Steady := by
  refine (steady_numbers frames "exit" [v]).bind fun xs => ?_
  cases xs with
  | nil => exact steady_pure 0
  | cons x rest =>
    simp only
    split
    · exact steady_pure _
    · exact (steady_shown frames v).bind fun _ => steady_fail _

/-- What depends on the state is evaluating a form, using a file and reading a line. -/
theorem steady_body (host : Host) (room : Headroom) (frame : Nat) {op : Primitive}
    (hop : op ≠ .eval ∧ op ≠ .use ∧ op ≠ .readline) (args : List Value) :
    (op.body host room frame args).Steady := by
  obtain ⟨heval, huse, hreadline⟩ := hop
  unfold body
  split
  · exact (steady_numbers _ _ _).andPure _
  · exact (steady_numbers _ _ _).andPure _
  · exact (steady_numbers _ _ _).andPure _
  · refine (steady_numbers _ _ _).bind fun xs => ?_
    cases Binary64.quotient xs with
    | some x => exact steady_pure _
    | none => exact steady_fail _
  · exact (steady_numbers _ _ _).andPure _
  · exact (steady_numbers _ _ _).andPure _
  · exact (steady_numbers _ _ _).andPure _
  · exact (steady_numbers _ _ _).andPure _
  · exact steady_pure _
  · split
    · exact steady_pure _
    · exact steady_fault _
  · exact steady_pure _
  · exact steady_pure _
  · exact (steady_listArgument _ _).andPure _
  · exact (steady_listArgument _ _).andPure _
  · exact steady_pure _
  · exact absurd rfl heval
  · exact absurd rfl huse
  · exact (steady_shown _ _).bind fun text => (steady_write _).bind fun _ => steady_pure _
  · exact absurd rfl hreadline
  · exact steady_exitWith 0
  · exact (steady_exitStatus _ _).bind steady_exitWith
  · exact steady_pure _

theorem steady_call (host : Host) (room : Headroom) (frame : Nat) {op : Primitive}
    {args : List Value}
    (hop : op.arity.admits args.length → op ≠ .eval ∧ op ≠ .use ∧ op ≠ .readline) :
    (op.call host room frame args).Steady := by
  unfold call
  split
  · rename_i hadmits
    exact steady_body host room frame (hop hadmits) args
  · exact steady_fail _

end Primitive

/-! ## Primitives inside evaluations -/

namespace Evaluation

variable {host : Host} {a b e : Evaluation}

/-- Somewhere inside the evaluation the primitive is run, on a number of arguments that it takes. -/
def Performs (host : Host) (e : Evaluation) (op : Primitive) : Prop :=
  ∃ (c : Evaluation) (n id : Nat) (args : List Value) (s : State),
    Relation.ReflTransGen (Starts host) e c ∧ c.Applies host n (.builtin op id) args s ∧
      op.arity.admits args.length = true

theorem Performs.of_starts {op : Primitive} (hab : Starts host a b) (h : b.Performs host op) :
    a.Performs host op := by
  obtain ⟨c, n, id, args, s, hbc, hrest⟩ := h
  exact ⟨c, n, id, args, s, hbc.head hab, hrest⟩

/-- A primitive is run by the evaluation itself or by one that it starts. -/
theorem performs_iff {op : Primitive} :
    e.Performs host op ↔
      (∃ n id args s, e.Applies host n (.builtin op id) args s ∧ op.arity.admits args.length = true) ∨
        ∃ b, Starts host e b ∧ b.Performs host op := by
  constructor
  · rintro ⟨c, n, id, args, s, hec, happ, hadmits⟩
    cases hec.cases_head with
    | inl heq =>
      subst heq
      exact .inl ⟨n, id, args, s, happ, hadmits⟩
    | inr hstep =>
      obtain ⟨b, heb, hbc⟩ := hstep
      exact .inr ⟨b, heb, c, n, id, args, s, hbc, happ, hadmits⟩
  · rintro (⟨n, id, args, s, happ, hadmits⟩ | ⟨b, hb, hperforms⟩)
    · exact ⟨e, n, id, args, s, .refl, happ, hadmits⟩
    · exact hperforms.of_starts hb

theorem not_performs_of_not_list {op : Primitive} (h : e.form.list? = none) :
    ¬e.Performs host op := by
  rw [performs_iff]
  rintro (⟨n, id, args, s, happ, -⟩ | ⟨b, hb, -⟩)
  · cases happ
    cases h
  · cases hb with
    | body happ | evalForm happ | useForm happ =>
      cases happ
      cases h
    | _ => cases h

/-- Making a closure and quoting a form run nothing. -/
theorem not_performs_of_inert {op : Primitive} {n frame : Nat} {head : Value} {parts : List Value}
    {s : State} (h : head.specialForm? = some .lambda ∨ head.specialForm? = some .quote) :
    ¬Performs host ⟨n, .list (head :: parts), frame, s⟩ op := by
  have hne : head.specialForm? ≠ none ∧ head.specialForm? ≠ some .define ∧
      head.specialForm? ≠ some .ifElse := by
    rcases h with h | h <;> rw [h] <;> exact ⟨nofun, nofun, nofun⟩
  rw [performs_iff]
  rintro (⟨m, id, args, t, happ, -⟩ | ⟨b, hb, -⟩)
  · cases happ with
    | intro hs => exact hne.1 hs
  · cases hb with
    | head hs | operand hs => exact hne.1 hs
    | body happ | evalForm happ | useForm happ =>
      cases happ with
      | intro hs => exact hne.1 hs
    | defined hs => exact hne.2.1 hs
    | condition hs | yes hs | no hs => exact hne.2.2 hs

/-- Defining a name runs what the form for its value runs. -/
theorem not_performs_of_define {op : Primitive} {n frame : Nat} {head : Value} {parts : List Value}
    {s : State} (h : head.specialForm? = some .define)
    (hparts : ∀ part ∈ parts, ¬Performs host ⟨n - 1, part, frame, s⟩ op) :
    ¬Performs host ⟨n + 1, .list (head :: parts), frame, s⟩ op := by
  have hne : head.specialForm? ≠ none ∧ head.specialForm? ≠ some .ifElse := by
    rw [h]
    exact ⟨nofun, nofun⟩
  rw [performs_iff]
  rintro (⟨m, id, args, t, happ, -⟩ | ⟨b, hb, hperforms⟩)
  · cases happ with
    | intro hs => exact hne.1 hs
  · cases hb with
    | head hs | operand hs => exact hne.1 hs
    | body happ | evalForm happ | useForm happ =>
      cases happ with
      | intro hs => exact hne.1 hs
    | defined => exact hparts _ (by simp) hperforms
    | condition hs | yes hs | no hs => exact hne.2 hs

/-- A call of a primitive that evaluates nothing runs that primitive and what the operands run. -/
theorem not_performs_of_call {op p : Primitive} {n frame id : Nat} {head : Value}
    {operands : List Value} {s t : State} (hspecial : head.specialForm? = none)
    (hhead : evaluate host n head frame s = (.ok (.builtin p id), t))
    (hp : p ≠ op ∧ p ≠ .eval ∧ p ≠ .use) (hlist : head.list? = none)
    (hoperands : ∀ operand ∈ operands, ∀ m u, ¬Performs host ⟨m, operand, frame, u⟩ op) :
    ¬Performs host ⟨n + 1, .list (head :: operands), frame, s⟩ op := by
  have hfn {m : Nat} {fn : Value} {args : List Value} {u : State}
      (happ : Applies host ⟨n + 1, .list (head :: operands), frame, s⟩ m fn args u) :
      fn = .builtin p id := by
    cases happ with
    | intro _ hrun _ =>
      rw [hhead] at hrun
      cases hrun
      rfl
  rw [performs_iff]
  rintro (⟨m, id', args, u, happ, -⟩ | ⟨b, hb, hperforms⟩)
  · cases hfn happ
    exact hp.1 rfl
  · cases hb with
    | head => exact not_performs_of_not_list hlist hperforms
    | operand => exact hoperands _ (by simp) _ _ hperforms
    | body happ => cases hfn happ
    | evalForm happ =>
      cases hfn happ
      exact hp.2.1 rfl
    | useForm happ =>
      cases hfn happ
      exact hp.2.2 rfl
    | defined hs | condition hs | yes hs | no hs =>
      rw [hspecial] at hs
      cases hs

end Evaluation

/-- Something is taken from the input. -/
def Run.TakesInput (α : Type) (m : Run α) (s : State) : Prop :=
  (m s).2.console.input ≠ s.console.input

theorem Run.Steady.not_takesInput {m : Run α} (hm : m.Steady) (s : State) : ¬TakesInput α m s :=
  fun h => h (hm.input_eq s)

theorem Run.Quiet.not_takesInput {m : Run α} (hm : m.Quiet) (s : State) : ¬TakesInput α m s :=
  fun h => h (by rw [hm s])

theorem Run.traceable_takesInput : Traceable TakesInput where
  bind {α β m f s} h := by
    by_cases hm : (m s).2.console.input = s.console.input
    · rcases bind_cases m f s with ⟨a, t, hms, hb⟩ | ⟨e, t, hms, hb⟩
      · rw [hms] at hm
        refine .inr ⟨a, t, hms, fun ht => h ?_⟩
        rw [hb, ht, hm]
      · rw [hms] at hm
        refine absurd ?_ h
        rw [hb, hm]
    · exact .inl hm
  pure a := (quiet_pure a).not_takesInput
  fail e := (quiet_fail e).not_takesInput
  overflow := (quiet_fault _).not_takesInput
  lookup frame name := (quiet_lookup frame name).not_takesInput
  define _ _ _ _ h := h rfl
  identity _ h := h rfl
  note _ _ h := h rfl

/-- What is taken from the input is taken by the primitive that reads a line. -/
theorem Evaluation.performs_readline {host : Host} {e : Evaluation}
    (h : (e.final host).console.input ≠ e.state.console.input) : e.Performs host .readline := by
  induction e using Starts.induction host with
  | step e ih =>
    cases Run.traceable_takesInput.traced h with
    | started hb htakes => exact (ih _ hb htakes).of_starts hb
    | call happ hl htakes => exact absurd rfl htakes
    | @primitive n id op args s happ heval htakes =>
      by_cases hop : op = .readline ∧ op.arity.admits args.length = true
      · obtain ⟨rfl, hadmits⟩ := hop
        exact ⟨e, n, id, args, s, .refl, happ, hadmits⟩
      · refine absurd htakes (Run.Steady.not_takesInput ?_ s)
        refine Primitive.steady_call host _ _ fun hadmits => ⟨?_, ?_, ?_⟩
        · exact fun heq => heval (.inl heq)
        · exact fun heq => heval (.inr heq)
        · exact fun heq => hop ⟨heq, hadmits⟩
    | find happ htakes => exact absurd htakes ((Run.quiet_ofExcept _).not_takesInput _)
    | text happ hfind htakes => exact absurd htakes ((Run.quiet_fileText host _).not_takesInput _)

end SmallLisp
