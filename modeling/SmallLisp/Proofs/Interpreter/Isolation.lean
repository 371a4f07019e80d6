import SmallLisp.Environment
import SmallLisp.Proofs.Eval.FrameEffect
import SmallLisp.Proofs.Eval.Renaming
import SmallLisp.Proofs.Interpreter.Sessions

/-!
Interpreters do not interfere.

Several interpreters share a store, so what one of them is asked to run decides which frames and
identities another one gets later.  But nothing that belongs to one can be reached from the other.  If the
jobs of all other interpreters are left out, the states before the jobs of an interpreter still agree as
far as it can see (`Agree`): they match in a renaming of its frames and identities.  A job of its own
leads from such states to such states and looks the same (`Agree.job`), and a job of another interpreter
changes nothing that it can see (`Agree.other_job`).
-/

namespace SmallLisp

/-! ## Sessions number their identities -/

namespace Run

variable {α β : Type}

def KeepsNumbered (m : Run α) : Prop := ∀ s, s.store.Numbered → (m s).2.store.Numbered

theorem Quiet.keepsNumbered {m : Run α} (h : m.Quiet) : m.KeepsNumbered := by
  intro s hs
  rw [h s]
  exact hs

theorem KeepsNumbered.bind {m : Run α} {f : α → Run β} (hm : m.KeepsNumbered)
    (hf : ∀ a, (f a).KeepsNumbered) : (m >>= f).KeepsNumbered := by
  intro s hs
  have hnumbered := hm s hs
  rcases bind_cases m f s with ⟨a, t, hma, hb⟩ | ⟨e, t, hme, hb⟩
  · rw [hma] at hnumbered
    rw [hb]
    exact hf a t hnumbered
  · rw [hme] at hnumbered
    rw [hb]
    exact hnumbered

theorem KeepsNumbered.andPure {m : Run α} (hm : m.KeepsNumbered) (f : α → β) :
    (m >>= fun a => (pure (f a) : Run β)).KeepsNumbered :=
  hm.bind fun a => (quiet_pure (f a)).keepsNumbered

end Run

namespace Interpreter

variable (setup : Setup) (i : Interpreter)

theorem keepsNumbered_eval (source : Text) : (i.eval setup source).KeepsNumbered :=
  fun _ hs => (numbered_evaluateReading setup.host setup.frames i.frame source hs).1

theorem keepsNumbered_evaluator {form : Value} (hform : form.Readable) :
    (setup.evaluator form i.frame).KeepsNumbered := by
  intro s hs
  have hlawful := Matching.lawful_numbered s.console.output setup.host
  exact (hlawful.follows_evaluate setup.frames ⟨rfl, hs, rfl, rfl⟩ (rfl : i.frame = i.frame)
    (hform.alike _ _ form)).numbered.1

theorem keepsNumbered_valuesOf {forms : List Value} (hforms : ∀ v ∈ forms, v.Readable) :
    (valuesOf setup.evaluator i.frame forms).KeepsNumbered := by
  induction forms with
  | nil => exact (Run.quiet_pure _).keepsNumbered
  | cons e es ih =>
    obtain ⟨he, hes⟩ := List.forall_mem_cons.mp hforms
    have hfirst : (Run.outcome (setup.evaluator e i.frame)).KeepsNumbered :=
      keepsNumbered_evaluator setup i he
    refine hfirst.bind fun result => ?_
    cases result with
    | error f => exact (Run.quiet_pure _).keepsNumbered
    | ok v => exact (ih hes).andPure _

theorem keepsNumbered_load (p : Path) : (i.load setup p).KeepsNumbered := by
  have hlog : (Run.log logger .debug ("loading " ++ p.toText)).KeepsNumbered := fun _ hs => hs
  refine hlog.bind fun _ => ?_
  refine (Run.quiet_fileText setup.host p).keepsNumbered.bind fun text => ?_
  cases text with
  | ok text => exact keepsNumbered_eval setup i text
  | error e => exact (Run.quiet_fault _).keepsNumbered

theorem keepsNumbered_runPrelude (prelude : Prelude) : (i.runPrelude setup prelude).KeepsNumbered := by
  cases prelude with
  | nothing => exact (Run.quiet_pure ()).keepsNumbered
  | file =>
    unfold runPrelude
    simp only
    split
    · exact (Run.quiet_pure ()).keepsNumbered
    · exact (keepsNumbered_load setup i _).andPure _
  | source text => exact (keepsNumbered_eval setup i text).andPure _

theorem keepsNumbered_create (prelude : Prelude) (input : Option Input) (output : Option Output) :
    (create setup prelude input output).KeepsNumbered := by
  have hnew : (Run.onStore fun s => s.newFrame none).KeepsNumbered := fun _ hs => hs.newFrame none
  refine hnew.bind fun frame => ?_
  have hregister : (Run.modifyStore fun s => s.register frame).KeepsNumbered :=
    fun _ hs => hs.register frame
  refine hregister.bind fun _ => ?_
  have hinstall : (Run.modifyConsole fun c => c.install input output).KeepsNumbered :=
    fun _ hs => hs
  refine hinstall.bind fun _ => ?_
  exact (keepsNumbered_runPrelude setup ⟨frame⟩ prelude).andPure _

end Interpreter

namespace Session

theorem Query.keepsNumbered_answer (setup : Setup) (i : Interpreter) (query : Query) :
    (query.answer setup i).KeepsNumbered := by
  cases query with
  | eval source => exact (Interpreter.keepsNumbered_eval setup i source).andPure _
  | values source =>
    have hforms : ∀ v ∈ (read source).forms, v.Readable := fun v hv => readable_of_mem_forms hv
    exact ((Interpreter.keepsNumbered_valuesOf setup i hforms).andPure _).andPure _
  | next source index =>
    unfold answer
    simp only
    split
    · exact (Run.quiet_pure []).keepsNumbered
    · rename_i form hform
      have hform := readable_of_mem_forms (List.mem_of_getElem? hform)
      exact (Interpreter.keepsNumbered_evaluator setup i hform).andPure _
  | load path => exact (Interpreter.keepsNumbered_load setup i path).andPure _

theorem numbered_call (setup : Setup) {s : Session} (hs : s.state.store.Numbered) (c : Call) :
    (s.call setup c).state.store.Numbered := by
  cases c with
  | create prelude input output =>
    have hcreate := Interpreter.keepsNumbered_create setup prelude input output s.state hs
    rw [Session.call]
    cases hrun : Interpreter.create setup prelude input output s.state with
    | mk result t =>
      rw [hrun] at hcreate
      cases result <;> exact hcreate
  | ask interpreter query =>
    rw [Session.call]
    split
    · exact hs
    · rename_i i _
      have hanswer := query.keepsNumbered_answer setup i s.state hs
      cases hrun : query.answer setup i s.state with
      | mk result t =>
        rw [hrun] at hanswer
        cases result <;> exact hanswer

theorem numbered_run {s : Session} (hs : s.state.store.Numbered) (calls : List (Setup × Call)) :
    (s.run calls).state.store.Numbered := by
  induction calls generalizing s with
  | nil => exact hs
  | cons c calls ih => exact ih (numbered_call c.1 hs c.2)

end Session

/-! ## Jobs -/

/-- A text that an interpreter is to run, with so many stack frames. -/
structure Job where
  interpreter : Interpreter
  frames : Nat
  source : Text

/-- What can be seen of a job: its printed value or its fault, what it has written, the latest first, and
the global environment that it has left. -/
structure Sight where
  outcome : Except Fault Text
  written : List (Output × Text)
  environment : Except Fault Text

namespace Job

def run (host : Host) (job : Job) : Run Value :=
  job.interpreter.eval ⟨host, job.frames, none⟩ job.source

/-- What is seen of a job, with `depth` stack frames for printing. -/
def seen (host : Host) (depth : Nat) (job : Job) (s : State) : Sight :=
  let t := (job.run host s).2
  { outcome := ((job.run host >>= Run.shown depth) s).1
    written := t.console.written.take (t.console.written.length - s.console.written.length)
    environment := (Environment.describe depth job.interpreter.frame t).1 }

/-- What is seen of the jobs of interpreter `i`, while all jobs are run one after the other. -/
def sights (host : Host) (depth : Nat) (i : Interpreter) : List Job → State → List Sight
  | [], _ => []
  | job :: jobs, s =>
    let later := sights host depth i jobs (job.run host s).2
    if job.interpreter.frame = i.frame then job.seen host depth s :: later else later

/-- While the jobs are run, those of interpreters other than `i` take nothing from the input and change
no file. -/
def OthersAside (host : Host) (i : Interpreter) : List Job → State → Prop
  | [], _ => True
  | job :: jobs, s =>
    let t := (job.run host s).2
    (job.interpreter.frame ≠ i.frame →
      t.console.input = s.console.input ∧ host.filesAfter t.journal = host.filesAfter s.journal) ∧
    OthersAside host i jobs t

end Job

/-! ## What an interpreter can see -/

/-- Frames that correspond are described in the same words. -/
theorem Store.Matches.describe_eq {roots : Nat → Prop} {ρ : Renaming} {s t : State} {i j : Nat}
    (h : s.store.Matches roots ρ t.store) (hij : ρ.frames i j) (depth : Nat) :
    (Environment.describe depth i s).1 = (Environment.describe depth j t).1 := by
  have hbindings := h.bindings hij
  have hwithin : s.store.describesWithin depth i = t.store.describesWithin depth j := by
    have hall := hbindings.map_eq (f := fun binding => binding.2.inspectsWithin depth)
      fun _ hv => Value.Alike.inspectsWithin_eq depth hv
    have hall := congrArg (fun within => within.all id) hall
    simp only [List.all_map] at hall
    exact hall
  have hdescribe : s.store.describe i = t.store.describe j := by
    have hshown := hbindings.map_eq
      (f := fun binding => (binding.1 ++ ": " ++ binding.2.inspect : Text))
      fun name hv => by rw [Value.Alike.inspect_eq hv]
    simp only [Store.describe, hshown, rel_isSome (h.outer? hij)]
  unfold Environment.describe
  rw [hwithin, hdescribe]
  split <;> rfl

/-- Up to a renaming of frames and identities, the interpreter of the global frame `g` finds the same
in both states. -/
def Agree (host : Host) (g : Nat) (s t : State) : Prop :=
  ∃ ρ : Renaming, ρ.frames g g ∧ s.store.Matches (· = g) ρ t.store ∧
    s.console.input = t.console.input ∧ s.console.output = t.console.output ∧
    host.filesAfter s.journal = host.filesAfter t.journal

/-- The store is sound and numbered, and the interpreters have global frames in it. -/
structure Settled (interpreters : List Interpreter) (s : State) : Prop where
  sound : s.store.Sound
  numbered : s.store.Numbered
  globals : ∀ i ∈ interpreters, s.store.Rooted i.frame i.frame

theorem Settled.evolves {interpreters : List Interpreter} {s : State} (h : Settled interpreters s)
    (host : Host) {job : Job} (hjob : job.interpreter ∈ interpreters) :
    s.store.Evolves job.interpreter.frame (job.run host s).2.store :=
  (Interpreter.keeps_eval h.sound (h.globals _ hjob) job.source).evolves

theorem Settled.job {interpreters : List Interpreter} {s : State} (h : Settled interpreters s)
    (host : Host) {job : Job} (hjob : job.interpreter ∈ interpreters) :
    Settled interpreters (job.run host s).2 := by
  have hevolves := h.evolves host hjob
  exact ⟨hevolves.sound, Interpreter.keepsNumbered_eval _ _ _ s h.numbered,
    fun i hi => (h.globals i hi).mono hevolves.toGrows⟩

namespace Agree

variable {host : Host} {s t : State}

theorem refl {interpreters : List Interpreter} {i : Interpreter} (hs : Settled interpreters s)
    (hi : i ∈ interpreters) (host : Host) : Agree host i.frame s s :=
  ⟨.own s.store i.frame, ⟨rfl, hs.globals i hi⟩, Store.matches_itself hs.sound hs.numbered i.frame,
    rfl, rfl, rfl⟩

/-- A job of the interpreter looks the same from both states. -/
theorem job {job : Job} (h : Agree host job.interpreter.frame s t) (depth : Nat) :
    job.seen host depth s = job.seen host depth t ∧
      Agree host job.interpreter.frame (job.run host s).2 (job.run host t).2 := by
  obtain ⟨ρ, hglobal, hstore, hinput, houtput, hfiles⟩ := h
  have hlawful := Matching.lawful_renamed host (· = job.interpreter.frame) s.console.written
    t.console.written
  have hrun := hlawful.simulates_evaluateReading (hlawful.follows_evaluate job.frames)
    ⟨hstore, hinput, houtput, hfiles, [], rfl, rfl⟩ hglobal job.source
  have hshown := hrun.bind fun σ v w s' t' _ hst hv => Matching.simulates_shown hst hv depth
  obtain ⟨_, _, _, hends⟩ := hshown
  obtain ⟨σ, hσ, hstates, _⟩ := hrun
  have hglobal := hσ.1 _ _ hglobal
  refine ⟨?_, σ, hglobal, hstates.store, hstates.input, hstates.output, hstates.files⟩
  obtain ⟨texts, hs, ht⟩ := hstates.texts
  have hwritten {old new : List (Output × Text)} (h : new = texts ++ old) :
      new.take (new.length - old.length) = texts := by
    rw [h, List.length_append, Nat.add_sub_cancel, List.take_left]
  simp only [Job.seen, Sight.mk.injEq]
  exact ⟨hends.eq id, (hwritten hs).trans (hwritten ht).symm,
    hstates.store.describe_eq hglobal depth⟩

/-- A job of another interpreter that takes nothing from the input and changes no file is not
noticed. -/
theorem other_job {interpreters : List Interpreter} {g : Nat} (h : Agree host g s t)
    (hs : Settled interpreters s) {job : Job} (hjob : job.interpreter ∈ interpreters)
    (hne : job.interpreter.frame ≠ g)
    (hinput : (job.run host s).2.console.input = s.console.input)
    (hfiles : host.filesAfter (job.run host s).2.journal = host.filesAfter s.journal) :
    Agree host g (job.run host s).2 t := by
  obtain ⟨ρ, hglobal, hstore, hinput', houtput', hfiles'⟩ := h
  have hroot := hs.globals _ hjob
  have hevolves := hs.evolves host hjob
  have houtside : s.store.SameOutside job.interpreter.frame (job.run host s).2.store :=
    callEffect_sameOutside.evaluateReading
      (callEffect_sameOutside.evaluate_within host job.frames) (read job.source) s
  obtain ⟨_, hidentities, houtput⟩ :=
    numbered_evaluateReading host job.frames job.interpreter.frame job.source hs.numbered
  -- The only frame that the job changes is its own global frame, whose root is itself.
  have hframe : ∀ r i, r = g → s.store.Rooted r i →
      (job.run host s).2.store.frame? i = s.store.frame? i := by
    rintro r i rfl hi
    refine houtside.frame?_eq i hi.lt_size fun heq => hne ?_
    rw [heq] at hi
    exact hroot.unique hi
  exact ⟨ρ, hglobal, hstore.of_left hevolves.toGrows hframe hidentities, hinput.trans hinput',
    houtput.trans houtput', hfiles.trans hfiles'⟩

theorem sights_eq {interpreters : List Interpreter} {i : Interpreter} (depth : Nat)
    {jobs : List Job} (hjobs : ∀ job ∈ jobs, job.interpreter ∈ interpreters)
    (h : Agree host i.frame s t) (hs : Settled interpreters s)
    (hothers : Job.OthersAside host i jobs s) :
    Job.sights host depth i jobs s =
      Job.sights host depth i (jobs.filter fun job => job.interpreter.frame = i.frame) t := by
  induction jobs generalizing s t with
  | nil => rfl
  | cons job jobs ih =>
    obtain ⟨hjob, hjobs⟩ := List.forall_mem_cons.mp hjobs
    obtain ⟨hother, hothers⟩ := hothers
    have hs' := hs.job host hjob
    by_cases hframe : job.interpreter.frame = i.frame
    · rw [List.filter_cons_of_pos (by simpa using hframe)]
      simp only [Job.sights, if_pos hframe]
      rw [← hframe] at h
      obtain ⟨hseen, hagree⟩ := h.job depth
      rw [hframe] at hagree
      rw [hseen, ih hjobs hagree hs' hothers]
    · rw [List.filter_cons_of_neg (by simpa using hframe)]
      simp only [Job.sights, if_neg hframe]
      obtain ⟨hinput, hfiles⟩ := hother hframe
      exact ih hjobs (h.other_job hs hjob hframe hinput hfiles) hs' hothers

end Agree

namespace Session

/-- Interpreters that share a session do not interfere.  Of each job of an interpreter the same is seen
as if the jobs of the others had been left out, if those take nothing from the input and change no file:
whatever they define and however they end. -/
theorem sights_unchanged_without_others (console : Console) (journal : Journal)
    (earlier : List (Setup × Call)) (i : Interpreter) (host : Host) (jobs : List Job) (depth : Nat)
    (hi : i ∈ ((start console journal).run earlier).interpreters)
    (hjobs : ∀ job ∈ jobs, job.interpreter ∈ ((start console journal).run earlier).interpreters)
    (hothers : Job.OthersAside host i jobs ((start console journal).run earlier).state) :
    Job.sights host depth i jobs ((start console journal).run earlier).state =
      Job.sights host depth i (jobs.filter fun job => job.interpreter.frame = i.frame)
        ((start console journal).run earlier).state := by
  have hsound := ((sound_start console journal).run earlier).1
  have hempty : (start console journal).state.store.Numbered := fun _ _ hb => nomatch hb
  have hsettled : Settled _ ((start console journal).run earlier).state :=
    ⟨hsound.store, numbered_run hempty earlier, hsound.interpreters⟩
  exact Agree.sights_eq depth hjobs (.refl hsettled hi host) hsettled hothers

/-- Two interpreters that nothing has been asked of. -/
def twoInterpreters : Session :=
  let setup : Setup := ⟨⟨⟨[], []⟩, [], none, []⟩, 30, none⟩
  (start (.start []) []).run [(setup, .create .nothing none none), (setup, .create .nothing none none)]

/-- The second one binds the names that the first one uses, and fails. -/
def redefinition : List Job :=
  [⟨⟨0⟩, 30, "(def f (lambda () f))"⟩, ⟨⟨1⟩, 30, "(def f (lambda () 'b)) (def equal? f) (f f)"⟩,
    ⟨⟨0⟩, 30, "(equal? f (f))"⟩]

theorem sights_unchanged_without_others_redefinition :
    let host : Host := ⟨⟨[], []⟩, [], none, []⟩
    let sights := fun jobs => Job.sights host 20 ⟨0⟩ jobs twoInterpreters.state
    (sights redefinition).map Sight.outcome = [.ok "(λ () f)", .ok "true"] ∧
      sights redefinition =
        sights [⟨⟨0⟩, 30, "(def f (lambda () f))"⟩, ⟨⟨0⟩, 30, "(equal? f (f))"⟩] := by
  intro host sights
  have hframes : twoInterpreters.interpreters.map Interpreter.frame = [0, 1] := by decide +kernel
  have hmem (i : Interpreter) (h : i.frame ∈ [0, 1]) : i ∈ twoInterpreters.interpreters := by
    rw [← hframes] at h
    obtain ⟨j, hj, heq⟩ := List.mem_map.mp h
    obtain rfl : j = i := congrArg Interpreter.mk heq
    exact hj
  have hjobs : ∀ job ∈ redefinition, job.interpreter ∈ twoInterpreters.interpreters := by
    intro job hjob
    refine hmem _ ?_
    have hall : redefinition.all (fun job => [0, 1].contains job.interpreter.frame) = true := by
      decide
    exact List.contains_iff_mem.mp (List.all_eq_true.mp hall job hjob)
  have hothers : Job.OthersAside host ⟨0⟩ redefinition twoInterpreters.state := by
    have hfiles (j j' : Journal) : host.filesAfter j = host.filesAfter j' := rfl
    refine ⟨fun h => absurd rfl h, fun _ => ⟨?_, hfiles _ _⟩, fun h => absurd rfl h, trivial⟩
    decide +kernel
  have hsights := sights_unchanged_without_others (.start []) [] _ ⟨0⟩ host redefinition 20
    (hmem ⟨0⟩ (by decide)) hjobs hothers
  exact ⟨by decide +kernel, hsights⟩

end Session
end SmallLisp
