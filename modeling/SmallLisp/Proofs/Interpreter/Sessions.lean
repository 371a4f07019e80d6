import SmallLisp.Interpreter
import SmallLisp.Proofs.Eval.Ownership

/-!
Sessions: interpreters are made and asked to run texts and files, in any order.

All interpreters of a session share one store.  Nothing that one of them makes belongs to another one,
because all that they are given are texts.  A call of an interpreter is a run that keeps what belongs to
its global frame, so a session keeps the store sound (`Session.Sound`), whatever the calls and however
each of them ends.
-/

namespace SmallLisp

open Value (OwnedAll)

/-! ## What interpreters do -/

namespace Interpreter

variable {setup : Setup} {i : Interpreter} {g : Nat} {s : State}

theorem keeps_eval (hs : s.store.Sound) (hframe : s.store.Rooted g i.frame) (source : Text) :
    (i.eval setup source).Keeps g (Value.Owned g) s :=
  keeps_evaluateReading (keeps_evaluate setup.host setup.frames) hs hframe source

theorem keeps_valuesOf {ev : Evaluator} (hev : ev.Keeps) (hs : s.store.Sound) {frame : Nat}
    (hframe : s.store.Rooted g frame) {forms : List Value} (hforms : OwnedAll g s.store forms) :
    (valuesOf ev frame forms).Keeps g (fun t answer => OwnedAll g t answer.1) s := by
  induction forms generalizing s with
  | nil => exact Run.keeps_pure hs nofun
  | cons e es ih =>
    obtain ⟨he, hes⟩ := List.forall_mem_cons.mp hforms
    refine (hev hs hframe he).outcome.bind fun result t hst hresult => ?_
    cases result with
    | error f => exact Run.keeps_pure hst.sound nofun
    | ok v =>
      refine (ih hst.sound (hframe.mono hst.toGrows) (OwnedAll.mono hst.toGrows hes)).bind
        fun answer u htu hanswer => ?_
      have hv := (hresult v rfl).mono htu.toGrows
      exact Run.keeps_pure htu.sound (List.forall_mem_cons.mpr ⟨hv, hanswer⟩)

theorem keeps_values (hs : s.store.Sound) (hframe : s.store.Rooted g i.frame) (source : Text) :
    (i.values setup source).Keeps g (fun t answer => OwnedAll g t answer.1) s := by
  have hforms : OwnedAll g s.store (read source).forms := Value.owned_of_mem_forms
  refine (keeps_valuesOf (keeps_evaluate setup.host setup.frames) hs hframe hforms).bind
    fun answer t hst hanswer => ?_
  exact Run.keeps_pure hst.sound hanswer

theorem keeps_load (hs : s.store.Sound) (hframe : s.store.Rooted g i.frame) (p : Path) :
    (i.load setup p).Keeps g (Value.Owned g) s := by
  refine (Run.keeps_of_store_eq hs rfl).bind fun _ t hst _ => ?_
  refine (Run.keeps_of_quiet hst.sound (Run.quiet_fileText setup.host p)).bind fun text u htu _ => ?_
  cases text with
  | error e => exact Run.keeps_fault htu.sound _
  | ok text => exact keeps_eval htu.sound (hframe.mono (hst.toGrows.trans htu.toGrows)) text

theorem keeps_runPrelude (hs : s.store.Sound) (hframe : s.store.Rooted g i.frame)
    (prelude : Prelude) : (i.runPrelude setup prelude).Keeps g (fun _ _ => True) s := by
  cases prelude with
  | nothing => exact Run.keeps_pure hs trivial
  | file =>
    unfold runPrelude
    simp only
    split
    · exact Run.keeps_pure hs trivial
    · exact (keeps_load hs hframe _).bind fun _ t hst _ => Run.keeps_pure hst.sound trivial
  | source text =>
    exact (keeps_eval hs hframe text).bind fun _ t hst _ => Run.keeps_pure hst.sound trivial

/-- A new interpreter gets the first frame that was not there, which is the root of all it makes. -/
theorem keeps_create (setup : Setup) (hs : s.store.Sound) (prelude : Prelude)
    (input : Option Input) (output : Option Output) :
    (create setup prelude input output).Keeps s.store.frames.size
      (fun t i => i.frame = s.store.frames.size ∧ t.Rooted i.frame i.frame) s := by
  have hnew : (Run.onStore fun s => s.newFrame none).Keeps s.store.frames.size
      (fun t frame => frame = s.store.frames.size ∧ t.Rooted frame frame) s :=
    Run.keeps_onStore (Store.evolves_newFrame hs s.store.rooted_newFrame_none)
      ⟨rfl, s.store.rooted_newFrame_none⟩
  refine hnew.bind fun frame t hst hframe => ?_
  obtain ⟨rfl, hroot⟩ := hframe
  refine (Run.keeps_modifyStore (Store.evolves_register hst.sound hroot)).bind fun _ u htu _ => ?_
  refine (Run.keeps_of_store_eq htu.sound rfl).bind fun _ v huv _ => ?_
  have hroot := hroot.mono (htu.toGrows.trans huv.toGrows)
  refine (keeps_runPrelude huv.sound hroot prelude).bind fun _ w hvw _ => ?_
  exact Run.keeps_pure hvw.sound ⟨rfl, hroot.mono hvw.toGrows⟩

end Interpreter

/-! ## Sessions -/

namespace Session

/-- What an interpreter can be asked for. -/
inductive Query where
  | eval (source : Text)
  /-- The values of all forms of a text. -/
  | values (source : Text)
  /-- The value of one form of a text, the one after so many others. -/
  | next (source : Text) (index : Nat)
  | load (path : Path)

/-- The values that come back. -/
def Query.answer (setup : Setup) (i : Interpreter) : Query → Run (List Value)
  | .eval source => do
    let v ← i.eval setup source
    pure [v]
  | .values source => do
    let (vs, _) ← i.values setup source
    pure vs
  | .next source index =>
    match (read source).forms[index]? with
    | none => pure []
    | some form => do
      let v ← setup.evaluator form i.frame
      pure [v]
  | .load path => do
    let v ← i.load setup path
    pure [v]

inductive Call where
  | create (prelude : Prelude) (input : Option Input) (output : Option Output)
  /-- Asks an interpreter; they are numbered in the order in which they were made. -/
  | ask (interpreter : Nat) (query : Query)

/-- What a call did: which interpreter ran, by its global frame; the frames that were made, which are
those from `first` up to but not including `stop`; and the values that came back. -/
structure Entry where
  globalFrame : Nat
  first : Nat
  stop : Nat
  returned : List Value

end Session

structure Session where
  state : State
  interpreters : List Interpreter
  /-- What the calls did, the latest first. -/
  log : List Session.Entry

namespace Session

/-- Before any call. -/
def start (console : Console) (journal : Journal) : Session := ⟨⟨.empty, console, journal⟩, [], []⟩

/-- Adds to the log what a call did that led to the state `t`. -/
def record (s : Session) (globalFrame : Nat) (returned : List Value) (t : State) : Session :=
  { s with
    state := t,
    log := ⟨globalFrame, s.state.store.frames.size, t.store.frames.size, returned⟩ :: s.log }

/-- The session after a call.  An interpreter whose prelude goes wrong is lost, but not its frames. -/
def call (setup : Setup) (s : Session) : Call → Session
  | .create prelude input output =>
    match Interpreter.create setup prelude input output s.state with
    | (.ok i, t) => { s.record i.frame [] t with interpreters := s.interpreters ++ [i] }
    | (.error _, t) => s.record s.state.store.frames.size [] t
  | .ask interpreter query =>
    match s.interpreters[interpreter]? with
    | none => s
    | some i =>
      match query.answer setup i s.state with
      | (.ok vs, t) => s.record i.frame vs t
      | (.error _, t) => s.record i.frame [] t

/-- The session after some calls, each in its own setup. -/
def run (s : Session) (calls : List (Setup × Call)) : Session :=
  calls.foldl (fun s c => s.call c.1 c.2) s

/-- The value is bound in some frame or has been returned. -/
def Holds (s : Session) (v : Value) : Prop :=
  (∃ i, ∃ binding ∈ s.state.store.bindings i, binding.2 = v) ∨ ∃ e ∈ s.log, v ∈ e.returned

/-! ## What sessions keep -/

/-- All that a call made and returned belongs to the interpreter that ran. -/
structure Entry.Sound (s : Store) (e : Entry) : Prop where
  rooted {i : Nat} : e.first ≤ i → i < e.stop → s.Rooted e.globalFrame i
  owned : OwnedAll e.globalFrame s e.returned

theorem Entry.Sound.mono {s t : Store} (hst : s.Grows t) {e : Entry} (h : e.Sound s) : e.Sound t :=
  ⟨fun hle hlt => (h.rooted hle hlt).mono hst, h.owned.mono hst⟩

theorem Query.keeps_answer (setup : Setup) {i : Interpreter} {g : Nat} {s : State}
    (hs : s.store.Sound) (hframe : s.store.Rooted g i.frame) (query : Query) :
    (query.answer setup i).Keeps g (OwnedAll g) s := by
  have hsingle {m : Run Value} (hm : m.Keeps g (Value.Owned g) s) :
      (m >>= fun v => pure [v]).Keeps g (OwnedAll g) s :=
    hm.bind fun v t hst hv => Run.keeps_pure hst.sound (List.forall_mem_singleton.mpr hv)
  cases query with
  | eval source => exact hsingle (Interpreter.keeps_eval hs hframe source)
  | values source =>
    exact (Interpreter.keeps_values hs hframe source).bind
      fun answer t hst hanswer => Run.keeps_pure hst.sound hanswer
  | next source index =>
    unfold answer
    simp only
    split
    · exact Run.keeps_pure hs nofun
    · rename_i form hform
      have howned : form.Owned g s.store :=
        Value.owned_of_mem_forms form (List.mem_of_getElem? hform)
      exact hsingle (keeps_evaluate setup.host setup.frames hs hframe howned)
  | load path => exact hsingle (Interpreter.keeps_load hs hframe path)

/-- The store is sound, interpreters have global frames, and what the calls made belongs to the
interpreters that ran; there are no frames but those that the calls made. -/
structure Sound (s : Session) : Prop where
  store : s.state.store.Sound
  interpreters : ∀ i ∈ s.interpreters, s.state.store.Rooted i.frame i.frame
  log : ∀ e ∈ s.log, e.Sound s.state.store
  made {i : Nat} : i < s.state.store.frames.size → ∃ e ∈ s.log, e.first ≤ i ∧ i < e.stop

theorem sound_start (console : Console) (journal : Journal) : (start console journal).Sound where
  store := Store.sound_empty
  interpreters := nofun
  log := nofun
  made hi := absurd hi (Nat.not_lt_zero _)

variable {s : Session} {g : Nat} {returned : List Value} {t : State}

theorem Sound.record (hs : s.Sound) (hst : s.state.store.Evolves g t.store)
    (hreturned : OwnedAll g t.store returned) : (s.record g returned t).Sound where
  store := hst.sound
  interpreters i hi := (hs.interpreters i hi).mono hst.toGrows
  log := List.forall_mem_cons.mpr
    ⟨⟨hst.rooted, hreturned⟩, fun e he => (hs.log e he).mono hst.toGrows⟩
  made {i} hi := by
    by_cases hold : i < s.state.store.frames.size
    · obtain ⟨e, he, hrange⟩ := hs.made hold
      exact ⟨e, List.mem_cons_of_mem _ he, hrange⟩
    · exact ⟨_, List.mem_cons_self, Nat.le_of_not_lt hold, hi⟩

theorem Sound.owned_of_holds (hs : s.Sound) {v : Value} (h : s.Holds v) :
    ∃ g, v.Owned g s.state.store := by
  cases h with
  | inl hbound =>
    obtain ⟨i, binding, hb, rfl⟩ := hbound
    obtain ⟨g, hg⟩ := hs.store.rooted (Store.lt_size_of_mem_bindings hb)
    exact ⟨g, hs.store.owned hg binding hb⟩
  | inr hreturned =>
    obtain ⟨e, he, hv⟩ := hreturned
    exact ⟨e.globalFrame, (hs.log e he).owned v hv⟩

/-- A call keeps a session sound and takes nothing back. -/
theorem Sound.call (hs : s.Sound) (setup : Setup) (c : Call) :
    (s.call setup c).Sound ∧ s.state.store.Grows (s.call setup c).state.store := by
  cases c with
  | create prelude input output =>
    obtain ⟨hevolves, hvalue⟩ := Interpreter.keeps_create setup hs.store prelude input output
    rw [Session.call]
    cases hrun : Interpreter.create setup prelude input output s.state with
    | mk result t =>
      rw [hrun] at hevolves hvalue
      cases result with
      | error f => exact ⟨hs.record hevolves nofun, hevolves.toGrows⟩
      | ok i =>
        obtain ⟨hframe, hroot⟩ := hvalue rfl
        have hrecord : (s.record i.frame [] t).Sound := by
          rw [hframe]
          exact hs.record hevolves nofun
        refine ⟨{ hrecord with interpreters := ?_ }, hevolves.toGrows⟩
        intro j hj
        cases List.mem_append.mp hj with
        | inl hj => exact (hs.interpreters j hj).mono hevolves.toGrows
        | inr hj =>
          rw [List.mem_singleton.mp hj]
          exact hroot
  | ask interpreter query =>
    rw [Session.call]
    split
    · exact ⟨hs, .refl _⟩
    · rename_i i hi
      have hroot := hs.interpreters i (List.mem_of_getElem? hi)
      obtain ⟨hevolves, hvalue⟩ := query.keeps_answer setup hs.store hroot
      cases hrun : query.answer setup i s.state with
      | mk result t =>
        rw [hrun] at hevolves hvalue
        cases result with
        | error f => exact ⟨hs.record hevolves nofun, hevolves.toGrows⟩
        | ok vs => exact ⟨hs.record hevolves (hvalue rfl), hevolves.toGrows⟩

theorem Sound.run (hs : s.Sound) (calls : List (Setup × Call)) :
    (s.run calls).Sound ∧ s.state.store.Grows (s.run calls).state.store := by
  induction calls generalizing s with
  | nil => exact ⟨hs, .refl _⟩
  | cons c calls ih =>
    obtain ⟨hcall, hgrows⟩ := hs.call c.1 c.2
    obtain ⟨hrun, hrest⟩ := ih hcall
    exact ⟨hrun, hgrows.trans hrest⟩

/-- After any calls, the frame around a frame was made before it, the closures that can be reached from
what is bound and what was returned were made in frames that exist, every frame was made by a call, and
its root is the global frame of the interpreter that ran then.  Later calls change no outer link and
unbind no name.  So the way outwards from a frame ends, all frames on it exist, and the questions that
are answered by going that way have their answers there. -/
theorem run_keeps_store_sound (console : Console) (journal : Journal)
    (calls later : List (Setup × Call)) :
    let a := (start console journal).run calls
    let s := a.state.store
    (∀ i j, s.outer? i = some j → j < i) ∧
    (∀ v, a.Holds v → ∀ id formals body frame,
      v.Reaches s (.closure id formals body frame) → frame < s.frames.size) ∧
    (∀ i, i < s.frames.size → ∃ e ∈ a.log, e.first ≤ i ∧ i < e.stop) ∧
    (∀ e ∈ a.log, ∀ i, e.first ≤ i → i < e.stop → s.root i = e.globalFrame) ∧
    s.Grows (a.run later).state.store ∧
    (∀ i, i < s.frames.size →
      s.Walk i (s.chain i) ∧ s.root i ∈ s.chain i ∧ s.outer? (s.root i) = none ∧
      ∀ name j, s.find? i name = some j →
        j ∈ s.chain i ∧ ∃ v, s.lookup? i name = some v ∧ (name, v) ∈ s.bindings j) := by
  intro a s
  have ha : a.Sound := ((sound_start console journal).run calls).1
  refine ⟨fun i j h => ha.store.lt_of_outer? h, ?_, fun i hi => ha.made hi, ?_,
    (ha.run later).2, ?_⟩
  · intro v hv id formals body frame hreach
    obtain ⟨g, hg⟩ := ha.owned_of_holds hv
    exact (hg.of_reaches ha.store hreach id formals body frame (.self _)).lt_size
  · intro e he i hfirst hstop
    exact ((ha.log e he).rooted hfirst hstop).root_eq
  · intro i hi
    obtain ⟨g, hg⟩ := ha.store.rooted hi
    have hlast := hg.walk.getLast?_eq hg
    rw [hg.root_eq]
    refine ⟨hg.walk, List.mem_of_getLast? hlast, hg.outer?_root, fun name j hj => ?_⟩
    exact ⟨List.mem_of_find?_eq_some hj, Store.lookup?_of_find? hj⟩

/-- The second of two interpreters makes a closure in a call, and the frame of the call has the frame of
that interpreter as its root. -/
example :
    let setup : Setup := ⟨⟨⟨[], []⟩, [], none, []⟩, 12, none⟩
    let a := (start (.start []) []).run
      [(setup, .create .nothing none none), (setup, .create .nothing none none),
        (setup, .ask 1 (.eval "((lambda (x) (lambda () x)) true)"))]
    a.state.store.frames.size = 3 ∧ a.state.store.root 2 = 1 ∧
      (a.log.map fun e => e.returned.length) = [1, 0, 0] := by
  decide +kernel

end Session
end SmallLisp
