import SmallLisp.Proofs.Interpreter.Isolation
import SmallLisp.Proofs.Store.Closed

/-!
The stores that programs reach.

They are the stores between the calls of a session and all those that come up while a form is evaluated,
each evaluation inside another one included (`Store.Reachable`).  Every one of them is closed
(`Store.Reachable.closed`), and so are those after it: an evaluation of a form that the store knows, in
one of its frames, leads to a closed store in which the value is known.  To see this, the evaluation is
simulated by itself (`Matching.closed`).
-/

namespace SmallLisp

namespace Matching

/-- A state that corresponds to itself: its store is closed, with so many frames and identities, and its
output is `output`. -/
structure ClosedWith (output : Output) (sizes : Nat × Nat) (s t : State) : Prop where
  same : s = t
  store : s.store.Closed
  sizes : (s.store.frames.size, s.store.identities) = sizes
  output : s.console.output = output

def closed (output : Output) : Matching (Nat × Nat) where
  states := ClosedWith output
  frames sizes := Value.Below sizes.1
  identities sizes := Value.Below sizes.2

theorem lawful_closed (output : Output) (host : Host) : (closed output).Lawful host where
  frames_mono hw h := h.mono hw.1
  identities_mono hw h := h.mono hw.2
  distinct _ := Value.distinct_below _
  text p h := by rw [h.same]
  input h := by rw [h.same]
  lookup {w s t i j} name h hij := by
    obtain ⟨rfl, hstore, rfl, _⟩ := h
    cases hij.eq
    cases hv : s.store.lookup? i name with
    | none => exact .none
    | some v => exact .some (hstore.lookup? hv)
  define {w s t i j a b} name h hij hv := by
    obtain ⟨rfl, hstore, rfl, houtput⟩ := h
    obtain ⟨rfl, hi⟩ := hij
    cases hv.eq_of_known
    refine ⟨rfl, hstore.define hi name hv, ?_, houtput⟩
    show ((s.store.define i name a).frames.size, s.store.identities) = _
    rw [Store.size_define]
  identity {w s t} h := by
    obtain ⟨rfl, hstore, rfl, houtput⟩ := h
    exact ⟨(s.store.frames.size, s.store.identities + 1), ⟨Nat.le_refl _, Nat.le_succ _⟩,
      ⟨rfl, hstore.newIdentity, rfl, houtput⟩, rfl, Nat.lt_succ_self _⟩
  extend {w s t i j as bs} formals h hij hargs := by
    obtain ⟨rfl, hstore, rfl, houtput⟩ := h
    obtain ⟨rfl, hi⟩ := hij
    cases hargs.eq_of_known
    refine ⟨(s.store.frames.size + 1, s.store.identities), ⟨Nat.le_succ _, Nat.le_refl _⟩,
      ⟨rfl, (hstore.later_extend hi formals hargs).closed, ?_, houtput⟩,
      rfl, Nat.lt_succ_self _⟩
    show ((s.store.extend i formals as).2.frames.size, (s.store.extend i formals as).2.identities) = _
    rw [Store.size_extend]
    rw [Store.identities_extend]
  write text h := by
    obtain ⟨rfl, hstore, rfl, houtput⟩ := h
    exact ⟨rfl, hstore, rfl, houtput⟩
  take rest h := by
    obtain ⟨rfl, hstore, rfl, houtput⟩ := h
    exact ⟨rfl, hstore, rfl, (Console.output_setInput _ _).trans houtput⟩
  note n h := by
    obtain ⟨rfl, hstore, rfl, houtput⟩ := h
    exact ⟨rfl, hstore, rfl, houtput⟩

end Matching

/-! ## What runs keep -/

/-- A run that simulates itself leads to a later store, and its value is as it should be there. -/
theorem Matching.Simulates.later {α : Type} {P : Nat × Nat → α → α → Prop} {m : Run α} {s t : State}
    {r : Except Fault α}
    (h : (closed s.console.output).Simulates (s.store.frames.size, s.store.identities) P m m s s)
    (hrun : m s = (r, t)) :
    s.store.Later t.store ∧ t.console.output = s.console.output ∧
      ∀ a, r = .ok a → P (t.store.frames.size, t.store.identities) a a := by
  obtain ⟨w, hw, hstates, hends⟩ := h
  rw [hrun] at hstates hends
  obtain ⟨-, hstore, rfl, houtput⟩ := hstates
  refine ⟨⟨hstore, hw.1, hw.2⟩, houtput, fun a ha => ?_⟩
  subst ha
  cases hends with
  | ok ha => exact ha

namespace Evaluation

/-- The store is closed, the form is known in it, and the frame is one of its frames. -/
structure Closed (e : Evaluation) : Prop where
  store : e.state.store.Closed
  form : e.form.Known e.state.store
  frame : e.frame < e.state.store.frames.size

end Evaluation

section Parts

variable {host : Host} {n frame : Nat} {s t : State}

theorem later_evaluate {form : Value} (hs : s.store.Closed) (hframe : frame < s.store.frames.size)
    (hform : form.Known s.store) {r : Except Fault Value}
    (hrun : evaluate host n form frame s = (r, t)) :
    s.store.Later t.store ∧ ∀ v, r = .ok v → v.Known t.store := by
  have hlawful := Matching.lawful_closed s.console.output host
  have hsimulates := hlawful.follows_evaluate n ⟨rfl, hs, rfl, rfl⟩ ⟨rfl, hframe⟩ hform
  obtain ⟨hlater, -, hvalue⟩ := hsimulates.later hrun
  exact ⟨hlater, hvalue⟩

theorem later_evaluateAll {forms vs : List Value} (hs : s.store.Closed)
    (hframe : frame < s.store.frames.size) (hforms : Value.KnownAll s.store forms)
    (hrun : evaluateAll (evaluate host n) frame forms s = (.ok vs, t)) :
    s.store.Later t.store ∧ Value.KnownAll t.store vs := by
  have hlawful := Matching.lawful_closed s.console.output host
  have hsimulates := hlawful.simulates_evaluateAll (hlawful.follows_evaluate n) ⟨rfl, hs, rfl, rfl⟩
    ⟨rfl, hframe⟩ hforms
  obtain ⟨hlater, -, hvalue⟩ := hsimulates.later hrun
  exact ⟨hlater, hvalue vs rfl⟩

theorem later_evaluateForms {forms : List Value} {v : Value} (hs : s.store.Closed)
    (hframe : frame < s.store.frames.size) (hforms : Value.KnownAll s.store forms)
    (hrun : evaluateForms (evaluate host n) frame .unspecified forms s = (.ok v, t)) :
    s.store.Later t.store := by
  have hlawful := Matching.lawful_closed s.console.output host
  have hsimulates := hlawful.simulates_evaluateForms (hlawful.follows_evaluate n)
    ⟨rfl, hs, rfl, rfl⟩ ⟨rfl, hframe⟩ .unspecified hforms
  exact (hsimulates.later hrun).1

end Parts

namespace Evaluation

variable {host : Host} {a b e : Evaluation}

theorem Closed.known_of_mem (h : e.Closed) {items : List Value} (hitems : e.form = .list items)
    {v : Value} (hv : v ∈ items) : v.Known e.state.store := by
  have hform := h.form
  rw [hitems] at hform
  cases hform with
  | list items => exact items.of_mem hv

/-- What is applied and what it is applied to are known. -/
theorem Applies.later {n : Nat} {fn : Value} {args : List Value} {s : State}
    (h : e.Applies host n fn args s) (he : e.Closed) :
    e.state.store.Later s.store ∧ fn.Known s.store ∧ Value.KnownAll s.store args := by
  cases h with
  | @intro n frame head fn operands args s₀ s₁ s hs hhead hoperands =>
    have hknown : Value.KnownAll s₀.store (head :: operands) :=
      Value.alikeAll_self fun v hv => he.known_of_mem rfl hv
    cases hknown with
    | cons hheadKnown hoperandsKnown =>
      obtain ⟨hlater₁, hfn⟩ := later_evaluate he.store he.frame hheadKnown hhead
      have hframe := Nat.lt_of_lt_of_le he.frame hlater₁.frames
      obtain ⟨hlater₂, hargs⟩ := later_evaluateAll hlater₁.closed hframe
        (Value.KnownAll.later hlater₁ hoperandsKnown) hoperands
      exact ⟨hlater₁.trans hlater₂, (hfn fn rfl).later hlater₂, hargs⟩

theorem Starts.closed (hab : Starts host a b) (ha : a.Closed) : b.Closed := by
  cases hab with
  | head => exact ⟨ha.store, ha.known_of_mem rfl List.mem_cons_self, ha.frame⟩
  | @operand n frame head fn operand before after vs s s₁ s₂ hs hhead hbefore =>
    have hknown (v : Value) (hv : v ∈ head :: (before ++ operand :: after)) : v.Known s.store :=
      ha.known_of_mem rfl hv
    obtain ⟨hlater₁, -⟩ := later_evaluate ha.store ha.frame (hknown head List.mem_cons_self) hhead
    have hframe := Nat.lt_of_lt_of_le ha.frame hlater₁.frames
    have hbeforeKnown : Value.KnownAll s.store before :=
      Value.alikeAll_self fun v hv => hknown v (by simp [hv])
    obtain ⟨hlater₂, -⟩ :=
      later_evaluateAll hlater₁.closed hframe (hbeforeKnown.later hlater₁) hbefore
    have hlater := hlater₁.trans hlater₂
    exact ⟨hlater.closed, (hknown operand (by simp)).later hlater,
      Nat.lt_of_lt_of_le ha.frame hlater.frames⟩
  | @body _ n id home formals body args s happ hl =>
    obtain ⟨hlater, hfn, hargs⟩ := happ.later ha
    cases hfn with
    | closure formals _ hbody hhome =>
      have hextend := hlater.closed.later_extend hhome.2 formals hargs
      refine ⟨hextend.closed, Value.Known.later hextend hbody, ?_⟩
      show s.store.frames.size < (s.store.extend home formals args).2.frames.size
      rw [Store.size_extend]
      exact Nat.lt_succ_self _
  | @evalForm _ n id form s happ =>
    obtain ⟨hlater, -, hargs⟩ := happ.later ha
    exact ⟨hlater.closed, hargs.of_mem List.mem_cons_self,
      Nat.lt_of_lt_of_le ha.frame hlater.frames⟩
  | @useForm _ n id name text p form last before after s s₁ s₂ happ hp htext hlog hforms hbefore =>
    obtain ⟨hlater₁, -, -⟩ := happ.later ha
    have hstore : s.store = s₁.store := by
      cases hlog
      rfl
    rw [hstore] at hlater₁
    have hframe := Nat.lt_of_lt_of_le ha.frame hlater₁.frames
    have hknown (v : Value) (hv : v ∈ before ++ form :: after) (u : Store) : v.Known u := by
      rw [← hforms] at hv
      exact Value.Readable.alike _ _ v (readable_of_mem_forms hv)
    have hbeforeKnown : Value.KnownAll s₁.store before :=
      Value.alikeAll_self fun v hv => hknown v (List.mem_append_left _ hv) s₁.store
    have hlater₂ := later_evaluateForms hlater₁.closed hframe hbeforeKnown hbefore
    exact ⟨hlater₂.closed, hknown form (by simp) _,
      Nat.lt_of_lt_of_le hframe hlater₂.frames⟩
  | defined => exact ⟨ha.store, ha.known_of_mem rfl (by simp), ha.frame⟩
  | condition => exact ⟨ha.store, ha.known_of_mem rfl (by simp), ha.frame⟩
  | yes hs hc hv =>
    obtain ⟨hlater, -⟩ := later_evaluate ha.store ha.frame (ha.known_of_mem rfl (by simp)) hc
    exact ⟨hlater.closed, (ha.known_of_mem rfl (by simp)).later hlater,
      Nat.lt_of_lt_of_le ha.frame hlater.frames⟩
  | no hs hc =>
    obtain ⟨hlater, -⟩ := later_evaluate ha.store ha.frame (ha.known_of_mem rfl (by simp)) hc
    exact ⟨hlater.closed, (ha.known_of_mem rfl (by simp)).later hlater,
      Nat.lt_of_lt_of_le ha.frame hlater.frames⟩

end Evaluation

/-! ## Reachable stores -/

/-- The store comes up while interpreters are asked to run texts and files: between two such calls, or
while a form is evaluated that the store knows, at the beginning or at the end of an evaluation, or when a
procedure is applied. -/
inductive Store.Reachable : Store → Prop
  | session (console : Console) (journal : Journal)
      (calls : List (Setup × Session.Call)) :
    Reachable ((Session.start console journal).run calls).state.store
  | started {host : Host} {a b : Evaluation} : Reachable a.state.store →
    a.form.Known a.state.store → a.frame < a.state.store.frames.size →
    Evaluation.Starts host a b → Reachable b.state.store
  | applied {host : Host} {a : Evaluation} {n : Nat} {fn : Value} {args : List Value} {s : State} :
    Reachable a.state.store → a.form.Known a.state.store →
    a.frame < a.state.store.frames.size → a.Applies host n fn args s → Reachable s.store
  | evaluated {host : Host} {a : Evaluation} : Reachable a.state.store →
    a.form.Known a.state.store → a.frame < a.state.store.frames.size →
    Reachable (a.final host).store

theorem Store.Reachable.closed {s : Store} (h : s.Reachable) : s.Closed := by
  induction h with
  | session console journal calls =>
    have hsound := ((Session.sound_start console journal).run calls).1
    have hempty : (Session.start console journal).state.store.Numbered := fun _ _ hb => nomatch hb
    exact hsound.store.closed (Session.numbered_run hempty calls)
  | started _ hform hframe hab ih => exact (hab.closed ⟨ih, hform, hframe⟩).store
  | applied _ hform hframe happ ih => exact (happ.later ⟨ih, hform, hframe⟩).1.closed
  | evaluated _ hform hframe ih => exact (later_evaluate ih hframe hform rfl).1.closed

end SmallLisp
