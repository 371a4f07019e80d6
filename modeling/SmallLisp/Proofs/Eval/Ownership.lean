import SmallLisp.Proofs.Eval.Effect
import SmallLisp.Proofs.Store.Ownership

/-!
Evaluation keeps what belongs to an interpreter together.

If a form belongs to the root of the frame that it is evaluated in, then so does its value, and so do all
frames made on the way (`keeps_evaluate`).  `Run.Keeps` says this of a run from one state.  What it says
of a value stays true as the store grows, so a run in parts is dealt with part by part
(`Run.Keeps.bind`).
-/

namespace SmallLisp

variable {α β : Type}

namespace Run

/-- Started in `s`, the run makes only frames with the root `g` and binds in frames only what belongs to
their roots; and if it has a value, `P` holds of it. -/
structure Keeps (g : Nat) (P : Store → α → Prop) (m : Run α) (s : State) : Prop where
  evolves : s.store.Evolves g (m s).2.store
  value {a : α} : (m s).1 = .ok a → P (m s).2.store a

variable {g : Nat} {P : Store → α → Prop} {Q : Store → β → Prop} {s t : State}

theorem keeps_pure (hs : s.store.Sound) {a : α} (h : P s.store a) : (pure a : Run α).Keeps g P s where
  evolves := .refl hs
  value ha := by
    cases ha
    exact h

theorem keeps_of_fails (hs : s.store.Sound) {m : Run α} (h : m.Fails) : m.Keeps g P s := by
  obtain ⟨e, he⟩ := h s
  constructor
  · rw [he]
    exact .refl hs
  · intro a ha
    rw [he] at ha
    cases ha

theorem keeps_fault (hs : s.store.Sound) (f : Fault) : (fault f : Run α).Keeps g P s :=
  keeps_of_fails hs fun _ => ⟨f, rfl⟩

theorem keeps_fail (hs : s.store.Sound) (e : Error) : (fail e : Run α).Keeps g P s :=
  keeps_fault hs (.error e)

/-- A run that leaves the store alone keeps everything, but nothing is known of its value. -/
theorem keeps_of_store_eq (hs : s.store.Sound) {m : Run α} (h : (m s).2.store = s.store) :
    m.Keeps g (fun _ _ => True) s where
  evolves := by
    rw [h]
    exact .refl hs
  value _ := trivial

theorem keeps_of_quiet (hs : s.store.Sound) {m : Run α} (h : m.Quiet) :
    m.Keeps g (fun _ _ => True) s :=
  keeps_of_store_eq hs (congrArg State.store (h s))

theorem Keeps.bind {m : Run α} {f : α → Run β} (hm : m.Keeps g P s)
    (hf : ∀ a t, s.store.Evolves g t.store → P t.store a → (f a).Keeps g Q t) :
    (m >>= f).Keeps g Q s := by
  obtain ⟨hevolves, hvalue⟩ := hm
  rcases bind_cases m f s with ⟨a, t, hma, hb⟩ | ⟨e, t, hme, hb⟩
  · rw [hma] at hevolves hvalue
    have hrest := hf a t hevolves (hvalue rfl)
    constructor
    · rw [hb]
      exact hevolves.trans hrest.evolves
    · rw [hb]
      exact hrest.value
  · rw [hme] at hevolves
    constructor
    · rw [hb]
      exact hevolves
    · intro b hbv
      rw [hb] at hbv
      cases hbv

theorem Keeps.outcome {m : Run α} (hm : m.Keeps g P s) :
    (outcome m).Keeps g (fun t r => ∀ a, r = .ok a → P t a) s where
  evolves := hm.evolves
  value hr a ha := by
    cases hr
    exact hm.value ha

theorem keeps_onStore {f : Store → α × Store} (h : s.store.Evolves g (f s.store).2)
    (hvalue : P (f s.store).2 (f s.store).1) : (onStore f).Keeps g P s where
  evolves := h
  value ha := by
    cases ha
    exact hvalue

theorem keeps_modifyStore {f : Store → Store} (h : s.store.Evolves g (f s.store)) :
    (modifyStore f).Keeps g (fun _ _ => True) s :=
  keeps_onStore h trivial

theorem keeps_lookup (hs : s.store.Sound) {frame : Nat} (hframe : s.store.Rooted g frame)
    (name : Text) : (lookup frame name).Keeps g (Value.Owned g) s where
  evolves := by
    rw [quiet_lookup]
    exact .refl hs
  value {v} h := by
    rw [quiet_lookup]
    unfold lookup at h
    split at h
    · rename_i w hw
      cases h
      exact hs.owned_lookup? hframe hw
    · cases h

theorem keeps_nextArrival (hs : s.store.Sound) :
    nextArrival.Keeps g (fun _ _ => True) s := by
  refine keeps_of_store_eq hs ?_
  unfold nextArrival
  split <;> rfl

end Run

/-- The values belong to `g`. -/
def Value.OwnedAll (g : Nat) (s : Store) (vs : List Value) : Prop := ∀ v ∈ vs, v.Owned g s

theorem Value.OwnedAll.mono {g : Nat} {s t : Store} (hst : s.Grows t) {vs : List Value}
    (h : OwnedAll g s vs) : OwnedAll g t vs :=
  fun v hv => (h v hv).mono hst

/-- What is given to `ev` belongs to the root of the frame, and so does what it gives back. -/
def Evaluator.Keeps (ev : Evaluator) : Prop :=
  ∀ ⦃g : Nat⦄ ⦃form : Value⦄ ⦃frame : Nat⦄ ⦃s : State⦄, s.store.Sound → s.store.Rooted g frame →
    form.Owned g s.store → (ev form frame).Keeps g (Value.Owned g) s

def Headroom.Keeps (room : Headroom) : Prop := ∀ used, (room.evaluateBelow used).Keeps

theorem Headroom.Keeps.enter {room : Headroom} (h : room.Keeps) (n : Nat) : (room.enter n).Keeps :=
  fun used => h (n + used)

theorem Headroom.Keeps.evaluate {room : Headroom} (h : room.Keeps) : room.evaluate.Keeps := h 0

section Parts

variable {ev : Evaluator} {room : Headroom} {g frame : Nat} {s : State}

open Value (OwnedAll)

/-! ## Forms -/

theorem keeps_evaluateAll (hev : ev.Keeps) (hs : s.store.Sound) (hframe : s.store.Rooted g frame)
    {forms : List Value} (hforms : OwnedAll g s.store forms) :
    (evaluateAll ev frame forms).Keeps g (OwnedAll g) s := by
  induction forms generalizing s with
  | nil => exact Run.keeps_pure hs nofun
  | cons e es ih =>
    obtain ⟨he, hes⟩ := List.forall_mem_cons.mp hforms
    refine (hev hs hframe he).bind fun v t hst hv => ?_
    refine (ih hst.sound (hframe.mono hst.toGrows) (OwnedAll.mono hst.toGrows hes)).bind
      fun vs u htu hvs => ?_
    exact Run.keeps_pure htu.sound (List.forall_mem_cons.mpr ⟨hv.mono htu.toGrows, hvs⟩)

theorem keeps_evaluateForms (hev : ev.Keeps) (hs : s.store.Sound) (hframe : s.store.Rooted g frame)
    {last : Value} (hlast : last.Owned g s.store) {forms : List Value}
    (hforms : OwnedAll g s.store forms) :
    (evaluateForms ev frame last forms).Keeps g (Value.Owned g) s := by
  induction forms generalizing s last with
  | nil => exact Run.keeps_pure hs hlast
  | cons e es ih =>
    obtain ⟨he, hes⟩ := List.forall_mem_cons.mp hforms
    refine (hev hs hframe he).bind fun v t hst hv => ?_
    exact ih hst.sound (hframe.mono hst.toGrows) hv (OwnedAll.mono hst.toGrows hes)

/-- A text belongs to whoever reads it. -/
theorem keeps_evaluateReading (hev : ev.Keeps) (hs : s.store.Sound)
    (hframe : s.store.Rooted g frame) (source : Text) :
    (evaluateReading ev frame (read source)).Keeps g (Value.Owned g) s := by
  have hforms : OwnedAll g s.store (read source).forms := Value.owned_of_mem_forms
  have hlast : Value.unspecified.Owned g s.store := nofun
  refine (keeps_evaluateForms hev hs hframe hlast hforms).bind fun v t hst hv => ?_
  cases (read source).error with
  | none => exact Run.keeps_pure hst.sound hv
  | some e => exact Run.keeps_fail hst.sound _

theorem keeps_runDefine (hroom : room.Keeps) (hs : s.store.Sound) (hframe : s.store.Rooted g frame)
    (name : Value) {form : Value} (hform : form.Owned g s.store) :
    (SpecialForm.runDefine room frame name form).Keeps g (Value.Owned g) s := by
  cases name with
  | symbol x =>
    refine (hroom.evaluate hs hframe hform).bind fun v t hst hv => ?_
    have hdefine := Store.evolves_define hst.sound (hframe.mono hst.toGrows) x hv
    refine (Run.keeps_modifyStore hdefine).bind fun _ u htu _ => ?_
    exact Run.keeps_pure htu.sound (hv.mono htu.toGrows)
  | _ => exact Run.keeps_of_fails hs (Run.fails_bind_fail (Run.quiet_inspected _ _) _)

theorem keeps_runLambda (hs : s.store.Sound) (hframe : s.store.Rooted g frame) (formals : Value)
    {body : Value} (hbody : body.Owned g s.store) :
    (SpecialForm.runLambda frame formals body).Keeps g (Value.Owned g) s := by
  unfold SpecialForm.runLambda
  split
  · exact Run.keeps_fail hs _
  · have hid : (Run.onStore Store.newIdentity).Keeps g (fun _ _ => True) s :=
      Run.keeps_onStore (Store.evolves_newIdentity hs) trivial
    refine hid.bind fun id t hst _ => Run.keeps_pure hst.sound ?_
    exact Value.owned_closure (hframe.mono hst.toGrows) (hbody.mono hst.toGrows)

theorem keeps_runIf (hroom : room.Keeps) (hs : s.store.Sound) (hframe : s.store.Rooted g frame)
    {condition yes no : Value} (hcondition : condition.Owned g s.store) (hyes : yes.Owned g s.store)
    (hno : no.Owned g s.store) :
    (SpecialForm.runIf room frame condition yes no).Keeps g (Value.Owned g) s := by
  refine (hroom.evaluate hs hframe hcondition).bind fun v t hst _ => ?_
  have hframe := hframe.mono hst.toGrows
  split
  · exact hroom.evaluate hst.sound hframe (hno.mono hst.toGrows)
  · exact hroom.evaluate hst.sound hframe (hyes.mono hst.toGrows)

theorem keeps_specialForm (hroom : room.Keeps) (hs : s.store.Sound)
    (hframe : s.store.Rooted g frame) (special : SpecialForm) {parts : List Value}
    (hparts : OwnedAll g s.store parts) :
    (special.run room frame parts).Keeps g (Value.Owned g) s := by
  unfold SpecialForm.run
  split
  · simp only [OwnedAll, List.forall_mem_cons] at hparts
    exact keeps_runDefine hroom hs hframe _ hparts.2.1
  · simp only [OwnedAll, List.forall_mem_cons] at hparts
    exact keeps_runLambda hs hframe _ hparts.2.1
  · simp only [OwnedAll, List.forall_mem_cons] at hparts
    exact keeps_runIf hroom hs hframe hparts.1 hparts.2.1 hparts.2.2.1
  · exact Run.keeps_pure hs (List.forall_mem_cons.mp hparts).1
  · exact Run.keeps_fail hs _

/-! ## Procedures -/

theorem keeps_useFile (host : Host) (hev : ev.Keeps) (hs : s.store.Sound)
    (hframe : s.store.Rooted g frame) (name : Value) :
    (Primitive.useFile host ev frame name).Keeps g (Value.Owned g) s := by
  cases name with
  | symbol x =>
    refine (Run.keeps_of_quiet hs (Run.quiet_ofExcept _)).bind fun p t hst _ => ?_
    refine (Run.keeps_of_quiet hst.sound (Run.quiet_fileText host p)).bind fun text u htu _ => ?_
    cases text with
    | error e => exact Run.keeps_fail htu.sound _
    | ok text =>
      refine (Run.keeps_of_store_eq htu.sound rfl).bind fun _ w huw _ => ?_
      have hgrows := (hst.toGrows.trans htu.toGrows).trans huw.toGrows
      exact keeps_evaluateReading hev huw.sound (hframe.mono hgrows) text
  | _ => exact Run.keeps_fail hs _

/-- What is computed from the arguments without changing anything belongs to everyone if it holds no
closures. -/
theorem keeps_bind_pure (hs : s.store.Sound) {m : Run α} (hm : m.Quiet) {f : α → Value}
    (hf : ∀ a t, (f a).Owned g t) : (m >>= fun a => pure (f a)).Keeps g (Value.Owned g) s :=
  (Run.keeps_of_quiet hs hm).bind fun a t hst _ => Run.keeps_pure hst.sound (hf a t.store)

theorem keeps_readLine (hs : s.store.Sound) : Primitive.readLine.Keeps g (Value.Owned g) s := by
  refine (Run.keeps_nextArrival hs).bind fun arrival t hst _ => ?_
  split
  · exact Run.keeps_pure hst.sound nofun
  · exact Run.keeps_pure hst.sound nofun
  · exact Run.keeps_fault hst.sound _
  · exact Run.keeps_fail hst.sound _

theorem keeps_exitWith (hs : s.store.Sound) (status : Int) :
    (Primitive.exitWith status).Keeps g (Value.Owned g) s :=
  (Run.keeps_of_store_eq hs rfl).bind fun _ _ hst _ => Run.keeps_fault hst.sound _

theorem keeps_primitiveBody (host : Host) (hroom : room.Keeps) (hs : s.store.Sound)
    (hframe : s.store.Rooted g frame) (op : Primitive) {args : List Value}
    (hargs : OwnedAll g s.store args) :
    (op.body host room frame args).Keeps g (Value.Owned g) s := by
  unfold Primitive.body
  split
  · exact keeps_bind_pure hs (Primitive.quiet_numbers _ _ _) fun _ _ => nofun
  · exact keeps_bind_pure hs (Primitive.quiet_numbers _ _ _) fun _ _ => nofun
  · exact keeps_bind_pure hs (Primitive.quiet_numbers _ _ _) fun _ _ => nofun
  · refine (Run.keeps_of_quiet hs (Primitive.quiet_numbers _ _ _)).bind fun xs t hst _ => ?_
    cases Binary64.quotient xs with
    | some x => exact Run.keeps_pure hst.sound nofun
    | none => exact Run.keeps_fail hst.sound _
  · exact keeps_bind_pure hs (Primitive.quiet_numbers _ _ _) fun _ _ => nofun
  · exact keeps_bind_pure hs (Primitive.quiet_numbers _ _ _) fun _ _ => nofun
  · exact keeps_bind_pure hs (Primitive.quiet_numbers _ _ _) fun _ _ => nofun
  · exact keeps_bind_pure hs (Primitive.quiet_numbers _ _ _) fun _ _ => nofun
  · exact Run.keeps_pure hs nofun
  · split
    · exact Run.keeps_pure hs nofun
    · exact Run.keeps_fault hs _
  · exact Run.keeps_pure hs (Value.owned_list hargs)
  · exact Run.keeps_pure hs nofun
  · exact keeps_bind_pure hs (Primitive.quiet_listArgument _ _) fun _ _ => nofun
  · exact keeps_bind_pure hs (Primitive.quiet_listArgument _ _) fun _ _ => nofun
  · exact Run.keeps_pure hs nofun
  · exact hroom.evaluate hs hframe (List.forall_mem_cons.mp hargs).1
  · exact keeps_useFile host hroom.evaluate hs hframe _
  · refine (Run.keeps_of_quiet hs (Run.quiet_shown _ _)).bind fun text t hst _ => ?_
    exact (Run.keeps_of_store_eq hst.sound rfl).bind fun _ u htu _ => Run.keeps_pure htu.sound nofun
  · exact keeps_readLine hs
  · exact keeps_exitWith hs 0
  · exact (Run.keeps_of_quiet hs (Primitive.quiet_exitStatus _ _)).bind
      fun status t hst _ => keeps_exitWith hst.sound status
  · exact Run.keeps_pure hs nofun

/-- A call is run in a frame that has the root of the frame in which the closure was made. -/
theorem keeps_applyClosure (hroom : room.Keeps) (hs : s.store.Sound) (closure : Value)
    (formals : List Text) {body : Value} (hbody : body.Owned g s.store) {home : Nat}
    (hhome : s.store.Rooted g home) {args : List Value} (hargs : OwnedAll g s.store args) :
    (applyClosure room closure formals body home args).Keeps g (Value.Owned g) s := by
  have hframe : (callFrame (room.enter 1).frames closure formals home args).Keeps g
      (fun t inner => t.Rooted g inner) s := by
    unfold callFrame
    split
    · have hextend := Store.evolves_extend hs hhome formals hargs
      refine Run.keeps_onStore hextend (hextend.rooted (Nat.le_refl _) ?_)
      rw [Store.size_extend]
      exact Nat.lt_succ_self _
    · exact Run.keeps_of_fails hs (Run.fails_bind_fail (Run.quiet_shown _ _) _)
  refine hframe.bind fun inner t hst hinner => ?_
  exact hroom.evaluate hst.sound hinner (hbody.mono hst.toGrows)

theorem keeps_apply (host : Host) (hroom : room.Keeps) (hs : s.store.Sound)
    (hframe : s.store.Rooted g frame) {fn : Value} (hfn : fn.Owned g s.store) {args : List Value}
    (hargs : OwnedAll g s.store args) :
    (apply host room frame fn args).Keeps g (Value.Owned g) s := by
  cases fn with
  | closure id formals body home =>
    have hhome : s.store.Rooted g home := hfn id formals body home (.self _)
    have hbody : body.Owned g s.store := hfn.of_contains (.body (.self body))
    exact keeps_applyClosure (hroom.enter 1) hs _ formals hbody hhome hargs
  | builtin op id =>
    unfold apply Primitive.call
    simp only
    split
    · exact keeps_primitiveBody host (hroom.enter 3) hs hframe op hargs
    · exact Run.keeps_fail hs _
  | _ => exact Run.keeps_of_fails hs (Run.fails_bind_fail (Run.quiet_shown _ _) _)

/-! ## Evaluation -/

theorem keeps_evaluateCall (host : Host) (hroom : room.Keeps) (hs : s.store.Sound)
    (hframe : s.store.Rooted g frame) {head : Value} (hhead : head.Owned g s.store)
    {operands : List Value} (hoperands : OwnedAll g s.store operands) :
    (evaluateCall host room frame head operands).Keeps g (Value.Owned g) s := by
  refine (hroom.evaluate hs hframe hhead).bind fun fn t hst hfn => ?_
  have hframe := hframe.mono hst.toGrows
  refine (keeps_evaluateAll (hroom.enter 1).evaluate hst.sound hframe
    (hoperands.mono hst.toGrows)).bind fun args u htu hargs => ?_
  exact keeps_apply host (hroom.enter 1) htu.sound (hframe.mono htu.toGrows)
    (hfn.mono htu.toGrows) hargs

theorem keeps_evaluateStep (host : Host) (hroom : room.Keeps) :
    Evaluator.Keeps (evaluateStep host room) := by
  intro g form frame s hs hframe hform
  unfold evaluateStep
  split
  · exact Run.keeps_lookup hs hframe _
  · exact Run.keeps_fail hs _
  · have hitems : OwnedAll g s.store _ := fun v hv => hform.of_mem hv
    obtain ⟨hhead, hrest⟩ := List.forall_mem_cons.mp hitems
    split
    · exact keeps_specialForm (hroom.enter 1) hs hframe _ hrest
    · exact keeps_evaluateCall host hroom hs hframe hhead hrest
  · exact Run.keeps_pure hs hform

end Parts

/-- A form that belongs to the root of the frame it is evaluated in has a value that does, and everything
that is made on the way does, however the evaluation ends. -/
theorem keeps_evaluate (host : Host) (frames : Nat) : (evaluate host frames).Keeps := by
  induction frames using Nat.strongRecOn with
  | ind frames ih =>
    cases frames with
    | zero => exact fun _ _ _ _ hs _ _ => Run.keeps_fault hs _
    | succ n =>
      rw [evaluate_succ]
      exact keeps_evaluateStep host fun used => ih (n - used) (by omega)

end SmallLisp
