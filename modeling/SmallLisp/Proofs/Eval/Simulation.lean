import Mathlib.Order.Basic
import SmallLisp.Proofs.Eval.Effect
import SmallLisp.Proofs.Value.Alike

/-!
Two runs side by side.

A `Matching` says which states, frames and identities of two runs correspond.  What corresponds depends
on a world, and later worlds know of more frames and identities.  A matching is lawful if the few things
that evaluation does to the state keep it: looking up and binding names, making closures and frames for
calls, reading files, using the console and the journal.  Then two evaluations of alike forms in frames
that correspond end in the same way, with alike values or the same fault, in states that correspond
again (`Lawful.follows_evaluate`).
-/

namespace SmallLisp

variable {α β γ δ W : Type}

/-- Which states, frames and identities of two runs correspond, as far as the world `w` knows. -/
structure Matching (W : Type) where
  states : W → State → State → Prop
  frames : W → Nat → Nat → Prop
  identities : W → Nat → Nat → Prop

/-- Both runs have values, which `P` relates, or both end in the same fault. -/
inductive Run.EndAlike (P : α → β → Prop) : Except Fault α → Except Fault β → Prop
  | ok {a : α} {b : β} (h : P a b) : EndAlike P (.ok a) (.ok b)
  | error (f : Fault) : EndAlike P (.error f) (.error f)

theorem Run.EndAlike.eq {P : α → α → Prop} (hP : ∀ {a b}, P a b → a = b) {r r' : Except Fault α}
    (h : EndAlike P r r') : r = r' := by
  cases h with
  | ok h => rw [hP h]
  | error f => rfl

theorem Run.EndAlike.map_eq {P : α → β → Prop} {f : α → γ} {g : β → γ}
    (hP : ∀ {a b}, P a b → f a = g b) {r : Except Fault α} {r' : Except Fault β}
    (h : EndAlike P r r') : r.map f = r'.map g := by
  cases h with
  | ok h => exact congrArg Except.ok (hP h)
  | error f => rfl

namespace Matching

variable (M : Matching W)

def values (w : W) : Value → Value → Prop := Value.Alike (M.frames w) (M.identities w)

def valuesAll (w : W) : List Value → List Value → Prop :=
  Value.AlikeAll (M.frames w) (M.identities w)

/-- What is done to states that correspond, and at corresponding places, leads to such states. -/
structure Lawful [Preorder W] (host : Host) : Prop where
  frames_mono {w w' : W} {i j : Nat} : w ≤ w' → M.frames w i j → M.frames w' i j
  identities_mono {w w' : W} {i j : Nat} : w ≤ w' → M.identities w i j → M.identities w' i j
  distinct {w : W} {s t : State} : M.states w s t → Value.Distinct (M.identities w)
  text {w : W} {s t : State} (p : Path) : M.states w s t →
    host.text s.journal p = host.text t.journal p
  input {w : W} {s t : State} : M.states w s t → s.console.input = t.console.input
  lookup {w : W} {s t : State} {i j : Nat} (name : Text) : M.states w s t → M.frames w i j →
    Option.Rel (M.values w) (s.store.lookup? i name) (t.store.lookup? j name)
  define {w : W} {s t : State} {i j : Nat} {a b : Value} (name : Text) : M.states w s t →
    M.frames w i j → M.values w a b →
    M.states w { s with store := s.store.define i name a } { t with store := t.store.define j name b }
  identity {w : W} {s t : State} : M.states w s t → ∃ w', w ≤ w' ∧
    M.states w' { s with store := s.store.newIdentity.2 } { t with store := t.store.newIdentity.2 } ∧
    M.identities w' s.store.identities t.store.identities
  extend {w : W} {s t : State} {i j : Nat} {as bs : List Value} (formals : List Text) :
    M.states w s t → M.frames w i j → M.valuesAll w as bs → ∃ w', w ≤ w' ∧
    M.states w' (s.extend i formals as) (t.extend j formals bs) ∧
    M.frames w' s.store.frames.size t.store.frames.size
  write {w : W} {s t : State} (text : Text) : M.states w s t →
    M.states w { s with console := s.console.write text } { t with console := t.console.write text }
  take {w : W} {s t : State} (rest : Input) : M.states w s t →
    M.states w { s with console := s.console.setInput rest }
      { t with console := t.console.setInput rest }
  note {w : W} {s t : State} (n : Notice) : M.states w s t →
    M.states w { s with journal := n :: s.journal } { t with journal := n :: t.journal }

/-- The runs `m` from `s` and `n` from `t` end alike, in states that correspond in a later world. -/
def Simulates [LE W] (w : W) (P : W → α → β → Prop) (m : Run α) (n : Run β) (s t : State) : Prop :=
  ∃ w', w ≤ w' ∧ M.states w' (m s).2 (n t).2 ∧ Run.EndAlike (P w') (m s).1 (n t).1

/-- Evaluations of alike forms in frames that correspond end alike. -/
def Follows [LE W] (ev : Evaluator) : Prop :=
  ∀ ⦃w : W⦄ ⦃s t : State⦄ ⦃form form' : Value⦄ ⦃frame frame' : Nat⦄, M.states w s t →
    M.frames w frame frame' → M.values w form form' →
    M.Simulates w M.values (ev form frame) (ev form' frame') s t

def FollowsBelow [LE W] (room : Headroom) : Prop := ∀ used, M.Follows (room.evaluateBelow used)

variable {M}

theorem FollowsBelow.enter [LE W] {room : Headroom} (h : M.FollowsBelow room) (n : Nat) :
    M.FollowsBelow (room.enter n) :=
  fun used => h (n + used)

theorem FollowsBelow.evaluate [LE W] {room : Headroom} (h : M.FollowsBelow room) :
    M.Follows room.evaluate :=
  h 0

section Runs

variable [Preorder W] {w : W} {s t : State} {a b : Value} {as bs : List Value}

theorem simulates_pure {P : W → α → β → Prop} (hst : M.states w s t) {a : α} {b : β}
    (h : P w a b) : M.Simulates w P (pure a) (pure b) s t :=
  ⟨w, le_refl w, hst, .ok h⟩

theorem simulates_fault {P : W → α → β → Prop} (hst : M.states w s t) (f : Fault) :
    M.Simulates w P (Run.fault f) (Run.fault f) s t :=
  ⟨w, le_refl w, hst, .error f⟩

theorem simulates_fail {P : W → α → β → Prop} (hst : M.states w s t) (e : Error) :
    M.Simulates w P (Run.fail e) (Run.fail e) s t :=
  simulates_fault hst (.error e)

theorem Simulates.bind {P : W → α → β → Prop} {Q : W → γ → δ → Prop} {m : Run α} {n : Run β}
    {f : α → Run γ} {g : β → Run δ} (hm : M.Simulates w P m n s t)
    (hf : ∀ w' a b s' t', w ≤ w' → M.states w' s' t' → P w' a b →
      M.Simulates w' Q (f a) (g b) s' t') :
    M.Simulates w Q (m >>= f) (n >>= g) s t := by
  obtain ⟨w', hw, hstates, hends⟩ := hm
  match hms : m s, hnt : n t with
  | (ra, s'), (rb, t') =>
    rw [hms, hnt] at hstates hends
    cases hends with
    | ok h =>
      obtain ⟨w'', hw', hrest⟩ := hf w' _ _ s' t' hw hstates h
      refine ⟨w'', le_trans hw hw', ?_⟩
      rw [Run.bind_ok hms, Run.bind_ok hnt]
      exact hrest
    | error f =>
      refine ⟨w', hw, ?_⟩
      rw [Run.bind_error hms, Run.bind_error hnt]
      exact ⟨hstates, .error f⟩

/-! ## What only looks at values -/

theorem simulates_shown (hst : M.states w s t) (hab : M.values w a b) (n : Nat) :
    M.Simulates w (fun _ => Eq) (Run.shown n a) (Run.shown n b) s t := by
  unfold Run.shown
  rw [hab.rendersWithin_eq n, hab.render_eq]
  split
  · exact simulates_pure hst rfl
  · exact simulates_fault hst _

theorem simulates_inspected (hst : M.states w s t) (hab : M.values w a b) (n : Nat) :
    M.Simulates w (fun _ => Eq) (Run.inspected n a) (Run.inspected n b) s t := by
  unfold Run.inspected
  rw [hab.inspectsWithin_eq n, hab.inspect_eq]
  split
  · exact simulates_pure hst rfl
  · exact simulates_fault hst _

/-- A complaint about a value is the same about an alike one. -/
theorem simulates_complaint {P : W → α → β → Prop} {m n : Run Text}
    (hm : M.Simulates w (fun _ => Eq) m n s t) (error : Text → Error) :
    M.Simulates w P (m >>= fun text => Run.fail (error text))
      (n >>= fun text => Run.fail (error text)) s t := by
  refine hm.bind fun w' text text' s' t' _ hst htext => ?_
  rw [htext]
  exact simulates_fail hst _

theorem simulates_numbers (hst : M.states w s t) (n : Nat) (name : Text)
    (hab : M.valuesAll w as bs) :
    M.Simulates w (fun _ => Eq) (Primitive.numbers n name as) (Primitive.numbers n name bs) s t := by
  induction as generalizing bs with
  | nil =>
    cases hab
    exact simulates_pure hst rfl
  | cons a as ih =>
    cases hab with
    | cons head tail =>
      have hcomplaint := simulates_complaint (P := fun _ => Eq) (β := List Binary64)
        (simulates_shown hst head n) (Error.notNumber name)
      cases head with
      | number x =>
        refine (ih tail).bind fun w' xs xs' s' t' _ hst' hxs => ?_
        rw [hxs]
        exact simulates_pure hst' rfl
      | _ => exact hcomplaint

theorem simulates_listArgument (hst : M.states w s t) (name : Text) (hab : M.valuesAll w as bs) :
    M.Simulates w M.valuesAll (Primitive.listArgument name as) (Primitive.listArgument name bs)
      s t := by
  cases hab with
  | nil => exact simulates_pure hst .nil
  | cons head tail =>
    cases head with
    | list items => exact simulates_pure hst items
    | _ => exact simulates_fail hst _

/-- What is made of the numbers alone is the same on both sides. -/
theorem simulates_ofNumbers (hst : M.states w s t) (n : Nat) (name : Text)
    (hab : M.valuesAll w as bs) {f : List Binary64 → Run Value}
    (hf : ∀ w xs s t, M.states w s t → M.Simulates w M.values (f xs) (f xs) s t) :
    M.Simulates w M.values (Primitive.numbers n name as >>= f)
      (Primitive.numbers n name bs >>= f) s t := by
  refine (simulates_numbers hst n name hab).bind fun w' xs xs' s' t' _ hst' hxs => ?_
  rw [hxs]
  exact hf w' xs' s' t' hst'

theorem simulates_compare (hst : M.states w s t) (n : Nat) (op : Primitive)
    (rel : Binary64 → Binary64 → Bool) (hab : M.valuesAll w as bs) :
    M.Simulates w M.values (Primitive.compare n op rel as) (Primitive.compare n op rel bs) s t :=
  simulates_ofNumbers hst n op.name hab fun _ _ _ _ hst' => simulates_pure hst' (.bool _)

end Runs

namespace Lawful

variable [Preorder W] {host : Host} {w : W} {s t : State}

section Parts

variable (h : M.Lawful host) {w' : W} {a b : Value} {as bs : List Value}
  {ev : Evaluator} {room : Headroom} {frame frame' : Nat}

include h

theorem values_mono (hw : w ≤ w') (hab : M.values w a b) : M.values w' a b :=
  hab.mono (h.frames_mono hw) (h.identities_mono hw)

theorem valuesAll_mono (hw : w ≤ w') (hab : M.valuesAll w as bs) : M.valuesAll w' as bs :=
  hab.mono (h.frames_mono hw) (h.identities_mono hw)

theorem simulates_log (hst : M.states w s t) (logger : Text) (level : Level) (message : Text) :
    M.Simulates w (fun _ => Eq) (Run.log logger level message) (Run.log logger level message) s t :=
  ⟨w, le_refl w, h.note _ hst, .ok rfl⟩

theorem simulates_lookup (hst : M.states w s t) (hframe : M.frames w frame frame') (name : Text) :
    M.Simulates w M.values (Run.lookup frame name) (Run.lookup frame' name) s t := by
  have hvalue := h.lookup name hst hframe
  unfold Simulates Run.lookup
  cases hs : s.store.lookup? frame name with
  | none =>
    rw [hs] at hvalue
    cases ht : t.store.lookup? frame' name with
    | none => exact ⟨w, le_refl w, hst, .error _⟩
    | some b =>
      rw [ht] at hvalue
      cases hvalue
  | some a =>
    rw [hs] at hvalue
    cases ht : t.store.lookup? frame' name with
    | none =>
      rw [ht] at hvalue
      cases hvalue
    | some b =>
      rw [ht] at hvalue
      cases hvalue with
      | some hab => exact ⟨w, le_refl w, hst, .ok hab⟩

theorem simulates_fileText (hst : M.states w s t) (p : Path) :
    M.Simulates w (fun _ => Eq) (Run.fileText host p) (Run.fileText host p) s t := by
  unfold Simulates Run.fileText
  cases p.invalid? with
  | some reason => exact ⟨w, le_refl w, hst, .error _⟩
  | none => exact ⟨w, le_refl w, hst, .ok (h.text p hst)⟩

theorem simulates_nextArrival (hst : M.states w s t) :
    M.Simulates w (fun _ => Eq) Run.nextArrival Run.nextArrival s t := by
  unfold Simulates Run.nextArrival
  rw [h.input hst]
  cases t.console.input with
  | nil => exact ⟨w, le_refl w, hst, .ok rfl⟩
  | cons arrival rest => exact ⟨w, le_refl w, h.take rest hst, .ok rfl⟩

/-! ## Forms -/

theorem simulates_evaluateAll (hev : M.Follows ev) (hst : M.states w s t)
    (hframe : M.frames w frame frame') (hab : M.valuesAll w as bs) :
    M.Simulates w M.valuesAll (evaluateAll ev frame as) (evaluateAll ev frame' bs) s t := by
  induction as generalizing w s t bs with
  | nil =>
    cases hab
    exact simulates_pure hst .nil
  | cons a as ih =>
    cases hab with
    | cons head tail =>
      refine (hev hst hframe head).bind fun w₁ v v' s₁ t₁ hw₁ hst₁ hv => ?_
      refine (ih hst₁ (h.frames_mono hw₁ hframe) (h.valuesAll_mono hw₁ tail)).bind
        fun w₂ vs vs' s₂ t₂ hw₂ hst₂ hvs => ?_
      exact simulates_pure hst₂ (.cons (h.values_mono hw₂ hv) hvs)

theorem simulates_evaluateForms (hev : M.Follows ev) (hst : M.states w s t)
    (hframe : M.frames w frame frame') {last last' : Value} (hlast : M.values w last last')
    (hab : M.valuesAll w as bs) :
    M.Simulates w M.values (evaluateForms ev frame last as) (evaluateForms ev frame' last' bs)
      s t := by
  induction as generalizing w s t bs last last' with
  | nil =>
    cases hab
    exact simulates_pure hst hlast
  | cons a as ih =>
    cases hab with
    | cons head tail =>
      refine (hev hst hframe head).bind fun w₁ v v' s₁ t₁ hw₁ hst₁ hv => ?_
      exact ih hst₁ (h.frames_mono hw₁ hframe) hv (h.valuesAll_mono hw₁ tail)

theorem simulates_evaluateReading (hev : M.Follows ev) (hst : M.states w s t)
    (hframe : M.frames w frame frame') (source : Text) :
    M.Simulates w M.values (evaluateReading ev frame (read source))
      (evaluateReading ev frame' (read source)) s t := by
  refine (h.simulates_evaluateForms hev hst hframe .unspecified
    (Value.alikeAll_forms _ _ source)).bind fun w' v v' s' t' _ hst' hv => ?_
  cases (read source).error with
  | none => exact simulates_pure hst' hv
  | some e => exact simulates_fail hst' _

theorem simulates_runDefine (hroom : M.FollowsBelow room) (hst : M.states w s t)
    (hframe : M.frames w frame frame') {name name' : Value} (hname : M.values w name name')
    (hab : M.values w a b) :
    M.Simulates w M.values (SpecialForm.runDefine room frame name a)
      (SpecialForm.runDefine room frame' name' b) s t := by
  cases hname with
  | symbol x =>
    refine (hroom.evaluate hst hframe hab).bind fun w' v v' s' t' hw hst' hv => ?_
    have hdefine : M.Simulates w' (fun _ => Eq) (Run.modifyStore fun s => s.define frame x v)
        (Run.modifyStore fun s => s.define frame' x v') s' t' :=
      ⟨w', le_refl w', h.define x hst' (h.frames_mono hw hframe) hv, .ok rfl⟩
    refine hdefine.bind fun w'' _ _ s'' t'' hw' hst'' _ => ?_
    exact simulates_pure hst'' (h.values_mono hw' hv)
  | number x => exact simulates_complaint (simulates_inspected hst (.number x) _) _
  | bool b => exact simulates_complaint (simulates_inspected hst (.bool b) _) _
  | list items => exact simulates_complaint (simulates_inspected hst (.list items) _) _
  | closure formals id body frame =>
    exact simulates_complaint (simulates_inspected hst (.closure formals id body frame) _) _
  | builtin op id => exact simulates_complaint (simulates_inspected hst (.builtin op id) _) _
  | unspecified => exact simulates_complaint (simulates_inspected hst .unspecified _) _

theorem simulates_runLambda (hst : M.states w s t) (hframe : M.frames w frame frame')
    {formals formals' : Value} (hformals : M.values w formals formals') (hab : M.values w a b) :
    M.Simulates w M.values (SpecialForm.runLambda frame formals a)
      (SpecialForm.runLambda frame' formals' b) s t := by
  unfold SpecialForm.runLambda
  rw [hformals.formals?_eq]
  cases formals'.formals? with
  | none => exact simulates_fail hst _
  | some names =>
    obtain ⟨w', hw, hst', hid⟩ := h.identity hst
    have hidentity : M.Simulates w M.identities (Run.onStore Store.newIdentity)
        (Run.onStore Store.newIdentity) s t := ⟨w', hw, hst', .ok hid⟩
    refine hidentity.bind fun w'' i j s'' t'' hw' hst'' hij => ?_
    exact simulates_pure hst''
      (.closure names hij (h.values_mono hw' hab) (h.frames_mono hw' hframe))

theorem simulates_runIf (hroom : M.FollowsBelow room) (hst : M.states w s t)
    (hframe : M.frames w frame frame') {condition condition' yes yes' no no' : Value}
    (hcondition : M.values w condition condition') (hyes : M.values w yes yes')
    (hno : M.values w no no') :
    M.Simulates w M.values (SpecialForm.runIf room frame condition yes no)
      (SpecialForm.runIf room frame' condition' yes' no') s t := by
  refine (hroom.evaluate hst hframe hcondition).bind fun w' v v' s' t' hw hst' hv => ?_
  have hframe := h.frames_mono hw hframe
  have hbranchYes := hroom.evaluate hst' hframe (h.values_mono hw hyes)
  have hbranchNo := hroom.evaluate hst' hframe (h.values_mono hw hno)
  cases hv with
  | bool b =>
    cases b with
    | true => exact hbranchYes
    | false => exact hbranchNo
  | _ => exact hbranchYes

theorem simulates_specialForm (hroom : M.FollowsBelow room) (hst : M.states w s t)
    (hframe : M.frames w frame frame') (special : SpecialForm) (hab : M.valuesAll w as bs) :
    M.Simulates w M.values (special.run room frame as) (special.run room frame' bs) s t := by
  -- The number of parts decides, and it is the same on both sides.
  match as, bs, hab with
  | [], [], .nil => cases special <;> exact simulates_fail hst _
  | [_], [_], .cons h₁ .nil =>
    cases special with
    | quote => exact simulates_pure hst h₁
    | _ => exact simulates_fail hst _
  | [_, _], [_, _], .cons h₁ (.cons h₂ .nil) =>
    cases special with
    | define => exact h.simulates_runDefine hroom hst hframe h₁ h₂
    | lambda => exact h.simulates_runLambda hst hframe h₁ h₂
    | _ => exact simulates_fail hst _
  | [_, _, _], [_, _, _], .cons h₁ (.cons h₂ (.cons h₃ .nil)) =>
    cases special with
    | ifElse => exact h.simulates_runIf hroom hst hframe h₁ h₂ h₃
    | _ => exact simulates_fail hst _
  | _ :: _ :: _ :: _ :: _, _ :: _ :: _ :: _ :: _, .cons _ (.cons _ (.cons _ (.cons _ _))) =>
    cases special <;> exact simulates_fail hst _

/-! ## Procedures -/

theorem simulates_useFile (hev : M.Follows ev) (hst : M.states w s t)
    (hframe : M.frames w frame frame') (hab : M.values w a b) :
    M.Simulates w M.values (Primitive.useFile host ev frame a)
      (Primitive.useFile host ev frame' b) s t := by
  cases hab with
  | symbol name =>
    have hfind : M.Simulates w (fun _ => Eq)
        (Run.ofExcept ((Primitive.findFile host name).mapError .file))
        (Run.ofExcept ((Primitive.findFile host name).mapError .file)) s t := by
      cases (Primitive.findFile host name).mapError Fault.file with
      | ok p => exact simulates_pure hst rfl
      | error f => exact simulates_fault hst f
    refine hfind.bind fun w₁ p p' s₁ t₁ hw₁ hst₁ hp => ?_
    subst hp
    refine (h.simulates_fileText hst₁ p).bind fun w₂ r r' s₂ t₂ hw₂ hst₂ hr => ?_
    subst hr
    cases r with
    | error e => exact simulates_fail hst₂ _
    | ok text =>
      refine (h.simulates_log hst₂ _ _ _).bind fun w₃ _ _ s₃ t₃ hw₃ hst₃ _ => ?_
      have hw : w ≤ w₃ := le_trans hw₁ (le_trans hw₂ hw₃)
      exact h.simulates_evaluateReading hev hst₃ (h.frames_mono hw hframe) text
  | _ => exact simulates_fail hst _

theorem simulates_readLine (hst : M.states w s t) :
    M.Simulates w M.values Primitive.readLine Primitive.readLine s t := by
  refine (h.simulates_nextArrival hst).bind fun w' arrival arrival' s' t' _ hst' heq => ?_
  subst heq
  cases arrival with
  | none => exact simulates_pure hst' (.symbol _)
  | some arrival =>
    cases arrival with
    | line text => exact simulates_pure hst' (.symbol _)
    | interrupted => exact simulates_fault hst' _
    | failed => exact simulates_fail hst' _

theorem simulates_exitWith (hst : M.states w s t) (status : Int) :
    M.Simulates w M.values (Primitive.exitWith status) (Primitive.exitWith status) s t :=
  (h.simulates_log hst _ _ _).bind fun _ _ _ _ _ _ hst' _ => simulates_fault hst' _

theorem simulates_exitStatus (hst : M.states w s t) (n : Nat) (hab : M.values w a b) :
    M.Simulates w (fun _ => Eq) (Primitive.exitStatus n a) (Primitive.exitStatus n b) s t := by
  refine (simulates_numbers hst n "exit" (.cons hab .nil)).bind
    fun w' xs xs' s' t' hw hst' hxs => ?_
  subst hxs
  cases xs with
  | nil => exact simulates_pure hst' rfl
  | cons x rest =>
    simp only
    split
    · exact simulates_pure hst' rfl
    · exact simulates_complaint (simulates_shown hst' (h.values_mono hw hab) n) _

theorem simulates_equal (hst : M.states w s t) (hab : M.valuesAll w as bs) :
    M.Simulates w M.values (Primitive.body host room frame .equal as)
      (Primitive.body host room frame' .equal bs) s t := by
  cases hab with
  | nil => exact simulates_pure hst (.bool true)
  | cons head tail =>
    have hsame := tail.allSameWithin_eq (h.distinct hst) (room.enter 2).frames head
    simp only [Primitive.body]
    rw [hsame]
    split
    · exact simulates_pure hst (.bool _)
    · exact simulates_fault hst _

theorem simulates_putstr (hst : M.states w s t) (n : Nat) (hab : M.values w a b) :
    M.Simulates w M.values
      (do
        let text ← Run.shown n a
        Run.write (text ++ "\n")
        pure .unspecified)
      (do
        let text ← Run.shown n b
        Run.write (text ++ "\n")
        pure .unspecified) s t := by
  refine (simulates_shown hst hab n).bind fun w' text text' s' t' _ hst' htext => ?_
  subst htext
  have hwrite : M.Simulates w' (fun _ => Eq) (Run.write (text ++ "\n")) (Run.write (text ++ "\n"))
      s' t' := ⟨w', le_refl w', h.write _ hst', .ok rfl⟩
  exact hwrite.bind fun _ _ _ _ _ _ hst'' _ => simulates_pure hst'' .unspecified

theorem simulates_primitiveBody (hroom : M.FollowsBelow room) (hst : M.states w s t)
    (hframe : M.frames w frame frame') (op : Primitive) (hab : M.valuesAll w as bs) :
    M.Simulates w M.values (op.body host room frame as) (op.body host room frame' bs) s t := by
  have hnumbers {f : List Binary64 → Binary64} {name : Text} :
      M.Simulates w M.values
        (Primitive.numbers (room.enter 1).frames name as >>= fun xs => pure (.number (f xs)))
        (Primitive.numbers (room.enter 1).frames name bs >>= fun xs => pure (.number (f xs))) s t :=
    simulates_ofNumbers hst _ name hab fun _ _ _ _ hst' => simulates_pure hst' (.number _)
  cases op with
  | add => exact hnumbers
  | subtract => exact hnumbers
  | multiply => exact hnumbers
  | divide =>
    refine simulates_ofNumbers hst _ "/" hab fun w' xs s' t' hst' => ?_
    cases Binary64.quotient xs with
    | some x => exact simulates_pure hst' (.number x)
    | none => exact simulates_fail hst' _
  | greater => exact simulates_compare hst _ .greater _ hab
  | greaterEq => exact simulates_compare hst _ .greaterEq _ hab
  | less => exact simulates_compare hst _ .less _ hab
  | lessEq => exact simulates_compare hst _ .lessEq _ hab
  | equal => exact h.simulates_equal hst hab
  | list => exact simulates_pure hst (.list hab)
  | isEmpty =>
    refine (simulates_listArgument hst "empty?" hab).bind fun w' vs vs' s' t' _ hst' hvs => ?_
    cases hvs with
    | nil => exact simulates_pure hst' (.bool true)
    | cons head tail => exact simulates_pure hst' (.bool false)
  | count =>
    refine (simulates_listArgument hst "count" hab).bind fun w' vs vs' s' t' _ hst' hvs => ?_
    rw [hvs.length_eq]
    exact simulates_pure hst' (.number _)
  | readline => exact h.simulates_readLine hst
  | exit =>
    cases hab with
    | nil => exact h.simulates_exitWith hst 0
    | cons head tail =>
      refine (h.simulates_exitStatus hst _ head).bind fun w' i j s' t' _ hst' hij => ?_
      rw [hij]
      exact h.simulates_exitWith hst' j
  | isList =>
    cases hab with
    | nil => exact simulates_pure hst .unspecified
    | cons head tail => cases head <;> exact simulates_pure hst (.bool _)
  | type =>
    cases hab with
    | nil => exact simulates_pure hst .unspecified
    | cons head tail => cases head <;> exact simulates_pure hst (.symbol _)
  | eval =>
    cases hab with
    | nil => exact simulates_pure hst .unspecified
    | cons head tail => exact hroom.evaluate hst hframe head
  | use =>
    cases hab with
    | nil => exact simulates_pure hst .unspecified
    | cons head tail => exact h.simulates_useFile hroom.evaluate hst hframe head
  | putstr =>
    cases hab with
    | nil => exact simulates_pure hst .unspecified
    | cons head tail => exact h.simulates_putstr hst _ head

theorem simulates_applyClosure (hroom : M.FollowsBelow room) (hst : M.states w s t)
    {i j home home' : Nat} {body body' : Value} (formals : List Text) (hid : M.identities w i j)
    (hbody : M.values w body body') (hhome : M.frames w home home') (hab : M.valuesAll w as bs) :
    M.Simulates w M.values
      (applyClosure room (.closure i formals body home) formals body home as)
      (applyClosure room (.closure j formals body' home') formals body' home' bs) s t := by
  have hframe : M.Simulates w M.frames
      (callFrame (room.enter 1).frames (.closure i formals body home) formals home as)
      (callFrame (room.enter 1).frames (.closure j formals body' home') formals home' bs) s t := by
    unfold callFrame
    rw [hab.length_eq]
    split
    · obtain ⟨w', hw, hst', hsize⟩ := h.extend formals hst hhome hab
      exact ⟨w', hw, hst', .ok hsize⟩
    · exact simulates_complaint
        (simulates_shown hst (.closure formals hid hbody hhome) _) fun text => _
  refine hframe.bind fun w' inner inner' s' t' hw hst' hinner => ?_
  exact hroom.evaluate hst' hinner (h.values_mono hw hbody)

theorem simulates_apply (hroom : M.FollowsBelow room) (hst : M.states w s t)
    (hframe : M.frames w frame frame') (hfn : M.values w a b) (hab : M.valuesAll w as bs) :
    M.Simulates w M.values (apply host room frame a as) (apply host room frame' b bs) s t := by
  have hcomplaint := simulates_complaint (P := M.values)
    (simulates_shown hst hfn room.frames) Error.notCallable
  cases hfn with
  | closure formals id body frame =>
    exact h.simulates_applyClosure (hroom.enter 1) hst formals id body frame hab
  | builtin op id =>
    unfold apply Primitive.call
    simp only
    rw [hab.length_eq]
    split
    · exact h.simulates_primitiveBody (hroom.enter 3) hst hframe op hab
    · exact simulates_fail hst _
  | _ => exact hcomplaint

/-! ## Evaluation -/

theorem simulates_evaluateCall (hroom : M.FollowsBelow room) (hst : M.states w s t)
    (hframe : M.frames w frame frame') (hhead : M.values w a b) (hab : M.valuesAll w as bs) :
    M.Simulates w M.values (evaluateCall host room frame a as)
      (evaluateCall host room frame' b bs) s t := by
  refine (hroom.evaluate hst hframe hhead).bind fun w₁ fn fn' s₁ t₁ hw₁ hst₁ hfn => ?_
  have hframe := h.frames_mono hw₁ hframe
  refine (h.simulates_evaluateAll (hroom.enter 1).evaluate hst₁ hframe
    (h.valuesAll_mono hw₁ hab)).bind fun w₂ args args' s₂ t₂ hw₂ hst₂ hargs => ?_
  exact h.simulates_apply (hroom.enter 1) hst₂ (h.frames_mono hw₂ hframe)
    (h.values_mono hw₂ hfn) hargs

theorem follows_evaluateStep (hroom : M.FollowsBelow room) :
    M.Follows (evaluateStep host room) := by
  intro w s t form form' frame frame' hst hframe hform
  cases hform with
  | symbol name => exact h.simulates_lookup hst hframe name
  | list items =>
    cases items with
    | nil => exact simulates_fail hst _
    | cons head tail =>
      simp only [evaluateStep]
      rw [head.specialForm?_eq]
      split
      · exact h.simulates_specialForm (hroom.enter 1) hst hframe _ tail
      · exact h.simulates_evaluateCall hroom hst hframe head tail
  | number x => exact simulates_pure hst (.number x)
  | bool b => exact simulates_pure hst (.bool b)
  | closure formals id body frame => exact simulates_pure hst (.closure formals id body frame)
  | builtin op id => exact simulates_pure hst (.builtin op id)
  | unspecified => exact simulates_pure hst .unspecified

end Parts

/-- Evaluations of alike forms in frames that correspond end alike, with the same stack frames. -/
theorem follows_evaluate (h : M.Lawful host) (n : Nat) : M.Follows (evaluate host n) := by
  induction n using Nat.strongRecOn with
  | ind n ih =>
    cases n with
    | zero => exact fun _ _ _ _ _ _ _ hst _ _ => simulates_fault hst _
    | succ n =>
      rw [evaluate_succ]
      exact h.follows_evaluateStep fun used => ih (n - used) (by omega)

/-- Calls of alike closures end alike.  It does not matter where they are called from. -/
theorem simulates_call (h : M.Lawful host) (n frame frame' : Nat) (hst : M.states w s t)
    {i j home home' : Nat} {body body' : Value} {as bs : List Value} (formals : List Text)
    (hid : M.identities w i j) (hbody : M.values w body body') (hhome : M.frames w home home')
    (hab : M.valuesAll w as bs) :
    M.Simulates w M.values
      (apply host (.ofFrames host n) frame (.closure i formals body home) as)
      (apply host (.ofFrames host n) frame' (.closure j formals body' home') bs) s t := by
  have hroom : M.FollowsBelow (.ofFrames host n) := fun used => h.follows_evaluate (n - used)
  exact h.simulates_applyClosure (hroom.enter 1) hst formals hid hbody hhome hab

end Lawful
end Matching
end SmallLisp
