import SmallLisp.Proofs.Reader.Readable
import SmallLisp.Proofs.Store.Roots

/-!
To whom values belong.

A value belongs to the outermost frame `g` if every closure in it was made in a frame whose root is `g`
(`Value.Owned`).  A store is sound if every frame has a root and what is bound in a frame belongs to
that root.  `Evolves g` says what happens to a sound store while code runs whose frames have the root
`g`; each operation on stores is such a step if the values and frames it is given belong to `g`.
-/

namespace SmallLisp

namespace Value

/-- `w` is a part of `v`; what a closure captures is not part of it. -/
inductive Contains : (v w : Value) → Prop
  | self (v : Value) : Contains v v
  | item {items : List Value} {v w : Value} (hv : v ∈ items) (hw : Contains v w) :
      Contains (.list items) w
  | body {id : Nat} {formals : List Text} {body w : Value} {frame : Nat} (hw : Contains body w) :
      Contains (.closure id formals body frame) w

/-- Every closure in the value was made in a frame with the root `g`. -/
def Owned (g : Nat) (s : Store) (v : Value) : Prop :=
  ∀ id formals body frame, v.Contains (.closure id formals body frame) → s.Rooted g frame

variable {g : Nat} {s t : Store}

theorem Owned.mono (hst : s.Grows t) {v : Value} (h : v.Owned g s) : v.Owned g t :=
  fun id formals body frame hv => (h id formals body frame hv).mono hst

theorem Owned.of_contains {v w : Value} (h : v.Owned g s) (hw : v.Contains w) : w.Owned g s := by
  induction hw with
  | self => exact h
  | item hv hw ih => exact ih fun id formals body frame hc => h id formals body frame (.item hv hc)
  | body hw ih => exact ih fun id formals body frame hc => h id formals body frame (.body hc)

theorem owned_list {items : List Value} (h : ∀ v ∈ items, v.Owned g s) :
    (Value.list items).Owned g s := by
  intro id formals body frame hc
  cases hc with
  | item hv hw => exact h _ hv id formals body frame hw

theorem owned_closure {id : Nat} {formals : List Text} {body : Value} {frame : Nat}
    (hframe : s.Rooted g frame) (hbody : body.Owned g s) :
    (Value.closure id formals body frame).Owned g s := by
  intro id formals body frame hc
  cases hc with
  | self => exact hframe
  | body hw => exact hbody id formals body frame hw

theorem Owned.of_mem {items : List Value} {v : Value} (h : (Value.list items).Owned g s)
    (hv : v ∈ items) : v.Owned g s :=
  h.of_contains (.item hv (.self v))

theorem Readable.of_mem {items : List Value} {v : Value} (h : ReadableAll items) (hv : v ∈ items) :
    v.Readable := by
  induction items with
  | nil => cases hv
  | cons w items ih =>
    cases List.mem_cons.mp hv with
    | inl hw =>
      rw [hw]
      exact h.1
    | inr hv => exact ih h.2 hv

/-- What can be read holds no closures. -/
theorem Readable.owned {v : Value} (h : v.Readable) : v.Owned g s := by
  intro id formals body frame hc
  generalize hw : Value.closure id formals body frame = w at hc
  induction hc with
  | self =>
    subst hw
    exact h.elim
  | item hv hc ih => exact ih (Readable.of_mem h hv) hw
  | body => exact h.elim

theorem owned_of_mem_forms {source : Text} : ∀ v ∈ (read source).forms, v.Owned g s :=
  fun _ hv => (readable_of_mem_forms hv).owned

end Value

namespace Store

/-- Every frame has a root, and what is bound in it belongs to that root. -/
structure Sound (s : Store) : Prop where
  rooted {i : Nat} : i < s.frames.size → ∃ g, s.Rooted g i
  owned {g i : Nat} : s.Rooted g i → ∀ binding ∈ s.bindings i, binding.2.Owned g s

/-- The store has grown to `t`, which is sound, and all the frames that were added have the root `g`. -/
structure Evolves (g : Nat) (s t : Store) : Prop extends s.Grows t where
  sound : t.Sound
  rooted {i : Nat} : s.frames.size ≤ i → i < t.frames.size → t.Rooted g i

theorem sound_empty : Sound .empty where
  rooted hi := absurd hi (Nat.not_lt_zero _)
  owned h := absurd h.lt_size (Nat.not_lt_zero _)

variable {g : Nat} {s t u : Store}

theorem lt_size_of_mem_bindings {i : Nat} {binding : Text × Value} (h : binding ∈ s.bindings i) :
    i < s.frames.size := by
  refine Nat.lt_of_not_le fun hi => ?_
  rw [bindings, frame?_eq_none hi] at h
  cases h

theorem Sound.lt_of_outer? (hs : s.Sound) {i j : Nat} (h : s.outer? i = some j) : j < i := by
  by_cases hi : i < s.frames.size
  · obtain ⟨g, hg⟩ := hs.rooted hi
    exact (hg.of_outer? h).2
  · rw [outer?, frame?_eq_none (Nat.le_of_not_lt hi)] at h
    cases h

theorem Rooted.of_grows {i : Nat} (hs : s.Sound) (hst : s.Grows t) (hi : i < s.frames.size)
    (h : t.Rooted g i) : s.Rooted g i := by
  obtain ⟨g', hg'⟩ := hs.rooted hi
  rw [h.unique (hg'.mono hst)]
  exact hg'

theorem Evolves.refl (hs : s.Sound) : s.Evolves g s where
  toGrows := .refl s
  sound := hs
  rooted hle hlt := absurd hlt (Nat.not_lt_of_le hle)

theorem Evolves.trans (hst : s.Evolves g t) (htu : t.Evolves g u) : s.Evolves g u where
  toGrows := hst.toGrows.trans htu.toGrows
  sound := htu.sound
  rooted {i} hle hlt := by
    by_cases hi : i < t.frames.size
    · exact (hst.rooted hle hi).mono htu.toGrows
    · exact htu.rooted (Nat.le_of_not_lt hi) hlt

/-- A sound store stays sound if what is new in it has the root `g` and belongs to it. -/
theorem Evolves.of_grows (hs : s.Sound) (hst : s.Grows t)
    (hframes : ∀ i, s.frames.size ≤ i → i < t.frames.size → t.Rooted g i)
    (hbindings : ∀ i, ∀ binding ∈ t.bindings i,
      binding ∈ s.bindings i ∨ t.Rooted g i ∧ binding.2.Owned g t) : s.Evolves g t where
  toGrows := hst
  rooted := hframes _
  sound.rooted {i} hi := by
    by_cases hold : i < s.frames.size
    · obtain ⟨g', hg'⟩ := hs.rooted hold
      exact ⟨g', hg'.mono hst⟩
    · exact ⟨g, hframes i (Nat.le_of_not_lt hold) hi⟩
  sound.owned {g' i} hroot binding hb := by
    cases hbindings i binding hb with
    | inl hold =>
      have hroot' := hroot.of_grows hs hst (lt_size_of_mem_bindings hold)
      exact (hs.owned hroot' binding hold).mono hst
    | inr hnew =>
      rw [hroot.unique hnew.1]
      exact hnew.2

/-! ## Operations -/

theorem evolves_newIdentity (hs : s.Sound) : s.Evolves g s.newIdentity.2 :=
  .of_grows hs ⟨Nat.le_refl _, fun _ => rfl, id⟩ (fun _ hle hlt => absurd hlt (Nat.not_lt_of_le hle))
    fun _ _ hb => .inl hb

theorem evolves_define (hs : s.Sound) {frame : Nat} (hframe : s.Rooted g frame) (name : Text)
    {v : Value} (hv : v.Owned g s) : s.Evolves g (s.define frame name v) := by
  have hgrows := s.grows_define hframe.lt_size name v
  refine .of_grows hs hgrows (fun i hle hlt => ?_) fun i binding hb => ?_
  · rw [size_define] at hlt
    exact absurd hlt (Nat.not_lt_of_le hle)
  · refine (mem_bindings_define hframe.lt_size hb).imp_right fun hnew => ?_
    obtain ⟨rfl, rfl⟩ := hnew
    exact ⟨hframe.mono hgrows, hv.mono hgrows⟩

theorem evolves_defineAll (hs : s.Sound) {frame : Nat} (hframe : s.Rooted g frame)
    {bindings : List (Text × Value)} (h : ∀ binding ∈ bindings, binding.2.Owned g s) :
    s.Evolves g (s.defineAll frame bindings) := by
  induction bindings generalizing s with
  | nil => exact .refl hs
  | cons binding rest ih =>
    obtain ⟨hfirst, hrest⟩ := List.forall_mem_cons.mp h
    have hdefine := evolves_define hs hframe binding.1 hfirst
    exact hdefine.trans (ih hdefine.sound (hframe.mono hdefine.toGrows)
      fun b hb => (hrest b hb).mono hdefine.toGrows)

theorem evolves_newFrame (hs : s.Sound) {outer : Option Nat}
    (hroot : (s.newFrame outer).2.Rooted g s.frames.size) : s.Evolves g (s.newFrame outer).2 := by
  refine .of_grows hs (s.grows_newFrame outer) (fun i hle hlt => ?_) fun i binding hb => ?_
  · rw [size_newFrame] at hlt
    have hi : i = s.frames.size := by omega
    rw [hi]
    exact hroot
  · rw [bindings_newFrame] at hb
    exact .inl hb

theorem rooted_newFrame_none (s : Store) :
    (s.newFrame none).2.Rooted s.frames.size s.frames.size :=
  .outermost (by rw [size_newFrame]; exact Nat.lt_succ_self _) (s.outer?_newFrame_size none)

theorem rooted_newFrame_some {home : Nat} (hhome : s.Rooted g home) :
    (s.newFrame (some home)).2.Rooted g s.frames.size :=
  .inside (by rw [size_newFrame]; exact Nat.lt_succ_self _) (s.outer?_newFrame_size (some home))
    hhome.lt_size (hhome.mono (s.grows_newFrame (some home)))

theorem evolves_extend (hs : s.Sound) {home : Nat} (hhome : s.Rooted g home) (formals : List Text)
    {args : List Value} (hargs : ∀ v ∈ args, v.Owned g s) :
    s.Evolves g (s.extend home formals args).2 := by
  have hnew := evolves_newFrame hs (rooted_newFrame_some hhome)
  refine hnew.trans (evolves_defineAll hnew.sound (rooted_newFrame_some hhome) fun binding hb => ?_)
  exact (hargs _ (List.of_mem_zip hb).2).mono hnew.toGrows

/-- The primitives belong to everyone. -/
theorem evolves_register (hs : s.Sound) {frame : Nat} (hframe : s.Rooted g frame) :
    s.Evolves g (s.register frame) := by
  have hid : s.Evolves g s.newIdentity.2 := evolves_newIdentity hs
  refine hid.trans (evolves_defineAll hid.sound (hframe.mono hid.toGrows) fun binding hb => ?_)
  cases List.mem_append.mp hb with
  | inl hb =>
    obtain ⟨p, _, rfl⟩ := List.mem_map.mp hb
    exact nofun
  | inr hb =>
    simp only [List.mem_cons, List.not_mem_nil, or_false] at hb
    rcases hb with rfl | rfl <;> exact nofun

/-! ## Questions about names -/

theorem mem_of_get? {t : Table Value} {name : Text} {v : Value} (h : t.get? name = some v) :
    (name, v) ∈ t := by
  induction t with
  | nil => cases h
  | cons entry rest ih =>
    obtain ⟨k, w⟩ := entry
    rw [Table.get?_cons] at h
    split at h
    · rename_i hk
      cases h
      rw [hk]
      exact List.mem_cons_self
    · exact List.mem_cons_of_mem _ (ih h)

theorem get?_of_contains {t : Table Value} {name : Text} (h : t.contains name = true) :
    ∃ v, t.get? name = some v := by
  obtain ⟨entry, hentry, hname⟩ := List.any_eq_true.mp h
  have hfound : (t.find? fun entry => entry.1 == name).isSome = true :=
    List.find?_isSome.mpr ⟨entry, hentry, hname⟩
  obtain ⟨found, hfound⟩ := Option.isSome_iff_exists.mp hfound
  exact ⟨found.2, congrArg (Option.map Prod.snd) hfound⟩

theorem Sound.owned_lookup? (hs : s.Sound) {i : Nat} (hi : s.Rooted g i) {name : Text} {v : Value}
    (h : s.lookup? i name = some v) : v.Owned g s := by
  unfold lookup? at h
  split at h
  · rename_i j hj
    have hroot : s.Rooted g j := hi.walk.rooted_of_mem hi (List.mem_of_find?_eq_some hj)
    exact hs.owned hroot _ (mem_of_get? h)
  · cases h

theorem lookup?_of_find? {i j : Nat} {name : Text} (h : s.find? i name = some j) :
    ∃ v, s.lookup? i name = some v ∧ (name, v) ∈ s.bindings j := by
  have hcontains : (s.bindings j).contains name = true :=
    List.find?_some (p := fun j => (s.bindings j).contains name) h
  obtain ⟨v, hv⟩ := get?_of_contains hcontains
  refine ⟨v, ?_, mem_of_get? hv⟩
  rw [lookup?, h]
  exact hv

end Store

/-! ## What can be reached -/

/-- From `v` one can get to `w` by taking lists and closures apart and by looking into the frames that
are seen from where a closure was made. -/
inductive Value.Reaches (s : Store) : (v w : Value) → Prop
  | self (v : Value) : Reaches s v v
  | item {items : List Value} {v w : Value} (hv : v ∈ items) (hw : Reaches s v w) :
      Reaches s (.list items) w
  | body {id : Nat} {formals : List Text} {body w : Value} {frame : Nat} (hw : Reaches s body w) :
      Reaches s (.closure id formals body frame) w
  | binding {id : Nat} {formals : List Text} {body w : Value} {frame i : Nat}
      {binding : Text × Value} (hi : i ∈ s.chain frame) (hb : binding ∈ s.bindings i)
      (hw : Reaches s binding.2 w) : Reaches s (.closure id formals body frame) w

theorem Value.Owned.of_reaches {g : Nat} {s : Store} (hs : s.Sound) {v w : Value} (h : v.Owned g s)
    (hw : v.Reaches s w) : w.Owned g s := by
  induction hw with
  | self => exact h
  | item hv hw ih => exact ih (h.of_mem hv)
  | body hw ih => exact ih (h.of_contains (.body (.self _)))
  | binding hi hb hw ih =>
    have hframe : s.Rooted g _ := h _ _ _ _ (.self _)
    exact ih (hs.owned (hframe.walk.rooted_of_mem hframe hi) _ hb)

end SmallLisp
