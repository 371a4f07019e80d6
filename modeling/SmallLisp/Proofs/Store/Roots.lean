import SmallLisp.Proofs.Store.Frames

/-!
The frames around a frame, up to the outermost one.

`Rooted s g i` says that the way outwards from frame `i` ends in frame `g`, and that it leads from each
frame to one made before it.  So it takes no more steps than there are frames, which is as many as
`chain` allows (`Rooted.walk`).  As a store grows, its frames keep the frames around them
(`Store.Grows`), and with them their roots.
-/

namespace SmallLisp

/-- A table in which a key has been written holds what it held and the new entry. -/
theorem Table.mem_insert {α : Type} {key : Text} {value : α} {entry : Text × α} {t : Table α}
    (h : entry ∈ t.insert key value) : entry ∈ t ∨ entry = (key, value) := by
  induction t with
  | nil => exact .inr (List.mem_singleton.mp h)
  | cons first rest ih =>
    obtain ⟨k, v⟩ := first
    by_cases hk : k = key
    · subst hk
      simp only [insert, beq_self_eq_true, if_true, List.mem_cons] at h ⊢
      exact h.elim .inr fun h => .inl (.inr h)
    · simp only [insert, beq_iff_eq, hk, if_false, List.mem_cons] at h ⊢
      cases h with
      | inl h => exact .inl (.inl h)
      | inr h => exact (ih h).imp_left .inr

namespace Store

/-! ## Growing -/

/-- Frames may be added, and names bound; nothing is taken back. -/
structure Grows (s t : Store) : Prop where
  size_le : s.frames.size ≤ t.frames.size
  outer?_eq {i : Nat} : i < s.frames.size → t.outer? i = s.outer? i
  bound {i : Nat} {name : Text} : name ∈ (s.bindings i).keys → name ∈ (t.bindings i).keys

theorem Grows.refl (s : Store) : s.Grows s := ⟨Nat.le_refl _, fun _ => rfl, id⟩

theorem Grows.trans {s t u : Store} (hst : s.Grows t) (htu : t.Grows u) : s.Grows u where
  size_le := Nat.le_trans hst.size_le htu.size_le
  outer?_eq hi := (htu.outer?_eq (Nat.lt_of_lt_of_le hi hst.size_le)).trans (hst.outer?_eq hi)
  bound h := htu.bound (hst.bound h)

theorem frame?_eq_none {s : Store} {i : Nat} (hi : s.frames.size ≤ i) : s.frame? i = none :=
  Array.getElem?_eq_none hi

theorem frame?_define_self (s : Store) (i : Nat) (name : Text) (v : Value) :
    (s.define i name v).frame? i =
      (s.frame? i).map fun f => { f with bindings := f.bindings.insert name v } := by
  simp [define, frame?, Array.getElem?_modify]

theorem outer?_define (s : Store) (i : Nat) (name : Text) (v : Value) (j : Nat) :
    (s.define i name v).outer? j = s.outer? j := by
  unfold outer?
  by_cases h : j = i
  · rw [h, frame?_define_self]
    cases s.frame? i <;> rfl
  · rw [frame?_define_of_ne s h]

theorem bindings_define_of_ne (s : Store) {i j : Nat} (h : j ≠ i) (name : Text) (v : Value) :
    (s.define i name v).bindings j = s.bindings j := by
  unfold bindings
  rw [frame?_define_of_ne s h]

theorem bindings_define_self (s : Store) {i : Nat} (hi : i < s.frames.size) (name : Text)
    (v : Value) : (s.define i name v).bindings i = (s.bindings i).insert name v := by
  have hframe : s.frame? i = some s.frames[i] := Array.getElem?_eq_getElem hi
  unfold bindings
  rw [frame?_define_self, hframe]
  rfl

theorem mem_bindings_define {s : Store} {i j : Nat} (hi : i < s.frames.size) {name : Text}
    {v : Value} {binding : Text × Value} (h : binding ∈ (s.define i name v).bindings j) :
    binding ∈ s.bindings j ∨ j = i ∧ binding = (name, v) := by
  by_cases hj : j = i
  · subst hj
    rw [bindings_define_self s hi] at h
    exact (Table.mem_insert h).imp_right fun h => ⟨rfl, h⟩
  · rw [bindings_define_of_ne s hj] at h
    exact .inl h

theorem grows_define (s : Store) {i : Nat} (hi : i < s.frames.size) (name : Text) (v : Value) :
    s.Grows (s.define i name v) where
  size_le := Nat.le_of_eq (size_define s i name v).symm
  outer?_eq _ := outer?_define s i name v _
  bound {j x} hx := by
    by_cases hj : j = i
    · subst hj
      rw [bindings_define_self s hi, Table.keys_insert]
      split
      · exact hx
      · exact List.mem_append_left _ hx
    · rw [bindings_define_of_ne s hj]
      exact hx

theorem bindings_defineAll_self {s : Store} {i : Nat} (hi : i < s.frames.size)
    (entries : List (Text × Value)) :
    (s.defineAll i entries).bindings i =
      entries.foldl (fun t entry => t.insert entry.1 entry.2) (s.bindings i) := by
  induction entries generalizing s with
  | nil => rfl
  | cons entry rest ih =>
    rw [List.foldl_cons, ← bindings_define_self s hi]
    exact ih (by rwa [size_define])

theorem bindings_defineAll_of_ne (s : Store) {i j : Nat} (h : j ≠ i)
    (entries : List (Text × Value)) : (s.defineAll i entries).bindings j = s.bindings j := by
  unfold bindings
  rw [frame?_defineAll_of_ne s h]

theorem grows_defineAll {s : Store} {i : Nat} (hi : i < s.frames.size)
    (entries : List (Text × Value)) : s.Grows (s.defineAll i entries) := by
  induction entries generalizing s with
  | nil => exact .refl s
  | cons entry rest ih =>
    exact (s.grows_define hi entry.1 entry.2).trans (ih (by rwa [size_define]))

section NewFrame

variable (s : Store) (outer : Option Nat)

theorem size_newFrame : (s.newFrame outer).2.frames.size = s.frames.size + 1 :=
  Array.size_push _

theorem outer?_newFrame_of_lt {i : Nat} (hi : i < s.frames.size) :
    (s.newFrame outer).2.outer? i = s.outer? i := by
  simp [outer?, frame?, newFrame, Array.getElem?_push, Nat.ne_of_lt hi]

theorem outer?_newFrame_size : (s.newFrame outer).2.outer? s.frames.size = outer := by
  simp [outer?, frame?, newFrame]

theorem bindings_newFrame (i : Nat) : (s.newFrame outer).2.bindings i = s.bindings i := by
  by_cases hi : i = s.frames.size
  · subst hi
    simp [bindings, frame?, newFrame]
  · simp [bindings, frame?, newFrame, Array.getElem?_push, hi]

theorem grows_newFrame : s.Grows (s.newFrame outer).2 where
  size_le := by
    rw [size_newFrame]
    exact Nat.le_succ _
  outer?_eq hi := outer?_newFrame_of_lt s outer hi
  bound hx := by
    rw [bindings_newFrame]
    exact hx

end NewFrame

/-! ## Roots -/

/-- The way outwards from frame `i` ends in frame `g`. -/
inductive Rooted (s : Store) (g : Nat) : Nat → Prop
  | outermost (hg : g < s.frames.size) (outer : s.outer? g = none) : Rooted s g g
  | inside {i j : Nat} (hi : i < s.frames.size) (outer : s.outer? i = some j) (earlier : j < i)
      (rooted : Rooted s g j) : Rooted s g i

/-- Going outwards from frame `i` until there is no frame around leads through these frames, and all
of them exist. -/
inductive Walk (s : Store) : Nat → List Nat → Prop
  | stop {i : Nat} (hi : i < s.frames.size) (outer : s.outer? i = none) : Walk s i [i]
  | step {i j : Nat} {rest : List Nat} (hi : i < s.frames.size) (outer : s.outer? i = some j)
      (further : Walk s j rest) : Walk s i (i :: rest)

namespace Rooted

variable {s t : Store} {g i : Nat}

theorem lt_size (h : s.Rooted g i) : i < s.frames.size := by
  cases h with
  | outermost hg outer => exact hg
  | inside hi outer earlier rooted => exact hi

theorem outer?_root (h : s.Rooted g i) : s.outer? g = none := by
  induction h with
  | outermost hg outer => exact outer
  | inside hi outer earlier rooted ih => exact ih

theorem of_outer? {j : Nat} (h : s.Rooted g i) (houter : s.outer? i = some j) :
    s.Rooted g j ∧ j < i := by
  cases h with
  | outermost hg outer =>
    rw [outer] at houter
    cases houter
  | inside hi outer earlier rooted =>
    rw [outer] at houter
    cases houter
    exact ⟨rooted, earlier⟩

theorem mono (hst : s.Grows t) (h : s.Rooted g i) : t.Rooted g i := by
  induction h with
  | outermost hg outer =>
    exact .outermost (Nat.lt_of_lt_of_le hg hst.size_le) ((hst.outer?_eq hg).trans outer)
  | inside hi outer earlier rooted ih =>
    exact .inside (Nat.lt_of_lt_of_le hi hst.size_le) ((hst.outer?_eq hi).trans outer) earlier ih

/-- The bound on the length of a chain is never in its way. -/
theorem walk (h : s.Rooted g i) : s.Walk i (s.chain i) := by
  have hwalk {fuel : Nat} (hfuel : i < fuel) : s.Walk i (s.chainFrom fuel i) := by
    induction h generalizing fuel with
    | outermost hg outer =>
      obtain ⟨fuel, rfl⟩ := Nat.exists_eq_succ_of_ne_zero (Nat.ne_zero_of_lt hfuel)
      rw [chainFrom, outer]
      exact .stop hg outer
    | inside hi outer earlier rooted ih =>
      obtain ⟨fuel, rfl⟩ := Nat.exists_eq_succ_of_ne_zero (Nat.ne_zero_of_lt hfuel)
      rw [chainFrom, outer]
      exact .step hi outer (ih (by omega))
  exact hwalk h.lt_size

end Rooted

namespace Walk

variable {s : Store} {g i : Nat} {js : List Nat}

theorem rooted_of_mem {j : Nat} (hwalk : s.Walk i js) (h : s.Rooted g i) (hj : j ∈ js) :
    s.Rooted g j := by
  induction hwalk with
  | stop hi outer =>
    rw [List.mem_singleton.mp hj]
    exact h
  | step hi outer further ih =>
    cases List.mem_cons.mp hj with
    | inl hj =>
      rw [hj]
      exact h
    | inr hj => exact ih (h.of_outer? outer).1 hj

theorem getLast?_eq (hwalk : s.Walk i js) (h : s.Rooted g i) : js.getLast? = some g := by
  induction hwalk with
  | stop hi outer =>
    cases h with
    | outermost hg houter => rfl
    | inside hi' houter earlier rooted =>
      rw [outer] at houter
      cases houter
  | step hi outer further ih =>
    rw [List.getLast?_cons, ih (h.of_outer? outer).1]
    rfl

/-- There is one way outwards. -/
theorem unique {ks : List Nat} (h : s.Walk i js) (h' : s.Walk i ks) : js = ks := by
  induction h generalizing ks with
  | stop hi outer =>
    cases h' with
    | stop => rfl
    | step _ outer' _ =>
      rw [outer] at outer'
      cases outer'
  | step hi outer further ih =>
    cases h' with
    | stop _ outer' =>
      rw [outer] at outer'
      cases outer'
    | step _ outer' further' =>
      rw [outer] at outer'
      cases outer'
      rw [ih further']

end Walk

namespace Rooted

variable {s : Store} {g i : Nat}

theorem chain_of_none (h : s.Rooted g i) (houter : s.outer? i = none) : s.chain i = [i] :=
  h.walk.unique (.stop h.lt_size houter)

theorem chain_of_outer? {j : Nat} (h : s.Rooted g i) (houter : s.outer? i = some j) :
    s.chain i = i :: s.chain j :=
  h.walk.unique (.step h.lt_size houter (h.of_outer? houter).1.walk)

/-- From a frame with no other around it only that frame is seen. -/
theorem outer?_isSome (h : s.Rooted g i) : (s.outer? i).isSome = true ↔ s.chain i ≠ [i] := by
  cases houter : s.outer? i with
  | none => simp [h.chain_of_none houter]
  | some j =>
    have hne : s.chain j ≠ [] := by
      intro hnil
      have hwalk := (h.of_outer? houter).1.walk
      rw [hnil] at hwalk
      cases hwalk
    simp [h.chain_of_outer? houter, hne]

theorem chain_eq {t : Store} (hst : s.Grows t) (h : s.Rooted g i) : t.chain i = s.chain i := by
  induction h with
  | outermost hg outer =>
    have hroot : s.Rooted g g := .outermost hg outer
    rw [hroot.chain_of_none outer]
    exact (hroot.mono hst).chain_of_none ((hst.outer?_eq hg).trans outer)
  | inside hi outer earlier rooted ih =>
    have hroot : s.Rooted g _ := .inside hi outer earlier rooted
    rw [hroot.chain_of_outer? outer, ← ih]
    exact (hroot.mono hst).chain_of_outer? ((hst.outer?_eq hi).trans outer)

theorem root_eq (h : s.Rooted g i) : s.root i = g := by
  rw [Store.root, h.walk.getLast?_eq h]
  rfl

/-- A frame has one root. -/
theorem unique {g' : Nat} (h : s.Rooted g i) (h' : s.Rooted g' i) : g = g' :=
  h.root_eq.symm.trans h'.root_eq

end Rooted

/-! ## Names in a frame -/

/-- What a frame binds is what is seen from it. -/
theorem lookup?_of_get? {s : Store} {i : Nat} (hi : i < s.frames.size) {name : Text} {v : Value}
    (h : (s.bindings i).get? name = some v) : s.lookup? i name = some v := by
  have hcontains : (s.bindings i).contains name = true := by
    rw [Table.contains_iff_mem_keys, Table.mem_keys_iff_isSome_get?, h]
    rfl
  obtain ⟨fuel, hfuel⟩ := Nat.exists_eq_succ_of_ne_zero (Nat.ne_zero_of_lt hi)
  have hfind : s.find? i name = some i := by
    rw [find?, chain, hfuel, chainFrom]
    exact List.find?_cons_of_pos hcontains
  rw [lookup?, hfind]
  exact h

/-- The name of a primitive leads to it where the primitives have been registered. -/
theorem lookup?_register (op : Primitive) {s : Store} {i : Nat} (hi : i < s.frames.size) :
    (s.register i).lookup? i op.name = some (.builtin op s.identities) := by
  let constants : Table Value := [("true", .bool true), ("false", .bool false)]
  let entries : Table Value :=
    (Primitive.all.map fun p => (p.name, Value.builtin p s.identities)) ++ constants
  have hregister : s.register i = s.newIdentity.2.defineAll i entries := rfl
  have hfilter : entries.filter (fun entry => entry.1 == op.name) =
      [(op.name, .builtin op s.identities)] := by
    cases op <;> rfl
  have hi' : i < s.newIdentity.2.frames.size := hi
  rw [hregister]
  refine lookup?_of_get? (by rwa [size_defineAll]) ?_
  rw [bindings_defineAll_self hi', Table.get?_foldl_insert, hfilter]
  rfl

end Store
end SmallLisp
