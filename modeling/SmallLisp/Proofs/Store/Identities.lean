import SmallLisp.Proofs.Store.Renaming

/-!
Identities that have been given out.

A store is numbered if the procedures that are bound in it have identities that it has given out.  So an
identity that it gives out next is that of no procedure in it.  In a numbered store, what belongs to one
of the outermost frames corresponds to itself (`Store.matches_itself`).
-/

namespace SmallLisp

namespace Value

/-- The identity is itself, and below `n`. -/
def Below (n i j : Nat) : Prop := i = j ∧ i < n

theorem distinct_below (n : Nat) : Distinct (Below n) := by
  rintro i j i' j' ⟨rfl, _⟩ ⟨rfl, _⟩
  exact Iff.rfl

/-- The procedures in the value have identities below `n`. -/
def Numbered (n : Nat) (v : Value) : Prop := Alike Eq (Below n) v v

theorem Below.mono {m n i j : Nat} (hmn : m ≤ n) (h : Below m i j) : Below n i j :=
  ⟨h.1, Nat.lt_of_lt_of_le h.2 hmn⟩

theorem Numbered.mono {m n : Nat} (hmn : m ≤ n) {v : Value} (h : v.Numbered m) : v.Numbered n :=
  Alike.mono id (Below.mono hmn) h

theorem Alike.eq_of_below {n : Nat} {v w : Value} (h : Alike Eq (Below n) v w) : v = w :=
  (h.mono id And.left).eq

theorem AlikeAll.eq_of_below {n : Nat} {vs ws : List Value} (h : AlikeAll Eq (Below n) vs ws) :
    vs = ws :=
  (h.mono id And.left).eq

theorem AlikeAll.numbered_of_mem {n : Nat} {vs ws : List Value} (h : AlikeAll Eq (Below n) vs ws)
    {v : Value} (hv : v ∈ vs) : v.Numbered n := by
  cases h.eq_of_below
  exact h.of_mem hv

end Value

namespace Store

/-- What is bound holds only identities that have been given out. -/
def Numbered (s : Store) : Prop :=
  ∀ i, ∀ binding ∈ s.bindings i, binding.2.Numbered s.identities

theorem mem_bindings_of_define {s : Store} {i j : Nat} {name : Text} {v : Value}
    {binding : Text × Value} (h : binding ∈ (s.define i name v).bindings j) :
    binding ∈ s.bindings j ∨ binding = (name, v) := by
  by_cases hi : i < s.frames.size
  · exact (mem_bindings_define hi h).imp_right And.right
  · left
    have hframe : (s.define i name v).frame? j = s.frame? j := by
      by_cases hj : j = i
      · rw [hj, frame?_define_self, frame?_eq_none (Nat.le_of_not_lt hi)]
        rfl
      · exact frame?_define_of_ne s hj name v
    rw [bindings, hframe] at h
    exact h

theorem identities_defineAll (s : Store) (i : Nat) (bindings : List (Text × Value)) :
    (s.defineAll i bindings).identities = s.identities := by
  induction bindings generalizing s with
  | nil => rfl
  | cons binding rest ih => exact ih (s.define i binding.1 binding.2)

theorem Numbered.define {s : Store} (h : s.Numbered) (i : Nat) (name : Text) {v : Value}
    (hv : v.Numbered s.identities) : (s.define i name v).Numbered := by
  intro j binding hb
  cases mem_bindings_of_define hb with
  | inl hb => exact h j binding hb
  | inr hb =>
    rw [hb]
    exact hv

theorem Numbered.defineAll {s : Store} (h : s.Numbered) (i : Nat) {bindings : List (Text × Value)}
    (hbindings : ∀ binding ∈ bindings, binding.2.Numbered s.identities) :
    (s.defineAll i bindings).Numbered := by
  induction bindings generalizing s with
  | nil => exact h
  | cons binding rest ih =>
    obtain ⟨hfirst, hrest⟩ := List.forall_mem_cons.mp hbindings
    exact ih (h.define i binding.1 hfirst) hrest

theorem Numbered.newFrame {s : Store} (h : s.Numbered) (outer : Option Nat) :
    (s.newFrame outer).2.Numbered := by
  intro i binding hb
  rw [bindings_newFrame] at hb
  exact h i binding hb

theorem Numbered.newIdentity {s : Store} (h : s.Numbered) : s.newIdentity.2.Numbered :=
  fun i binding hb => (h i binding hb).mono (Nat.le_succ _)

/-- The primitives share an identity that has just been given out. -/
theorem Numbered.register {s : Store} (h : s.Numbered) (i : Nat) : (s.register i).Numbered := by
  refine h.newIdentity.defineAll i fun binding hb => ?_
  cases List.mem_append.mp hb with
  | inl hb =>
    obtain ⟨p, _, rfl⟩ := List.mem_map.mp hb
    exact .builtin p ⟨rfl, Nat.lt_succ_self _⟩
  | inr hb =>
    simp only [List.mem_cons, List.not_mem_nil, or_false] at hb
    rcases hb with rfl | rfl <;> exact .bool _

theorem Numbered.lookup? {s : Store} (h : s.Numbered) {i : Nat} {name : Text} {v : Value}
    (hv : s.lookup? i name = some v) : v.Numbered s.identities := by
  unfold Store.lookup? at hv
  split at hv
  · exact h _ _ (mem_of_get? hv)
  · cases hv

end Store

/-! ## What belongs to one frame -/

namespace Value

variable {g : Nat} {s : Store} {I : Nat → Nat → Prop}

mutual

/-- Of a value that belongs to `g`, only frames with the root `g` need to correspond to themselves. -/
theorem Alike.restrict {v w : Value} (h : Alike Eq I v w) (hv : v.Owned g s) :
    Alike (fun i j => i = j ∧ s.Rooted g i) I v w := by
  cases h with
  | number x => exact .number x
  | bool b => exact .bool b
  | symbol name => exact .symbol name
  | list items => exact .list (items.restrict fun v hmem => hv.of_mem hmem)
  | closure formals id body frame =>
    have hbody := body.restrict (hv.of_contains (.body (.self _)))
    exact .closure formals id hbody ⟨frame, hv _ _ _ _ (.self _)⟩
  | builtin op id => exact .builtin op id
  | unspecified => exact .unspecified

theorem AlikeAll.restrict {vs ws : List Value} (h : AlikeAll Eq I vs ws)
    (hvs : ∀ v ∈ vs, v.Owned g s) : AlikeAll (fun i j => i = j ∧ s.Rooted g i) I vs ws := by
  cases h with
  | nil => exact .nil
  | cons head tail =>
    obtain ⟨hv, hvs⟩ := List.forall_mem_cons.mp hvs
    exact .cons (head.restrict hv) (tail.restrict hvs)

end

end Value

/-- What belongs to `g` corresponds to itself. -/
def Renaming.own (s : Store) (g : Nat) : Renaming where
  frames i j := i = j ∧ s.Rooted g i
  identities := Value.Below s.identities

theorem Store.matches_itself {s : Store} (hs : s.Sound) (hn : s.Numbered) (g : Nat) :
    s.Matches (· = g) (.own s g) s where
  rooted {i j} hij := by
    obtain ⟨rfl, hi⟩ := hij
    exact ⟨g, rfl, hi, hi⟩
  distinct_frames := by
    rintro i j i' j' ⟨rfl, _⟩ ⟨rfl, _⟩
    exact Iff.rfl
  outer? {i j} hij := by
    obtain ⟨rfl, hi⟩ := hij
    cases houter : s.outer? i with
    | none => exact .none
    | some j => exact .some ⟨rfl, (hi.of_outer? houter).1⟩
  bindings {i j} hij := by
    obtain ⟨rfl, hi⟩ := hij
    exact .self fun binding hb => (hn i binding hb).restrict (hs.owned hi binding hb)
  identities_lt {i j} hij := by
    obtain ⟨rfl, hi⟩ := hij
    exact ⟨hi, hi⟩
  distinct_identities := Value.distinct_below _

end SmallLisp
