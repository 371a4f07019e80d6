import Mathlib.Order.Basic
import SmallLisp.Proofs.Store.Ownership
import SmallLisp.Proofs.Value.Alike

/-!
Stores that differ in the numbers of their frames and in the identities of their procedures.

A `Renaming` says which frames and identities of two stores correspond.  It need not be about all of
them: `Store.Matches` asks that frames that correspond hold alike values under the same names, and that
the frames around them correspond, too.  A name then has alike values seen from frames that correspond
(`Matches.lookup?`), and what is done on both sides at corresponding places leads to stores that match
again, in a renaming that may know of a new frame or identity.
-/

namespace SmallLisp

/-! ## Tables -/

/-- The same names in the same order, with values that `R` relates. -/
inductive Table.Alike (R : Value → Value → Prop) : Table Value → Table Value → Prop
  | nil : Alike R [] []
  | cons {v w : Value} {t u : Table Value} (name : Text) (value : R v w) (rest : Alike R t u) :
      Alike R ((name, v) :: t) ((name, w) :: u)

namespace Table.Alike

variable {R R' : Value → Value → Prop} {t u : Table Value}

theorem mono (hR : ∀ {v w}, R v w → R' v w) (h : Alike R t u) : Alike R' t u := by
  induction h with
  | nil => exact .nil
  | cons name value rest ih => exact .cons name (hR value) ih

theorem self (h : ∀ binding ∈ t, R binding.2 binding.2) : Alike R t t := by
  induction t with
  | nil => exact .nil
  | cons binding rest ih =>
    obtain ⟨hfirst, hrest⟩ := List.forall_mem_cons.mp h
    exact .cons binding.1 hfirst (ih hrest)

theorem insert {v w : Value} (h : Alike R t u) (name : Text) (hv : R v w) :
    Alike R (t.insert name v) (u.insert name w) := by
  induction h with
  | nil => exact .cons name hv .nil
  | cons key value rest ih =>
    by_cases hkey : key = name
    · simp only [Table.insert, hkey, beq_self_eq_true, if_true]
      exact .cons name hv rest
    · simp only [Table.insert, beq_iff_eq, hkey, if_false]
      exact .cons key value ih

/-- What is made of a name and a value is the same if it is the same for values that are related. -/
theorem map_eq {α : Type} {f : Text × Value → α}
    (hf : ∀ {v w : Value} (name : Text), R v w → f (name, v) = f (name, w)) (h : Alike R t u) :
    t.map f = u.map f := by
  induction h with
  | nil => rfl
  | cons name value rest ih => rw [List.map_cons, List.map_cons, hf name value, ih]

theorem get? (h : Alike R t u) (name : Text) : Option.Rel R (t.get? name) (u.get? name) := by
  induction h with
  | nil => exact .none
  | cons key value rest ih =>
    rw [get?_cons, get?_cons]
    by_cases hkey : key = name
    · rw [if_pos hkey, if_pos hkey]
      exact .some value
    · rw [if_neg hkey, if_neg hkey]
      exact ih

end Table.Alike

/-! ## Renamings -/

/-- Which frames and identities of two stores correspond. -/
structure Renaming where
  frames : Nat → Nat → Prop
  identities : Nat → Nat → Prop

namespace Renaming

instance : Preorder Renaming where
  le ρ σ := (∀ i j, ρ.frames i j → σ.frames i j) ∧ ∀ i j, ρ.identities i j → σ.identities i j
  le_refl _ := ⟨fun _ _ h => h, fun _ _ h => h⟩
  le_trans _ _ _ h h' := ⟨fun i j hij => h'.1 i j (h.1 i j hij), fun i j hij => h'.2 i j (h.2 i j hij)⟩

def values (ρ : Renaming) : Value → Value → Prop := Value.Alike ρ.frames ρ.identities

def addFrame (ρ : Renaming) (i j : Nat) : Renaming :=
  { ρ with frames := fun i' j' => ρ.frames i' j' ∨ i' = i ∧ j' = j }

def addIdentity (ρ : Renaming) (i j : Nat) : Renaming :=
  { ρ with identities := fun i' j' => ρ.identities i' j' ∨ i' = i ∧ j' = j }

theorem le_addFrame (ρ : Renaming) (i j : Nat) : ρ ≤ ρ.addFrame i j :=
  ⟨fun _ _ h => .inl h, fun _ _ h => h⟩

theorem le_addIdentity (ρ : Renaming) (i j : Nat) : ρ ≤ ρ.addIdentity i j :=
  ⟨fun _ _ h => h, fun _ _ h => .inl h⟩

theorem values_mono {ρ σ : Renaming} (h : ρ ≤ σ) {v w : Value} (hv : ρ.values v w) : σ.values v w :=
  Value.Alike.mono (h.1 _ _) (h.2 _ _) hv

/-- Pairs stay distinct if a pair of numbers is added that are both new. -/
theorem distinct_add {R : Nat → Nat → Prop} (hR : Value.Distinct R) {m n : Nat}
    (hlt : ∀ {i j}, R i j → i < m ∧ j < n) :
    Value.Distinct fun i j => R i j ∨ i = m ∧ j = n := by
  intro i j i' j' h h'
  rcases h with h | ⟨rfl, rfl⟩ <;> rcases h' with h' | ⟨rfl, rfl⟩
  · exact hR h h'
  · have := hlt h
    omega
  · have := hlt h'
    omega
  · exact ⟨fun _ => rfl, fun _ => rfl⟩

end Renaming

theorem rel_or {R : Value → Value → Prop} {a b a' b' : Option Value} (h : Option.Rel R a b)
    (h' : Option.Rel R a' b') : Option.Rel R (a.or a') (b.or b') := by
  cases h with
  | none => exact h'
  | some h => exact .some h

theorem rel_mono {R R' : Nat → Nat → Prop} (hR : ∀ i j, R i j → R' i j) {a b : Option Nat}
    (h : Option.Rel R a b) : Option.Rel R' a b := by
  cases h with
  | none => exact .none
  | some h => exact .some (hR _ _ h)

theorem rel_isSome {R : Nat → Nat → Prop} {a b : Option Nat} (h : Option.Rel R a b) :
    a.isSome = b.isSome := by
  cases h with
  | none => rfl
  | some h => rfl

namespace Store

/-! ## Looking outwards -/

theorem Rooted.lookup?_eq {s : Store} {g i : Nat} (h : s.Rooted g i) (name : Text) :
    s.lookup? i name =
      ((s.bindings i).get? name).or ((s.outer? i).bind fun j => s.lookup? j name) := by
  have hfind : s.find? i name =
      if (s.bindings i).contains name then some i
      else (s.outer? i).bind fun j => s.find? j name := by
    unfold find?
    cases houter : s.outer? i with
    | none =>
      rw [h.chain_of_none houter, List.find?_cons]
      cases (s.bindings i).contains name <;> rfl
    | some j =>
      rw [h.chain_of_outer? houter, List.find?_cons]
      cases (s.bindings i).contains name <;> rfl
  by_cases hname : (s.bindings i).contains name = true
  · obtain ⟨v, hv⟩ := get?_of_contains hname
    rw [lookup?, hfind, if_pos hname, hv]
    exact hv
  · have hnone : (s.bindings i).get? name = none := by
      refine Option.eq_none_iff_forall_ne_some.mpr fun v hv => hname ?_
      exact List.any_eq_true.mpr ⟨(name, v), mem_of_get? hv, beq_self_eq_true name⟩
    rw [lookup?, hfind, if_neg hname, hnone, Option.none_or]
    cases s.outer? i <;> rfl

theorem bindings_size (s : Store) : s.bindings s.frames.size = [] := by
  rw [bindings, frame?_eq_none (Nat.le_refl _)]

/-! ## Matching stores -/

/-- Frames that correspond are seen from each other's places: they have the same one of the outermost
frames `roots` as their root, hold alike values under the same names, and the frames around them
correspond. -/
structure Matches (roots : Nat → Prop) (ρ : Renaming) (s t : Store) : Prop where
  rooted {i j : Nat} : ρ.frames i j → ∃ g, roots g ∧ s.Rooted g i ∧ t.Rooted g j
  distinct_frames : Value.Distinct ρ.frames
  outer? {i j : Nat} : ρ.frames i j → Option.Rel ρ.frames (s.outer? i) (t.outer? j)
  bindings {i j : Nat} : ρ.frames i j → Table.Alike ρ.values (s.bindings i) (t.bindings j)
  identities_lt {i j : Nat} : ρ.identities i j → i < s.identities ∧ j < t.identities
  distinct_identities : Value.Distinct ρ.identities

namespace Matches

variable {roots : Nat → Prop} {ρ : Renaming} {s t : Store} {i j : Nat}

theorem lt_size (h : s.Matches roots ρ t) (hij : ρ.frames i j) :
    i < s.frames.size ∧ j < t.frames.size := by
  obtain ⟨g, _, hi, hj⟩ := h.rooted hij
  exact ⟨hi.lt_size, hj.lt_size⟩

theorem lookup? (h : s.Matches roots ρ t) (hij : ρ.frames i j) (name : Text) :
    Option.Rel ρ.values (s.lookup? i name) (t.lookup? j name) := by
  obtain ⟨g, _, hi, hj⟩ := h.rooted hij
  -- Outwards from the frames, as long as they do not bind the name.
  induction hi generalizing j with
  | outermost hsize houter =>
    have hi : s.Rooted g g := .outermost hsize houter
    rw [hi.lookup?_eq, hj.lookup?_eq]
    refine rel_or ((h.bindings hij).get? name) ?_
    have hframes := h.outer? hij
    rw [houter] at hframes ⊢
    cases houter' : t.outer? j with
    | none => exact .none
    | some j' =>
      rw [houter'] at hframes
      cases hframes
  | inside hsize houter hearlier hroot ih =>
    rw [(Rooted.inside hsize houter hearlier hroot).lookup?_eq, hj.lookup?_eq]
    refine rel_or ((h.bindings hij).get? name) ?_
    have hframes := h.outer? hij
    rw [houter] at hframes ⊢
    cases houter' : t.outer? j with
    | none =>
      rw [houter'] at hframes
      cases hframes
    | some j' =>
      rw [houter'] at hframes
      cases hframes with
      | some hij' => exact ih hij' (hj.of_outer? houter').1

theorem define (h : s.Matches roots ρ t) (hij : ρ.frames i j) (name : Text) {v w : Value}
    (hv : ρ.values v w) : (s.define i name v).Matches roots ρ (t.define j name w) where
  rooted {i' j'} hij' := by
    obtain ⟨hi, hj⟩ := h.lt_size hij
    obtain ⟨g, hg, hi', hj'⟩ := h.rooted hij'
    exact ⟨g, hg, hi'.mono (s.grows_define hi name v), hj'.mono (t.grows_define hj name w)⟩
  distinct_frames := h.distinct_frames
  outer? {i' j'} hij' := by
    rw [outer?_define, outer?_define]
    exact h.outer? hij'
  bindings {i' j'} hij' := by
    obtain ⟨hi, hj⟩ := h.lt_size hij
    by_cases heq : i' = i
    · have heq' : j' = j := (h.distinct_frames hij' hij).mp heq
      subst heq heq'
      rw [bindings_define_self s hi, bindings_define_self t hj]
      exact (h.bindings hij').insert name hv
    · have hne' : j' ≠ j := fun heq' => heq ((h.distinct_frames hij' hij).mpr heq')
      rw [bindings_define_of_ne s heq, bindings_define_of_ne t hne']
      exact h.bindings hij'
  identities_lt := h.identities_lt
  distinct_identities := h.distinct_identities

theorem defineAll (h : s.Matches roots ρ t) (hij : ρ.frames i j) (names : List Text)
    {vs ws : List Value} (hvs : Value.AlikeAll ρ.frames ρ.identities vs ws) :
    (s.defineAll i (names.zip vs)).Matches roots ρ (t.defineAll j (names.zip ws)) := by
  induction names generalizing s t vs ws with
  | nil => exact h
  | cons name names ih =>
    cases hvs with
    | nil => exact h
    | cons head tail => exact ih (h.define hij name head) tail

theorem newIdentity (h : s.Matches roots ρ t) :
    s.newIdentity.2.Matches roots (ρ.addIdentity s.identities t.identities) t.newIdentity.2 where
  rooted hij := by
    obtain ⟨g, hg, hi, hj⟩ := h.rooted hij
    have hs : s.Grows s.newIdentity.2 := ⟨Nat.le_refl _, fun _ => rfl, id⟩
    have ht : t.Grows t.newIdentity.2 := ⟨Nat.le_refl _, fun _ => rfl, id⟩
    exact ⟨g, hg, hi.mono hs, hj.mono ht⟩
  distinct_frames := h.distinct_frames
  outer? hij := h.outer? hij
  bindings hij := (h.bindings hij).mono (Renaming.values_mono (ρ.le_addIdentity _ _))
  identities_lt {i j} hij := by
    show i < s.identities + 1 ∧ j < t.identities + 1
    rcases hij with hij | ⟨rfl, rfl⟩
    · have := h.identities_lt hij
      omega
    · omega
  distinct_identities := Renaming.distinct_add h.distinct_identities h.identities_lt

/-- New frames inside frames that correspond. -/
theorem newFrame (h : s.Matches roots ρ t) (hij : ρ.frames i j) :
    (s.newFrame (some i)).2.Matches roots (ρ.addFrame s.frames.size t.frames.size)
      (t.newFrame (some j)).2 where
  rooted {i' j'} hij' := by
    rcases hij' with hij' | ⟨rfl, rfl⟩
    · obtain ⟨g, hg, hi', hj'⟩ := h.rooted hij'
      exact ⟨g, hg, hi'.mono (s.grows_newFrame _), hj'.mono (t.grows_newFrame _)⟩
    · obtain ⟨g, hg, hi, hj⟩ := h.rooted hij
      exact ⟨g, hg, rooted_newFrame_some hi, rooted_newFrame_some hj⟩
  distinct_frames := Renaming.distinct_add h.distinct_frames h.lt_size
  outer? {i' j'} hij' := by
    rcases hij' with hij' | ⟨rfl, rfl⟩
    · obtain ⟨hi', hj'⟩ := h.lt_size hij'
      rw [s.outer?_newFrame_of_lt _ hi', t.outer?_newFrame_of_lt _ hj']
      exact rel_mono (fun _ _ => .inl) (h.outer? hij')
    · rw [s.outer?_newFrame_size, t.outer?_newFrame_size]
      exact .some (.inl hij)
  bindings {i' j'} hij' := by
    rw [bindings_newFrame, bindings_newFrame]
    rcases hij' with hij' | ⟨rfl, rfl⟩
    · exact (h.bindings hij').mono (Renaming.values_mono (ρ.le_addFrame _ _))
    · rw [bindings_size, bindings_size]
      exact .nil
  identities_lt := h.identities_lt
  distinct_identities := h.distinct_identities

theorem extend (h : s.Matches roots ρ t) (hij : ρ.frames i j) (formals : List Text)
    {as bs : List Value} (hargs : Value.AlikeAll ρ.frames ρ.identities as bs) :
    (s.extend i formals as).2.Matches roots (ρ.addFrame s.frames.size t.frames.size)
      (t.extend j formals bs).2 := by
  have hle := ρ.le_addFrame s.frames.size t.frames.size
  exact (h.newFrame hij).defineAll (.inr ⟨rfl, rfl⟩) formals (hargs.mono (hle.1 _ _) (hle.2 _ _))

/-- What happens on one side in frames that correspond to none. -/
theorem of_left (h : s.Matches roots ρ t) {s' : Store} (hgrows : s.Grows s')
    (hframe : ∀ g i, roots g → s.Rooted g i → s'.frame? i = s.frame? i)
    (hidentities : s.identities ≤ s'.identities) : s'.Matches roots ρ t where
  rooted hij := by
    obtain ⟨g, hg, hi, hj⟩ := h.rooted hij
    exact ⟨g, hg, hi.mono hgrows, hj⟩
  distinct_frames := h.distinct_frames
  outer? hij := by
    obtain ⟨g, hg, hi, _⟩ := h.rooted hij
    rw [hgrows.outer?_eq hi.lt_size]
    exact h.outer? hij
  bindings hij := by
    obtain ⟨g, hg, hi, _⟩ := h.rooted hij
    rw [Store.bindings, hframe g _ hg hi]
    exact h.bindings hij
  identities_lt hij := by
    have := h.identities_lt hij
    omega
  distinct_identities := h.distinct_identities

end Matches
end Store
end SmallLisp
