import SmallLisp.Proofs.Eval.FrameEffect
import SmallLisp.Proofs.Store.Identities

/-!
Closed stores.

A store knows a value if the frames and identities in it are among its own, and it is closed if every
frame has a root and it knows all that is bound.  So nothing that is made of its values can notice frames
that are added to it, and a closed store corresponds to itself in any later one that has left its frames
as they were (`Closed.matches_later`).
-/

namespace SmallLisp

namespace Value

/-- The frames and identities in the value are among those of the store. -/
def Known (s : Store) (v : Value) : Prop :=
  Alike (Below s.frames.size) (Below s.identities) v v

def KnownAll (s : Store) (vs : List Value) : Prop :=
  AlikeAll (Below s.frames.size) (Below s.identities) vs vs

theorem Below.eq {n i j : Nat} (h : Below n i j) : i = j := h.1

theorem Alike.eq_of_known {m n : Nat} {v w : Value} (h : Alike (Below m) (Below n) v w) : v = w :=
  (h.mono Below.eq Below.eq).eq

theorem AlikeAll.eq_of_known {m n : Nat} {vs ws : List Value}
    (h : AlikeAll (Below m) (Below n) vs ws) : vs = ws :=
  (h.mono Below.eq Below.eq).eq

/-- What a value is made of stays known as frames and identities are added. -/
theorem Known.mono {s t : Store} (hframes : s.frames.size ≤ t.frames.size)
    (hidentities : s.identities ≤ t.identities) {v : Value} (h : v.Known s) : v.Known t :=
  Alike.mono (Below.mono hframes) (Below.mono hidentities) h

end Value

/-- All frames and identities of the store correspond to themselves. -/
def Renaming.all (s : Store) : Renaming where
  frames := Value.Below s.frames.size
  identities := Value.Below s.identities

namespace Store

/-- Every frame has a root, and what is bound is known. -/
structure Closed (s : Store) : Prop where
  rooted {i : Nat} : i < s.frames.size → ∃ g, s.Rooted g i
  known (i : Nat) : ∀ binding ∈ s.bindings i, binding.2.Known s

variable {s t : Store}

/-- What belongs to a root was made in frames that are there. -/
theorem Sound.closed (hs : s.Sound) (hn : s.Numbered) : s.Closed where
  rooted := hs.rooted
  known i binding hb := by
    obtain ⟨g, hg⟩ := hs.rooted (lt_size_of_mem_bindings hb)
    have hvalue := (hn i binding hb).restrict (hs.owned hg binding hb)
    exact hvalue.mono (fun hij => ⟨hij.1, hij.2.lt_size⟩) id

namespace Closed

theorem lookup? (hs : s.Closed) {i : Nat} {name : Text} {v : Value}
    (hv : s.lookup? i name = some v) : v.Known s := by
  unfold Store.lookup? at hv
  split at hv
  · exact hs.known _ _ (mem_of_get? hv)
  · cases hv

theorem define (hs : s.Closed) {i : Nat} (hi : i < s.frames.size) (name : Text) {v : Value}
    (hv : v.Known s) : (s.define i name v).Closed where
  rooted {j} hj := by
    rw [size_define] at hj
    obtain ⟨g, hg⟩ := hs.rooted hj
    exact ⟨g, hg.mono (s.grows_define hi name v)⟩
  known j binding hb := by
    have hsize := Nat.le_of_eq (size_define s i name v).symm
    cases mem_bindings_of_define hb with
    | inl hb => exact (hs.known j binding hb).mono hsize (Nat.le_refl _)
    | inr hb =>
      rw [hb]
      exact hv.mono hsize (Nat.le_refl _)

theorem defineAll (hs : s.Closed) {i : Nat} (hi : i < s.frames.size)
    {bindings : List (Text × Value)} (hbindings : ∀ binding ∈ bindings, binding.2.Known s) :
    (s.defineAll i bindings).Closed := by
  induction bindings generalizing s with
  | nil => exact hs
  | cons binding rest ih =>
    obtain ⟨hfirst, hrest⟩ := List.forall_mem_cons.mp hbindings
    have hsize := Nat.le_of_eq (size_define s i binding.1 binding.2).symm
    exact ih (hs.define hi binding.1 hfirst) (Nat.lt_of_lt_of_le hi hsize)
      fun b hb => (hrest b hb).mono hsize (Nat.le_refl _)

theorem newIdentity (hs : s.Closed) : s.newIdentity.2.Closed where
  rooted hi := by
    obtain ⟨g, hg⟩ := hs.rooted hi
    have hgrows : s.Grows s.newIdentity.2 := ⟨Nat.le_refl _, fun _ => rfl, id⟩
    exact ⟨g, hg.mono hgrows⟩
  known i binding hb := by
    have hknown : binding.2.Known s := hs.known i binding hb
    have hframes : s.frames.size ≤ s.newIdentity.2.frames.size := Nat.le_refl _
    exact hknown.mono hframes (Nat.le_succ _)

theorem newFrame (hs : s.Closed) {outer : Nat} (houter : outer < s.frames.size) :
    (s.newFrame (some outer)).2.Closed where
  rooted {i} hi := by
    rw [size_newFrame] at hi
    by_cases hold : i < s.frames.size
    · obtain ⟨g, hg⟩ := hs.rooted hold
      exact ⟨g, hg.mono (s.grows_newFrame _)⟩
    · have hnew : i = s.frames.size := by omega
      obtain ⟨g, hg⟩ := hs.rooted houter
      rw [hnew]
      exact ⟨g, rooted_newFrame_some hg⟩
  known i binding hb := by
    rw [bindings_newFrame] at hb
    have hsize := (s.grows_newFrame (some outer)).size_le
    exact (hs.known i binding hb).mono hsize (Nat.le_refl _)

end Closed

/-- The store `t` is closed and knows what the store `s` knows. -/
structure Later (s t : Store) : Prop where
  closed : t.Closed
  frames : s.frames.size ≤ t.frames.size
  identities : s.identities ≤ t.identities

theorem Later.trans {u : Store} (hst : s.Later t) (htu : t.Later u) : s.Later u :=
  ⟨htu.closed, Nat.le_trans hst.frames htu.frames, Nat.le_trans hst.identities htu.identities⟩

theorem identities_extend (s : Store) (home : Nat) (formals : List Text) (args : List Value) :
    (s.extend home formals args).2.identities = s.identities :=
  identities_defineAll _ _ _

theorem Closed.later_extend (hs : s.Closed) {home : Nat} (hhome : home < s.frames.size)
    (formals : List Text) {args : List Value} (hargs : Value.KnownAll s args) :
    s.Later (s.extend home formals args).2 where
  closed := by
    have hsize := (s.grows_newFrame (some home)).size_le
    have hnew : s.frames.size < (s.newFrame (some home)).2.frames.size := by
      rw [size_newFrame]
      exact Nat.lt_succ_self _
    refine (hs.newFrame hhome).defineAll hnew fun binding hb => ?_
    have hknown : binding.2.Known s := hargs.of_mem (List.of_mem_zip hb).2
    exact hknown.mono hsize (Nat.le_refl _)
  frames := by
    rw [size_extend]
    exact Nat.le_succ _
  identities := Nat.le_of_eq (s.identities_extend home formals args).symm

end Store

namespace Value

variable {s t : Store}

theorem Known.later (hst : s.Later t) {v : Value} (h : v.Known s) : v.Known t :=
  h.mono hst.frames hst.identities

theorem KnownAll.later (hst : s.Later t) {vs : List Value} (h : KnownAll s vs) : KnownAll t vs :=
  AlikeAll.mono (Below.mono hst.frames) (Below.mono hst.identities) h

end Value

namespace Store

variable {s t : Store}

/-! ## Later stores -/

/-- Frames that stay as they are keep the frames around them and their names. -/
theorem SameOutside.grows (h : s.SameOutside s.frames.size t) : s.Grows t where
  size_le := h.size_le
  outer?_eq {i} hi := by
    unfold outer?
    rw [h.frame?_eq i hi (Nat.ne_of_lt hi)]
  bound {i name} hname := by
    by_cases hi : i < s.frames.size
    · unfold bindings
      rw [h.frame?_eq i hi (Nat.ne_of_lt hi)]
      exact hname
    · rw [bindings, frame?_eq_none (Nat.le_of_not_lt hi)] at hname
      cases hname

theorem Closed.matches_itself (hs : s.Closed) : s.Matches (fun _ => True) (.all s) s where
  rooted {i j} hij := by
    obtain ⟨rfl, hi⟩ := hij
    obtain ⟨g, hg⟩ := hs.rooted hi
    exact ⟨g, trivial, hg, hg⟩
  distinct_frames := Value.distinct_below _
  outer? {i j} hij := by
    obtain ⟨rfl, hi⟩ := hij
    obtain ⟨g, hg⟩ := hs.rooted hi
    cases houter : s.outer? i with
    | none => exact .none
    | some j => exact .some ⟨rfl, (hg.of_outer? houter).1.lt_size⟩
  bindings {i j} hij := by
    obtain ⟨rfl, -⟩ := hij
    exact .self (hs.known i)
  identities_lt {i j} hij := by
    obtain ⟨rfl, hi⟩ := hij
    exact ⟨hi, hi⟩
  distinct_identities := Value.distinct_below _

/-- Frames and identities that have been added correspond to none. -/
theorem Closed.matches_later (hs : s.Closed) (hsame : s.SameOutside s.frames.size t)
    (hidentities : s.identities ≤ t.identities) : t.Matches (fun _ => True) (.all s) s :=
  hs.matches_itself.of_left hsame.grows
    (fun _ i _ hi => hsame.frame?_eq i hi.lt_size (Nat.ne_of_lt hi.lt_size)) hidentities

end Store
end SmallLisp
