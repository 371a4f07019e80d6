import Mathlib.Data.List.Infix
import SmallLisp.Json.Reader

/-!
What it takes to exceed the limits of the JSON reader.

A text that nests too deep has more opening brackets than the limit, and a number with too many digits
stands in the text (`Json.parse_borneOut`).  A reader leaves a suffix of the text, so what is found in the
rest is found in the text (`Kept`).
-/

namespace SmallLisp
namespace Json

/-- Arrays and objects start with these. -/
def isOpening (c : CodePoint) : Bool := c == '[' || c == '\x7b'

/-- The text bears out that it exceeds the limit, if that is why it cannot be read. -/
def Failure.BorneOut (depth : Nat) (t : Text) : Failure → Prop
  | .malformed _ _ => True
  | .tooDeep => depth < t.countP isOpening
  | .tooManyDigits count =>
    digitLimit < count ∧ ∃ digits, digits <:+: t ∧ digits.length = count ∧ digits.all isDigit = true

theorem Failure.BorneOut.of_suffix {depth : Nat} {t u : Text} (htu : t <:+ u) {f : Failure}
    (h : f.BorneOut depth t) : f.BorneOut depth u := by
  cases f with
  | malformed message offset => trivial
  | tooDeep => exact Nat.lt_of_lt_of_le h (htu.sublist.countP_le)
  | tooManyDigits count =>
    obtain ⟨hlimit, digits, hinfix, hrest⟩ := h
    exact ⟨hlimit, digits, hinfix.trans htu.isInfix, hrest⟩

theorem Failure.BorneOut.below {depth : Nat} {c : CodePoint} (hc : isOpening c = true) {t : Text}
    {f : Failure} (h : f.BorneOut depth t) : f.BorneOut (depth + 1) (c :: t) := by
  cases f with
  | malformed message offset => trivial
  | tooDeep =>
    show depth + 1 < (c :: t).countP isOpening
    rw [List.countP_cons_of_pos hc]
    exact Nat.succ_lt_succ h
  | tooManyDigits count =>
    obtain ⟨hlimit, digits, hinfix, hrest⟩ := h
    exact ⟨hlimit, digits, hinfix.trans (List.suffix_cons c t).isInfix, hrest⟩

section Kept

variable {α β : Type} {depth : Nat} {t : Text}

/-- What is left of the text is a suffix of it, or the text bears the failure out. -/
def Kept (depth : Nat) (t : Text) : Except Failure (α × Rest) → Prop
  | .ok (_, r) => r.text <:+ t
  | .error f => f.BorneOut depth t

theorem Kept.of_suffix {u : Text} (htu : t <:+ u) {m : Except Failure (α × Rest)}
    (h : Kept depth t m) : Kept depth u m := by
  cases m with
  | ok result => exact List.IsSuffix.trans h htu
  | error f => exact Failure.BorneOut.of_suffix htu h

theorem Kept.bind {m : Except Failure (α × Rest)} {k : α × Rest → Except Failure (β × Rest)}
    (hm : Kept depth t m) (hk : ∀ a r, Kept depth r.text (k (a, r))) : Kept depth t (m >>= k) := by
  cases m with
  | ok result => exact (hk result.1 result.2).of_suffix hm
  | error f => exact hm

theorem kept_failAt (message : Text) (offset : Nat) :
    Kept depth t (failAt message offset : Except Failure (α × Rest)) := trivial

theorem Rest.drop_suffix (r : Rest) (n : Nat) : (r.drop n).text <:+ r.text := List.drop_suffix n r.text

theorem Rest.skipSpace_suffix (r : Rest) : r.skipSpace.text <:+ r.text := r.drop_suffix _

/-! ## Documents without parts -/

theorem borneOut_unitEscapeAt {offset : Nat} {u : Text} {f : Failure}
    (h : unitEscapeAt offset u = .error f) : f.BorneOut depth t := by
  unfold unitEscapeAt at h
  repeat' split at h
  all_goals cases h
  all_goals trivial

theorem borneOut_stringFrom {start : Nat} {done : Text} {offset skip : Nat} {u : Text} {f : Failure}
    (h : stringFrom start done offset skip u = .error f) : f.BorneOut depth t := by
  fun_induction stringFrom start done offset skip u
  case case2 ih | case6 ih | case8 ih | case10 ih => exact ih h
  case case5 hescape =>
    cases h
    exact borneOut_unitEscapeAt hescape
  case case3 => cases h
  case case1 | case4 | case7 | case9 =>
    cases h
    trivial

theorem kept_readString (r : Rest) : Kept depth r.text (readString r) := by
  unfold readString
  cases h : stringFrom r.offset [] (r.offset + 1) 0 (r.text.drop 1) with
  | error f => exact borneOut_stringFrom h
  | ok found => exact r.drop_suffix _

theorem isPrefix_wholeDigits (u : Text) : wholeDigits u <+: u := by
  unfold wholeDigits
  split
  · exact ⟨_, rfl⟩
  · exact List.takeWhile_prefix _

theorem all_wholeDigits (u : Text) : (wholeDigits u).all isDigit = true := by
  unfold wholeDigits
  split
  · rfl
  · exact List.all_takeWhile

theorem kept_readNumber (r : Rest) : Kept depth r.text (readNumber r) := by
  unfold readNumber
  split
  next negative u hsigned =>
    have hsuffix : u <:+ r.text := by
      split at hsigned
      next rest hr =>
        cases hsigned
        rw [hr]
        exact List.suffix_cons _ _
      next =>
        cases hsigned
        exact List.suffix_refl _
    simp only
    split
    · exact kept_failAt _ _
    · split
      · split
        next hlimit =>
          have hinfix := (isPrefix_wholeDigits u).isInfix.trans hsuffix.isInfix
          exact ⟨hlimit, wholeDigits u, hinfix, rfl, all_wholeDigits u⟩
        next => exact r.drop_suffix _
      · exact r.drop_suffix _

theorem kept_readScalar (r : Rest) : Kept depth r.text (readScalar r) := by
  unfold readScalar
  split
  next found hfound =>
    obtain ⟨word, -, hword⟩ := List.exists_of_findSome?_eq_some hfound
    obtain ⟨rest, hrest, rfl⟩ := Option.map_eq_some_iff.mp hword
    unfold Rest.after? at hrest
    split at hrest
    · cases hrest
      exact r.drop_suffix _
    · cases hrest
  next => exact kept_readNumber r

/-! ## Documents with parts -/

variable {read : Reader}

theorem kept_readItems (h : ∀ r, Kept depth r.text (read r)) (fuel : Nat) (r : Rest) :
    Kept depth r.text (readItems read fuel r) := by
  induction fuel generalizing r with
  | zero => exact kept_failAt _ _
  | succ fuel ih =>
    refine (h r).bind fun v r => Kept.of_suffix r.skipSpace_suffix ?_
    simp only
    split
    · exact Rest.drop_suffix _ 1
    · refine Kept.of_suffix ((Rest.skipSpace_suffix _).trans (Rest.drop_suffix _ 1)) ?_
      exact (ih _).bind fun vs r => List.suffix_refl _
    · exact kept_failAt _ _

theorem kept_readFields (h : ∀ r, Kept depth r.text (read r)) (fuel : Nat) (r : Rest) :
    Kept depth r.text (readFields read fuel r) := by
  induction fuel generalizing r with
  | zero => exact kept_failAt _ _
  | succ fuel ih =>
    unfold readFields
    split
    · refine (kept_readString r).bind fun key r => Kept.of_suffix r.skipSpace_suffix ?_
      simp only
      split
      · refine Kept.of_suffix ((Rest.skipSpace_suffix _).trans (Rest.drop_suffix _ 1)) ?_
        refine (h _).bind fun v r => Kept.of_suffix r.skipSpace_suffix ?_
        simp only
        split
        · exact Rest.drop_suffix _ 1
        · refine Kept.of_suffix ((Rest.skipSpace_suffix _).trans (Rest.drop_suffix _ 1)) ?_
          exact (ih _).bind fun rest r => List.suffix_refl _
        · exact kept_failAt _ _
      · exact kept_failAt _ _
    · exact kept_failAt _ _

/-- One more level is allowed outside of a bracket. -/
theorem Kept.outside {c : CodePoint} {u : Text} {r : Rest} (hr : r.text = c :: u)
    (hc : isOpening c = true) {m : Except Failure (α × Rest)}
    (h : Kept depth (r.drop 1).skipSpace.text m) : Kept (depth + 1) r.text m := by
  have hdrop : (r.drop 1).text = u := by
    rw [Rest.drop, hr]
    rfl
  have hu : Kept depth u m := hdrop ▸ h.of_suffix (Rest.skipSpace_suffix _)
  rw [hr]
  cases m with
  | ok result => exact List.IsSuffix.trans hu (List.suffix_cons c u)
  | error f => exact Failure.BorneOut.below hc hu

theorem kept_readArray (h : ∀ r, Kept depth r.text (read r)) {u : Text} {r : Rest}
    (hr : r.text = .char '[' :: u) : Kept (depth + 1) r.text (readArray read r) := by
  refine Kept.outside hr rfl ?_
  unfold readArray
  simp only
  split
  · exact Rest.drop_suffix _ 1
  · exact (kept_readItems h _ _).bind fun vs r => List.suffix_refl _

theorem kept_readObject (h : ∀ r, Kept depth r.text (read r)) {u : Text} {r : Rest}
    (hr : r.text = .char '\x7b' :: u) : Kept (depth + 1) r.text (readObject read r) := by
  refine Kept.outside hr rfl ?_
  unfold readObject
  simp only
  split
  · exact Rest.drop_suffix _ 1
  · exact (kept_readFields h _ _).bind fun entries r => List.suffix_refl _

theorem kept_string (r : Rest) :
    Kept depth r.text ((readString r).map fun (s, r) => (Json.string s, r)) := by
  have h : Kept depth r.text (readString r) := kept_readString r
  cases hr : readString r with
  | ok found =>
    rw [hr] at h
    exact h
  | error f =>
    rw [hr] at h
    exact h

end Kept

/-- A document leaves a suffix of the text, or the text bears out why it cannot be read. -/
theorem kept_value (depth : Nat) (r : Rest) : Kept depth r.text (value depth r) := by
  induction depth generalizing r with
  | zero =>
    unfold value
    split
    next u hr =>
      show 0 < r.text.countP isOpening
      rw [hr, List.countP_cons_of_pos rfl]
      exact Nat.succ_pos _
    next u hr =>
      show 0 < r.text.countP isOpening
      rw [hr, List.countP_cons_of_pos rfl]
      exact Nat.succ_pos _
    next => exact kept_string r
    next => exact kept_readScalar r
  | succ depth ih =>
    unfold value
    split
    next u hr => exact kept_readArray ih hr
    next u hr => exact kept_readObject ih hr
    next => exact kept_string r
    next => exact kept_readScalar r

/-- If a text exceeds a limit, it has more opening brackets or more digits in a row than the limit. -/
theorem parse_borneOut {depth : Nat} {t : Text} {f : Failure} (h : parse depth t = .error f) :
    f.BorneOut depth t := by
  unfold parse at h
  split at h
  · cases h
    trivial
  next =>
    have hvalue := (kept_value depth (Rest.skipSpace ⟨0, t⟩)).of_suffix (Rest.skipSpace_suffix ⟨0, t⟩)
    cases hv : value depth (Rest.skipSpace ⟨0, t⟩) with
    | error g =>
      rw [hv] at h hvalue
      cases h
      exact hvalue
    | ok found =>
      rw [hv] at h
      replace h : (if found.2.skipSpace.text.isEmpty then pure found.1
        else failAt "Extra data" found.2.skipSpace.offset) = Except.error f := h
      split at h
      · cases h
      · cases h
        trivial

end Json
end SmallLisp
