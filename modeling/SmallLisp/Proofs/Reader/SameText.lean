import SmallLisp.Proofs.Reader.RoundTrip
import SmallLisp.Proofs.Value.Equivalence

/-!
Forms are the same exactly if their texts are.

The sign of a zero is all that the text of a form does not show and that comparison does not see either.
So both sides of the main statement, `same_iff_render_eq_of_mem_forms`, say that the two forms are one
form once their zeros have lost their signs: from sameness this follows part by part, and from equal texts
it follows because the text of a form is read as that form.
-/

namespace SmallLisp

namespace Binary64

theorem withPositiveZero_eq_of_same {x y : Binary64} (h : x.same y = true) :
    x.withPositiveZero = y.withPositiveZero := by
  obtain ⟨hx, hplace⟩ := same_iff.mp h
  cases x with
  | nan => exact absurd rfl hx
  | number s a =>
    cases y with
    | nan => cases hplace
    | number t b =>
      have hval : (if s then -(a.val : Int) else a.val) = if t then -(b.val : Int) else b.val :=
        Option.some.inj hplace
      by_cases hzero : a.val = 0
      · have hb : b.val = 0 := by
          cases s <;> cases t <;> simp only [Bool.false_eq_true, reduceIte] at hval <;> omega
        rw [number_eq_zero hzero, number_eq_zero hb, withPositiveZero_zero,
          withPositiveZero_zero]
      · have hsign : s = t ∧ a.val = b.val := by
          cases s <;> cases t <;> simp only [Bool.false_eq_true, reduceIte] at hval
          · exact ⟨rfl, by omega⟩
          · omega
          · omega
          · exact ⟨rfl, by omega⟩
        obtain ⟨rfl, hab⟩ := hsign
        rw [Fin.ext hab]

end Binary64
namespace Value

mutual

theorem Matches.withPositiveZeros_eq {x y : Value} (hx : x.Readable) :
    Matches x y → x.withPositiveZeros = y.withPositiveZeros
  | .number h => by
    rw [withPositiveZeros, withPositiveZeros, Binary64.withPositiveZero_eq_of_same h]
  | .symbol _ => rfl
  | .list items => by rw [withPositiveZeros, withPositiveZeros, items.withPositiveZerosAll_eq hx]
  | .bool _ | .closure | .builtin _ _ | .unspecified => absurd hx id

theorem MatchesAll.withPositiveZerosAll_eq {xs ys : List Value} (hxs : ReadableAll xs) :
    MatchesAll xs ys → withPositiveZerosAll xs = withPositiveZerosAll ys
  | .nil => rfl
  | .cons head tail => by
    rw [withPositiveZerosAll, withPositiveZerosAll, head.withPositiveZeros_eq hxs.1,
      tail.withPositiveZerosAll_eq hxs.2]

end

theorem withPositiveZeros_eq_of_render_eq {x y : Value} (hx : x.Readable) (hy : y.Readable)
    (h : x.render = y.render) : x.withPositiveZeros = y.withPositiveZeros := by
  have hread : read x.render = read y.render := by rw [h]
  rw [read_render hx, read_render hy] at hread
  injection hread with hforms
  exact List.singleton_inj.mp hforms

theorem same_iff_render_eq {x y : Value} (hx : x.Readable) (hy : y.Readable) :
    x.same y = true ↔ x.render = y.render := by
  constructor
  · intro h
    have hzeros := (matches_of_same h).withPositiveZeros_eq hx
    rw [← render_withPositiveZeros x, hzeros, render_withPositiveZeros]
  · intro h
    have hxz := same_withPositiveZeros hx
    rw [withPositiveZeros_eq_of_render_eq hx hy h] at hxz
    exact same_trans hxz (same_symm (same_withPositiveZeros hy))

end Value

/-- Two forms that have been read, from one text or from two, are the same if and only if they are
written the same.  Comparing them finds that out with stack frames enough, and overflows with fewer. -/
theorem same_iff_render_eq_of_mem_forms {source source' : Text} {x y : Value}
    (hx : x ∈ (read source).forms) (hy : y ∈ (read source').forms) :
    (x.same y = true ↔ x.render = y.render) ∧
      ∃ need, ∀ frames, x.sameWithin frames y =
        if need ≤ frames then some (decide (x.render = y.render)) else none := by
  have hiff := Value.same_iff_render_eq (readable_of_mem_forms hx) (readable_of_mem_forms hy)
  obtain ⟨need, hneed⟩ := Value.exists_sameWithin x y
  have hdecide : x.same y = decide (x.render = y.render) := by
    rw [Bool.eq_iff_iff, hiff, decide_eq_true_eq]
  refine ⟨hiff, need, fun frames => ?_⟩
  rw [hneed, hdecide]

theorem same_iff_render_eq_of_mem_forms_zeros :
    let plus : Value := .list [.symbol "quote", .list [.symbol "a", .number (.zero false)]]
    plus ∈ (read "(quote (a .0e7))").forms ∧ quotedZero ∈ (read "'(a -0)").forms ∧
      plus.same quotedZero = true := by
  intro plus
  have hplus : plus ∈ (read "(quote (a .0e7))").forms := List.mem_singleton_self plus
  have hminus : quotedZero ∈ (read "'(a -0)").forms := List.mem_singleton_self quotedZero
  have htexts : plus.render = quotedZero.render := by decide +kernel
  exact ⟨hplus, hminus, (same_iff_render_eq_of_mem_forms hplus hminus).1.mpr htexts⟩

end SmallLisp
