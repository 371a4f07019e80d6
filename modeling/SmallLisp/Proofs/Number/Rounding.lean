import Mathlib.Algebra.Group.Nat.Defs
import SmallLisp.Number.Literal

/-!
Rounding of what needs none.

Rounding depends only on the value of a fraction (`nearest_mul`), and the magnitude of a rank is rounded
to that rank (`nearest_scaled`): with the exponent that `nearest` finds, nothing is left over.  The sign
of a literal plays no part in rounding, so the value of a literal is its sign and its rank.
-/

namespace SmallLisp

namespace Rank

-- The two definitions in terms of `2 ^ n`, for which there are lemmas.

theorem scaled_eq (rank : Nat) :
    scaled rank =
      if rank < binade then rank else (binade + rank % binade) * 2 ^ (rank / binade - 1) :=
  rfl

theorem nearest_eq (num den : Nat) :
    nearest num den =
      let shift := (num / den).log2 - 52
      let unit := den * 2 ^ shift
      let roundsUp := unit < 2 * (num % unit) || (unit == 2 * (num % unit) && num / unit % 2 == 1)
      shift * binade + (if roundsUp then num / unit + 1 else num / unit) :=
  rfl

/-- Rounding a fraction does not depend on how it is written. -/
theorem nearest_mul (num den : Nat) {k : Nat} (hk : 0 < k) :
    nearest (num * k) (den * k) = nearest num den := by
  have hlt (a b : Nat) : decide (a * k < b * k) = decide (a < b) := by
    rw [decide_eq_decide]
    exact Nat.mul_lt_mul_right hk
  have heq (a b : Nat) : (a * k == b * k) = (a == b) := by
    rw [Bool.eq_iff_iff, beq_iff_eq, beq_iff_eq]
    exact Nat.mul_left_inj (Nat.ne_of_gt hk)
  unfold nearest
  simp only [Nat.mul_div_mul_right num den hk, Nat.mul_right_comm den k,
    Nat.mul_div_mul_right num _ hk, Nat.mul_mod_mul_right, ← Nat.mul_assoc 2, hlt, heq]

/-- A whole number that is `m` units of the shift that it is rounded with is not changed. -/
theorem nearest_of_log2 (m shift : Nat) (h : (m * 2 ^ shift).log2 - 52 = shift) :
    nearest (m * 2 ^ shift) 1 = shift * binade + m := by
  have hpos : 0 < 2 ^ shift := Nat.two_pow_pos shift
  rw [nearest_eq]
  simp only [Nat.div_one, h, Nat.one_mul, Nat.mul_div_cancel m hpos, Nat.mul_mod_left]
  simp

theorem log2_scaled {mantissa : Nat} (h : mantissa < binade) (shift : Nat) :
    ((binade + mantissa) * 2 ^ shift).log2 - 52 = shift := by
  have hbinade : binade = 2 ^ 52 := rfl
  have hpos : 0 < 2 ^ shift := Nat.two_pow_pos shift
  have hne : (binade + mantissa) * 2 ^ shift ≠ 0 := by
    have hmantissa : 0 < binade + mantissa := by omega
    exact Nat.ne_of_gt (Nat.mul_pos hmantissa hpos)
  have hlog : ((binade + mantissa) * 2 ^ shift).log2 = 52 + shift := by
    rw [Nat.log2_eq_iff hne]
    constructor
    · rw [Nat.pow_add]
      exact Nat.mul_le_mul_right _ (Nat.le_add_right _ _)
    · rw [show 52 + shift + 1 = 53 + shift by omega, Nat.pow_add]
      refine Nat.mul_lt_mul_of_pos_right ?_ hpos
      omega
  omega

/-- The magnitude of a rank is rounded to that rank. -/
theorem nearest_scaled (rank : Nat) : nearest (scaled rank) 1 = rank := by
  have hbinade : binade = 2 ^ 52 := rfl
  rw [scaled_eq]
  split
  next h =>
    have hlog : rank.log2 - 52 = 0 := by
      by_cases h0 : rank = 0
      · rw [h0]
        rfl
      · have := (Nat.log2_lt h0).mpr (hbinade ▸ h)
        omega
    have hnearest := nearest_of_log2 rank 0
    rw [Nat.pow_zero, Nat.mul_one] at hnearest
    rw [hnearest hlog]
    omega
  next h =>
    have hmod : rank % binade < binade := Nat.mod_lt _ (by decide)
    rw [nearest_of_log2 _ _ (log2_scaled hmod _)]
    have hdiv : 1 ≤ rank / binade := (Nat.one_le_div_iff (by decide)).mpr (Nat.le_of_not_lt h)
    have hdecomp := Nat.div_add_mod rank binade
    rw [Nat.mul_comm] at hdecomp
    obtain ⟨e, he⟩ : ∃ e, rank / binade = e + 1 := ⟨rank / binade - 1, by omega⟩
    rw [he, Nat.add_mul] at hdecomp
    rw [he, Nat.add_sub_cancel]
    omega

theorem nearest_expansion (rank places : Nat) :
    nearest (scaled rank * 5 ^ places * 2 ^ places) (10 ^ places) = rank := by
  have hten : 10 ^ places = 1 * (5 ^ places * 2 ^ places) := by
    rw [Nat.one_mul, ← Nat.mul_pow]
  rw [hten, Nat.mul_assoc, nearest_mul, nearest_scaled]
  exact Nat.mul_pos (Nat.pow_pos (by decide)) (Nat.two_pow_pos places)

end Rank
namespace Literal

def rank (coefficient : Nat) (exponent : Int) : Nat :=
  if coefficient = 0 then 0
  else if 400 < exponent then Rank.infinity
  else if exponent + coefficient.log2 < -400 then 0
  else if 0 ≤ exponent then Rank.nearest (coefficient * 10 ^ exponent.toNat * Rank.one) 1
  else Rank.nearest (coefficient * Rank.one) (10 ^ (-exponent).toNat)

theorem value_eq_ofRank (l : Literal) :
    l.value = .ofRank l.negative (rank l.coefficient l.exponent) := by
  unfold value rank
  split
  · rfl
  split
  · rfl
  split
  · rfl
  split <;> rfl

theorem value_ne_nan (l : Literal) : l.value ≠ .nan := by
  rw [value_eq_ofRank]
  exact nofun

/-- An integer is the whole number of smallest steps that it is. -/
theorem rank_zero_exponent {m r : Nat} (hm : m ≠ 0) (h : Rank.scaled r = m * Rank.one) :
    rank m 0 = r := by
  have hlog : ¬(0 : Int) + m.log2 < -400 := by omega
  unfold rank
  rw [if_neg hm, if_neg (by decide), if_neg hlog, if_pos (Int.le_refl 0), Int.toNat_zero,
    Nat.pow_zero, Nat.mul_one, ← h, Rank.nearest_scaled]

/-- The decimal expansion of a magnitude with as many places after the point as one has binary ones is
exact. -/
theorem rank_expansion {r places : Nat} (hr : Rank.scaled r ≠ 0) (hplaces : 0 < places)
    (hone : Rank.one = 2 ^ places) : rank (Rank.scaled r * 5 ^ places) (-places) = r := by
  have hne : Rank.scaled r * 5 ^ places ≠ 0 :=
    Nat.mul_ne_zero hr (Nat.ne_of_gt (Nat.pow_pos (by decide)))
  have hlog : ¬-(places : Int) + (Rank.scaled r * 5 ^ places).log2 < -400 := by
    have hpow : 2 ^ places ≤ Rank.scaled r * 5 ^ places :=
      Nat.le_trans (Nat.pow_le_pow_left (by decide) places)
        (Nat.le_mul_of_pos_left _ (Nat.pos_of_ne_zero hr))
    have := (Nat.le_log2 hne).mpr hpow
    omega
  have hlarge : ¬(400 : Int) < -places := by omega
  have hsmall : ¬0 ≤ -(places : Int) := by omega
  unfold rank
  rw [if_neg hne, if_neg hlarge, if_neg hlog, if_neg hsmall, Int.neg_neg, Int.toNat_natCast, hone,
    Rank.nearest_expansion]

end Literal
end SmallLisp
