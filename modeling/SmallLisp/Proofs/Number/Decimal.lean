import SmallLisp.Number.Shortest
import SmallLisp.Proofs.Number.Rounding

/-!
The text of a number denotes the number.

The shortest text of a magnitude was taken because it reads back, and the exact expansion, which stands
in for it, needs no rounding (`Literal.rank_exact`).  An integer needs none either.  Since none of these
texts starts with a sign, one can be put in front (`read?_withSign`).  Only the sign of zero is lost,
because zero is written as an integer.
-/

namespace SmallLisp

/-! ## Digits -/

theorem toNat_of_isDigit {c : Char} (hc : c.isDigit = true) : 48 ≤ c.toNat ∧ c.toNat < 58 := by
  rw [Char.isDigit, Bool.and_eq_true, decide_eq_true_eq, decide_eq_true_eq] at hc
  obtain ⟨hlow, hhigh⟩ := hc
  have hlow : 48 ≤ c.toNat := hlow
  have hhigh : c.toNat ≤ 57 := hhigh
  exact ⟨hlow, by omega⟩

theorem CodePoint.digitValue?_char {c : Char} (hc : c.isDigit = true) :
    digitValue? (.char c) = some (c.toNat - 48) := by
  have hrange := toNat_of_isDigit hc
  have hfind : digitZeros.find? (fun z => z ≤ c.toNat && c.toNat < z + 10) = some 48 := by
    refine List.find?_cons_of_pos ?_
    rw [Bool.and_eq_true, decide_eq_true_eq, decide_eq_true_eq]
    exact hrange
  rw [digitValue?, CodePoint.toNat, hfind]
  rfl

namespace Text

theorem isDigit_ofNat (n : Nat) : ∀ c ∈ ofNat n, c.isDigit = true := by
  intro c hc
  obtain ⟨d, hd, rfl⟩ := List.mem_map.mp hc
  have hdigit := Nat.isDigit_of_mem_toDigits (by decide) (by decide) hd
  rw [CodePoint.isDigit, CodePoint.digitValue?_char hdigit]
  rfl

theorem ofNat_ne_nil (n : Nat) : ofNat n ≠ [] := by
  rw [ofNat, Ne, List.map_eq_nil_iff]
  exact Nat.toDigits_ne_nil

theorem digitsValue_ofNat (n : Nat) : digitsValue (ofNat n) = n := by
  have hfold (ds : List Char) (hds : ∀ c ∈ ds, c.isDigit = true) (init : Nat) :
      (ds.map CodePoint.char).foldl (fun n c => n * 10 + c.digitValue?.getD 0) init =
        Nat.ofDigitChars 10 ds init := by
    induction ds generalizing init with
    | nil => rfl
    | cons d ds ih =>
      rw [List.map_cons, List.foldl_cons, Nat.ofDigitChars_cons,
        CodePoint.digitValue?_char (hds d List.mem_cons_self), Nat.mul_comm init,
        ih fun c hc => hds c (List.mem_cons_of_mem d hc)]
      rfl
  rw [digitsValue, ofNat, hfold _ fun _ => Nat.isDigit_of_mem_toDigits (by decide) (by decide)]
  exact Nat.ofDigitChars_ten_toDigits

end Text
namespace Literal

theorem digits_of_not_digit {t : Text} (h : ∀ c ∈ t.head?, c.isDigit = false) :
    digits t = ([], t) := by
  cases t with
  | nil => rfl
  | cons c cs =>
    have hc := h c rfl
    simp only [digits, List.takeWhile_cons, List.dropWhile_cons, hc, Bool.false_eq_true, if_false]

theorem digits_append {ds rest : Text} (hds : ∀ c ∈ ds, c.isDigit = true)
    (hrest : ∀ c ∈ rest.head?, c.isDigit = false) : digits (ds ++ rest) = (ds, rest) := by
  have hstop := digits_of_not_digit hrest
  rw [digits, Prod.mk.injEq] at hstop
  rw [digits, List.takeWhile_append_of_pos hds, List.dropWhile_append_of_pos hds, hstop.1, hstop.2,
    List.append_nil]

theorem fraction_of_ne {t : Text} (h : ∀ c ∈ t.head?, c ≠ .char '.') : fraction t = ([], t) := by
  unfold fraction
  split
  · exact absurd rfl (h _ rfl)
  · rfl

/-! ## Signs -/

def Unsigned (t : Text) : Prop := ∀ c ∈ t.head?, c ≠ '-' ∧ c ≠ '+'

theorem sign_unsigned {t : Text} (h : Unsigned t) : sign t = (false, t) := by
  unfold sign
  split
  · exact absurd rfl (h _ rfl).1
  · exact absurd rfl (h _ rfl).2
  · rfl

theorem unsigned_cons {c : CodePoint} (hc : c ≠ '-' ∧ c ≠ '+') (t : Text) : Unsigned (c :: t) := by
  rintro d ⟨⟩
  exact hc

theorem unsigned_append {s t : Text} (hs : Unsigned s) (ht : Unsigned t) : Unsigned (s ++ t) := by
  cases s with
  | nil => exact ht
  | cons c cs => exact hs

theorem unsigned_digits {t : Text} (h : ∀ c ∈ t, c.isDigit = true) : Unsigned t := by
  intro c hc
  have hdigit := h c (List.mem_of_mem_head? hc)
  constructor <;> rintro rfl <;> revert hdigit <;> decide

theorem unsigned_digits_append {ds : Text} (hds : ∀ c ∈ ds, c.isDigit = true) (hne : ds ≠ [])
    (rest : Text) : Unsigned (ds ++ rest) := by
  cases ds with
  | nil => exact absurd rfl hne
  | cons d ds =>
    have hhead : Unsigned (d :: ds) := unsigned_digits hds
    exact hhead

/-- A minus sign makes the literal after it negative. -/
theorem parse?_withSign {t : Text} (h : Unsigned t) (negative : Bool) :
    parse? (Binary64.withSign negative t) = (parse? t).map ({ · with negative }) := by
  have hsign : sign (Binary64.withSign negative t) = (negative, t) := by
    cases negative with
    | false => exact sign_unsigned h
    | true => rfl
  unfold parse?
  rw [hsign, sign_unsigned h]
  simp only
  split
  · rfl
  · rw [Option.map_map]
    rfl

theorem parse?_digits {ds rest : Text} (hds : ∀ c ∈ ds, c.isDigit = true) (hne : ds ≠ [])
    (hrest : ∀ c ∈ rest.head?, c.isDigit = false ∧ c ≠ '.') :
    parse? (ds ++ rest) = (exponent? rest).map fun e => ⟨false, Text.digitsValue ds, e⟩ := by
  have hsign := sign_unsigned (unsigned_digits_append hds hne rest)
  have hfraction := fraction_of_ne fun c hc => (hrest c hc).2
  have hempty : ds.isEmpty = false := List.isEmpty_eq_false_iff.mpr hne
  unfold parse?
  rw [hsign]
  simp only [digits_append hds fun c hc => (hrest c hc).1, hfraction, hempty, Bool.false_and,
    Bool.false_eq_true, if_false, List.append_nil, List.length_nil, Int.natCast_zero, Int.sub_zero]

end Literal

/-! ## Texts of magnitudes -/

/-- A sign in front of the text of a magnitude is the sign of the number. -/
theorem Binary64.read?_withSign {t : Text} {rank : Nat} (ht : Literal.Unsigned t)
    (hread : read? t = some (ofRank false rank)) (negative : Bool) :
    read? (withSign negative t) = some (ofRank negative rank) := by
  obtain ⟨l, hl, hvalue⟩ := Option.map_eq_some_iff.mp hread
  rw [Literal.value_eq_ofRank] at hvalue
  rw [read?, Literal.parse?_withSign ht, hl, Option.map_some, Option.map_some,
    Literal.value_eq_ofRank]
  injection hvalue with _ hrank
  exact congrArg (fun r => some (Binary64.number negative r)) hrank

namespace Decimal

open Literal

theorem isDigit_significant (n : Nat) : ∀ c ∈ significant n, c.isDigit = true := by
  intro c hc
  rw [significant, Text.dropEndWhile, List.mem_reverse] at hc
  have hmem := (List.dropWhile_sublist _).mem hc
  exact Text.isDigit_ofNat n c (List.mem_reverse.mp hmem)

theorem isDigit_zeros (n : Nat) : ∀ c ∈ zeros n, c.isDigit = true := by
  intro c hc
  rw [List.eq_of_mem_replicate hc]
  decide

theorem unsigned_positional {ds : Text} (hds : ∀ c ∈ ds, c.isDigit = true) (point : Int) :
    Unsigned (positional ds point) := by
  have htake (n : Nat) : ∀ c ∈ ds.take n, c.isDigit = true :=
    fun c hc => hds c (List.mem_of_mem_take hc)
  unfold positional
  split
  · exact unsigned_cons (by decide) _
  split
  · refine unsigned_append (unsigned_append (unsigned_digits hds) ?_) (unsigned_cons (by decide) _)
    exact unsigned_digits (isDigit_zeros _)
  · exact unsigned_append (unsigned_digits (htake _)) (unsigned_cons (by decide) _)

theorem unsigned_scientific {ds : Text} (hds : ∀ c ∈ ds, c.isDigit = true) (point : Int) :
    Unsigned (scientific ds point) := by
  have hfirst : ∀ c ∈ ds.take 1, c.isDigit = true := fun c hc => hds c (List.mem_of_mem_take hc)
  refine unsigned_append (unsigned_append (unsigned_digits hfirst) ?_) ?_
  · split
    · exact nofun
    · exact unsigned_cons (by decide) _
  · exact unsigned_cons (by decide) _

theorem unsigned_layout (coefficient : Nat) (exponent : Int) :
    Unsigned (layout coefficient exponent) := by
  unfold layout
  simp only
  split
  · exact unsigned_positional (isDigit_significant coefficient) _
  · exact unsigned_scientific (isDigit_significant coefficient) _

end Decimal
namespace Rank

theorem one_pos : 0 < one := by decide +kernel

theorem scaled_ne_zero {rank : Nat} (h : rank ≠ 0) : scaled rank ≠ 0 := by
  intro hzero
  have hrank := nearest_scaled rank
  rw [hzero] at hrank
  exact h (hrank.symm.trans (by decide))

/-- The text of a magnitude: no sign, and it denotes the magnitude. -/
def Denotes (t : Text) (rank : Nat) : Prop :=
  Literal.Unsigned t ∧ Binary64.read? t = some (.ofRank false rank)

theorem denotes_shortestFrom {rank count digits : Nat} {place : Int} {t : Text}
    (h : shortestFrom rank place count digits = some t) : Denotes t rank := by
  induction digits generalizing count with
  | zero => cases h
  | succ digits ih =>
    rw [shortestFrom] at h
    split at h
    next text hfind =>
      cases h
      obtain ⟨n, _, hn⟩ := List.mem_map.mp (List.mem_of_find?_eq_some hfind)
      have hread := List.find?_some hfind
      exact ⟨hn ▸ Decimal.unsigned_layout n _, of_decide_eq_true hread⟩
    next => exact ih h

theorem denotes_digits {n rank : Nat} {rest : Text} {e : Int}
    (hrest : ∀ c ∈ rest.head?, c.isDigit = false ∧ c ≠ '.')
    (he : Literal.exponent? rest = some e) (hrank : Literal.rank n e = rank) :
    Denotes (Text.ofNat n ++ rest) rank := by
  have hdigits := Text.isDigit_ofNat n
  have hne := Text.ofNat_ne_nil n
  refine ⟨Literal.unsigned_digits_append hdigits hne rest, ?_⟩
  rw [Binary64.read?, Literal.parse?_digits hdigits hne hrest, he, Option.map_some,
    Option.map_some, Literal.value_eq_ofRank, Text.digitsValue_ofNat, hrank]

theorem denotes_exactText {rank : Nat} (h : rank ≠ 0) : Denotes (exactText rank) rank := by
  -- The number of places is kept out of sight, lest its powers be computed.
  obtain ⟨places, hplaces⟩ : ∃ places : Nat, places = 1074 := ⟨_, rfl⟩
  have hone : one = Nat.pow 2 places := by rw [hplaces, one]
  have hexponent : Literal.exponent? (Text.ofString "e-1074") = some (-(places : Int)) := by
    rw [hplaces]
    decide
  have hpos : 0 < places := by omega
  rw [exactText, ← hplaces]
  exact denotes_digits (by decide) hexponent
    (Literal.rank_expansion (scaled_ne_zero h) hpos hone)

theorem denotes_shortest {rank : Nat} (h : rank ≠ 0) : Denotes (shortest rank) rank := by
  rw [shortest, if_neg h]
  cases hfrom : shortestFrom rank (decimalPlace rank) 1 17 with
  | none =>
    rw [Option.getD_none]
    exact denotes_exactText h
  | some t =>
    rw [Option.getD_some]
    exact denotes_shortestFrom hfrom

theorem denotes_ofNat {n rank : Nat} (hn : n ≠ 0) (h : scaled rank = n * one) :
    Denotes (Text.ofNat n) rank := by
  have hempty : Literal.exponent? [] = some 0 := rfl
  have hdigits := denotes_digits (by decide) hempty (Literal.rank_zero_exponent hn h)
  rwa [List.append_nil] at hdigits

end Rank
namespace Binary64

/-! ## Texts of numbers -/

/-- A zero with a plus sign, and every other number as it is. -/
def withPositiveZero (x : Binary64) : Binary64 := if x.isZero then zero false else x

theorem isZero_number (negative : Bool) (rank : Fin (Rank.infinity + 1)) :
    isZero (.number negative rank) = decide (rank.val = 0) := by
  rw [isZero, place?, Bool.eq_iff_iff, beq_iff_eq, Option.some.injEq, decide_eq_true_eq]
  cases negative <;> simp only [if_true, if_false, Bool.false_eq_true] <;> omega

theorem ofRank_val (negative : Bool) (rank : Fin (Rank.infinity + 1)) :
    ofRank negative rank = .number negative rank := by
  have hmin : min rank.val Rank.infinity = rank.val := Nat.min_eq_left (Nat.le_of_lt_succ rank.isLt)
  exact congrArg (Binary64.number negative) (Fin.ext hmin)

theorem withPositiveZero_of_ne {rank : Fin (Rank.infinity + 1)} (h : rank.val ≠ 0)
    (negative : Bool) :
    withPositiveZero (.number negative rank) = .number negative rank := by
  rw [withPositiveZero, isZero_number, if_neg]
  rwa [decide_eq_true_eq]

theorem number_eq_zero {rank : Fin (Rank.infinity + 1)} (h : rank.val = 0) (negative : Bool) :
    Binary64.number negative rank = zero negative := by
  rw [zero, ← h, ofRank_val]

theorem isZero_iff {x : Binary64} : x.isZero = true ↔ ∃ negative, x = zero negative := by
  constructor
  · intro h
    cases x with
    | nan => cases h
    | number negative rank =>
      rw [isZero_number, decide_eq_true_eq] at h
      exact ⟨negative, number_eq_zero h negative⟩
  · rintro ⟨negative, rfl⟩
    cases negative <;> decide

theorem withPositiveZero_zero (negative : Bool) : (zero negative).withPositiveZero = zero false := by
  cases negative <;> decide

/-- The text of a magnitude other than zero, with the sign of the number. -/
theorem read?_withSign_denotes {t : Text} {rank : Fin (Rank.infinity + 1)} (h : rank.val ≠ 0)
    (ht : Rank.Denotes t rank) (negative : Bool) :
    read? (withSign negative t) = some (withPositiveZero (.number negative rank)) := by
  rw [read?_withSign ht.1 ht.2, ofRank_val, withPositiveZero_of_ne h]

theorem integer?_number {negative : Bool} {rank : Fin (Rank.infinity + 1)} {n : Int}
    (h : integer? (.number negative rank) = some n) :
    ∃ m : Nat, Rank.scaled rank = m * Rank.one ∧ n = if negative then -(m : Int) else m := by
  rw [integer?] at h
  split at h
  · cases h
  next hwhole =>
    have hmod : Rank.scaled rank % Rank.one = 0 :=
      Decidable.byContradiction fun hne => hwhole (.inr hne)
    obtain ⟨m, hm⟩ := Nat.dvd_of_mod_eq_zero hmod
    rw [Nat.mul_comm] at hm
    have hone : (Rank.one : Int) ≠ 0 := Int.ofNat_ne_zero.mpr (Nat.ne_of_gt Rank.one_pos)
    refine ⟨m, hm, ?_⟩
    rw [units, hm, Int.natCast_mul] at h
    cases negative with
    | false =>
      rw [if_neg Bool.false_ne_true, Int.mul_tdiv_cancel _ hone] at h
      exact (Option.some.inj h).symm
    | true =>
      rw [if_pos rfl, Int.neg_tdiv, Int.mul_tdiv_cancel _ hone] at h
      exact (Option.some.inj h).symm

theorem ofInt_signed {m : Nat} (hm : m ≠ 0) (negative : Bool) :
    Text.ofInt (if negative then -(m : Int) else m) = withSign negative (Text.ofNat m) := by
  cases negative with
  | false =>
    have hneg : ¬(m : Int) < 0 := by omega
    rw [if_neg Bool.false_ne_true, Text.ofInt, if_neg hneg, Int.natAbs_natCast]
    rfl
  | true =>
    have hneg : -(m : Int) < 0 := by omega
    rw [if_pos rfl, Text.ofInt, if_pos hneg, Int.natAbs_neg, Int.natAbs_natCast]
    rfl

theorem render_zero (negative : Bool) : (zero negative).render = "0" := by
  cases negative <;> decide +kernel

/-- Every number but NaN is read back from its text, up to the sign of zero. -/
theorem read?_render {x : Binary64} (hx : x ≠ .nan) : read? x.render = some x.withPositiveZero := by
  cases x with
  | nan => exact absurd rfl hx
  | number negative rank =>
    by_cases hzero : rank.val = 0
    · rw [number_eq_zero hzero, render_zero, withPositiveZero_zero]
      decide
    have hinspect (hfinite : ¬rank.val = Rank.infinity) :
        read? (inspect (.number negative rank)) =
          some (withPositiveZero (.number negative rank)) := by
      rw [inspect, if_neg hfinite]
      exact read?_withSign_denotes hzero (Rank.denotes_shortest hzero) negative
    have hinteger {n : Int} (hn : integer? (.number negative rank) = some n) :
        read? (Text.ofInt n) = some (withPositiveZero (.number negative rank)) := by
      obtain ⟨m, hm, rfl⟩ := integer?_number hn
      have hne : m ≠ 0 := by
        rintro rfl
        exact Rank.scaled_ne_zero hzero (hm.trans (Nat.zero_mul _))
      rw [ofInt_signed hne]
      exact read?_withSign_denotes hzero (Rank.denotes_ofNat hne hm) negative
    rw [render]
    split
    next hinfinite =>
      have hrank : Binary64.number negative rank = infinity negative := by
        rw [infinity, ← hinfinite, ofRank_val]
      rw [withPositiveZero_of_ne hzero, hrank]
      cases negative <;> decide
    next hfinite =>
      split
      next n hn =>
        split
        · exact hinteger hn
        · exact hinspect hfinite
      next => exact hinspect hfinite

theorem render_withPositiveZero (x : Binary64) : x.withPositiveZero.render = x.render := by
  cases x with
  | nan => rfl
  | number negative rank =>
    by_cases hzero : rank.val = 0
    · rw [number_eq_zero hzero, withPositiveZero_zero, render_zero, render_zero]
    · rw [withPositiveZero_of_ne hzero]

theorem same_withPositiveZero {x : Binary64} (hx : x ≠ .nan) : x.same x.withPositiveZero = true := by
  cases x with
  | nan => exact absurd rfl hx
  | number negative rank =>
    by_cases hzero : rank.val = 0
    · rw [number_eq_zero hzero, withPositiveZero_zero]
      cases negative <;> decide
    · rw [withPositiveZero_of_ne hzero]
      exact decide_eq_true rfl

end Binary64
end SmallLisp
