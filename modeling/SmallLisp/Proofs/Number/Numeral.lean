import Mathlib.Data.List.Basic
import Mathlib.Data.List.Induction
import SmallLisp.Proofs.Reader.SameText

/-!
Numbers that are integers, and their numerals.

An integer has one canonical numeral (`Text.isNumeral_iff`): decimal digits without leading zeros, after a
minus sign if the integer is negative.  A number that is an integer is printed as that numeral as long as
the integer is below `Binary64.integerBound`.  The bound is beyond the integers that are all numbers, so the
numeral of an integer need not name a number exactly.  But a numeral that has been printed names one, and
then it is read without rounding.
-/

namespace SmallLisp

namespace Text

/-- Decimal digits of basic Latin, at least one, and no zero before another digit. -/
structure IsPlain (ds : Text) : Prop where
  ne_nil : ds ≠ []
  digit {c : CodePoint} : c ∈ ds → ∃ d : Char, d.isDigit = true ∧ c = .char d
  noLeadingZero : ds.head? = some (.char '0') → ds = [.char '0']

/-- The canonical decimal numeral of an integer. -/
def IsNumeral (t : Text) (n : Int) : Prop :=
  ∃ ds : Text, ds.IsPlain ∧ digitsValue ds = n.natAbs ∧ t = if n < 0 then .char '-' :: ds else ds

theorem ofNat_of_lt {d : Nat} (hd : d < 10) : ofNat d = [.char d.digitChar] := by
  rw [ofNat, Nat.toDigits_of_lt_base hd]
  rfl

theorem ofNat_of_le {n : Nat} (hn : 10 ≤ n) :
    ofNat n = ofNat (n / 10) ++ [.char (n % 10).digitChar] := by
  rw [ofNat, Nat.toDigits_of_base_le (by decide) hn, List.map_append]
  rfl

theorem digitsValue_concat (ds : Text) (c : CodePoint) :
    digitsValue (ds ++ [c]) = digitsValue ds * 10 + c.digitValue?.getD 0 := by
  rw [digitsValue, List.foldl_append]
  rfl

theorem digitChar_sub {c : Char} (hc : c.isDigit = true) :
    c.toNat - 48 < 10 ∧ (c.toNat - 48).digitChar = c := by
  obtain ⟨hlow, hhigh⟩ := toNat_of_isDigit hc
  have hlt : c.toNat - 48 < 10 := by omega
  refine ⟨hlt, Char.toNat_inj.mp ?_⟩
  rw [Nat.toNat_digitChar_of_lt_ten hlt]
  omega

theorem isPlain_ofNat (n : Nat) : (ofNat n).IsPlain where
  ne_nil := ofNat_ne_nil n
  digit {c} hc := by
    obtain ⟨d, hd, rfl⟩ := List.mem_map.mp hc
    exact ⟨d, Nat.isDigit_of_mem_toDigits (by decide) (by decide) hd, rfl⟩
  noLeadingZero := by
    induction n using Nat.strongRecOn with
    | ind n ih =>
      intro hhead
      by_cases hn : n < 10
      · rw [ofNat_of_lt hn] at hhead ⊢
        rw [List.head?_cons] at hhead
        rw [Option.some.inj hhead]
      · -- The first digit is that of a smaller number, which is not zero.
        have hn : 10 ≤ n := Nat.le_of_not_lt hn
        rw [ofNat_of_le hn, List.head?_append_of_ne_nil _ (ofNat_ne_nil _)] at hhead
        have hvalue := digitsValue_ofNat (n / 10)
        rw [ih (n / 10) (by omega) hhead] at hvalue
        have hzero : digitsValue [.char '0'] = 0 := by decide
        omega

/-- Digits without leading zeros are the digits of their value. -/
theorem eq_ofNat_of_isPlain {ds : Text} (h : ds.IsPlain) : ds = ofNat (digitsValue ds) := by
  induction ds using List.reverseRecOn with
  | nil => exact absurd rfl h.ne_nil
  | append_singleton ds c ih =>
    obtain ⟨d, hd, rfl⟩ := h.digit (List.mem_append_right _ List.mem_cons_self)
    obtain ⟨hlt, hchar⟩ := digitChar_sub hd
    rw [digitsValue_concat, CodePoint.digitValue?_char hd, Option.getD_some]
    by_cases hnil : ds = []
    · subst hnil
      have hone : digitsValue [] * 10 + (d.toNat - 48) = d.toNat - 48 := Nat.zero_add _
      rw [hone, ofNat_of_lt hlt, hchar]
      rfl
    · have hhead : (ds ++ [CodePoint.char d]).head? = ds.head? := List.head?_append_of_ne_nil _ hnil
      have hfirst : ds.head? ≠ some (.char '0') := by
        intro hzero
        have hall := h.noLeadingZero (hhead.trans hzero)
        have hlength := congrArg List.length hall
        have hpos := List.length_pos_iff.mpr hnil
        rw [List.length_append, List.length_singleton, List.length_singleton] at hlength
        omega
      have hplain : IsPlain ds :=
        ⟨hnil, fun hc => h.digit (List.mem_append_left _ hc), fun hzero => absurd hzero hfirst⟩
      have hds := ih hplain
      have hpos : 0 < digitsValue ds := by
        refine Nat.pos_of_ne_zero fun hzero => hfirst ?_
        rw [hds, hzero]
        decide
      have hdiv : (digitsValue ds * 10 + (d.toNat - 48)) / 10 = digitsValue ds := by omega
      have hmod : (digitsValue ds * 10 + (d.toNat - 48)) % 10 = d.toNat - 48 := by omega
      rw [ofNat_of_le (by omega), hdiv, hmod, hchar, ← hds]

/-- Every integer has one numeral. -/
theorem isNumeral_iff {t : Text} {n : Int} : t.IsNumeral n ↔ t = ofInt n := by
  constructor
  · rintro ⟨ds, hplain, hvalue, rfl⟩
    rw [ofInt, ← hvalue, ← eq_ofNat_of_isPlain hplain]
  · rintro rfl
    exact ⟨ofNat n.natAbs, isPlain_ofNat _, digitsValue_ofNat _, rfl⟩

end Text
namespace Binary64

/-! ## Integers -/

/-- The number is this integer, exactly. -/
def IsInteger (x : Binary64) (n : Int) : Prop :=
  match x with
  | .nan => False
  | .number negative rank => rank.val ≠ Rank.infinity ∧ units negative rank = n * Rank.one

instance (x : Binary64) (n : Int) : Decidable (x.IsInteger n) :=
  match x with
  | .nan => inferInstanceAs (Decidable False)
  | .number negative rank =>
    inferInstanceAs (Decidable (rank.val ≠ Rank.infinity ∧ units negative rank = n * Rank.one))

variable {x y : Binary64} {m n : Int}

theorem IsInteger.ne_nan (h : x.IsInteger n) : x ≠ .nan := by
  rintro rfl
  exact h

theorem natAbs_units (negative : Bool) (rank : Nat) :
    (units negative rank).natAbs = Rank.scaled rank := by
  cases negative with
  | false => exact Int.natAbs_natCast _
  | true => exact (Int.natAbs_neg _).trans (Int.natAbs_natCast _)

theorem IsInteger.integer?_eq (h : x.IsInteger n) : x.integer? = some n := by
  cases x with
  | nan => exact h.elim
  | number negative rank =>
    obtain ⟨hfinite, hunits⟩ := h
    have hone : (Rank.one : Int) ≠ 0 := Int.ofNat_ne_zero.mpr (Nat.ne_of_gt Rank.one_pos)
    have hscaled : Rank.scaled rank = n.natAbs * Rank.one := by
      rw [← natAbs_units negative rank, hunits, Int.natAbs_mul, Int.natAbs_natCast]
    have hwhole : ¬(rank.val = Rank.infinity ∨ Rank.scaled rank % Rank.one ≠ 0) := by
      rintro (hinfinite | hrest)
      · exact hfinite hinfinite
      · exact hrest (by rw [hscaled, Nat.mul_mod_left])
    rw [integer?, if_neg hwhole, hunits, Int.mul_tdiv_cancel n hone]

theorem isInteger_zero (negative : Bool) : (zero negative).IsInteger 0 := by
  cases negative <;> decide +kernel

theorem IsInteger.withPositiveZero (h : x.IsInteger n) : x.withPositiveZero.IsInteger n := by
  by_cases hzero : x.isZero = true
  · obtain ⟨negative, rfl⟩ := isZero_iff.mp hzero
    have hn : some 0 = some n := (isInteger_zero negative).integer?_eq.symm.trans h.integer?_eq
    rw [withPositiveZero_zero, ← Option.some.inj hn]
    exact isInteger_zero false
  · rw [Binary64.withPositiveZero, if_neg hzero]
    exact h

/-- Below the bound an integer is printed as its numeral. -/
theorem IsInteger.render_eq (h : x.IsInteger n) (hn : n.natAbs < integerBound) :
    x.render = Text.ofInt n := by
  have hinteger := h.integer?_eq
  cases x with
  | nan => exact h.elim
  | number negative rank =>
    rw [render, if_neg h.1, hinteger]
    exact if_pos hn

theorem withPositiveZero_eq (x : Binary64) :
    x.withPositiveZero = if x = zero true then zero false else x := by
  by_cases hzero : x.isZero = true
  · obtain ⟨negative, rfl⟩ := isZero_iff.mp hzero
    rw [withPositiveZero_zero]
    cases negative <;> rfl
  · have hne : x ≠ zero true := fun heq => hzero (isZero_iff.mpr ⟨true, heq⟩)
    rw [withPositiveZero, if_neg hzero, if_neg hne]

/-- A number that is an integer below the bound is printed as the numeral of that integer and nothing
else is one.  Read as an atom the text is the number again, and that integer exactly, except that a
negative zero becomes positive.  Numbers of this kind with one text are equal. -/
theorem render_isNumeral (h : x.IsInteger n) (hn : n.natAbs < 10 ^ 16) :
    (∀ t : Text, t.IsNumeral n ↔ t = x.render) ∧
    (∃ z, Value.ofAtom x.render = .number z ∧ z.IsInteger n ∧
      z = if x = zero true then zero false else x) ∧
    ∀ y m, y.IsInteger m → m.natAbs < 10 ^ 16 → x.render = y.render →
      n = m ∧ x.same y = true := by
  have hbound : integerBound = 10 ^ 16 := rfl
  rw [← hbound] at hn ⊢
  refine ⟨fun t => ?_, ⟨x.withPositiveZero, ?_, h.withPositiveZero, x.withPositiveZero_eq⟩,
    fun y m hy hm hxy => ?_⟩
  · rw [h.render_eq hn, Text.isNumeral_iff]
  · exact Value.ofAtom_render h.ne_nan
  · -- Both are read from the one text, so they differ at most in the sign of a zero.
    have hread : some x.withPositiveZero = some y.withPositiveZero := by
      rw [← read?_render h.ne_nan, hxy, read?_render hy.ne_nan]
    have hinteger := h.withPositiveZero.integer?_eq
    rw [Option.some.inj hread, hy.withPositiveZero.integer?_eq] at hinteger
    refine ⟨(Option.some.inj hinteger).symm, ?_⟩
    exact (Value.same_iff_render_eq (x := .number x) (y := .number y) h.ne_nan hy.ne_nan).mpr hxy

/-- The largest integer below the bound that is a number is beyond `2 ^ 53`, and negative zero is an
integer too. -/
theorem render_isNumeral_atBound :
    (∃ x : Binary64, x.IsInteger 9999999999999998 ∧ x.render = "9999999999999998" ∧
      Value.ofAtom "9999999999999998" = .number x) ∧
    Value.ofAtom (zero true).render = .number (zero false) ∧
    (zero false).same (zero true) = true := by
  obtain ⟨x, hx, hne⟩ : ∃ x : Binary64, x.IsInteger 9999999999999998 ∧ x ≠ zero true :=
    ⟨ofNat 9999999999999998, by decide +kernel⟩
  obtain ⟨hnumeral, ⟨z, hz, -, hzx⟩, -⟩ := render_isNumeral hx (by decide)
  have hrender : x.render = "9999999999999998" := by
    rw [← (hnumeral "9999999999999998").mp (Text.isNumeral_iff.mpr (by decide +kernel))]
  have hzero (negative : Bool) := render_isNumeral (isInteger_zero negative) (by decide)
  obtain ⟨-, ⟨w, hw, -, hwx⟩, -⟩ := hzero true
  refine ⟨⟨x, hx, hrender, ?_⟩, ?_, ?_⟩
  · rw [← hrender, hz, hzx, if_neg hne]
  · rw [hw, hwx, if_pos rfl]
  · exact ((hzero false).2.2 (zero true) 0 (isInteger_zero true) (by decide)
      ((render_zero false).trans (render_zero true).symm)).2

end Binary64
end SmallLisp
