import SmallLisp.Proofs.Number.Decimal
import SmallLisp.Reader.Form

/-!
Which texts are number literals.

The grammar says how a literal is put together: a sign or none, digits with at most one point among
them, and an exponent or none (`Literal.IsLiteral`).  The reader takes a text apart from the left and
never goes back, so each part it takes is as long as it can be.  It finds every literal nevertheless,
because no part can begin with what may still belong to the part before it
(`Literal.parse?_isSome_iff`).
-/

namespace SmallLisp
namespace Literal

/-! ## The grammar -/

/-- Digits of any script, or no code points at all. -/
def Digits (t : Text) : Prop := ∀ c ∈ t, c.isDigit = true

inductive IsSign : Text → Prop
  | none : IsSign []
  | plus : IsSign "+"
  | minus : IsSign "-"

/-- Digits, with a point behind them or among them or without one, or a point before digits. -/
inductive IsMantissa : Text → Prop
  | whole {ds : Text} (hds : Digits ds) (hne : ds ≠ []) : IsMantissa ds
  | pointed {ds part : Text} (hds : Digits ds) (hne : ds ≠ []) (hpart : Digits part) :
    IsMantissa (ds ++ .char '.' :: part)
  | pointFirst {part : Text} (hpart : Digits part) (hne : part ≠ []) : IsMantissa (.char '.' :: part)

inductive IsExponent : Text → Prop
  | none : IsExponent []
  | marked {mark : CodePoint} {sign ds : Text} (hmark : mark = .char 'e' ∨ mark = .char 'E')
      (hsign : IsSign sign) (hds : Digits ds) (hne : ds ≠ []) :
    IsExponent (mark :: (sign ++ ds))

/-- A text that is a number literal as a whole. -/
inductive IsLiteral : Text → Prop
  | mk {sign mantissa exponent : Text} (hsign : IsSign sign) (hmantissa : IsMantissa mantissa)
      (hexponent : IsExponent exponent) :
    IsLiteral (sign ++ mantissa ++ exponent)

/-! ## Parts of a text -/

theorem exists_isSign (t : Text) : ∃ s, IsSign s ∧ s ++ (sign t).2 = t := by
  unfold sign
  split
  · exact ⟨_, .minus, rfl⟩
  · exact ⟨_, .plus, rfl⟩
  · exact ⟨_, .none, rfl⟩

theorem IsSign.rest_eq {s rest : Text} (hs : IsSign s) (hrest : Unsigned rest) :
    (sign (s ++ rest)).2 = rest := by
  cases hs with
  | none => exact congrArg Prod.snd (sign_unsigned hrest)
  | plus => rfl
  | minus => rfl

theorem digits_spec (t : Text) : Digits (digits t).1 ∧ (digits t).1 ++ (digits t).2 = t :=
  ⟨fun c hc => List.all_eq_true.mp List.all_takeWhile c hc, List.takeWhile_append_dropWhile⟩

theorem digits_of_forall {t : Text} (h : Digits t) : digits t = (t, []) := by
  have hdigits : digits (t ++ []) = (t, []) := digits_append h nofun
  rwa [List.append_nil] at hdigits

theorem isSome_exponent?_cons (mark : CodePoint) (t : Text) :
    (exponent? (mark :: t)).isSome = true ↔ (mark = .char 'e' ∨ mark = .char 'E') ∧
      (digits (sign t).2).1 ≠ [] ∧ (digits (sign t).2).2 = [] := by
  rw [exponent?]
  split
  next hmark =>
    rw [Bool.or_eq_true, beq_iff_eq, beq_iff_eq] at hmark
    simp only [hmark, true_and]
    by_cases hwhole : (digits (sign t).2).1 ≠ [] ∧ (digits (sign t).2).2 = []
    · simp [hwhole]
    · have hpart : ((digits (sign t).2).1.isEmpty || !(digits (sign t).2).2.isEmpty) = true := by
        simpa [Decidable.imp_iff_not_or] using hwhole
      simp only [hpart, hwhole, if_true, Option.isSome_none, Bool.false_eq_true]
  next hmark =>
    rw [Bool.or_eq_true, beq_iff_eq, beq_iff_eq] at hmark
    simp only [hmark, false_and, Option.isSome_none, Bool.false_eq_true]

theorem exponent?_isSome_iff (t : Text) : (exponent? t).isSome = true ↔ IsExponent t := by
  constructor
  · intro h
    cases t with
    | nil => exact .none
    | cons mark t =>
      obtain ⟨hmark, hne, hrest⟩ := (isSome_exponent?_cons mark t).mp h
      obtain ⟨s, hs, ht⟩ := exists_isSign t
      obtain ⟨hds, hsplit⟩ := digits_spec (sign t).2
      rw [hrest, List.append_nil] at hsplit
      rw [← ht, ← hsplit]
      exact .marked hmark hs hds hne
  · intro h
    cases h with
    | none => rfl
    | @marked mark s ds hmark hs hds hne =>
      rw [isSome_exponent?_cons, hs.rest_eq (unsigned_digits hds), digits_of_forall hds]
      exact ⟨hmark, hne, rfl⟩

/-- Neither a digit nor a point stands here: what comes before it is not continued. -/
def Ends (t : Text) : Prop := ∀ c ∈ t.head?, c.isDigit = false ∧ c ≠ .char '.'

theorem IsExponent.ends {t : Text} (h : IsExponent t) : Ends t := by
  cases h with
  | none => exact nofun
  | marked hmark =>
    rintro c ⟨⟩
    rcases hmark with rfl | rfl <;> decide

theorem IsMantissa.unsigned {m : Text} (h : IsMantissa m) (rest : Text) : Unsigned (m ++ rest) := by
  cases h with
  | whole hds hne => exact unsigned_digits_append hds hne rest
  | @pointed ds part hds hne =>
    rw [List.append_assoc]
    exact unsigned_digits_append hds hne _
  | pointFirst => exact unsigned_cons (by decide) _

/-- What is taken for the mantissa is one, if there is a digit in it. -/
theorem exists_isMantissa {t : Text}
    (h : (digits t).1 ≠ [] ∨ (fraction (digits t).2).1 ≠ []) :
    ∃ m, IsMantissa m ∧ m ++ (fraction (digits t).2).2 = t := by
  obtain ⟨hds, hsplit⟩ := digits_spec t
  generalize (digits t).1 = ds at h hds hsplit
  generalize (digits t).2 = rest at h hsplit
  subst hsplit
  unfold fraction at h ⊢
  split at h
  next part =>
    obtain ⟨hpart, hrest⟩ := digits_spec part
    by_cases hne : ds = []
    · subst hne
      have hsome : (digits part).1 ≠ [] := h.resolve_left (not_not_intro rfl)
      exact ⟨_, .pointFirst hpart hsome, congrArg (List.cons _) hrest⟩
    · refine ⟨_, .pointed hds hne hpart, ?_⟩
      simp [hrest]
  next => exact ⟨ds, .whole hds (h.resolve_right (not_not_intro rfl)), rfl⟩

/-- A mantissa that is not continued is taken as a whole. -/
theorem IsMantissa.taken {m rest : Text} (h : IsMantissa m) (hrest : Ends rest) :
    ((digits (m ++ rest)).1 ≠ [] ∨ (fraction (digits (m ++ rest)).2).1 ≠ []) ∧
      (fraction (digits (m ++ rest)).2).2 = rest := by
  have hdigits : ∀ c ∈ rest.head?, c.isDigit = false := fun c hc => (hrest c hc).1
  have hpoint (t : Text) : ∀ c ∈ (CodePoint.char '.' :: t).head?, c.isDigit = false := by
    rintro c ⟨⟩
    decide
  cases h with
  | whole hds hne =>
    rw [digits_append hds hdigits, fraction_of_ne fun c hc => (hrest c hc).2]
    exact ⟨.inl hne, rfl⟩
  | @pointed ds part hds hne hpart =>
    rw [List.append_assoc, List.cons_append, digits_append hds (hpoint _), fraction,
      digits_append hpart hdigits]
    exact ⟨.inl hne, rfl⟩
  | @pointFirst part hpart hne =>
    rw [List.cons_append, digits_of_not_digit (hpoint _), fraction, digits_append hpart hdigits]
    exact ⟨.inr hne, rfl⟩

/-! ## Texts as a whole -/

theorem isSome_parse? (t : Text) :
    (parse? t).isSome = true ↔
      ((digits (sign t).2).1 ≠ [] ∨ (fraction (digits (sign t).2).2).1 ≠ []) ∧
        (exponent? (fraction (digits (sign t).2).2).2).isSome = true := by
  unfold parse?
  simp only
  split
  next hempty =>
    rw [Bool.and_eq_true, List.isEmpty_iff, List.isEmpty_iff] at hempty
    simp [hempty]
  next hempty =>
    rw [Bool.and_eq_true, List.isEmpty_iff, List.isEmpty_iff, Decidable.not_and_iff_not_or_not]
      at hempty
    simp [hempty]

/-- The reader accepts exactly the literals. -/
theorem parse?_isSome_iff (t : Text) : (parse? t).isSome = true ↔ IsLiteral t := by
  rw [isSome_parse?]
  constructor
  · intro h
    obtain ⟨s, hs, ht⟩ := exists_isSign t
    obtain ⟨m, hm, hsplit⟩ := exists_isMantissa h.1
    have he := (exponent?_isSome_iff _).mp h.2
    have hliteral := IsLiteral.mk hs hm he
    rwa [List.append_assoc, hsplit, ht] at hliteral
  · intro h
    cases h with
    | @mk s m e hs hm he =>
      obtain ⟨hsome, hrest⟩ := hm.taken he.ends
      rw [List.append_assoc, hs.rest_eq (hm.unsigned e), hrest]
      exact ⟨hsome, (exponent?_isSome_iff e).mpr he⟩

instance (t : Text) : Decidable (IsLiteral t) := decidable_of_iff _ (parse?_isSome_iff t)

/-- A point needs a digit beside it, a mark needs digits behind it, and a line feed is in no literal. -/
example : IsLiteral "-1.e+05" ∧ ¬IsLiteral "." ∧ ¬IsLiteral "1e" ∧ ¬IsLiteral "1\n" := by decide

end Literal

/-- An atom denotes a number exactly if it is a literal, and never NaN; every other text denotes the
symbol of that name. -/
theorem Value.ofAtom_number_iff_isLiteral (t : Text) :
    ((∃ x, ofAtom t = .number x) ↔ Literal.IsLiteral t) ∧
      (ofAtom t = .symbol t ↔ ¬Literal.IsLiteral t) ∧
      ofAtom t ≠ .number .nan := by
  have hiff := Literal.parse?_isSome_iff t
  cases hparse : Literal.parse? t with
  | none =>
    have hatom : ofAtom t = .symbol t := by
      rw [ofAtom, Binary64.read?, hparse]
      rfl
    have hnot : ¬Literal.IsLiteral t := by
      rw [← hiff, hparse]
      exact Bool.false_ne_true
    simp [hatom, hnot]
  | some l =>
    have hatom : ofAtom t = .number l.value := by
      rw [ofAtom, Binary64.read?, hparse]
      rfl
    have hliteral : Literal.IsLiteral t := hiff.mp (by rw [hparse]; rfl)
    simp [hatom, hliteral, l.value_ne_nan]

end SmallLisp
