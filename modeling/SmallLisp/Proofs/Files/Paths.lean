import SmallLisp.Files.Path
import SmallLisp.Proofs.Text.Lines

/-!
The text of a path tells the path.

The steps of a path that has been read from a text are not empty, are not the step to the directory itself
and hold no slash (`Path.IsStep`).  Writing such a path and reading it again gives the same path
(`Path.ofText_toText`), although many texts are read as one path.
-/

namespace SmallLisp
namespace Path

/-- What stands between the slashes of a path. -/
structure IsStep (step : Text) : Prop where
  ne_nil : step ≠ []
  ne_dot : step ≠ "."
  slash_not_mem : .char '/' ∉ step

variable {step t u : Text} {steps : List Text}

theorem isStep_of_mem_ofText (h : step ∈ (ofText t).steps) : IsStep step := by
  obtain ⟨hpiece, hkept⟩ := List.mem_filter.mp h
  obtain ⟨hempty, hdot⟩ := Bool.and_eq_true_iff.mp hkept
  refine ⟨?_, bne_iff_ne.mp hdot, Text.not_mem_of_mem_splitOn hpiece⟩
  rintro rfl
  cases hempty

/-! ## Steps -/

theorem steps_ofText_slash_cons (t : Text) : (ofText (.char '/' :: t)).steps = (ofText t).steps := by
  show (Text.splitOn (.char '/') (.char '/' :: t)).filter _ = _
  rw [Text.splitOn_separator_cons]
  exact List.filter_cons_of_neg (by simp)

theorem steps_ofText_join (h : ∀ step ∈ steps, IsStep step) :
    (ofText (Text.join "/" steps)).steps = steps := by
  cases steps with
  | nil => rfl
  | cons first rest =>
    have hsplit : Text.splitOn (.char '/') (Text.join "/" (first :: rest)) = first :: rest :=
      Text.splitOn_join (List.cons_ne_nil first rest) fun step hstep => (h step hstep).slash_not_mem
    show (Text.splitOn (.char '/') (Text.join "/" (first :: rest))).filter _ = _
    rw [hsplit, List.filter_eq_self]
    intro step hstep
    have hne := (h step hstep).ne_nil
    have hdot := (h step hstep).ne_dot
    simp [hne, hdot]

/-! ## Anchors -/

theorem head?_join_ne_slash (h : ∀ step ∈ steps, IsStep step) :
    (Text.join "/" steps).head? ≠ some (.char '/') := by
  cases steps with
  | nil => exact nofun
  | cons first rest =>
    obtain ⟨hne, -, hslash⟩ := h first List.mem_cons_self
    obtain ⟨c, cs, rfl⟩ := List.exists_cons_of_ne_nil hne
    have hc : c ≠ .char '/' := fun heq => hslash (heq ▸ List.mem_cons_self)
    have hhead : (Text.join "/" ((c :: cs) :: rest)).head? = some c := by
      cases rest <;> rfl
    rw [hhead]
    exact fun heq => hc (Option.some.inj heq)

theorem anchorOf_relative (h : t.head? ≠ some (.char '/')) : anchorOf t = .relative := by
  unfold anchorOf
  split
  · exact absurd rfl h
  · exact absurd rfl h
  · exact absurd rfl h
  · rfl

theorem anchorOf_root (h : t.head? ≠ some (.char '/')) : anchorOf (.char '/' :: t) = .root := by
  unfold anchorOf
  split
  next heq =>
    cases heq
    exact absurd rfl h
  next heq =>
    cases heq
    exact absurd rfl h
  next => rfl
  next hother => exact absurd rfl (hother t)

theorem anchorOf_doubleRoot (h : t.head? ≠ some (.char '/')) :
    anchorOf (.char '/' :: .char '/' :: t) = .doubleRoot := by
  unfold anchorOf
  split
  next heq =>
    cases heq
    exact absurd rfl h
  next => rfl
  next hother heq =>
    cases heq
    exact absurd rfl (hother t)
  next hother => exact absurd rfl (hother _)

/-! ## Writing and reading again -/

theorem ofText_toText {p : Path} (h : ∀ step ∈ p.steps, IsStep step) : ofText p.toText = p := by
  obtain ⟨anchor, steps⟩ := p
  have hsteps := steps_ofText_join h
  have hhead := head?_join_ne_slash h
  cases anchor with
  | relative =>
    cases steps with
    | nil => rfl
    | cons first rest => exact congrArg₂ Path.mk (anchorOf_relative hhead) hsteps
  | root =>
    refine congrArg₂ Path.mk (anchorOf_root hhead) ?_
    exact (steps_ofText_slash_cons _).trans hsteps
  | doubleRoot =>
    refine congrArg₂ Path.mk (anchorOf_doubleRoot hhead) ?_
    exact (steps_ofText_slash_cons _).trans ((steps_ofText_slash_cons _).trans hsteps)

/-- Two texts that are read as paths with the same text are read as the same path. -/
theorem ofText_eq_of_toText_eq (h : (ofText t).toText = (ofText u).toText) : ofText t = ofText u := by
  rw [← ofText_toText fun _ => isStep_of_mem_ofText (t := t), h,
    ofText_toText fun _ => isStep_of_mem_ofText]

end Path
end SmallLisp
