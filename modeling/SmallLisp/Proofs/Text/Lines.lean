import Mathlib.Data.List.Induction
import SmallLisp.Text.Lines

/-!
Texts cut into pieces, and the line and the column of a place in a text.

Cutting a text at a separator undoes joining pieces by it, if none of the pieces holds the separator
(`splitOn_join`).

The line feeds before a place number its line, and what follows the last of them (`lastLine`) numbers its
column.  The line itself is that and what stands behind the place, up to the next line feed
(`getElem?_splitOn_append`).
-/

namespace SmallLisp
namespace Text

/-- What follows the last line feed of a text, or all of it. -/
def lastLine (t : Text) : Text := (t.reverse.takeWhile (· != .char '\n')).reverse

/-- What stands before the first line feed of a text, or all of it. -/
def firstLine (t : Text) : Text := t.takeWhile (· != .char '\n')

theorem lastLine_append_newline (t : Text) : lastLine (t ++ [.char '\n']) = [] := by
  rw [lastLine, List.reverse_append, List.reverse_singleton, List.singleton_append,
    List.takeWhile_cons_of_neg (by simp)]
  rfl

theorem lastLine_append_of_not_mem {u : Text} (h : .char '\n' ∉ u) (t : Text) :
    lastLine (t ++ u) = lastLine t ++ u := by
  have hu : ∀ c ∈ u.reverse, (c != .char '\n') = true := fun c hc =>
    bne_iff_ne.mpr fun heq => h (heq ▸ List.mem_reverse.mp hc)
  rw [lastLine, List.reverse_append, List.takeWhile_append_of_pos hu, List.reverse_append,
    List.reverse_reverse, lastLine]

theorem firstLine_append_of_not_mem {u : Text} (h : .char '\n' ∉ u) (t : Text) :
    firstLine (u ++ t) = u ++ firstLine t :=
  List.takeWhile_append_of_pos fun _ hc => bne_iff_ne.mpr fun heq => h (heq ▸ hc)

theorem firstLine_cons_of_ne {c : CodePoint} (hc : c ≠ .char '\n') (t : Text) :
    firstLine (c :: t) = c :: firstLine t :=
  firstLine_append_of_not_mem (u := [c]) (fun h => hc (List.mem_singleton.mp h).symm) t

theorem newline_not_mem_firstLine (t : Text) : .char '\n' ∉ firstLine t := by
  intro h
  have hne := List.all_eq_true.mp List.all_takeWhile _ h
  exact bne_iff_ne.mp hne rfl

/-! ## Cutting at a separator -/

section Separator

variable {separator : CodePoint}

theorem splitOn_ne_nil (separator : CodePoint) (t : Text) : splitOn separator t ≠ [] := by
  cases t with
  | nil => exact List.cons_ne_nil _ _
  | cons c cs =>
    rw [splitOn]
    split
    · exact List.cons_ne_nil _ _
    · split <;> exact List.cons_ne_nil _ _

theorem splitOn_separator_cons (separator : CodePoint) (t : Text) :
    splitOn separator (separator :: t) = [] :: splitOn separator t := by
  obtain ⟨piece, rest, ht⟩ := List.exists_cons_of_ne_nil (splitOn_ne_nil separator t)
  rw [splitOn, ht]
  exact if_pos (beq_self_eq_true _)

theorem splitOn_cons_of_ne {c : CodePoint} (hc : c ≠ separator) {t piece : Text} {rest : List Text}
    (h : splitOn separator t = piece :: rest) :
    splitOn separator (c :: t) = (c :: piece) :: rest := by
  rw [splitOn, h]
  exact if_neg (beq_eq_false_iff_ne.mpr hc ▸ Bool.false_ne_true)

theorem splitOn_append_separator (s t : Text) :
    splitOn separator (s ++ separator :: t) = splitOn separator s ++ splitOn separator t := by
  induction s with
  | nil => exact splitOn_separator_cons separator t
  | cons c cs ih =>
    by_cases hc : c = separator
    · subst hc
      rw [List.cons_append, splitOn_separator_cons, splitOn_separator_cons, ih, List.cons_append]
    · obtain ⟨piece, rest, hcs⟩ := List.exists_cons_of_ne_nil (splitOn_ne_nil separator cs)
      rw [hcs, List.cons_append] at ih
      rw [List.cons_append, splitOn_cons_of_ne hc ih, splitOn_cons_of_ne hc hcs, List.cons_append]

theorem splitOn_of_not_mem {t : Text} (h : separator ∉ t) : splitOn separator t = [t] := by
  induction t with
  | nil => rfl
  | cons c cs ih =>
    have hc : c ≠ separator := fun heq => h (heq ▸ List.mem_cons_self)
    exact splitOn_cons_of_ne hc (ih fun hmem => h (List.mem_cons_of_mem c hmem))

theorem not_mem_of_mem_splitOn {t piece : Text} (h : piece ∈ splitOn separator t) :
    separator ∉ piece := by
  induction t generalizing piece with
  | nil =>
    rw [List.mem_singleton.mp h]
    exact List.not_mem_nil
  | cons c cs ih =>
    by_cases hc : c = separator
    · subst hc
      rw [splitOn_separator_cons] at h
      rcases List.mem_cons.mp h with rfl | hrest
      · exact List.not_mem_nil
      · exact ih hrest
    · obtain ⟨first, rest, hcs⟩ := List.exists_cons_of_ne_nil (splitOn_ne_nil separator cs)
      rw [splitOn_cons_of_ne hc hcs] at h
      rw [hcs] at ih
      rcases List.mem_cons.mp h with rfl | hrest
      · intro hmem
        rcases List.mem_cons.mp hmem with heq | hfirst
        · exact hc heq.symm
        · exact ih List.mem_cons_self hfirst
      · exact ih (List.mem_cons_of_mem first hrest)

/-- Pieces without the separator are found again after they have been joined by it. -/
theorem splitOn_join {pieces : List Text} (hne : pieces ≠ [])
    (h : ∀ piece ∈ pieces, separator ∉ piece) :
    splitOn separator (join [separator] pieces) = pieces := by
  induction pieces with
  | nil => exact absurd rfl hne
  | cons piece rest ih =>
    have hpiece := splitOn_of_not_mem (h piece List.mem_cons_self)
    cases rest with
    | nil => exact hpiece
    | cons next rest =>
      have hrest := ih (List.cons_ne_nil next rest) fun p hp => h p (List.mem_cons_of_mem piece hp)
      have hjoin : join [separator] (piece :: next :: rest) =
          piece ++ separator :: join [separator] (next :: rest) := by
        rw [join, List.append_assoc]
        · rfl
        · exact List.cons_ne_nil next rest
      rw [hjoin, splitOn_append_separator, hpiece, hrest]
      rfl

end Separator

/-! ## Cutting at line feeds -/

theorem length_splitOn (t : Text) :
    (splitOn (.char '\n') t).length = t.count (.char '\n') + 1 := by
  induction t with
  | nil => rfl
  | cons c cs ih =>
    by_cases hc : c = .char '\n'
    · subst hc
      rw [splitOn_separator_cons, List.length_cons, ih, List.count_cons_self]
    · obtain ⟨piece, rest, hcs⟩ := List.exists_cons_of_ne_nil (splitOn_ne_nil _ cs)
      rw [hcs] at ih
      rw [splitOn_cons_of_ne hc hcs, List.length_cons, List.count_cons_of_ne hc, ← ih,
        List.length_cons]

theorem head?_splitOn (t : Text) : (splitOn (.char '\n') t).head? = some (firstLine t) := by
  induction t with
  | nil => rfl
  | cons c cs ih =>
    by_cases hc : c = .char '\n'
    · subst hc
      rw [splitOn_separator_cons]
      rfl
    · obtain ⟨piece, rest, hcs⟩ := List.exists_cons_of_ne_nil (splitOn_ne_nil _ cs)
      rw [hcs] at ih
      cases ih
      rw [splitOn_cons_of_ne hc hcs, firstLine_cons_of_ne hc]
      rfl

/-- The line of the place between `s` and `t`. -/
theorem getElem?_splitOn_append (s t : Text) :
    (splitOn (.char '\n') (s ++ t))[s.count (.char '\n')]? = some (lastLine s ++ firstLine t) := by
  -- From the end of `s`, since its last line is what counts.
  induction s using List.reverseRecOn generalizing t with
  | nil =>
    have hhead := head?_splitOn t
    rw [List.head?_eq_getElem?] at hhead
    exact hhead
  | append_singleton s c ih =>
    rw [List.append_assoc, List.singleton_append, List.count_append]
    by_cases hc : c = .char '\n'
    · subst hc
      have hhead := head?_splitOn t
      rw [List.head?_eq_getElem?] at hhead
      rw [splitOn_append_separator, List.count_singleton_self, ← length_splitOn,
        List.getElem?_append_right (Nat.le_refl _), Nat.sub_self, hhead, lastLine_append_newline]
      rfl
    · have hnot : .char '\n' ∉ [c] := fun h => hc (List.mem_singleton.mp h).symm
      rw [List.count_eq_zero.mpr hnot, Nat.add_zero, ih, lastLine_append_of_not_mem hnot,
        firstLine_cons_of_ne hc, List.append_assoc, List.singleton_append]

end Text
end SmallLisp
