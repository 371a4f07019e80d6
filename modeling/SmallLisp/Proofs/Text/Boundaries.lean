import Mathlib.Data.List.TakeWhile
import SmallLisp.Proofs.Text.Lines

/-!
The lines of a document.

A document has line boundaries that are no line feeds.  So behind a text begins another line than its line
feeds tell, unless it has no other boundaries (`lineFeedsOnly`): the line numbered by its `boundaries`,
which goes on from its `openLine` (`lines_append_cons`).
-/

namespace SmallLisp
namespace Text

/-- How many lines of a document end in a text. -/
def boundaries : Text → Nat
  | [] => 0
  | .char '\r' :: .char '\n' :: cs => boundaries cs + 1
  | c :: cs => if c.isLineBoundary then boundaries cs + 1 else boundaries cs

/-- What follows the last line boundary of a text, or all of it. -/
def openLine (t : Text) : Text := (t.reverse.takeWhile (!·.isLineBoundary)).reverse

/-- The first line of a document with the boundary that ends it. -/
def headLine (t : Text) : Text := (lines t).headD []

/-- Whether every line boundary is a line feed, alone or after a carriage return. -/
def lineFeedsOnly : Text → Bool
  | [] => true
  | .char '\r' :: .char '\n' :: cs => lineFeedsOnly cs
  | c :: cs => (c == .char '\n' || !c.isLineBoundary) && lineFeedsOnly cs

/-! ## Runs at the end of a text -/

section LastRun

variable {p : CodePoint → Bool} {c d : CodePoint} {t : Text}

/-- A run at the end is not lengthened by what cannot belong to it. -/
theorem lastRun_cons_of_neg (hc : p c = false) (t : Text) :
    ((c :: t).reverse.takeWhile p).reverse = (t.reverse.takeWhile p).reverse := by
  have hstop : [c].takeWhile p = [] := by rw [List.takeWhile_cons_of_neg (by simp [hc])]
  rw [List.reverse_cons, List.takeWhile_append, hstop, List.append_nil]
  split
  next hall => rw [(List.takeWhile_prefix p).eq_of_length hall]
  next => rfl

/-- Nor is it lengthened by anything before what cannot belong to it. -/
theorem lastRun_cons_of_mem (hd : d ∈ t) (hp : p d = false) (c : CodePoint) :
    ((c :: t).reverse.takeWhile p).reverse = (t.reverse.takeWhile p).reverse := by
  rw [List.reverse_cons, List.takeWhile_append, if_neg]
  intro hall
  have heq := (List.takeWhile_prefix p).eq_of_length hall
  have hall' := List.all_eq_true.mp (List.all_takeWhile (p := p) (l := t.reverse)) d
    (by rw [heq]; exact List.mem_reverse.mpr hd)
  rw [hp] at hall'
  cases hall'

end LastRun

theorem openLine_of_forall {t : Text} (h : ∀ c ∈ t, c.isLineBoundary = false) : openLine t = t := by
  have hall : ∀ c ∈ t.reverse, (!c.isLineBoundary) = true := fun c hc => by
    rw [h c (List.mem_reverse.mp hc)]
    rfl
  rw [openLine, List.takeWhile_eq_self_iff.mpr hall, List.reverse_reverse]

theorem openLine_cons_of_boundary {c : CodePoint} (hc : c.isLineBoundary = true) (t : Text) :
    openLine (c :: t) = openLine t :=
  lastRun_cons_of_neg (by rw [hc]; rfl) t

theorem openLine_cons_of_mem {d : CodePoint} {t : Text} (hd : d ∈ t) (hb : d.isLineBoundary = true)
    (c : CodePoint) : openLine (c :: t) = openLine t :=
  lastRun_cons_of_mem hd (by rw [hb]; rfl) c

/-! ## Lines -/

theorem boundaries_eq_zero_iff (t : Text) :
    boundaries t = 0 ↔ ∀ c ∈ t, c.isLineBoundary = false := by
  fun_induction boundaries t with
  | case1 => simp
  | case2 cs ih => simp [show (CodePoint.char '\r').isLineBoundary = true from rfl]
  | case3 c cs _ hc ih => simp [hc]
  | case4 c cs _ hc ih => simp [hc, ih]

theorem lines_cons_of_boundary {c : CodePoint} (hc : c.isLineBoundary = true) {t : Text}
    (hne : c = .char '\r' → t.head? ≠ some (.char '\n')) : lines (c :: t) = [c] :: lines t := by
  rw [lines, if_pos hc]
  rintro cs rfl rfl
  exact hne rfl rfl

theorem lines_cons_of_not_boundary {c : CodePoint} (hc : c.isLineBoundary = false) (t : Text) :
    lines (c :: t) = (c :: headLine t) :: (lines t).tail := by
  rw [lines, hc, headLine]
  · cases lines t <;> rfl
  · rintro cs rfl -
    exact absurd hc (by decide)

theorem headLine_cons_of_not_boundary {c : CodePoint} (hc : c.isLineBoundary = false) (t : Text) :
    headLine (c :: t) = c :: headLine t := by
  rw [headLine, lines_cons_of_not_boundary hc]
  rfl

theorem headLine_append {u : Text} (hu : ∀ c ∈ u, c.isLineBoundary = false) (t : Text) :
    headLine (u ++ t) = u ++ headLine t := by
  induction u with
  | nil => rfl
  | cons c cs ih =>
    obtain ⟨hc, hcs⟩ := List.forall_mem_cons.mp hu
    rw [List.cons_append, headLine_cons_of_not_boundary hc, ih hcs, List.cons_append]

/-- A line keeps its boundary, so it begins as the document does. -/
theorem head?_headLine (t : Text) : (headLine t).head? = t.head? := by
  fun_cases lines t <;> simp_all [headLine, lines]

/-- Where the last line of a text goes on, it is the line that the boundaries of the text tell; the lines
before it have ended. -/
theorem lines_append_cons {c : CodePoint} (hc : c.isLineBoundary = false) (s t : Text) :
    boundaries s ≤ (lines s).length ∧ ∃ rest, lines (s ++ c :: t) =
      (lines s).take (boundaries s) ++ (openLine s ++ headLine (c :: t)) :: rest := by
  fun_induction boundaries s with
  | case1 =>
    refine ⟨Nat.zero_le _, (lines t).tail, ?_⟩
    rw [List.nil_append, lines_cons_of_not_boundary hc, headLine_cons_of_not_boundary hc]
    rfl
  | case2 cs ih =>
    obtain ⟨hle, rest, hlines⟩ := ih
    have hopen : openLine (.char '\r' :: .char '\n' :: cs) = openLine cs := by
      rw [openLine_cons_of_boundary rfl, openLine_cons_of_boundary rfl]
    refine ⟨Nat.succ_le_succ hle, rest, ?_⟩
    rw [hopen]
    exact congrArg (List.cons _) hlines
  | case3 d cs hne hd ih =>
    obtain ⟨hle, rest, hlines⟩ := ih
    have hshort : d = .char '\r' → cs.head? ≠ some (.char '\n') := fun heq hhead => by
      obtain ⟨us, rfl⟩ := List.head?_eq_some_iff.mp hhead
      exact hne us heq rfl
    have hlong : d = .char '\r' → (cs ++ c :: t).head? ≠ some (.char '\n') := fun heq hhead => by
      cases cs with
      | nil =>
        cases hhead
        exact absurd hc (by decide)
      | cons e es => exact hshort heq hhead
    rw [List.cons_append, lines_cons_of_boundary hd hlong, lines_cons_of_boundary hd hshort, hlines,
      openLine_cons_of_boundary hd]
    exact ⟨Nat.succ_le_succ hle, rest, rfl⟩
  | case4 d cs hne hd ih =>
    obtain ⟨hle, rest, hlines⟩ := ih
    have hd : d.isLineBoundary = false := Bool.eq_false_iff.mpr hd
    rw [List.cons_append, lines_cons_of_not_boundary hd, lines_cons_of_not_boundary hd]
    by_cases hzero : boundaries cs = 0
    · -- All that has been read is the line that goes on.
      have hcs := (boundaries_eq_zero_iff cs).mp hzero
      rw [hzero, List.take_zero, List.nil_append, openLine_of_forall hcs] at hlines
      rw [hzero, openLine_of_forall (List.forall_mem_cons.mpr ⟨hd, hcs⟩)]
      refine ⟨Nat.zero_le _, rest, ?_⟩
      rw [headLine, hlines]
      rfl
    · obtain ⟨n, hn⟩ := Nat.exists_eq_succ_of_ne_zero hzero
      obtain ⟨e, he, hboundary⟩ : ∃ e ∈ cs, e.isLineBoundary = true := by
        simpa using mt (boundaries_eq_zero_iff cs).mpr hzero
      rw [hn] at hle hlines ⊢
      obtain ⟨line, later, hcs⟩ := List.exists_cons_of_length_pos (Nat.zero_lt_of_lt hle)
      rw [hcs] at hle hlines
      rw [openLine_cons_of_mem he hboundary, headLine, headLine, hlines, hcs]
      exact ⟨hle, rest, rfl⟩

theorem getElem?_lines_append_cons {c : CodePoint} (hc : c.isLineBoundary = false) (s t : Text) :
    (lines (s ++ c :: t))[boundaries s]? = some (openLine s ++ headLine (c :: t)) := by
  obtain ⟨hle, rest, hlines⟩ := lines_append_cons hc s t
  have hlength : ((lines s).take (boundaries s)).length = boundaries s := by
    rw [List.length_take, Nat.min_eq_left hle]
  rw [hlines, List.getElem?_append_right (Nat.le_of_eq hlength), hlength, Nat.sub_self]
  rfl

theorem getElem?_lines_append_cons_of_lt {c : CodePoint} (hc : c.isLineBoundary = false) {s : Text}
    (t : Text) {i : Nat} (hi : i < boundaries s) : (lines (s ++ c :: t))[i]? = (lines s)[i]? := by
  obtain ⟨hle, rest, hlines⟩ := lines_append_cons hc s t
  have hlength : i < ((lines s).take (boundaries s)).length := by
    rw [List.length_take, Nat.min_eq_left hle]
    exact hi
  rw [hlines, List.getElem?_append_left hlength, List.getElem?_take_of_lt hi]

/-! ## Line feeds and other boundaries -/

theorem count_newline_le_boundaries (t : Text) : t.count (.char '\n') ≤ boundaries t := by
  fun_induction boundaries t with
  | case1 => exact Nat.le_refl 0
  | case2 cs ih =>
    rw [List.count_cons_of_ne (by decide), List.count_cons_self]
    exact Nat.succ_le_succ ih
  | case3 c cs _ hc ih =>
    by_cases hline : c = .char '\n'
    · rw [hline, List.count_cons_self]
      exact Nat.succ_le_succ ih
    · rw [List.count_cons_of_ne hline]
      exact Nat.le_succ_of_le ih
  | case4 c cs _ hc ih =>
    have hline : c ≠ .char '\n' := by
      rintro rfl
      exact hc rfl
    rw [List.count_cons_of_ne hline]
    exact ih

theorem lineFeedsOnly_cons {c : CodePoint} {t : Text}
    (hne : ∀ u, c = .char '\r' → t = .char '\n' :: u → False) :
    lineFeedsOnly (c :: t) = ((c == .char '\n' || !c.isLineBoundary) && lineFeedsOnly t) := by
  rw [lineFeedsOnly]
  exact hne

/-- The line feeds of a text tell its line exactly if it has no other line boundaries. -/
theorem lineFeedsOnly_iff (t : Text) :
    lineFeedsOnly t = true ↔ boundaries t = t.count (.char '\n') := by
  fun_induction boundaries t with
  | case1 => exact ⟨fun _ => rfl, fun _ => rfl⟩
  | case2 cs ih =>
    rw [lineFeedsOnly, List.count_cons_of_ne (by decide), List.count_cons_self, ih,
      Nat.add_right_cancel_iff]
  | case3 c cs hne hc ih =>
    have hle := count_newline_le_boundaries cs
    rw [lineFeedsOnly_cons hne, hc]
    by_cases hline : c = .char '\n'
    · simp [hline, ih]
    · rw [List.count_cons_of_ne hline]
      exact iff_of_false (by simp [hline]) (by omega)
  | case4 c cs hne hc ih =>
    have hline : c ≠ .char '\n' := by
      rintro rfl
      exact hc rfl
    rw [lineFeedsOnly_cons hne, List.count_cons_of_ne hline, ← ih]
    simp [hc]

/-- Its last line is then the same either way. -/
theorem openLine_of_lineFeedsOnly {t : Text} (h : lineFeedsOnly t = true) :
    openLine t = lastLine t := by
  fun_induction lineFeedsOnly t with
  | case1 => rfl
  | case2 cs ih =>
    have hlast : lastLine (.char '\r' :: .char '\n' :: cs) = lastLine cs := by
      rw [lastLine, lastRun_cons_of_mem List.mem_cons_self (by simp), lastRun_cons_of_neg (by simp),
        lastLine]
    rw [openLine_cons_of_boundary rfl, openLine_cons_of_boundary rfl, ih h, hlast]
  | case3 c cs hne ih =>
    obtain ⟨hc, hcs⟩ := (Bool.and_eq_true _ _).mp h
    by_cases hline : c = .char '\n'
    · subst hline
      rw [openLine_cons_of_boundary rfl, ih hcs, lastLine, lastLine, lastRun_cons_of_neg (by simp)]
    · have hc : c.isLineBoundary = false := by simpa [hline] using hc
      by_cases hmem : .char '\n' ∈ cs
      · rw [openLine_cons_of_mem hmem rfl, ih hcs, lastLine, lastLine,
          lastRun_cons_of_mem hmem (by simp)]
      · have hzero : boundaries cs = 0 := by
          rw [(lineFeedsOnly_iff cs).mp hcs, List.count_eq_zero.mpr hmem]
        have hnot : .char '\n' ∉ c :: cs := by simp [hmem, Ne.symm hline]
        have hlast := lastLine_append_of_not_mem hnot []
        rw [List.nil_append] at hlast
        rw [hlast, openLine_of_forall
          (List.forall_mem_cons.mpr ⟨hc, (boundaries_eq_zero_iff cs).mp hzero⟩)]
        rfl

end Text
end SmallLisp
