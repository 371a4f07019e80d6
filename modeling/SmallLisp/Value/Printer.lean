import SmallLisp.Value.Basic

/-!
Two notations for values.  `render` is the notation of programs: what it gives for a form that was
read can be read again.  `inspect` is the notation of diagnostics, which marks every variant.
-/

namespace SmallLisp
namespace Value

mutual

/-- The text of a value in the notation of programs.  The unspecified value has an empty text. -/
def render : Value → Text
  | .number x => x.render
  | .bool b => if b then "true" else "false"
  | .symbol name => name
  | .list items => "(" ++ Text.join " " (renderAll items) ++ ")"
  | .closure _ formals body _ => "(λ (" ++ Text.join " " formals ++ ") " ++ body.render ++ ")"
  | .builtin op _ => "#<builtin " ++ op.name ++ ">"
  | .unspecified => ""

def renderAll : List Value → List Text
  | [] => []
  | v :: vs => v.render :: renderAll vs

end

mutual

/-- The text of a value in the notation of diagnostics. -/
def inspect : Value → Text
  | .number x => x.inspect
  | .bool b => if b then "True" else "False"
  | .symbol name => "Symbol(" ++ Text.quoted name ++ ")"
  | .list items => "[" ++ Text.join ", " (inspectAll items) ++ "]"
  | .unspecified => "Unspecified"
  | v@(.closure ..) | v@(.builtin ..) => v.render

def inspectAll : List Value → List Text
  | [] => []
  | v :: vs => v.inspect :: inspectAll vs

end

/-- The text of a value that stands where a name is expected. -/
def inspectName : Value → Text
  | .symbol name => name
  | v => v.inspect

/-! ## Frames

Writing a value takes stack frames, and more of them the deeper the value nests.  Whether there are
enough is found out part by part, from left to right, up to the first part that has too few: a list
may hold one value at many places, and then its text is far longer than the way to its deepest
part. -/

mutual

/-- Whether so many frames are enough for `render`: a list or a closure takes three, below which its
parts are written. -/
def rendersWithin (frames : Nat) : Value → Bool
  | .list items => 3 ≤ frames && rendersAllWithin (frames - 3) items
  | .closure _ _ body _ => 3 ≤ frames && body.rendersWithin (frames - 3)
  | _ => 1 ≤ frames

def rendersAllWithin (frames : Nat) : List Value → Bool
  | [] => true
  | v :: vs => v.rendersWithin frames && rendersAllWithin frames vs

end

mutual

/-- Whether so many frames are enough for `inspect`: a list takes one, below which its elements are
written, and a closure one besides those that `render` takes. -/
def inspectsWithin (frames : Nat) : Value → Bool
  | .list items => 1 ≤ frames && inspectsAllWithin (frames - 1) items
  | .closure _ _ body _ => 4 ≤ frames && body.rendersWithin (frames - 4)
  | _ => 1 ≤ frames

def inspectsAllWithin (frames : Nat) : List Value → Bool
  | [] => true
  | v :: vs => v.inspectsWithin frames && inspectsAllWithin frames vs

end

mutual

/-- Frames that are enough stay enough when there are more. -/
theorem rendersWithin_mono (v : Value) {m n : Nat} (hmn : m ≤ n) (h : v.rendersWithin m = true) :
    v.rendersWithin n = true := by
  cases v with
  | list items =>
    simp only [rendersWithin, Bool.and_eq_true, decide_eq_true_eq] at h ⊢
    obtain ⟨hm, hitems⟩ := h
    exact ⟨Nat.le_trans hm hmn, rendersAllWithin_mono items (Nat.sub_le_sub_right hmn 3) hitems⟩
  | closure id formals body frame =>
    simp only [rendersWithin, Bool.and_eq_true, decide_eq_true_eq] at h ⊢
    obtain ⟨hm, hbody⟩ := h
    exact ⟨Nat.le_trans hm hmn, rendersWithin_mono body (Nat.sub_le_sub_right hmn 3) hbody⟩
  | _ =>
    simp only [rendersWithin, decide_eq_true_eq] at h ⊢
    exact Nat.le_trans h hmn

theorem rendersAllWithin_mono (vs : List Value) {m n : Nat} (hmn : m ≤ n)
    (h : rendersAllWithin m vs = true) : rendersAllWithin n vs = true := by
  cases vs with
  | nil => rfl
  | cons v rest =>
    simp only [rendersAllWithin, Bool.and_eq_true] at h ⊢
    exact ⟨rendersWithin_mono v hmn h.1, rendersAllWithin_mono rest hmn h.2⟩

end

mutual

/-- Frames that are enough stay enough when there are more. -/
theorem inspectsWithin_mono (v : Value) {m n : Nat} (hmn : m ≤ n) (h : v.inspectsWithin m = true) :
    v.inspectsWithin n = true := by
  cases v with
  | list items =>
    simp only [inspectsWithin, Bool.and_eq_true, decide_eq_true_eq] at h ⊢
    obtain ⟨hm, hitems⟩ := h
    exact ⟨Nat.le_trans hm hmn, inspectsAllWithin_mono items (Nat.sub_le_sub_right hmn 1) hitems⟩
  | closure id formals body frame =>
    simp only [inspectsWithin, Bool.and_eq_true, decide_eq_true_eq] at h ⊢
    obtain ⟨hm, hbody⟩ := h
    exact ⟨Nat.le_trans hm hmn, rendersWithin_mono body (Nat.sub_le_sub_right hmn 4) hbody⟩
  | _ =>
    simp only [inspectsWithin, decide_eq_true_eq] at h ⊢
    exact Nat.le_trans h hmn

theorem inspectsAllWithin_mono (vs : List Value) {m n : Nat} (hmn : m ≤ n)
    (h : inspectsAllWithin m vs = true) : inspectsAllWithin n vs = true := by
  cases vs with
  | nil => rfl
  | cons v rest =>
    simp only [inspectsAllWithin, Bool.and_eq_true] at h ⊢
    exact ⟨inspectsWithin_mono v hmn h.1, inspectsAllWithin_mono rest hmn h.2⟩

end

end Value
end SmallLisp
