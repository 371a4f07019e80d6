import SmallLisp.Store

/-!
What the operations on a store do to its frames, one frame at a time: which frames there are, and
which of them stay as they are.
-/

namespace SmallLisp
namespace Store

theorem size_define (s : Store) (i : Nat) (name : Text) (v : Value) :
    (s.define i name v).frames.size = s.frames.size := by
  simp [define]

theorem frame?_define_of_ne (s : Store) {i j : Nat} (h : j ≠ i) (name : Text) (v : Value) :
    (s.define i name v).frame? j = s.frame? j := by
  simp [define, frame?, Array.getElem?_modify, h.symm]

theorem size_defineAll (s : Store) (i : Nat) (bindings : List (Text × Value)) :
    (s.defineAll i bindings).frames.size = s.frames.size := by
  induction bindings generalizing s with
  | nil => rfl
  | cons binding rest ih =>
    show ((s.define i binding.1 binding.2).defineAll i rest).frames.size = s.frames.size
    rw [ih, size_define]

theorem frame?_defineAll_of_ne (s : Store) {i j : Nat} (h : j ≠ i)
    (bindings : List (Text × Value)) : (s.defineAll i bindings).frame? j = s.frame? j := by
  induction bindings generalizing s with
  | nil => rfl
  | cons binding rest ih =>
    show ((s.define i binding.1 binding.2).defineAll i rest).frame? j = s.frame? j
    rw [ih, frame?_define_of_ne s h]

theorem size_extend (s : Store) (home : Nat) (formals : List Text) (args : List Value) :
    (s.extend home formals args).2.frames.size = s.frames.size + 1 := by
  show ((s.newFrame (some home)).2.defineAll _ _).frames.size = s.frames.size + 1
  rw [size_defineAll]
  simp [newFrame]

theorem frame?_extend_of_lt (s : Store) (home : Nat) (formals : List Text) (args : List Value)
    {i : Nat} (hi : i < s.frames.size) :
    (s.extend home formals args).2.frame? i = s.frame? i := by
  show ((s.newFrame (some home)).2.defineAll s.frames.size _).frame? i = s.frame? i
  rw [frame?_defineAll_of_ne _ (Nat.ne_of_lt hi)]
  simp [newFrame, frame?, Array.getElem?_push, Nat.ne_of_lt hi]

end Store
end SmallLisp
