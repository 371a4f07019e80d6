import Mathlib.Data.List.Chain
import SmallLisp.Proofs.Eval.Arithmetic

/-!
Comparison of more than two numbers.

A comparison looks at neighbours only (`Binary64.chained`).  Each of the four relations is transitive, since
numbers are compared by their places and NaN, which has none, is in no relation to anything.  So neighbours
decide about all pairs, with NaN too (`chained_eq`), and a list is compared in one direction as its reverse
is in the other.
-/

namespace SmallLisp

namespace Binary64

/-- Both numbers have places, and these are in the relation. -/
def Placed (r : Int → Int → Prop) (x y : Binary64) : Prop :=
  ∃ a b, x.place? = some a ∧ y.place? = some b ∧ r a b

variable {x y z : Binary64}

theorem placed_iff {r : Int → Int → Prop} [DecidableRel r] :
    (match x.place?, y.place? with
      | some a, some b => decide (r a b)
      | _, _ => false) = true ↔ Placed r x y := by
  unfold Placed
  split
  next a b hx hy => simp [hx, hy]
  next hnone =>
    refine iff_of_false nofun ?_
    rintro ⟨a, b, hx, hy, -⟩
    exact hnone a b hx hy

theorem less_iff : x.less y = true ↔ Placed (· < ·) x y := placed_iff

theorem lessEq_iff : x.lessEq y = true ↔ Placed (· ≤ ·) x y := placed_iff

theorem Placed.trans {r : Int → Int → Prop} (hr : ∀ {a b c}, r a b → r b c → r a c)
    (hxy : Placed r x y) (hyz : Placed r y z) : Placed r x z := by
  obtain ⟨a, b, hx, hy, hab⟩ := hxy
  obtain ⟨b', c, hy', hz, hbc⟩ := hyz
  rw [hy] at hy'
  cases hy'
  exact ⟨a, c, hx, hz, hr hab hbc⟩

theorem less_trans (hxy : x.less y = true) (hyz : y.less z = true) : x.less z = true := by
  rw [less_iff] at hxy hyz ⊢
  exact hxy.trans Int.lt_trans hyz

theorem lessEq_trans (hxy : x.lessEq y = true) (hyz : y.lessEq z = true) : x.lessEq z = true := by
  rw [lessEq_iff] at hxy hyz ⊢
  exact hxy.trans Int.le_trans hyz

theorem chained_iff (rel : Binary64 → Binary64 → Bool) (xs : List Binary64) :
    chained rel xs = true ↔ xs.IsChain fun x y => rel x y = true := by
  match xs with
  | [] | [_] => simp [chained]
  | x :: y :: rest =>
    rw [chained, Bool.and_eq_true, chained_iff rel (y :: rest), List.isChain_cons_cons]

end Binary64
namespace Comparison

theorem holds_trans (c : Comparison) {x y z : Binary64} (hxy : c.holds x y = true)
    (hyz : c.holds y z = true) : c.holds x z = true := by
  cases c with
  | less => exact Binary64.less_trans hxy hyz
  | lessEq => exact Binary64.lessEq_trans hxy hyz
  | greater => exact Binary64.less_trans hyz hxy
  | greaterEq => exact Binary64.lessEq_trans hyz hxy

/-- The comparison in the other direction. -/
def converse : Comparison → Comparison
  | .less => .greater
  | .lessEq => .greaterEq
  | .greater => .less
  | .greaterEq => .lessEq

theorem holds_converse (c : Comparison) (x y : Binary64) : c.converse.holds x y = c.holds y x := by
  cases c <;> rfl

/-- Whichever two places are taken, the number at the first stands in the relation to the other. -/
def HoldsThroughout (c : Comparison) (xs : List Binary64) : Prop :=
  ∀ i j : Fin xs.length, i < j → c.holds xs[i] xs[j] = true

instance (c : Comparison) (xs : List Binary64) : Decidable (c.HoldsThroughout xs) :=
  inferInstanceAs (Decidable (∀ i j : Fin xs.length, i < j → _ = true))

theorem holdsThroughout_iff_pairwise {c : Comparison} {xs : List Binary64} :
    c.HoldsThroughout xs ↔ xs.Pairwise fun x y => c.holds x y = true := by
  rw [List.pairwise_iff_getElem]
  constructor
  · intro h i j hi hj hij
    exact h ⟨i, hi⟩ ⟨j, hj⟩ hij
  · intro h i j hij
    exact h i j i.isLt j.isLt hij

/-- It is enough to compare neighbours. -/
theorem chained_eq (c : Comparison) (xs : List Binary64) :
    Binary64.chained c.holds xs = decide (c.HoldsThroughout xs) := by
  have htrans : Trans (fun x y => c.holds x y = true) (fun x y => c.holds x y = true)
      (fun x y => c.holds x y = true) := ⟨c.holds_trans⟩
  rw [Bool.eq_iff_iff, Binary64.chained_iff, List.isChain_iff_pairwise, decide_eq_true_eq,
    holdsThroughout_iff_pairwise]

theorem holdsThroughout_reverse {c : Comparison} {xs : List Binary64} :
    c.HoldsThroughout xs.reverse ↔ c.converse.HoldsThroughout xs := by
  simp only [holdsThroughout_iff_pairwise, List.pairwise_reverse, holds_converse]

/-- A comparison of numbers, however many and whether or not NaN is among them, is true exactly if the
relation holds between any two of them in their order, and in the other direction it gives what it gives
for the numbers in reverse. -/
theorem compares_all_pairs (c : Comparison) (host : Host) (room : Headroom) (frame id : Nat)
    (xs : List Binary64) (s : State) :
    apply host room frame (.builtin c.primitive id) (xs.map .number) s =
      (.ok (.bool (decide (c.HoldsThroughout xs))), s) ∧
    apply host room frame (.builtin c.converse.primitive id) (xs.map .number) s =
      apply host room frame (.builtin c.primitive id) (xs.reverse.map .number) s := by
  have hcompare (c : Comparison) (xs : List Binary64) :
      apply host room frame (.builtin c.primitive id) (xs.map .number) s =
        (.ok (.bool (decide (c.HoldsThroughout xs))), s) := by
    have henough : ¬(Numeric.compare c).Lacks (xs.map .number) := by
      rintro ⟨-, hf | hf⟩ <;> cases hf
    rw [← chained_eq]
    exact congrFun ((Numeric.compare c).apply_numbers host room frame id henough) s
  refine ⟨hcompare c xs, ?_⟩
  rw [hcompare c.converse xs, hcompare c xs.reverse]
  simp only [holdsThroughout_reverse]

end Comparison
end SmallLisp
