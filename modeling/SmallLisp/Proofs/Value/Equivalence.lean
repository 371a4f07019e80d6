import Mathlib.Data.List.Pairwise
import SmallLisp.Proofs.Eval.Bounded

/-!
Sameness of values is a partial equivalence.

`Matches` says what two values that are the same have in common, variant by variant and with no mention
of values that are not.  Sameness is symmetric and transitive because this relation is, and the only
values that are not the same as themselves are those that hold NaN.  So the primitive that compares its
first argument with each of the others decides whether any two of them are the same
(`equal_decides_all_pairs`), and the order of the arguments does not matter.
-/

namespace SmallLisp

namespace Binary64

/-! ## Numbers -/

theorem same_iff {x y : Binary64} : x.same y = true ↔ x ≠ .nan ∧ x.place? = y.place? := by
  cases x with
  | nan => simp [same, place?]
  | number s a =>
    cases y with
    | nan => simp [same, place?]
    | number t b => simp [same, place?]

theorem same_symm {x y : Binary64} (h : x.same y = true) : y.same x = true := by
  rw [same_iff] at h ⊢
  obtain ⟨hx, hplace⟩ := h
  refine ⟨?_, hplace.symm⟩
  intro hy
  subst hy
  cases x with
  | nan => exact hx rfl
  | number s a => cases hplace

theorem same_trans {x y z : Binary64} (hxy : x.same y = true) (hyz : y.same z = true) :
    x.same z = true := by
  rw [same_iff] at hxy hyz ⊢
  exact ⟨hxy.1, hxy.2.trans hyz.2⟩

theorem same_self_iff {x : Binary64} : x.same x = true ↔ x ≠ .nan := by
  rw [same_iff]
  simp

end Binary64
namespace Value

mutual

/-- Two values that are the same. -/
inductive Matches : Value → Value → Prop
  | number {x y : Binary64} : x.same y = true → Matches (.number x) (.number y)
  | bool (b : Bool) : Matches (.bool b) (.bool b)
  | symbol (name : Text) : Matches (.symbol name) (.symbol name)
  | list {xs ys : List Value} : MatchesAll xs ys → Matches (.list xs) (.list ys)
  | closure {id f g : Nat} {xs ys : List Text} {b c : Value} :
    Matches (.closure id xs b f) (.closure id ys c g)
  | builtin (op : Primitive) (id : Nat) : Matches (.builtin op id) (.builtin op id)
  | unspecified : Matches .unspecified .unspecified

inductive MatchesAll : List Value → List Value → Prop
  | nil : MatchesAll [] []
  | cons {x y : Value} {xs ys : List Value} :
    Matches x y → MatchesAll xs ys → MatchesAll (x :: xs) (y :: ys)

end

mutual

theorem matches_of_same {x y : Value} (h : x.same y = true) : Matches x y := by
  cases x with
  | number a =>
    cases y with
    | number b => exact .number h
    | _ => cases h
  | bool a =>
    cases y with
    | bool b =>
      obtain rfl : a = b := by simpa [same] using h
      exact .bool a
    | _ => cases h
  | symbol a =>
    cases y with
    | symbol b =>
      obtain rfl : a = b := by simpa [same] using h
      exact .symbol a
    | _ => cases h
  | list xs =>
    cases y with
    | list ys => exact .list (matchesAll_of_sameAll h)
    | _ => cases h
  | closure i =>
    cases y with
    | closure j =>
      obtain rfl : i = j := by simpa [same] using h
      exact .closure
    | _ => cases h
  | builtin p i =>
    cases y with
    | builtin q j =>
      obtain ⟨rfl, rfl⟩ : p = q ∧ i = j := by simpa [same] using h
      exact .builtin p i
    | _ => cases h
  | unspecified =>
    cases y with
    | unspecified => exact .unspecified
    | _ => cases h

theorem matchesAll_of_sameAll {xs ys : List Value} (h : sameAll xs ys = true) :
    MatchesAll xs ys := by
  cases xs with
  | nil =>
    cases ys with
    | nil => exact .nil
    | cons y ys => cases h
  | cons x xs =>
    cases ys with
    | nil => cases h
    | cons y ys =>
      rw [sameAll, Bool.and_eq_true] at h
      exact .cons (matches_of_same h.1) (matchesAll_of_sameAll h.2)

end

mutual

theorem Matches.same {x y : Value} : Matches x y → x.same y = true
  | .number h => h
  | .bool b => by simp [Value.same]
  | .symbol name => by simp [Value.same]
  | .list items => items.sameAll
  | .closure => by simp [Value.same]
  | .builtin op id => by simp [Value.same]
  | .unspecified => rfl

theorem MatchesAll.sameAll {xs ys : List Value} : MatchesAll xs ys → Value.sameAll xs ys = true
  | .nil => rfl
  | .cons head tail => by rw [Value.sameAll, head.same, tail.sameAll, Bool.and_self]

end

mutual

theorem Matches.symm {x y : Value} : Matches x y → Matches y x
  | .number h => .number (Binary64.same_symm h)
  | .bool b => .bool b
  | .symbol name => .symbol name
  | .list items => .list items.symm
  | .closure => .closure
  | .builtin op id => .builtin op id
  | .unspecified => .unspecified

theorem MatchesAll.symm {xs ys : List Value} : MatchesAll xs ys → MatchesAll ys xs
  | .nil => .nil
  | .cons head tail => .cons head.symm tail.symm

end

mutual

theorem Matches.trans {x y z : Value} : Matches x y → Matches y z → Matches x z
  | .number h, .number h' => .number (Binary64.same_trans h h')
  | .bool b, .bool _ => .bool b
  | .symbol name, .symbol _ => .symbol name
  | .list items, .list items' => .list (items.trans items')
  | .closure, .closure => .closure
  | .builtin op id, .builtin _ _ => .builtin op id
  | .unspecified, .unspecified => .unspecified

theorem MatchesAll.trans {xs ys zs : List Value} :
    MatchesAll xs ys → MatchesAll ys zs → MatchesAll xs zs
  | .nil, .nil => .nil
  | .cons head tail, .cons head' tail' => .cons (head.trans head') (tail.trans tail')

end

theorem Matches.kind_eq {x y : Value} (h : Matches x y) : x.kind = y.kind := by
  cases h <;> rfl

theorem same_symm {x y : Value} (h : x.same y = true) : y.same x = true :=
  (matches_of_same h).symm.same

theorem same_trans {x y z : Value} (hxy : x.same y = true) (hyz : y.same z = true) :
    x.same z = true :=
  ((matches_of_same hxy).trans (matches_of_same hyz)).same

/-! ## Values that are not the same as themselves -/

mutual

/-- NaN is the value or stands in it, in a list at any depth. -/
def holdsNaN : Value → Bool
  | .number x => decide (x = .nan)
  | .list items => anyHoldsNaN items
  | _ => false

def anyHoldsNaN : List Value → Bool
  | [] => false
  | v :: vs => v.holdsNaN || anyHoldsNaN vs

end

mutual

theorem same_self (v : Value) : v.same v = !v.holdsNaN := by
  cases v with
  | number x =>
    rw [Bool.eq_iff_iff]
    show x.same x = true ↔ _
    rw [Binary64.same_self_iff]
    simp [holdsNaN]
  | list items => exact sameAll_self items
  | _ => simp [same, holdsNaN]

theorem sameAll_self (vs : List Value) : sameAll vs vs = !anyHoldsNaN vs := by
  cases vs with
  | nil => rfl
  | cons v vs => rw [sameAll, anyHoldsNaN, same_self v, sameAll_self vs, Bool.not_or]

end

/-! ## All pairs of a list -/

/-- Whichever two places are compared, the values there are the same. -/
def AllSame (vs : List Value) : Prop :=
  ∀ i j : Fin vs.length, i ≠ j → vs[i].same vs[j] = true

instance (vs : List Value) : Decidable (AllSame vs) :=
  inferInstanceAs (Decidable (∀ i j : Fin vs.length, i ≠ j → _ = true))

theorem allSame_iff_pairwise {vs : List Value} :
    AllSame vs ↔ vs.Pairwise fun x y => x.same y = true := by
  rw [List.pairwise_iff_getElem]
  constructor
  · intro h i j hi hj hij
    exact h ⟨i, hi⟩ ⟨j, hj⟩ (by simp; omega)
  · intro h i j hij
    rcases Nat.lt_or_gt_of_ne (Fin.val_ne_of_ne hij) with hlt | hgt
    · exact h i j i.isLt j.isLt hlt
    · exact same_symm (h j i j.isLt i.isLt hgt)

theorem allSame_perm {vs ws : List Value} (h : vs.Perm ws) : AllSame vs ↔ AllSame ws := by
  rw [allSame_iff_pairwise, allSame_iff_pairwise]
  exact h.pairwise_iff same_symm

/-- It is enough to compare the first value with the others. -/
theorem all_same_first {first : Value} {rest : List Value} :
    rest.all first.same = decide (AllSame (first :: rest)) := by
  rw [Bool.eq_iff_iff, List.all_eq_true, decide_eq_true_eq, allSame_iff_pairwise,
    List.pairwise_cons]
  constructor
  · intro h
    refine ⟨h, List.pairwise_of_forall_mem_list ?_⟩
    intro x hx y hy
    exact same_trans (same_symm (h x hx)) (h y hy)
  · intro h
    exact h.1

theorem perform_equal (args : List Value) :
    Primitive.equal.perform args = pure (.bool (decide (AllSame args))) := by
  cases args with
  | nil => rfl
  | cons first rest =>
    rw [← all_same_first]
    rfl

/-- A comparison of two values is the same from some number of stack frames on, and below it there is
none. -/
theorem exists_sameWithin (x y : Value) :
    ∃ need, ∀ n, sameWithin n x y = if need ≤ n then some (x.same y) else none := by
  obtain ⟨need, hneed⟩ := exists_allSameWithin x [y]
  have hone (n : Nat) : allSameWithin n x [y] = sameWithin n x y := by
    rw [allSameWithin]
    split
    · next h => rw [h]; rfl
    · rfl
  refine ⟨need, fun n => ?_⟩
  rw [← hone, hneed n, List.all_cons, List.all_nil, Bool.and_true]

theorem same_comm (x y : Value) : x.same y = y.same x := by
  rw [Bool.eq_iff_iff]
  exact ⟨same_symm, same_symm⟩

theorem same_of_kind_ne {x y : Value} (h : x.kind ≠ y.kind) : x.same y = false := by
  by_contra hsame
  rw [Bool.not_eq_false] at hsame
  exact h (matches_of_same hsame).kind_eq

end Value

theorem apply_equal (host : Host) (frame id : Nat) (args : List Value) :
    ∃ need, ∀ n s, apply host (.ofFrames host n) frame (.builtin .equal id) args s =
      if need ≤ n then (.ok (.bool (decide (Value.AllSame args))), s)
      else (.error .overflow, s) := by
  have heval : Primitive.equal ≠ .eval := nofun
  have huse : Primitive.equal ≠ .use := nofun
  obtain ⟨need, hneed⟩ := (Primitive.bounded_body host frame heval huse args).enter 3
  refine ⟨need, fun n s => ?_⟩
  have hcall : apply host (.ofFrames host n) frame (.builtin .equal id) args =
      Primitive.equal.body host ((Headroom.ofFrames host n).enter 3) frame args := by
    simp [apply, Primitive.call, Primitive.arity, Arity.atLeast, Arity.admits]
  have hroom := hneed (.ofFrames host n)
  simp only [Value.perform_equal] at hroom
  rw [hcall, hroom]
  show (if need ≤ n then _ else _ : Run Value) s = _
  split <;> rfl

/-- In whatever order it is given its arguments, `equal?` decides whether any two of them are the same,
once there are stack frames enough.  Sameness itself, which is decided with stack frames enough too, is
symmetric and transitive, does not hold between values of different variants, and holds between a value
and itself unless the value holds NaN. -/
theorem equal_decides_all_pairs :
    (∀ (host : Host) (frame id : Nat) (args args' : List Value), args'.Perm args →
      ∃ need, ∀ n s, apply host (.ofFrames host n) frame (.builtin .equal id) args' s =
        if need ≤ n then (.ok (.bool (decide (Value.AllSame args))), s)
        else (.error .overflow, s)) ∧
    (∀ x y : Value, ∃ need, ∀ n, x.sameWithin n y = if need ≤ n then some (x.same y) else none) ∧
    (∀ x y : Value, x.same y = y.same x) ∧
    (∀ x y z : Value, x.same y = true → y.same z = true → x.same z = true) ∧
    (∀ x y : Value, x.kind ≠ y.kind → x.same y = false) ∧
    (∀ (id home : Nat) (formals : List Text) (body : Value) (op : Primitive) (id' : Nat),
      (Value.closure id formals body home).same (.builtin op id') = false) ∧
    (∀ x : Value, x.same x = true ↔ x.holdsNaN = false) := by
  refine ⟨?_, Value.exists_sameWithin, Value.same_comm, fun x y z => Value.same_trans,
    fun x y => Value.same_of_kind_ne, fun _ _ _ _ _ _ => rfl, ?_⟩
  · intro host frame id args args' hperm
    obtain ⟨need, hneed⟩ := apply_equal host frame id args'
    refine ⟨need, fun n s => ?_⟩
    have hall : decide (Value.AllSame args') = decide (Value.AllSame args) :=
      decide_eq_decide.mpr (Value.allSame_perm hperm)
    rw [hneed n s, hall]
  · intro x
    rw [Value.same_self]
    simp

/-- Two zeros in lists, which are the same, and a list that is not the same as itself. -/
theorem equal_decides_all_pairs_zeros :
    let plus : Value := .list [.number (.zero false)]
    let minus : Value := .list [.number (.zero true)]
    let odd : Value := .list [.number .nan]
    let host : Host := ⟨⟨[], []⟩, [], none, []⟩
    let s : State := ⟨⟨#[⟨[], none⟩], 0⟩, .start [], []⟩
    [minus, odd, plus].Perm [plus, minus, odd] ∧
      (∃ need, ∀ n, need ≤ n → apply host (.ofFrames host n) 0 (.builtin .equal 0)
        [minus, odd, plus] s = (.ok (.bool false), s)) ∧
      plus.same minus = true ∧ minus.same plus = true ∧ plus.same plus = true ∧
      odd.kind ≠ Value.unspecified.kind ∧ odd.same .unspecified = false ∧ odd.same odd = false := by
  intro plus minus odd host s
  obtain ⟨hcall, -, hcomm, htrans, hkind, -, hself⟩ := equal_decides_all_pairs
  have hperm : [minus, odd, plus].Perm [plus, minus, odd] := by
    show ([minus, odd] ++ [plus]).Perm ([plus] ++ [minus, odd])
    exact List.perm_append_comm
  have hne : odd.kind ≠ Value.unspecified.kind := by decide
  have hzeros : plus.same minus = true := by decide
  have hback : minus.same plus = true := (hcomm minus plus).trans hzeros
  refine ⟨hperm, ?_, hzeros, hback, htrans _ _ _ hzeros hback, hne, hkind _ _ hne, ?_⟩
  · obtain ⟨need, hneed⟩ := hcall host 0 0 [plus, minus, odd] [minus, odd, plus] hperm
    refine ⟨need, fun n hn => ?_⟩
    have hall : decide (Value.AllSame [plus, minus, odd]) = false := by decide
    rw [hneed n s, if_pos hn, hall]
  · rw [Bool.eq_false_iff]
    exact fun h => absurd ((hself odd).mp h) (by decide)

end SmallLisp
