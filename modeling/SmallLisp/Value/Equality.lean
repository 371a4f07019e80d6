import SmallLisp.Value.Basic

/-!
Equality of values.  `same` compares without bound; `sameWithin` is the same comparison, left to
right, giving up when it would take more stack frames than it may.
-/

namespace SmallLisp
namespace Value

mutual

/-- Equal lists have equal elements, numbers are compared as numbers, procedures by identity, and
values of different variants are different. -/
def same : Value → Value → Bool
  | .number x, .number y => x.same y
  | .bool a, .bool b => a == b
  | .symbol a, .symbol b => a == b
  | .list xs, .list ys => sameAll xs ys
  | .closure i .., .closure j .. => i == j
  | .builtin p i, .builtin q j => p == q && i == j
  | .unspecified, .unspecified => true
  | _, _ => false

def sameAll : List Value → List Value → Bool
  | [], [] => true
  | x :: xs, y :: ys => same x y && sameAll xs ys
  | _, _ => false

end

mutual

/-- `same` with so many frames; nothing if they are not enough.  Two lists of one length take three
frames, below which their elements are compared. -/
def sameWithin (frames : Nat) : Value → Value → Option Bool
  | .list xs, .list ys =>
    if xs.length ≠ ys.length then some false
    else if frames < 3 then none
    else sameAllWithin (frames - 3) xs ys
  | x, y => some (same x y)

def sameAllWithin (frames : Nat) : List Value → List Value → Option Bool
  | x :: xs, y :: ys =>
    match sameWithin frames x y with
    | some true => sameAllWithin frames xs ys
    | other => other
  | _, _ => some true

end

theorem sameAll_of_length_ne : (xs ys : List Value) → xs.length ≠ ys.length → sameAll xs ys = false
  | [], [], h => absurd rfl h
  | [], _ :: _, _ => rfl
  | _ :: _, [], _ => rfl
  | x :: xs, y :: ys, h => by
    have hl : xs.length ≠ ys.length := fun e => h (by simp [e])
    simp [sameAll, sameAll_of_length_ne xs ys hl]

mutual

/-- The frames do not matter if there are three for each list of a value inside another. -/
theorem sameWithin_eq_same :
    (x y : Value) → (frames : Nat) → 3 * x.height ≤ frames →
      sameWithin frames x y = some (same x y)
  | .list xs, .list ys, frames, h => by
    have h : 3 * (heightAll xs + 1) ≤ frames := h
    by_cases hl : xs.length = ys.length
    · have hf : ¬frames < 3 := by omega
      have hx : 3 * heightAll xs ≤ frames - 3 := by omega
      simp [sameWithin, same, hl, hf, sameAllWithin_eq_sameAll xs ys (frames - 3) hl hx]
    · simp [sameWithin, same, hl, sameAll_of_length_ne xs ys hl]
  | .number _, _, _, _ | .bool _, _, _, _ | .symbol _, _, _, _ | .closure .., _, _, _
  | .builtin .., _, _, _ | .unspecified, _, _, _ => by simp [sameWithin]
  | .list _, .number _, _, _ | .list _, .bool _, _, _ | .list _, .symbol _, _, _
  | .list _, .closure .., _, _ | .list _, .builtin .., _, _ | .list _, .unspecified, _, _ => by
    simp [sameWithin]

theorem sameAllWithin_eq_sameAll :
    (xs ys : List Value) → (frames : Nat) → xs.length = ys.length → 3 * heightAll xs ≤ frames →
      sameAllWithin frames xs ys = some (sameAll xs ys)
  | [], [], _, _, _ => rfl
  | x :: xs, y :: ys, frames, hl, h => by
    have hm : 3 * max x.height (heightAll xs) ≤ frames := h
    have hx : 3 * x.height ≤ frames := by omega
    have hxs : 3 * heightAll xs ≤ frames := by omega
    have hl : xs.length = ys.length := by simpa using hl
    cases hs : same x y <;>
      simp [sameAllWithin, sameAll, sameWithin_eq_same x y frames hx, hs,
        sameAllWithin_eq_sameAll xs ys frames hl hxs]

end

/-- Whether every value of `vs` is the same as `first`, looked at in order. -/
def allSameWithin (frames : Nat) (first : Value) : List Value → Option Bool
  | [] => some true
  | v :: vs =>
    match sameWithin frames first v with
    | some true => allSameWithin frames first vs
    | other => other

end Value
end SmallLisp
