/-!
Double-precision numbers, exactly.

A number that is not NaN has a sign and a rank.  Rank `r` belongs to the `r`-th smallest magnitude,
so ranks are ordered as the magnitudes are, the last one is infinity, and the sign and the rank are
the bits of the interchange format.  The magnitude of a finite rank is `scaled r` times `2 ^ -1074`,
a whole number of the smallest steps, and every operation works on these whole numbers and rounds
once, with `nearestRank`.
-/

namespace SmallLisp

namespace Rank

-- Powers are written `Nat.pow`, because what `^` stands for depends on what else is imported.

/-- The number of magnitudes that share one exponent. -/
def binade : Nat := Nat.pow 2 52

/-- The rank of infinity. -/
def infinity : Nat := 2047 * binade

/-- One, in units of the smallest positive magnitude. -/
def one : Nat := Nat.pow 2 1074

/-- The magnitude of a finite rank, in units of the smallest positive one. -/
def scaled (rank : Nat) : Nat :=
  if rank < binade then rank else (binade + rank % binade) * Nat.pow 2 (rank / binade - 1)

/-- The rank nearest to `num / den` units; a half goes to the even rank.  Ranks past infinity stand
for magnitudes that are out of range. -/
def nearest (num den : Nat) : Nat :=
  let shift := (num / den).log2 - 52
  let unit := den * Nat.pow 2 shift
  let quotient := num / unit
  let twice := 2 * (num % unit)
  let roundsUp := unit < twice || (unit == twice && quotient % 2 == 1)
  shift * binade + (if roundsUp then quotient + 1 else quotient)

end Rank

/-- A double-precision number.  All NaNs are one, because no operation tells them apart. -/
inductive Binary64 where
  | nan
  | number (negative : Bool) (rank : Fin (Rank.infinity + 1))
  deriving DecidableEq

namespace Binary64

/-- The number of that sign and rank, infinity if the rank is past it. -/
def ofRank (negative : Bool) (rank : Nat) : Binary64 :=
  .number negative ⟨min rank Rank.infinity, Nat.lt_succ_of_le (Nat.min_le_right _ _)⟩

def zero (negative : Bool) : Binary64 := ofRank negative 0

def infinity (negative : Bool) : Binary64 := ofRank negative Rank.infinity

instance : Inhabited Binary64 := ⟨zero false⟩

/-- The number nearest to `units` smallest steps.  An exact zero has the sign `zeroSign`. -/
def ofUnits (zeroSign : Bool) (units : Int) : Binary64 :=
  if units = 0 then zero zeroSign else ofRank (decide (units < 0)) (Rank.nearest units.natAbs 1)

def ofNat (n : Nat) : Binary64 := ofUnits false (n * Rank.one)

/-- The value of a finite number in smallest steps. -/
def units (negative : Bool) (rank : Nat) : Int :=
  if negative then -(Rank.scaled rank : Int) else Rank.scaled rank

/-- The place of a number in the order of numbers.  Both zeros have place zero and NaN has none. -/
def place? : Binary64 → Option Int
  | .nan => none
  | .number negative rank => some (if negative then -(rank.val : Int) else rank.val)

/-- Less than; false if either number is NaN. -/
def less (x y : Binary64) : Bool :=
  match x.place?, y.place? with
  | some a, some b => decide (a < b)
  | _, _ => false

/-- Less than or equal; false if either number is NaN. -/
def lessEq (x y : Binary64) : Bool :=
  match x.place?, y.place? with
  | some a, some b => decide (a ≤ b)
  | _, _ => false

/-- Numerical equality: the zeros are equal and NaN is equal to nothing. -/
def same (x y : Binary64) : Bool :=
  match x.place?, y.place? with
  | some a, some b => decide (a = b)
  | _, _ => false

def isZero (x : Binary64) : Bool := x.place? == some 0

def isFinite : Binary64 → Bool
  | .nan => false
  | .number _ rank => rank.val != Rank.infinity

def neg : Binary64 → Binary64
  | .nan => .nan
  | .number negative rank => .number (!negative) rank

/-- The sum.  An exact zero is positive unless both terms are negative. -/
def add : Binary64 → Binary64 → Binary64
  | .number s a, .number t b =>
    if a.val = Rank.infinity then
      if b.val = Rank.infinity ∧ s ≠ t then .nan else .number s a
    else if b.val = Rank.infinity then .number t b
    else ofUnits (s && t) (units s a + units t b)
  | _, _ => .nan

def sub (x y : Binary64) : Binary64 := add x (neg y)

def mul : Binary64 → Binary64 → Binary64
  | .number s a, .number t b =>
    if a.val = Rank.infinity ∨ b.val = Rank.infinity then
      if a.val = 0 ∨ b.val = 0 then .nan else infinity (s != t)
    else ofRank (s != t) (Rank.nearest (Rank.scaled a * Rank.scaled b) Rank.one)
  | _, _ => .nan

def div : Binary64 → Binary64 → Binary64
  | .number s a, .number t b =>
    if a.val = Rank.infinity then
      if b.val = Rank.infinity then .nan else infinity (s != t)
    else if b.val = Rank.infinity then zero (s != t)
    else if b.val = 0 then
      if a.val = 0 then .nan else infinity (s != t)
    else ofRank (s != t) (Rank.nearest (Rank.scaled a * Rank.one) (Rank.scaled b))
  | _, _ => .nan

/-- The integer a finite number is cut to, toward zero; zero for the others. -/
def truncate : Binary64 → Int
  | .nan => 0
  | .number negative rank =>
    if rank.val = Rank.infinity then 0
    else (units negative rank).tdiv Rank.one

/-- The integer that a number is exactly, if it is one. -/
def integer? : Binary64 → Option Int
  | .nan => none
  | .number negative rank =>
    if rank.val = Rank.infinity ∨ Rank.scaled rank % Rank.one ≠ 0 then none
    else some ((units negative rank).tdiv Rank.one)

/-- The number whose interchange bits are `bits`; every pattern past infinity is NaN. -/
def ofBits (bits : Nat) : Binary64 :=
  let magnitude := bits % Nat.pow 2 63
  if Rank.infinity < magnitude then .nan else ofRank (decide (Nat.pow 2 63 ≤ bits)) magnitude

/-- The interchange bits of a number; NaN has none, since it has many. -/
def bits? : Binary64 → Option Nat
  | .nan => none
  | .number negative rank => some ((if negative then Nat.pow 2 63 else 0) + rank.val)

end Binary64
end SmallLisp
