import SmallLisp.Proofs.Eval.Bounded
import SmallLisp.Proofs.Number.Decimal
import SmallLisp.Proofs.Store.Roots

/-!
Errors of the primitives that take numbers only.

All of them read their arguments as numbers first and complain about the first one that is none
(`Numeric.body_eq`).  What they make of the numbers afterwards is `Numeric.ofNumbers`, in which nothing but
a division by zero can go wrong.  So which error a call ends in is told by the list of arguments alone
(`Numeric.Ends`), and only a complaint that shows a value can overflow.
-/

namespace SmallLisp

/-! ## Divisors -/

/-- What a division divides by: its only operand, or all but the first. -/
def divisors {α : Type} : List α → List α
  | [x] => [x]
  | xs => xs.tail

theorem divisors_map {α β : Type} (f : α → β) (xs : List α) :
    divisors (xs.map f) = (divisors xs).map f := by
  match xs with
  | [] | [_] | _ :: _ :: _ => rfl

namespace Binary64

theorem divideBy_eq_none_iff {x : Binary64} {ys : List Binary64} :
    divideBy x ys = none ↔ ∃ negative, zero negative ∈ ys := by
  induction ys generalizing x with
  | nil => simp [divideBy]
  | cons y ys ih =>
    rw [divideBy]
    by_cases hy : y.isZero = true
    · obtain ⟨negative, rfl⟩ := isZero_iff.mp hy
      rw [if_pos hy]
      exact iff_of_true rfl ⟨negative, List.mem_cons_self⟩
    · rw [if_neg hy, ih]
      refine exists_congr fun negative => ?_
      have hne : zero negative ≠ y := fun heq => hy (isZero_iff.mpr ⟨negative, heq.symm⟩)
      simp [hne]

theorem quotient_eq_none_iff {xs : List Binary64} :
    quotient xs = none ↔ ∃ negative, zero negative ∈ divisors xs := by
  match xs with
  | [] => simp [quotient, divisors]
  | [x] => exact divideBy_eq_none_iff
  | x :: y :: rest => exact divideBy_eq_none_iff

end Binary64

/-! ## Primitives that take numbers only -/

/-- The relations between numbers that primitives test. -/
inductive Comparison where
  | less
  | lessEq
  | greater
  | greaterEq
  deriving DecidableEq

namespace Comparison

def primitive : Comparison → Primitive
  | .less => .less
  | .lessEq => .lessEq
  | .greater => .greater
  | .greaterEq => .greaterEq

/-- Whether the relation holds between two numbers. -/
def holds : Comparison → Binary64 → Binary64 → Bool
  | .less => Binary64.less
  | .lessEq => Binary64.lessEq
  | .greater => fun x y => y.less x
  | .greaterEq => fun x y => y.lessEq x

end Comparison

/-- The primitives for arithmetic and for comparison. -/
inductive Numeric where
  | add
  | subtract
  | multiply
  | divide
  | compare (c : Comparison)
  deriving DecidableEq

namespace Numeric

def primitive : Numeric → Primitive
  | .add => .add
  | .subtract => .subtract
  | .multiply => .multiply
  | .divide => .divide
  | .compare c => c.primitive

/-- What becomes of the arguments once they are known to be numbers. -/
def ofNumbers : Numeric → List Binary64 → Except Error Value
  | .add, xs => .ok (.number (Binary64.sum xs))
  | .subtract, xs => .ok (.number (Binary64.difference xs))
  | .multiply, xs => .ok (.number (Binary64.product xs))
  | .divide, xs =>
    match Binary64.quotient xs with
    | some x => .ok (.number x)
    | none => .error .divisionByZero
  | .compare c, xs => .ok (.bool (Binary64.chained c.holds xs))

/-- The kind of what is returned. -/
def resultKind : Numeric → Text
  | .compare _ => "bool"
  | _ => "number"

theorem body_eq (f : Numeric) (host : Host) (room : Headroom) (frame : Nat) (args : List Value) :
    f.primitive.body host room frame args =
      Primitive.numbers (room.enter 1).frames f.primitive.name args >>= fun xs =>
        Run.orFail (f.ofNumbers xs) := by
  cases f with
  | add | subtract | multiply => rfl
  | divide =>
    refine congrArg (Primitive.numbers (room.enter 1).frames "/" args >>= ·) (funext fun xs => ?_)
    rw [ofNumbers]
    cases Binary64.quotient xs <;> rfl
  | compare c => cases c <;> rfl

/-- Only subtraction and division need an argument, and none minds having more. -/
theorem admits_iff (f : Numeric) (n : Nat) :
    f.primitive.arity.admits n = true ↔ (f = .subtract ∨ f = .divide → n ≠ 0) := by
  have hatLeast (least : Nat) : (Arity.atLeast least).admits n = true ↔ least ≤ n := by
    simp [Arity.admits, Arity.atLeast]
  cases f with
  | subtract | divide => simp [primitive, Primitive.arity, hatLeast, Nat.one_le_iff_ne_zero]
  | add | multiply => simp [primitive, Primitive.arity, hatLeast]
  | compare c => cases c <;> simp [primitive, Comparison.primitive, Primitive.arity, hatLeast]

/-- With numbers for arguments, only a division by zero goes wrong. -/
theorem ofNumbers_cases (f : Numeric) (xs : List Binary64) :
    (f = .divide ∧ (∃ negative, Binary64.zero negative ∈ divisors xs) ∧
      f.ofNumbers xs = .error .divisionByZero) ∨
    ¬(f = .divide ∧ ∃ negative, Binary64.zero negative ∈ divisors xs) ∧
      ∃ v : Value, v.kind = f.resultKind ∧ f.ofNumbers xs = .ok v := by
  cases f with
  | divide =>
    rw [ofNumbers]
    cases hquotient : Binary64.quotient xs with
    | none => exact .inl ⟨rfl, Binary64.quotient_eq_none_iff.mp hquotient, rfl⟩
    | some x =>
      refine .inr ⟨fun hzero => ?_, .number x, rfl, rfl⟩
      rw [← Binary64.quotient_eq_none_iff, hquotient] at hzero
      cases hzero.2
  | add | subtract | multiply | compare => exact .inr ⟨nofun, _, rfl, rfl⟩

end Numeric

/-! ## Reading numbers -/

/-- Arguments are all numbers, or there is a first one that is none. -/
theorem Value.numbers_or_first (args : List Value) :
    (∃ xs : List Binary64, args = xs.map .number) ∨
      ∃ (xs : List Binary64) (v : Value) (rest : List Value),
        args = xs.map .number ++ v :: rest ∧ v.number? = none := by
  induction args with
  | nil => exact .inl ⟨[], rfl⟩
  | cons v rest ih =>
    cases v with
    | number x =>
      rcases ih with ⟨xs, rfl⟩ | ⟨xs, w, after, rfl, hw⟩
      · exact .inl ⟨x :: xs, rfl⟩
      · exact .inr ⟨x :: xs, w, after, rfl, hw⟩
    | bool | symbol | list | closure | builtin | unspecified => exact .inr ⟨[], _, rest, rfl, rfl⟩

namespace Primitive

theorem numbers_map (frames : Nat) (name : Text) (xs : List Binary64) :
    numbers frames name (xs.map .number) = pure xs := by
  induction xs with
  | nil => rfl
  | cons x xs ih =>
    rw [List.map_cons, numbers, ih]
    rfl

/-- The first argument that is not a number is the one complained about. -/
theorem numbers_of_first (frames : Nat) (name : Text) (xs : List Binary64) {v : Value}
    (hv : v.number? = none) (rest : List Value) :
    numbers frames name (xs.map .number ++ v :: rest) =
      Run.shown frames v >>= fun text => Run.fail (.notNumber name text) := by
  induction xs with
  | nil =>
    cases v with
    | number x => cases hv
    | bool | symbol | list | closure | builtin | unspecified => rfl
  | cons x xs ih =>
    rw [List.map_cons, List.cons_append, numbers, ih, Run.shown]
    split <;> rfl

end Primitive

/-! ## How calls end -/

/-- An error of this category. -/
def Raises (c : Error.Category) (r : Except Fault Value) : Prop :=
  ∃ e : Error, r = .error (.error e) ∧ e.category = c

theorem raises_error {c : Error.Category} {e : Error} :
    Raises c (.error (.error e)) ↔ e.category = c := by
  constructor
  · rintro ⟨_, ⟨⟩, h⟩
    exact h
  · intro h
    exact ⟨e, rfl, h⟩

theorem not_raises_ok {c : Error.Category} {v : Value} : ¬Raises c (.ok v) := nofun

namespace Numeric

/-- An argument is missing. -/
def Lacks (f : Numeric) (args : List Value) : Prop := args = [] ∧ (f = .subtract ∨ f = .divide)

/-- A division by a zero of either sign. -/
def DividesByZero (f : Numeric) (args : List Value) : Prop :=
  f = .divide ∧ ∃ negative, .number (.zero negative) ∈ divisors args

/-- The outcome of a call with these arguments.  Of several errors the one of the number of arguments comes
first, then the one of their kinds, and a division by zero last. -/
structure Ends (f : Numeric) (args : List Value) (r : Except Fault Value) : Prop where
  arity : Raises .arity r ↔ f.Lacks args
  type : Raises .type r ↔ ∃ v ∈ args, v.number? = none
  /-- The complaint shows the first argument that is not a number. -/
  shown {v : Value} : args.find? (fun v => v.number?.isNone) = some v →
    r = .error (.error (.notNumber f.primitive.name v.render))
  division : Raises .divisionByZero r ↔
    f.DividesByZero args ∧ ∀ v ∈ args, v.number? ≠ none
  value : (∃ v, r = .ok v) ↔
    ¬f.Lacks args ∧ (∀ v ∈ args, v.number? ≠ none) ∧ ¬f.DividesByZero args
  kind {v : Value} : r = .ok v → v.kind = f.resultKind

section Outcomes

variable {f : Numeric}

theorem ends_of_lacks {args : List Value} (h : f.Lacks args) :
    f.Ends args (.error (.error (.arity f.primitive.name f.primitive.arity args.length))) := by
  obtain ⟨rfl, hf⟩ := h
  refine ⟨?_, ?_, nofun, ?_, ?_, nofun⟩
  · simp [raises_error, Error.category, Lacks, hf]
  · simp [raises_error, Error.category]
  · simp [raises_error, Error.category, DividesByZero, divisors]
  · simp [Lacks, hf]

theorem ends_of_first (xs : List Binary64) {v : Value} (hv : v.number? = none) (rest : List Value) :
    f.Ends (xs.map .number ++ v :: rest)
      (.error (.error (.notNumber f.primitive.name v.render))) := by
  have hmem : v ∈ xs.map Value.number ++ v :: rest :=
    List.mem_append_right _ List.mem_cons_self
  have hnot : ¬∀ w ∈ xs.map Value.number ++ v :: rest, w.number? ≠ none := fun h => h v hmem hv
  have hfind : (xs.map Value.number ++ v :: rest).find? (fun v => v.number?.isNone) = some v := by
    have hnumbers : (xs.map Value.number).find? (fun v => v.number?.isNone) = none := by
      rw [List.find?_eq_none]
      intro w hw
      obtain ⟨x, _, rfl⟩ := List.mem_map.mp hw
      exact Bool.false_ne_true
    rw [List.find?_append, hnumbers, Option.none_or, List.find?_cons_of_pos]
    rw [hv]
    rfl
  refine ⟨?_, ?_, fun {w} hw => ?_, ?_, ?_, nofun⟩
  · simp [raises_error, Error.category, Lacks]
  · rw [raises_error]
    exact iff_of_true rfl ⟨v, hmem, hv⟩
  · rw [hfind] at hw
    rw [Option.some.inj hw]
  · rw [raises_error]
    exact iff_of_false nofun fun h => hnot h.2
  · exact iff_of_false nofun fun h => hnot h.2.1

/-- The outcome for numbers, which are enough of them. -/
theorem ends_of_numbers {xs : List Binary64} (henough : ¬f.Lacks (xs.map .number)) :
    ∃ r, f.Ends (xs.map .number) r ∧ ∀ s, Run.orFail (f.ofNumbers xs) s = (r, s) := by
  have hnumbers : ∀ v ∈ xs.map Value.number, v.number? ≠ none := by
    intro v hv
    obtain ⟨x, _, rfl⟩ := List.mem_map.mp hv
    exact nofun
  have hnone : ¬∃ v ∈ xs.map Value.number, v.number? = none := fun ⟨v, hv, h⟩ => hnumbers v hv h
  have hshown {v : Value} (h : (xs.map Value.number).find? (fun v => v.number?.isNone) = some v) :
      False := by
    refine hnumbers v (List.mem_of_find?_eq_some h) ?_
    exact Option.isNone_iff_eq_none.mp (List.find?_some (p := fun v : Value => v.number?.isNone) h)
  have hzero : f.DividesByZero (xs.map .number) ↔
      f = .divide ∧ ∃ negative, Binary64.zero negative ∈ divisors xs := by
    simp [DividesByZero, divisors_map]
  rcases f.ofNumbers_cases xs with ⟨hf, hdivisor, h⟩ | ⟨hdivisor, v, hkind, h⟩
  · refine ⟨.error (.error .divisionByZero), ⟨?_, ?_, fun hv => (hshown hv).elim, ?_, ?_, nofun⟩, ?_⟩
    · rw [raises_error]
      exact iff_of_false nofun henough
    · rw [raises_error]
      exact iff_of_false nofun hnone
    · rw [raises_error]
      exact iff_of_true rfl ⟨hzero.mpr ⟨hf, hdivisor⟩, hnumbers⟩
    · exact iff_of_false nofun fun h => h.2.2 (hzero.mpr ⟨hf, hdivisor⟩)
    · intro s
      rw [h]
      rfl
  · rw [← hzero] at hdivisor
    refine ⟨.ok v, ⟨?_, ?_, fun hv => (hshown hv).elim, ?_, ?_, fun {w} hw => ?_⟩, ?_⟩
    · exact iff_of_false not_raises_ok henough
    · exact iff_of_false not_raises_ok hnone
    · exact iff_of_false not_raises_ok fun h => hdivisor h.1
    · exact iff_of_true ⟨v, rfl⟩ ⟨henough, hnumbers, hdivisor⟩
    · cases hw
      exact hkind
    · intro s
      rw [h]
      rfl

end Outcomes

section Calls

variable (f : Numeric) (host : Host) (room : Headroom) (frame id : Nat) {args : List Value}

theorem apply_of_lacks (h : f.Lacks args) (s : State) :
    apply host room frame (.builtin f.primitive id) args s =
      (.error (.error (.arity f.primitive.name f.primitive.arity args.length)), s) := by
  obtain ⟨rfl, hf⟩ := h
  have hadmits : ¬f.primitive.arity.admits ([] : List Value).length = true := by
    rw [admits_iff]
    exact fun h => h hf rfl
  show f.primitive.call host (room.enter 3) frame [] s = _
  rw [Primitive.call, if_neg hadmits]
  rfl

theorem apply_of_not_lacks (h : ¬f.Lacks args) :
    apply host room frame (.builtin f.primitive id) args =
      Primitive.numbers (room.frames - 4) f.primitive.name args >>= fun xs =>
        Run.orFail (f.ofNumbers xs) := by
  have hadmits : f.primitive.arity.admits args.length = true := by
    rw [admits_iff]
    exact fun hf hlength => h ⟨List.eq_nil_of_length_eq_zero hlength, hf⟩
  show f.primitive.call host (room.enter 3) frame args = _
  rw [Primitive.call, if_pos hadmits, body_eq]
  rfl

/-- Numbers are read and worked on at any stack depth. -/
theorem apply_numbers {xs : List Binary64} (h : ¬f.Lacks (xs.map .number)) :
    apply host room frame (.builtin f.primitive id) (xs.map .number) = Run.orFail (f.ofNumbers xs) := by
  rw [apply_of_not_lacks f host room frame id h, Primitive.numbers_map]
  rfl

theorem apply_of_first (xs : List Binary64) {v : Value} (hv : v.number? = none) (rest : List Value)
    (s : State) :
    apply host room frame (.builtin f.primitive id) (xs.map .number ++ v :: rest) s =
      (.error (if v.rendersWithin (room.frames - 4) then
        .error (.notNumber f.primitive.name v.render) else .overflow), s) := by
  have henough : ¬f.Lacks (xs.map .number ++ v :: rest) := by
    rintro ⟨h, -⟩
    exact List.append_ne_nil_of_right_ne_nil _ (List.cons_ne_nil v rest) h
  rw [apply_of_not_lacks f host room frame id henough, Primitive.numbers_of_first _ _ _ hv, Run.shown]
  split <;> rfl

end Calls

/-- A numeric primitive, which is what its name leads to once the primitives are registered, ends with any
arguments as the arguments say: with too few of them in a complaint about the number, else in one about
the first that is not a number, else, if it divides by zero, in a complaint about that, and else in a number
or truth value.  It changes nothing, and only showing an argument that is not a number can overflow. -/
theorem apply_ends (f : Numeric) :
    (∀ (s : Store) (i : Nat), i < s.frames.size →
      (s.register i).lookup? i f.primitive.name = some (.builtin f.primitive s.identities)) ∧
    ∀ args, ∃ r need, f.Ends args r ∧ ((∀ v ∈ args, v.number? ≠ none) → need = 0) ∧
      ∀ host room frame id s, apply host room frame (.builtin f.primitive id) args s =
        (if need ≤ room.frames then r else .error .overflow, s) := by
  refine ⟨fun s i hi => Store.lookup?_register f.primitive hi, fun args => ?_⟩
  by_cases hlacks : f.Lacks args
  · refine ⟨_, 0, ends_of_lacks hlacks, fun _ => rfl, fun host room frame id s => ?_⟩
    rw [if_pos (Nat.zero_le _)]
    exact f.apply_of_lacks host room frame id hlacks s
  rcases Value.numbers_or_first args with ⟨xs, rfl⟩ | ⟨xs, v, rest, rfl, hv⟩
  · obtain ⟨r, hends, hr⟩ := ends_of_numbers hlacks
    refine ⟨r, 0, hends, fun _ => rfl, fun host room frame id s => ?_⟩
    rw [if_pos (Nat.zero_le _), f.apply_numbers host room frame id hlacks, hr]
  · have hmono {m n : Nat} (hmn : m ≤ n) : v.rendersWithin (m - 4) = true → v.rendersWithin (n - 4) = true :=
      v.rendersWithin_mono (Nat.sub_le_sub_right hmn 4)
    obtain ⟨n, hn⟩ := v.exists_rendersWithin
    obtain ⟨need, hneed⟩ := exists_threshold hmono ⟨n + 4, hn⟩
    refine ⟨_, need, ends_of_first xs hv rest, fun h => ?_, fun host room frame id s => ?_⟩
    · exact absurd hv (h v (List.mem_append_right _ List.mem_cons_self))
    · rw [f.apply_of_first host room frame id xs hv]
      simp only [hneed]
      split <;> rfl

/-- A division with a zero and two arguments that are no numbers, one by a negative zero, and a subtraction
of nothing. -/
theorem apply_ends_mixed :
    let host : Host := ⟨⟨[], []⟩, [], none, []⟩
    let s : State := ⟨(Store.empty.newFrame none).2.register 0, .start [], []⟩
    let room : Headroom := .ofFrames host 1000
    let call (op : Primitive) (args : List Value) := apply host room 0 (.builtin op 0) args s
    let one : Value := .number .one
    let zero : Value := .number (.zero true)
    s.store.lookup? 0 "/" = some (.builtin .divide 0) ∧
      (∃ need, ∀ n, need ≤ n → apply host (.ofFrames host n) 0 (.builtin .divide 0)
        [one, .list [], zero, .bool true] s = (.error (.error (.notNumber "/" "()")), s)) ∧
      Raises .divisionByZero (call .divide [one, one, zero]).1 ∧
      Raises .arity (call .subtract []).1 := by
  intro host s room call one zero
  obtain ⟨hregistered, hdivide⟩ := apply_ends .divide
  obtain ⟨-, hsubtract⟩ := apply_ends .subtract
  refine ⟨hregistered (Store.empty.newFrame none).2 0 (by decide), ?_, ?_, ?_⟩
  · obtain ⟨r, need, hr, -, hcall⟩ := hdivide [one, .list [], zero, .bool true]
    refine ⟨need, fun n hn => ?_⟩
    have hshown : r = .error (.error (.notNumber "/" "()")) := hr.shown rfl
    have hn : need ≤ (Headroom.ofFrames host n).frames := hn
    rw [← hshown]
    exact (hcall host (.ofFrames host n) 0 0 s).trans (by rw [if_pos hn])
  · obtain ⟨r, need, hr, hneed, hcall⟩ := hdivide [one, one, zero]
    have hnumbers : ∀ v ∈ [one, one, zero], v.number? ≠ none := by simp [one, zero, Value.number?]
    rw [show call .divide [one, one, zero] = _ from hcall host room 0 0 s, hneed hnumbers,
      if_pos (Nat.zero_le _), hr.division]
    exact ⟨⟨rfl, true, by simp [divisors, zero]⟩, hnumbers⟩
  · obtain ⟨r, need, hr, hneed, hcall⟩ := hsubtract []
    rw [show call .subtract [] = _ from hcall host room 0 0 s, hneed nofun, if_pos (Nat.zero_le _),
      hr.arity]
    exact ⟨rfl, .inl rfl⟩

end Numeric
end SmallLisp
