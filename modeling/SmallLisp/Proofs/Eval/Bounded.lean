import Mathlib.Data.Nat.Find
import SmallLisp.Proofs.Eval.Effect

/-!
How many stack frames the parts of evaluation need that evaluate nothing.

Writing a value, comparing two values and running a primitive that evaluates nothing all behave in the
same way: with fewer stack frames than some number they overflow at once, and with that many or more
they do what they would do on an unbounded stack (`Run.Bounded`).  What the primitives do then is
`Primitive.perform`, which knows of no stack.
-/

namespace SmallLisp

variable {α β : Type}

/-- What holds somewhere and from there on holds exactly from some number on. -/
theorem exists_threshold {p : Nat → Bool} (hmono : ∀ {m n}, m ≤ n → p m = true → p n = true)
    (h : ∃ n, p n = true) : ∃ need, ∀ n, p n = true ↔ need ≤ n := by
  refine ⟨Nat.find h, fun n => ⟨fun hn => Nat.find_min' h hn, fun hn => ?_⟩⟩
  exact hmono hn (Nat.find_spec h)

namespace Value

mutual

/-- Every value can be written with frames enough. -/
theorem exists_rendersWithin (v : Value) : ∃ n, v.rendersWithin n = true := by
  cases v with
  | list items =>
    obtain ⟨n, hn⟩ := exists_rendersAllWithin items
    exact ⟨n + 3, by simpa [rendersWithin] using hn⟩
  | closure id formals body frame =>
    obtain ⟨n, hn⟩ := exists_rendersWithin body
    exact ⟨n + 3, by simpa [rendersWithin] using hn⟩
  | _ => exact ⟨1, rfl⟩

theorem exists_rendersAllWithin (vs : List Value) : ∃ n, rendersAllWithin n vs = true := by
  cases vs with
  | nil => exact ⟨0, rfl⟩
  | cons v rest =>
    obtain ⟨m, hm⟩ := exists_rendersWithin v
    obtain ⟨n, hn⟩ := exists_rendersAllWithin rest
    refine ⟨max m n, ?_⟩
    rw [rendersAllWithin, rendersWithin_mono v (Nat.le_max_left m n) hm,
      rendersAllWithin_mono rest (Nat.le_max_right m n) hn]
    rfl

end

mutual

/-- Writing a value takes three frames for each level of its lists. -/
theorem height_le_of_rendersWithin {v : Value} {frames : Nat} (h : v.rendersWithin frames = true) :
    3 * v.height ≤ frames := by
  cases v with
  | list items =>
    rw [rendersWithin, Bool.and_eq_true, decide_eq_true_eq] at h
    have hitems := heightAll_le_of_rendersAllWithin h.2
    rw [height]
    omega
  | number | bool | symbol | closure | builtin | unspecified => exact Nat.zero_le _

theorem heightAll_le_of_rendersAllWithin {vs : List Value} {frames : Nat}
    (h : rendersAllWithin frames vs = true) : 3 * heightAll vs ≤ frames := by
  cases vs with
  | nil => exact Nat.zero_le _
  | cons v rest =>
    rw [rendersAllWithin, Bool.and_eq_true] at h
    have hv := height_le_of_rendersWithin h.1
    have hrest := heightAll_le_of_rendersAllWithin h.2
    rw [heightAll]
    omega

end

mutual

theorem exists_inspectsWithin (v : Value) : ∃ n, v.inspectsWithin n = true := by
  cases v with
  | list items =>
    obtain ⟨n, hn⟩ := exists_inspectsAllWithin items
    exact ⟨n + 1, by simpa [inspectsWithin] using hn⟩
  | closure id formals body frame =>
    obtain ⟨n, hn⟩ := exists_rendersWithin body
    exact ⟨n + 4, by simpa [inspectsWithin] using hn⟩
  | _ => exact ⟨1, rfl⟩

theorem exists_inspectsAllWithin (vs : List Value) : ∃ n, inspectsAllWithin n vs = true := by
  cases vs with
  | nil => exact ⟨0, rfl⟩
  | cons v rest =>
    obtain ⟨m, hm⟩ := exists_inspectsWithin v
    obtain ⟨n, hn⟩ := exists_inspectsAllWithin rest
    refine ⟨max m n, ?_⟩
    rw [inspectsAllWithin, inspectsWithin_mono v (Nat.le_max_left m n) hm,
      inspectsAllWithin_mono rest (Nat.le_max_right m n) hn]
    rfl

end

mutual

/-- A comparison that had frames enough has the same result with more. -/
theorem sameWithin_mono (x y : Value) {m n : Nat} {b : Bool} (hmn : m ≤ n)
    (h : sameWithin m x y = some b) : sameWithin n x y = some b := by
  cases x with
  | list xs =>
    cases y with
    | list ys =>
      rw [sameWithin] at h ⊢
      split at h
      next hl => rw [if_pos hl, h]
      next hl =>
        split at h
        · cases h
        next hm =>
          have hn : ¬n < 3 := by omega
          rw [if_neg hl, if_neg hn]
          exact sameAllWithin_mono xs ys (by omega) h
    | _ => simpa [sameWithin] using h
  | _ => simpa [sameWithin] using h

theorem sameAllWithin_mono (xs ys : List Value) {m n : Nat} {b : Bool} (hmn : m ≤ n)
    (h : sameAllWithin m xs ys = some b) : sameAllWithin n xs ys = some b := by
  cases xs with
  | nil => exact h
  | cons x xs =>
    cases ys with
    | nil => exact h
    | cons y ys =>
      rw [sameAllWithin] at h ⊢
      split at h
      next hxy =>
        rw [sameWithin_mono x y hmn hxy]
        exact sameAllWithin_mono xs ys hmn h
      next hxy =>
        rw [sameWithin_mono x y hmn h]
        cases b with
        | false => rfl
        | true => exact absurd h hxy

end

theorem allSameWithin_mono (first : Value) (vs : List Value) {m n : Nat} {b : Bool} (hmn : m ≤ n)
    (h : allSameWithin m first vs = some b) : allSameWithin n first vs = some b := by
  induction vs with
  | nil => exact h
  | cons v vs ih =>
    rw [allSameWithin] at h ⊢
    split at h
    next hv =>
      rw [sameWithin_mono first v hmn hv]
      exact ih h
    next hv =>
      rw [sameWithin_mono first v hmn h]
      cases b with
      | false => rfl
      | true => exact absurd h hv

theorem allSameWithin_eq_all (first : Value) (vs : List Value) {n : Nat}
    (hn : 3 * first.height ≤ n) : allSameWithin n first vs = some (vs.all first.same) := by
  induction vs with
  | nil => rfl
  | cons v vs ih =>
    rw [allSameWithin, sameWithin_eq_same first v n hn, List.all_cons]
    cases first.same v with
    | true => exact ih
    | false => rfl

theorem exists_allSameWithin (first : Value) (vs : List Value) :
    ∃ need, ∀ n, allSameWithin n first vs =
      if need ≤ n then some (vs.all first.same) else none := by
  have hvalue {n : Nat} {b : Bool} (h : allSameWithin n first vs = some b) :
      b = vs.all first.same := by
    have hmax := allSameWithin_mono first vs (Nat.le_max_left n (3 * first.height)) h
    rw [allSameWithin_eq_all first vs (Nat.le_max_right n _)] at hmax
    exact (Option.some.inj hmax).symm
  have hmono {m n : Nat} (hmn : m ≤ n) (h : (allSameWithin m first vs).isSome = true) :
      (allSameWithin n first vs).isSome = true := by
    obtain ⟨b, hb⟩ := Option.isSome_iff_exists.mp h
    exact Option.isSome_iff_exists.mpr ⟨b, allSameWithin_mono first vs hmn hb⟩
  obtain ⟨need, hneed⟩ := exists_threshold hmono
    ⟨_, by rw [allSameWithin_eq_all first vs (Nat.le_refl _)]; rfl⟩
  refine ⟨need, fun n => ?_⟩
  by_cases hn : need ≤ n
  · obtain ⟨b, hb⟩ := Option.isSome_iff_exists.mp ((hneed n).mpr hn)
    rw [if_pos hn, hb, hvalue hb]
  · rw [if_neg hn, ← Option.not_isSome_iff_eq_none, hneed n]
    exact hn

end Value

namespace Run

/-- With fewer stack frames than some number the run overflows, and else it is `full`. -/
def Bounded (m : Headroom → Run α) (full : Run α) : Prop :=
  ∃ need, ∀ room, m room = if need ≤ room.frames then full else fault .overflow

theorem bounded_const (m : Run α) : Bounded (fun _ => m) m :=
  ⟨0, fun _ => (if_pos (Nat.zero_le _)).symm⟩

theorem Bounded.bind {m : Headroom → Run α} {full : Run α} (h : Bounded m full)
    (f : α → Run β) : Bounded (fun room => m room >>= f) (full >>= f) := by
  obtain ⟨need, hneed⟩ := h
  refine ⟨need, fun room => ?_⟩
  simp only [hneed]
  split <;> rfl

/-- What comes after a run that fails does not matter, even if it depends on the stack. -/
theorem Bounded.bind_fail {m : Headroom → Run α} {e : Error} (h : Bounded m (fail e))
    (f : Headroom → α → Run β) : Bounded (fun room => m room >>= f room) (fail e) := by
  obtain ⟨need, hneed⟩ := h
  refine ⟨need, fun room => ?_⟩
  simp only [hneed]
  split <;> rfl

theorem Bounded.enter {m : Headroom → Run α} {full : Run α} (h : Bounded m full) (n : Nat) :
    Bounded (fun room => m (room.enter n)) full := by
  obtain ⟨need, hneed⟩ := h
  -- Taking frames that are not there leaves none, so a run that needs none is never short of them.
  refine ⟨if need = 0 then 0 else need + n, fun room => ?_⟩
  simp only [hneed, Headroom.enter]
  have hiff : need ≤ room.frames - n ↔ (if need = 0 then 0 else need + n) ≤ room.frames := by
    split <;> omega
  simp only [hiff]

theorem bounded_of_threshold {p : Nat → Bool} (full : Run α)
    (hmono : ∀ {m n}, m ≤ n → p m = true → p n = true) (h : ∃ n, p n = true) :
    Bounded (fun room => if p room.frames then full else fault .overflow) full := by
  obtain ⟨need, hneed⟩ := exists_threshold hmono h
  exact ⟨need, fun room => by simp only [hneed]⟩

theorem bounded_shown (v : Value) : Bounded (fun room => shown room.frames v) (pure v.render) :=
  bounded_of_threshold _ (Value.rendersWithin_mono v) v.exists_rendersWithin

theorem bounded_inspected (v : Value) :
    Bounded (fun room => inspected room.frames v) (pure v.inspect) :=
  bounded_of_threshold _ (Value.inspectsWithin_mono v) v.exists_inspectsWithin

end Run

/-! ## Primitives on an unbounded stack -/

/-- Goes on with what came out, or ends the run with the mistake. -/
def Run.orFail : Except Error α → Run α
  | .ok a => pure a
  | .error e => fail e

namespace Primitive

/-- The arguments as numbers, or the complaint about the first one that is none. -/
def numbersOf (name : Text) : List Value → Except Error (List Binary64)
  | [] => .ok []
  | .number x :: rest => (numbersOf name rest).map (x :: ·)
  | v :: _ => .error (.notNumber name v.render)

/-- The status that a value asks for. -/
def statusOf : Value → Except Error Int
  | .number x =>
    if x.isFinite then .ok x.truncate else .error (.exitStatus (Value.number x).render)
  | v => .error (.notNumber "exit" v.render)

/-- The value of a primitive that takes numbers only, by what it makes of them. -/
def ofNumbers (op : Primitive) (f : List Binary64 → Value) (args : List Value) : Run Value := do
  let xs ← Run.orFail (numbersOf op.name args)
  pure (f xs)

/-- What a primitive other than `eval` and `use` does with arguments of an allowed number. -/
def perform : Primitive → List Value → Run Value
  | .add, args => ofNumbers .add (fun xs => .number (Binary64.sum xs)) args
  | .subtract, args => ofNumbers .subtract (fun xs => .number (Binary64.difference xs)) args
  | .multiply, args => ofNumbers .multiply (fun xs => .number (Binary64.product xs)) args
  | .divide, args => do
    let xs ← Run.orFail (numbersOf "/" args)
    match Binary64.quotient xs with
    | some x => pure (.number x)
    | none => Run.fail .divisionByZero
  | .greater, args =>
    ofNumbers .greater (fun xs => .bool (Binary64.chained (fun x y => y.less x) xs)) args
  | .greaterEq, args =>
    ofNumbers .greaterEq (fun xs => .bool (Binary64.chained (fun x y => y.lessEq x) xs)) args
  | .less, args => ofNumbers .less (fun xs => .bool (Binary64.chained Binary64.less xs)) args
  | .lessEq, args => ofNumbers .lessEq (fun xs => .bool (Binary64.chained Binary64.lessEq xs)) args
  | .equal, [] => pure (.bool true)
  | .equal, first :: rest => pure (.bool (rest.all first.same))
  | .list, args => pure (.list args)
  | .isList, v :: _ => pure (.bool v.list?.isSome)
  | .isEmpty, args => do
    let items ← listArgument "empty?" args
    pure (.bool items.isEmpty)
  | .count, args => do
    let items ← listArgument "count" args
    pure (.number (.ofNat items.length))
  | .type, v :: _ => pure (.symbol v.kind)
  | .putstr, v :: _ => do
    Run.write (v.render ++ "\n")
    pure .unspecified
  | .readline, _ => readLine
  | .exit, [] => exitWith 0
  | .exit, v :: _ => do
    let status ← Run.orFail (statusOf v)
    exitWith status
  | _, _ => pure .unspecified

theorem bounded_numbers (name : Text) (args : List Value) :
    Run.Bounded (fun room => numbers room.frames name args) (Run.orFail (numbersOf name args)) := by
  induction args with
  | nil => exact Run.bounded_const _
  | cons v rest ih =>
    cases v with
    | number x =>
      have hfull : Run.orFail (numbersOf name (.number x :: rest)) =
          Run.orFail (numbersOf name rest) >>= fun xs => pure (x :: xs) := by
        rw [numbersOf]
        cases numbersOf name rest <;> rfl
      rw [hfull]
      exact ih.bind _
    | _ => exact (Run.bounded_shown _).bind fun text => Run.fail (.notNumber name text)

theorem bounded_ofNumbers (op : Primitive) (f : List Binary64 → Value) (args : List Value) :
    Run.Bounded
      (fun room => do
        let xs ← numbers (room.enter 1).frames op.name args
        pure (f xs))
      (ofNumbers op f args) :=
  ((bounded_numbers op.name args).enter 1).bind fun xs => pure (f xs)

theorem bounded_exitStatus (v : Value) :
    Run.Bounded (fun room => exitStatus room.frames v) (Run.orFail (statusOf v)) := by
  cases v with
  | number x =>
    have hrun (room : Headroom) : exitStatus room.frames (.number x) =
        if x.isFinite then pure x.truncate
        else Run.shown room.frames (.number x) >>= fun text => Run.fail (.exitStatus text) := rfl
    simp only [hrun, statusOf]
    split
    · exact Run.bounded_const _
    · exact (Run.bounded_shown _).bind fun text => Run.fail (.exitStatus text)
  | _ => exact (bounded_numbers "exit" [_]).bind_fail _

theorem bounded_equal (first : Value) (rest : List Value) :
    Run.Bounded
      (fun room =>
        match Value.allSameWithin room.frames first rest with
        | some b => pure (.bool b)
        | none => Run.fault .overflow)
      (pure (.bool (rest.all first.same)) : Run Value) := by
  obtain ⟨need, hneed⟩ := Value.exists_allSameWithin first rest
  refine ⟨need, fun room => ?_⟩
  simp only [hneed]
  by_cases h : need ≤ room.frames
  · rw [if_pos h, if_pos h]
  · rw [if_neg h, if_neg h]

/-- A primitive that evaluates nothing does with frames enough what it does on an unbounded stack. -/
theorem bounded_body (host : Host) (frame : Nat) {op : Primitive} (heval : op ≠ .eval)
    (huse : op ≠ .use) (args : List Value) :
    Run.Bounded (fun room => op.body host room frame args) (op.perform args) := by
  cases op with
  | add => exact bounded_ofNumbers .add _ args
  | subtract => exact bounded_ofNumbers .subtract _ args
  | multiply => exact bounded_ofNumbers .multiply _ args
  | divide => exact ((bounded_numbers "/" args).enter 1).bind _
  | greater => exact bounded_ofNumbers .greater _ args
  | greaterEq => exact bounded_ofNumbers .greaterEq _ args
  | less => exact bounded_ofNumbers .less _ args
  | lessEq => exact bounded_ofNumbers .lessEq _ args
  | equal =>
    cases args with
    | nil => exact Run.bounded_const _
    | cons first rest => exact (bounded_equal first rest).enter 2
  | eval => exact absurd rfl heval
  | use => exact absurd rfl huse
  | putstr =>
    cases args with
    | nil => exact Run.bounded_const _
    | cons v rest => exact (Run.bounded_shown v).bind _
  | exit =>
    cases args with
    | nil => exact Run.bounded_const _
    | cons v rest => exact ((bounded_exitStatus v).enter 1).bind exitWith
  | isList | type => cases args <;> exact Run.bounded_const _
  | list | isEmpty | count | readline => exact Run.bounded_const _

end Primitive
end SmallLisp
