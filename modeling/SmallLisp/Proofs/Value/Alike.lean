import SmallLisp.Eval.Forms
import SmallLisp.Proofs.Reader.Readable
import SmallLisp.Value.Equality

/-!
Values that differ only in where their closures were made and in the identities of their procedures.

`Alike F I` relates such values, if `F` relates the frames at corresponding places and `I` the
identities.  Nothing that is written of a value shows a frame or an identity, so alike values have the
same texts.  Comparison looks at identities, and gives the same result on alike values if `I` relates
different identities to different ones (`Alike.sameWithin_eq`).
-/

namespace SmallLisp
namespace Value

mutual

inductive Alike (F I : Nat → Nat → Prop) : Value → Value → Prop
  | number (x : Binary64) : Alike F I (.number x) (.number x)
  | bool (b : Bool) : Alike F I (.bool b) (.bool b)
  | symbol (name : Text) : Alike F I (.symbol name) (.symbol name)
  | list {vs ws : List Value} (items : AlikeAll F I vs ws) : Alike F I (.list vs) (.list ws)
  | closure {i j : Nat} {b c : Value} {f g : Nat} (formals : List Text) (id : I i j)
      (body : Alike F I b c) (frame : F f g) :
      Alike F I (.closure i formals b f) (.closure j formals c g)
  | builtin {i j : Nat} (op : Primitive) (id : I i j) : Alike F I (.builtin op i) (.builtin op j)
  | unspecified : Alike F I .unspecified .unspecified

/-- Lists of one length with alike values at corresponding places. -/
inductive AlikeAll (F I : Nat → Nat → Prop) : List Value → List Value → Prop
  | nil : AlikeAll F I [] []
  | cons {v w : Value} {vs ws : List Value} (head : Alike F I v w) (tail : AlikeAll F I vs ws) :
      AlikeAll F I (v :: vs) (w :: ws)

end

variable {F I F' I' : Nat → Nat → Prop} {v w : Value} {vs ws : List Value}

mutual

theorem Alike.mono (hF : ∀ {i j}, F i j → F' i j) (hI : ∀ {i j}, I i j → I' i j) {v w : Value} :
    Alike F I v w → Alike F' I' v w
  | .number x => .number x
  | .bool b => .bool b
  | .symbol name => .symbol name
  | .list items => .list (items.mono hF hI)
  | .closure formals id body frame => .closure formals (hI id) (body.mono hF hI) (hF frame)
  | .builtin op id => .builtin op (hI id)
  | .unspecified => .unspecified

theorem AlikeAll.mono (hF : ∀ {i j}, F i j → F' i j) (hI : ∀ {i j}, I i j → I' i j)
    {vs ws : List Value} : AlikeAll F I vs ws → AlikeAll F' I' vs ws
  | .nil => .nil
  | .cons head tail => .cons (head.mono hF hI) (tail.mono hF hI)

end

theorem AlikeAll.length_eq (h : AlikeAll F I vs ws) : vs.length = ws.length := by
  induction vs generalizing ws with
  | nil =>
    cases h
    rfl
  | cons v vs ih =>
    cases h with
    | cons head tail => rw [List.length_cons, List.length_cons, ih tail]

/-! ## Texts -/

mutual

theorem Alike.render_eq {v w : Value} : Alike F I v w → v.render = w.render
  | .list items => by rw [render, render, items.renderAll_eq]
  | .closure formals _ body _ => by rw [render, render, body.render_eq]
  | .number _ | .bool _ | .symbol _ | .builtin _ _ | .unspecified => rfl

theorem AlikeAll.renderAll_eq {vs ws : List Value} :
    AlikeAll F I vs ws → renderAll vs = renderAll ws
  | .nil => rfl
  | .cons head tail => by rw [renderAll, renderAll, head.render_eq, tail.renderAll_eq]

end

mutual

theorem Alike.rendersWithin_eq {v w : Value} (n : Nat) :
    Alike F I v w → v.rendersWithin n = w.rendersWithin n
  | .list items => by rw [rendersWithin, rendersWithin, items.rendersAllWithin_eq (n - 3)]
  | .closure _ _ body _ => by rw [rendersWithin, rendersWithin, body.rendersWithin_eq (n - 3)]
  | .number _ | .bool _ | .symbol _ | .builtin _ _ | .unspecified => rfl

theorem AlikeAll.rendersAllWithin_eq {vs ws : List Value} (n : Nat) :
    AlikeAll F I vs ws → rendersAllWithin n vs = rendersAllWithin n ws
  | .nil => rfl
  | .cons head tail => by
    rw [rendersAllWithin, rendersAllWithin, head.rendersWithin_eq n, tail.rendersAllWithin_eq n]

end

mutual

theorem Alike.inspect_eq {v w : Value} : Alike F I v w → v.inspect = w.inspect
  | .list items => by rw [inspect, inspect, items.inspectAll_eq]
  | .closure formals id body frame => by
    have hrender := (Alike.closure formals id body frame).render_eq
    rw [inspect, inspect]
    exact hrender
  | .number _ | .bool _ | .symbol _ | .builtin _ _ | .unspecified => rfl

theorem AlikeAll.inspectAll_eq {vs ws : List Value} :
    AlikeAll F I vs ws → inspectAll vs = inspectAll ws
  | .nil => rfl
  | .cons head tail => by rw [inspectAll, inspectAll, head.inspect_eq, tail.inspectAll_eq]

end

mutual

theorem Alike.inspectsWithin_eq {v w : Value} (n : Nat) :
    Alike F I v w → v.inspectsWithin n = w.inspectsWithin n
  | .list items => by rw [inspectsWithin, inspectsWithin, items.inspectsAllWithin_eq (n - 1)]
  | .closure _ _ body _ => by rw [inspectsWithin, inspectsWithin, body.rendersWithin_eq (n - 4)]
  | .number _ | .bool _ | .symbol _ | .builtin _ _ | .unspecified => rfl

theorem AlikeAll.inspectsAllWithin_eq {vs ws : List Value} (n : Nat) :
    AlikeAll F I vs ws → inspectsAllWithin n vs = inspectsAllWithin n ws
  | .nil => rfl
  | .cons head tail => by
    rw [inspectsAllWithin, inspectsAllWithin, head.inspectsWithin_eq n, tail.inspectsAllWithin_eq n]

end

/-! ## Parts of forms -/

theorem Alike.specialForm?_eq (h : Alike F I v w) : v.specialForm? = w.specialForm? := by
  cases h <;> rfl

theorem AlikeAll.names?_eq (h : AlikeAll F I vs ws) : names? vs = names? ws := by
  induction vs generalizing ws with
  | nil =>
    cases h
    rfl
  | cons v vs ih =>
    cases h with
    | cons head tail =>
      have htail := ih tail
      cases head with
      | symbol name => rw [names?, names?, htail]
      | _ => rfl

theorem Alike.formals?_eq (h : Alike F I v w) : v.formals? = w.formals? := by
  cases h with
  | list items => exact items.names?_eq
  | _ => rfl

/-! ## Comparison -/

/-- Different identities are related to different ones, and equal ones to equal ones. -/
def Distinct (I : Nat → Nat → Prop) : Prop :=
  ∀ {i j i' j' : Nat}, I i j → I i' j' → (i = i' ↔ j = j')

theorem Distinct.beq_eq (hI : Distinct I) {i j i' j' : Nat} (h : I i j) (h' : I i' j') :
    (i == i') = (j == j') := by
  rw [Bool.eq_iff_iff, beq_iff_eq, beq_iff_eq]
  exact hI h h'

mutual

theorem Alike.sameWithin_eq (hI : Distinct I) (n : Nat) {v w v' w' : Value} :
    Alike F I v w → Alike F I v' w' → sameWithin n v v' = sameWithin n w w'
  | .list items, .list items' => by
    rw [sameWithin, sameWithin, items.length_eq, items'.length_eq,
      items.sameAllWithin_eq hI (n - 3) items']
  | .closure formals id _ _, h' => by
    cases h' with
    | closure _ id' _ _ => simp only [sameWithin, same, hI.beq_eq id id']
    | _ => rfl
  | .builtin op id, h' => by
    cases h' with
    | builtin _ id' => simp only [sameWithin, same, hI.beq_eq id id']
    | _ => rfl
  | .list _, .number _ | .list _, .bool _ | .list _, .symbol _ | .list _, .closure _ _ _ _
  | .list _, .builtin _ _ | .list _, .unspecified => rfl
  | .number _, h' | .bool _, h' | .symbol _, h' | .unspecified, h' => by cases h' <;> rfl

theorem AlikeAll.sameAllWithin_eq (hI : Distinct I) (n : Nat) {vs ws vs' ws' : List Value} :
    AlikeAll F I vs ws → AlikeAll F I vs' ws' → sameAllWithin n vs vs' = sameAllWithin n ws ws'
  | .nil, .nil | .nil, .cons _ _ | .cons _ _, .nil => rfl
  | .cons head tail, .cons head' tail' => by
    rw [sameAllWithin, sameAllWithin, head.sameWithin_eq hI n head',
      tail.sameAllWithin_eq hI n tail']

end

theorem AlikeAll.allSameWithin_eq (hI : Distinct I) (n : Nat) (h : Alike F I v w)
    (hs : AlikeAll F I vs ws) : allSameWithin n v vs = allSameWithin n w ws := by
  induction vs generalizing ws with
  | nil =>
    cases hs
    rfl
  | cons v' vs ih =>
    cases hs with
    | cons head tail =>
      rw [allSameWithin, allSameWithin, h.sameWithin_eq hI n head, ih tail]

/-! ## Values that are alike to themselves -/

theorem alikeAll_self (h : ∀ v ∈ vs, Alike F I v v) : AlikeAll F I vs vs := by
  induction vs with
  | nil => exact .nil
  | cons v vs ih =>
    obtain ⟨hv, hvs⟩ := List.forall_mem_cons.mp h
    exact .cons hv (ih hvs)

theorem AlikeAll.of_mem (h : AlikeAll F I vs vs) (hv : v ∈ vs) : Alike F I v v := by
  induction vs with
  | nil => cases hv
  | cons w vs ih =>
    cases h with
    | cons head tail =>
      cases List.mem_cons.mp hv with
      | inl heq =>
        rw [heq]
        exact head
      | inr hv => exact ih tail hv

mutual

/-- A form that has been read is alike to itself, whatever the relations. -/
theorem Readable.alike (F I : Nat → Nat → Prop) : (v : Value) → v.Readable → Alike F I v v
  | .number x, _ => .number x
  | .symbol name, _ => .symbol name
  | .list items, h => .list (ReadableAll.alike F I items h)

theorem ReadableAll.alike (F I : Nat → Nat → Prop) :
    (vs : List Value) → ReadableAll vs → AlikeAll F I vs vs
  | [], _ => .nil
  | v :: vs, h => .cons (Readable.alike F I v h.1) (ReadableAll.alike F I vs h.2)

end

theorem alikeAll_forms (F I : Nat → Nat → Prop) (source : Text) :
    AlikeAll F I (read source).forms (read source).forms :=
  alikeAll_self fun v hv => Readable.alike F I v (readable_of_mem_forms hv)

mutual

theorem alike_eq_refl : (v : Value) → Alike Eq Eq v v
  | .number x => .number x
  | .bool b => .bool b
  | .symbol name => .symbol name
  | .list items => .list (alikeAll_eq_refl items)
  | .closure _ formals body _ => .closure formals rfl (alike_eq_refl body) rfl
  | .builtin op _ => .builtin op rfl
  | .unspecified => .unspecified

theorem alikeAll_eq_refl : (vs : List Value) → AlikeAll Eq Eq vs vs
  | [] => .nil
  | v :: vs => .cons (alike_eq_refl v) (alikeAll_eq_refl vs)

end

mutual

theorem Alike.eq {v w : Value} : Alike Eq Eq v w → v = w
  | .list items => by rw [items.eq]
  | .closure _ id body frame => by rw [id, body.eq, frame]
  | .builtin _ id => by rw [id]
  | .number _ | .bool _ | .symbol _ | .unspecified => rfl

theorem AlikeAll.eq {vs ws : List Value} : AlikeAll Eq Eq vs ws → vs = ws
  | .nil => rfl
  | .cons head tail => by rw [head.eq, tail.eq]

end

end Value
end SmallLisp
