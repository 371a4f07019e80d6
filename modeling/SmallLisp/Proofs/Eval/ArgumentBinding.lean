import SmallLisp.Proofs.Environment.History
import SmallLisp.Proofs.Eval.Bounded
import SmallLisp.Proofs.Store.Closed
import SmallLisp.Proofs.Store.Renaming

/-!
Arguments of closures.

A call makes a frame inside the frame where the closure was made and writes the formals into it, one after
the other, so that of equal formals the last one counts (`Store.Binds`).  What has been written stays while
other frames change, and every name that is not a formal is looked up in the frames around: the new frame
hides nothing else, whatever is defined there later (`Binds.lookup?_after`).

If the numbers of formals and arguments differ, nothing is made.  The complaint shows the closure, and a
body that nests too deep cannot be shown: then the call overflows instead.
-/

namespace SmallLisp

namespace Store

/-- A name stands last at place `k` of the formals. -/
def LastAt (formals : List Text) (k : Nat) (name : Text) : Prop :=
  formals[k]? = some name ∧ ∀ j, k < j → formals[j]? ≠ some name

/-- `t` is `s` with one more frame `i`, which stands inside frame `home` and holds the arguments under the
names of the formals. -/
structure Binds (s : Store) (home : Nat) (formals : List Text) (args : List Value) (i : Nat)
    (t : Store) : Prop where
  fresh : i = s.frames.size
  size_eq : t.frames.size = s.frames.size + 1
  identities_eq : t.identities = s.identities
  frame?_eq {j : Nat} : j < s.frames.size → t.frame? j = s.frame? j
  outer?_eq : t.outer? i = some home
  chain_eq : t.chain i = i :: s.chain home
  captured {j : Nat} : j ∈ s.chain home → j < s.frames.size
  keys_eq : (t.bindings i).keys = formals.eraseDups
  get?_eq {k : Nat} {name : Text} {v : Value} : LastAt formals k name → args[k]? = some v →
    (t.bindings i).get? name = some v

/-- A binding to be made in a frame. -/
structure Definition where
  frame : Nat
  name : Text
  value : Value

/-- The store after definitions, made in order. -/
def afterAll (s : Store) (later : List Definition) : Store :=
  later.foldl (fun s d => s.define d.frame d.name d.value) s

section Later

variable {s : Store} {later : List Definition}

theorem grows_afterAll (h : ∀ d ∈ later, d.frame < s.frames.size) : s.Grows (s.afterAll later) := by
  induction later generalizing s with
  | nil => exact .refl s
  | cons d rest ih =>
    have hd := h d List.mem_cons_self
    refine (s.grows_define hd d.name d.value).trans (ih fun d' hd' => ?_)
    rw [size_define]
    exact h d' (List.mem_cons_of_mem d hd')

theorem bindings_afterAll {i : Nat} (h : ∀ d ∈ later, d.frame ≠ i) :
    (s.afterAll later).bindings i = s.bindings i := by
  induction later generalizing s with
  | nil => rfl
  | cons d rest ih =>
    have hd : i ≠ d.frame := (h d List.mem_cons_self).symm
    have hrest := ih (s := s.define d.frame d.name d.value) fun d' hd' => h d' (List.mem_cons_of_mem d hd')
    exact hrest.trans (bindings_define_of_ne s hd d.name d.value)

end Later

section Extend

variable {s : Store} {home g : Nat} (hhome : s.Rooted g home)
include hhome

theorem rooted_extend (formals : List Text) (args : List Value) :
    (s.extend home formals args).2.Rooted g s.frames.size := by
  have hnew := rooted_newFrame_some hhome
  exact hnew.mono (grows_defineAll hnew.lt_size _)

/-- Making the frame of a call. -/
theorem binds_extend {formals : List Text} {args : List Value} (hlength : args.length = formals.length) :
    s.Binds home formals args s.frames.size (s.extend home formals args).2 := by
  have hroot := rooted_extend hhome formals args
  have hnew := rooted_newFrame_some hhome
  have hgrows := grows_defineAll hnew.lt_size (formals.zip args)
  have houter : (s.extend home formals args).2.outer? s.frames.size = some home :=
    (hgrows.outer?_eq hnew.lt_size).trans (s.outer?_newFrame_size (some home))
  have hbindings : (s.extend home formals args).2.bindings s.frames.size =
      Table.ofList (formals.zip args) := by
    have hall := bindings_defineAll_self hnew.lt_size (formals.zip args)
    rw [bindings_newFrame, bindings_size] at hall
    exact hall
  refine ⟨rfl, size_extend s home formals args, identities_extend s home formals args,
    frame?_extend_of_lt s home formals args, houter, ?_, fun hj => ?_, ?_, fun {k name v} hk hv => ?_⟩
  · rw [hroot.chain_of_outer? houter]
    exact congrArg _ (hhome.chain_eq ((s.grows_newFrame (some home)).trans hgrows))
  · exact (hhome.walk.rooted_of_mem hhome hj).lt_size
  · rw [hbindings, Table.keys_ofList, List.map_fst_zip (Nat.le_of_eq hlength.symm)]
  · rw [hbindings]
    refine Table.get?_ofList_of_last (List.getElem?_zip_eq_some.mpr ⟨hk.1, hv⟩) fun j entry hj hentry => ?_
    obtain ⟨hname, -⟩ := List.getElem?_zip_eq_some.mp hentry
    intro heq
    rw [heq] at hname
    exact hk.2 j hj hname

end Extend

namespace Binds

variable {s t : Store} {home g i : Nat} {formals : List Text} {args : List Value}

theorem grows (h : s.Binds home formals args i t) : s.Grows t where
  size_le := by
    rw [h.size_eq]
    exact Nat.le_succ _
  outer?_eq {j} hj := by
    rw [outer?, outer?, h.frame?_eq hj]
  bound {j name} hname := by
    obtain ⟨binding, hbinding, -⟩ := List.mem_map.mp hname
    rw [bindings, h.frame?_eq (lt_size_of_mem_bindings hbinding)]
    exact hname

theorem rooted (h : s.Binds home formals args i t) (hhome : s.Rooted g home) : t.Rooted g i := by
  have hsize : i < t.frames.size := by
    rw [h.size_eq, h.fresh]
    exact Nat.lt_succ_self _
  have hlt : home < i := by
    rw [h.fresh]
    exact hhome.lt_size
  exact .inside hsize h.outer?_eq hlt (hhome.mono h.grows)

theorem get?_eq_none (h : s.Binds home formals args i t) {name : Text} (hname : name ∉ formals) :
    (t.bindings i).get? name = none := by
  rw [← Option.not_isSome_iff_eq_none, ← Table.mem_keys_iff_isSome_get?, h.keys_eq, List.mem_eraseDups]
  exact hname

/-- Whatever is defined later in the frames that were there before, the new frame answers for the formals
and leaves all other names to the frame around it. -/
theorem lookup?_after (h : s.Binds home formals args i t) (hhome : s.Rooted g home)
    {later : List Definition} (hlater : ∀ d ∈ later, d.frame < s.frames.size) (name : Text) :
    (t.afterAll later).lookup? i name =
      ((t.bindings i).get? name).or ((t.afterAll later).lookup? home name) := by
  have hgrows : t.Grows (t.afterAll later) :=
    grows_afterAll fun d hd => Nat.lt_of_lt_of_le (hlater d hd) h.grows.size_le
  have hsame : (t.afterAll later).bindings i = t.bindings i := by
    refine bindings_afterAll fun d hd => ?_
    rw [h.fresh]
    exact Nat.ne_of_lt (hlater d hd)
  have hroot := h.rooted hhome
  have houter : (t.afterAll later).outer? i = some home :=
    (hgrows.outer?_eq hroot.lt_size).trans h.outer?_eq
  rw [(hroot.mono hgrows).lookup?_eq name, hsame, houter]
  rfl

end Binds
end Store

/-! ## Calls -/

section Call

variable (id home : Nat) {formals : List Text} (body : Value) {args : List Value}

theorem callFrame_of_length_eq (hlength : args.length = formals.length) (frames : Nat) (s : State) :
    callFrame frames (.closure id formals body home) formals home args s =
      (.ok s.store.frames.size, { s with store := (s.store.extend home formals args).2 }) := by
  rw [callFrame, if_pos hlength.symm]
  rfl

/-- With a wrong number of arguments there is a complaint, if there is stack enough for it. -/
theorem callFrame_of_length_ne (hlength : args.length ≠ formals.length) (frames : Nat) (s : State) :
    callFrame frames (.closure id formals body home) formals home args s =
      (.error (if (Value.closure id formals body home).rendersWithin frames then
        .error (.closureArity (Value.closure id formals body home).render formals.length args.length)
      else .overflow), s) := by
  rw [callFrame, if_neg (Ne.symm hlength), Run.shown]
  split <;> rfl

end Call

/-- A list inside of so many other lists. -/
def Value.nest : Nat → Value
  | 0 => .list []
  | depth + 1 => .list [nest depth]

theorem Value.height_nest (depth : Nat) : (nest depth).height = depth + 1 := by
  induction depth with
  | zero => rfl
  | succ depth ih => rw [nest, height, heightAll, heightAll, ih, Nat.max_zero]

/-- With the usual number of stack frames, a body that nests too deep makes the call overflow where it
should complain about the number of its arguments. -/
theorem callFrame_nested_body_overflows :
    let formals : List Text := ["x"]
    let s : State := ⟨(Store.empty.newFrame none).2, .start [], []⟩
    ([] : List Value).length ≠ formals.length ∧
      callFrame 1000 (.closure 0 formals (.nest 6000) 0) formals 0 [] s = (.error .overflow, s) := by
  intro formals s
  have hlength : ([] : List Value).length ≠ formals.length := by decide
  refine ⟨hlength, ?_⟩
  have hdeep : ¬(Value.closure 0 formals (.nest 6000) 0).rendersWithin 1000 = true := by
    intro h
    rw [Value.rendersWithin, Bool.and_eq_true] at h
    have hheight := Value.height_le_of_rendersWithin h.2
    rw [Value.height_nest] at hheight
    omega
  rw [callFrame_of_length_ne 0 0 (.nest 6000) hlength, if_neg hdeep]

/-- A call with another number of arguments than there are formals makes and changes nothing, and ends in
a complaint about the number once there are stack frames enough to show the closure.  Otherwise a call,
with any number of stack frames left, as the calls of constant depth that make a frame and bind its names
are not counted among them, makes one frame, inside the frame of the closure, that binds the formals and
nothing else, each of them to the argument at its last place.  Then and after any later definitions in the frames that
were there before, those of the captured chain among them, the formals look up so from the new frame, and
every other name looks up as it does from the frame of the closure. -/
theorem callFrame_binds_arguments (id home : Nat) (formals : List Text) (body : Value)
    (args : List Value) :
    let closure : Value := .closure id formals body home
    (args.length ≠ formals.length →
      ∃ need, ∀ frames s, callFrame frames closure formals home args s =
        (.error (if need ≤ frames then
          .error (.closureArity closure.render formals.length args.length) else .overflow), s)) ∧
    (args.length = formals.length → ∀ (s : State) (g : Nat), s.store.Rooted g home →
      ∃ i t, s.store.Binds home formals args i t ∧
        (∀ frames, callFrame frames closure formals home args s = (.ok i, { s with store := t })) ∧
        ∀ later : List Store.Definition, (∀ d ∈ later, d.frame < s.store.frames.size) →
          (∀ k name v, Store.LastAt formals k name → args[k]? = some v →
            (t.afterAll later).lookup? i name = some v) ∧
          ∀ name, name ∉ formals →
            (t.afterAll later).lookup? i name = (t.afterAll later).lookup? home name) := by
  intro closure
  refine ⟨fun hlength => ?_, fun hlength s g hhome => ?_⟩
  · obtain ⟨need, hneed⟩ := exists_threshold closure.rendersWithin_mono closure.exists_rendersWithin
    refine ⟨need, fun frames s => ?_⟩
    rw [callFrame_of_length_ne id home body hlength]
    simp only [closure, hneed]
  · have hbinds := Store.binds_extend hhome hlength
    refine ⟨_, _, hbinds, fun frames => callFrame_of_length_eq id home body hlength frames s, ?_⟩
    intro later hlater
    refine ⟨fun k name v hk hv => ?_, fun name hname => ?_⟩
    · rw [hbinds.lookup?_after hhome hlater, hbinds.get?_eq hk hv]
      rfl
    · rw [hbinds.lookup?_after hhome hlater, hbinds.get?_eq_none hname]
      rfl

/-- Of two formals `x` the last one counts, and a definition of `z` around the frame is seen from it. -/
theorem callFrame_binds_arguments_repeatedFormal :
    let formals : List Text := ["x", "y", "x"]
    let closure : Value := .closure 0 formals (.symbol "z") 0
    let s : State := ⟨(Store.empty.newFrame none).2, .start [], []⟩
    (∃ need, ∀ frames, need ≤ frames → callFrame frames closure formals 0 [] s =
      (.error (.error (.closureArity "(λ (x y x) z)" 3 0)), s)) ∧
    ∃ t, (∀ frames, callFrame frames closure formals 0 [.bool true, .list [], .unspecified] s =
        (.ok 1, { s with store := t })) ∧
      (t.define 0 "z" (.bool false)).lookup? 1 "x" = some .unspecified ∧
      (t.define 0 "z" (.bool false)).lookup? 1 "z" = (t.define 0 "z" (.bool false)).lookup? 0 "z" := by
  intro formals closure s
  have hrooted : s.store.Rooted 0 0 := .outermost (by decide) (by decide)
  have hother (args : List Value) := callFrame_binds_arguments 0 0 formals (.symbol "z") args
  constructor
  · obtain ⟨need, hcall⟩ := (hother []).1 (by decide)
    refine ⟨need, fun frames hframes => ?_⟩
    rw [hcall frames s, if_pos hframes]
    rfl
  · obtain ⟨i, t, hbinds, hcall, hlater⟩ :=
      (hother [.bool true, .list [], .unspecified]).2 (by decide) s 0 hrooted
    have hi : i = 1 := hbinds.fresh
    subst hi
    obtain ⟨hformals, hnames⟩ := hlater [⟨0, "z", .bool false⟩] (by decide)
    have hlast : Store.LastAt formals 2 "x" := by
      refine ⟨rfl, fun j hj => ?_⟩
      rw [List.getElem?_eq_none (show formals.length ≤ j from hj)]
      exact nofun
    exact ⟨t, hcall, hformals 2 "x" .unspecified hlast rfl, hnames "z" (by decide)⟩

end SmallLisp
