import SmallLisp.Proofs.Store.Identities

/-!
A binding that nothing mentions.

A store does not mention a name if nothing is bound to it and no value that is bound has it as a symbol,
among the formals or in the body of a procedure.  If such a name is bound in one of the frames, the new
store looks like the old one to everything that does not mention the name either: `Adds` relates the two,
and every operation of evaluation leaves them related.
-/

namespace SmallLisp

namespace Value

mutual

/-- Whether the name is a symbol in the value, or in a procedure in it. -/
def mentions (y : Text) : Value → Bool
  | .symbol name => name == y
  | .list items => anyMentions y items
  | .closure _ formals body _ => formals.contains y || body.mentions y
  | _ => false

def anyMentions (y : Text) : List Value → Bool
  | [] => false
  | v :: vs => v.mentions y || anyMentions y vs

end

/-- The names of the variants of values. -/
def kinds : List Text := ["number", "bool", "symbol", "list", "function", "unspecified"]

theorem kind_mem_kinds (v : Value) : v.kind ∈ kinds := by
  cases v <;> simp [kind, kinds]

theorem anyMentions_eq_false_iff {y : Text} {vs : List Value} :
    anyMentions y vs = false ↔ ∀ v ∈ vs, v.mentions y = false := by
  induction vs with
  | nil => exact ⟨fun _ => nofun, fun _ => rfl⟩
  | cons v vs ih => rw [anyMentions, Bool.or_eq_false_iff, ih, List.forall_mem_cons]

theorem names?_of_not_anyMentions {y : Text} {items : List Value} {names : List Text}
    (h : anyMentions y items = false) (hnames : names? items = some names) : y ∉ names := by
  fun_induction names? items generalizing names with
  | case1 =>
    cases hnames
    exact List.not_mem_nil
  | case2 name rest ih =>
    obtain ⟨rest', hrest, rfl⟩ := Option.map_eq_some_iff.mp hnames
    rw [anyMentions, Bool.or_eq_false_iff] at h
    rw [List.mem_cons, not_or]
    exact ⟨fun heq => beq_eq_false_iff_ne.mp h.1 heq.symm, ih h.2 hrest⟩
  | case3 => cases hnames

theorem formals?_of_not_mentions {y : Text} {v : Value} {formals : List Text}
    (h : v.mentions y = false) (hformals : v.formals? = some formals) : y ∉ formals := by
  cases v with
  | list items => exact names?_of_not_anyMentions h hformals
  | _ => cases hformals

end Value

/-! ## Erasing entries -/

namespace Table

variable {α : Type} {key other : Text}

theorem erase_insert_of_ne (h : other ≠ key) (value : α) (t : Table α) :
    (t.insert other value).erase key = (t.erase key).insert other value := by
  induction t with
  | nil => simp [insert, erase, h]
  | cons entry rest ih =>
    obtain ⟨k, w⟩ := entry
    by_cases hk : k = other
    · subst hk
      simp [insert, erase, h]
    · by_cases hkey : k = key
      · subst hkey
        simpa [insert, erase, hk] using ih
      · simpa [insert, erase, hk, hkey] using ih

theorem erase_insert_self {t : Table α} (h : key ∉ t.keys) (value : α) :
    (t.insert key value).erase key = t := by
  induction t with
  | nil => simp [insert, erase]
  | cons entry rest ih =>
    obtain ⟨k, w⟩ := entry
    obtain ⟨hk, hrest⟩ : key ≠ k ∧ key ∉ Table.keys rest := by simpa [keys] using h
    simpa [insert, erase, Ne.symm hk] using ih hrest

theorem contains_erase_of_ne (h : other ≠ key) (t : Table α) :
    (t.erase key).contains other = t.contains other := by
  rw [Bool.eq_iff_iff, contains_iff_mem_keys, contains_iff_mem_keys, mem_keys_iff_isSome_get?,
    mem_keys_iff_isSome_get?, get?_erase_of_ne h]

end Table

namespace Store

/-- Takes a binding out of frame `i`. -/
def erase (s : Store) (i : Nat) (name : Text) : Store :=
  { s with frames := s.frames.modify i fun f => { f with bindings := f.bindings.erase name } }

section Erase

variable (s : Store) (g : Nat) (y : Text)

theorem frame?_erase (i : Nat) :
    (s.erase g y).frame? i =
      if g = i then (s.frame? i).map fun f => { f with bindings := f.bindings.erase y }
      else s.frame? i :=
  Array.getElem?_modify

theorem size_erase : (s.erase g y).frames.size = s.frames.size := Array.size_modify

theorem outer?_erase (i : Nat) : (s.erase g y).outer? i = s.outer? i := by
  rw [outer?, outer?, frame?_erase]
  by_cases hi : g = i
  · rw [if_pos hi]
    cases s.frame? i <;> rfl
  · rw [if_neg hi]

theorem bindings_erase (i : Nat) :
    (s.erase g y).bindings i = if g = i then (s.bindings i).erase y else s.bindings i := by
  rw [bindings, bindings, frame?_erase]
  by_cases hi : g = i
  · rw [if_pos hi, if_pos hi]
    cases s.frame? i <;> rfl
  · rw [if_neg hi, if_neg hi]

theorem chain_erase (i : Nat) : (s.erase g y).chain i = s.chain i := by
  have hfrom (fuel : Nat) : ∀ i, (s.erase g y).chainFrom fuel i = s.chainFrom fuel i := by
    induction fuel with
    | zero => exact fun _ => rfl
    | succ fuel ih =>
      intro i
      rw [chainFrom, chainFrom, outer?_erase]
      cases s.outer? i with
      | none => rfl
      | some outer => exact congrArg (i :: ·) (ih outer)
  rw [chain, chain, size_erase, hfrom]

variable {y} {name : Text}

theorem find?_erase (h : name ≠ y) (i : Nat) : (s.erase g y).find? i name = s.find? i name := by
  have hcontains (j : Nat) : ((s.erase g y).bindings j).contains name = (s.bindings j).contains name := by
    rw [bindings_erase]
    split
    · exact Table.contains_erase_of_ne h _
    · rfl
  simp only [find?, chain_erase, hcontains]

theorem lookup?_erase (h : name ≠ y) (i : Nat) :
    (s.erase g y).lookup? i name = s.lookup? i name := by
  rw [lookup?, lookup?, find?_erase s g h]
  cases s.find? i name with
  | none => rfl
  | some j =>
    simp only [bindings_erase]
    split
    · exact Table.get?_erase_of_ne h _
    · rfl

/-- Stores with the same frames, one by one, are the same. -/
theorem ext_frame? {s t : Store} (hframes : ∀ i, s.frame? i = t.frame? i)
    (hidentities : s.identities = t.identities) : s = t := by
  obtain ⟨frames, identities⟩ := s
  obtain ⟨frames', identities'⟩ := t
  obtain rfl : frames = frames' := Array.ext_getElem? hframes
  obtain rfl : identities = identities' := hidentities
  rfl

theorem erase_define (h : name ≠ y) (i : Nat) (w : Value) :
    (s.define i name w).erase g y = (s.erase g y).define i name w := by
  refine ext_frame? (fun j => ?_) rfl
  by_cases hj : j = i
  · subst hj
    rw [frame?_erase, frame?_define_self, frame?_define_self, frame?_erase]
    split
    · cases s.frame? j with
      | none => rfl
      | some f => simp only [Option.map_some, Table.erase_insert_of_ne h]
    · rfl
  · rw [frame?_erase, frame?_define_of_ne _ hj, frame?_define_of_ne _ hj, frame?_erase]

theorem erase_newFrame (outer : Option Nat) :
    (s.newFrame outer).2.erase g y = ((s.erase g y).newFrame outer).2 := by
  refine ext_frame? (fun j => ?_) rfl
  have hnew (s : Store) : (s.newFrame outer).2.frame? j =
      if j = s.frames.size then some ⟨[], outer⟩ else s.frame? j := Array.getElem?_push
  rw [frame?_erase, hnew, hnew, size_erase, frame?_erase]
  by_cases hj : j = s.frames.size
  · simp only [if_pos hj]
    split <;> rfl
  · simp only [if_neg hj]

theorem erase_define_self {s : Store} {g : Nat} (h : y ∉ (s.bindings g).keys) (w : Value) :
    (s.define g y w).erase g y = s := by
  refine ext_frame? (fun j => ?_) rfl
  rw [frame?_erase]
  by_cases hj : j = g
  · subst hj
    rw [if_pos rfl, frame?_define_self]
    unfold bindings at h
    cases hf : s.frame? j with
    | none => rfl
    | some f =>
      rw [hf] at h
      simp only [Option.map_some, Table.erase_insert_self h]
  · rw [if_neg (Ne.symm hj), frame?_define_of_ne _ hj]

end Erase

/-! ## One binding more -/

/-- Whether the name is bound in some frame, or mentioned by a value that is bound. -/
def mentions (s : Store) (y : Text) : Bool :=
  s.frames.any fun f => f.bindings.any fun binding => binding.1 == y || binding.2.mentions y

theorem mentions_eq_false_iff {s : Store} {y : Text} :
    s.mentions y = false ↔
      ∀ i, ∀ binding ∈ s.bindings i, binding.1 ≠ y ∧ binding.2.mentions y = false := by
  have hbinding (binding : Text × Value) :
      (¬(binding.1 == y || binding.2.mentions y) = true) ↔
        binding.1 ≠ y ∧ binding.2.mentions y = false := by
    simp
  simp only [mentions, Array.any_eq_false, List.any_eq_true, not_exists, not_and, hbinding]
  constructor
  · intro h i binding hb
    have hi := lt_size_of_mem_bindings hb
    have hframe : s.frame? i = some s.frames[i] := Array.getElem?_eq_getElem hi
    rw [bindings, hframe] at hb
    exact h i hi binding hb
  · intro h i hi binding hb
    have hframe : s.frame? i = some s.frames[i] := Array.getElem?_eq_getElem hi
    refine h i binding ?_
    rw [bindings, hframe]
    exact hb

section Mentions

variable {s : Store} {y : Text}

theorem mentions_define (hs : s.mentions y = false) (i : Nat) {name : Text} (hname : name ≠ y)
    {w : Value} (hw : w.mentions y = false) : (s.define i name w).mentions y = false := by
  rw [mentions_eq_false_iff] at hs ⊢
  intro j binding hb
  cases mem_bindings_of_define hb with
  | inl hb => exact hs j binding hb
  | inr hb =>
    rw [hb]
    exact ⟨hname, hw⟩

theorem mentions_newFrame (hs : s.mentions y = false) (outer : Option Nat) :
    (s.newFrame outer).2.mentions y = false := by
  rw [mentions_eq_false_iff] at hs ⊢
  intro i
  rw [bindings_newFrame]
  exact hs i

theorem mentions_lookup? (hs : s.mentions y = false) {i : Nat} {name : Text} {w : Value}
    (hw : s.lookup? i name = some w) : w.mentions y = false := by
  rw [lookup?] at hw
  split at hw
  · exact (mentions_eq_false_iff.mp hs _ _ (mem_of_get? hw)).2
  · cases hw

end Mentions

/-- A name that is defined takes no other one's value. -/
theorem get?_define_of_ne {name other : Text} (h : other ≠ name) (s : Store) (i j : Nat) (w : Value) :
    ((s.define i name w).bindings j).get? other = (s.bindings j).get? other := by
  by_cases hj : j = i
  · subst hj
    rw [bindings, bindings, frame?_define_self]
    cases s.frame? j with
    | none => rfl
    | some f => exact Table.get?_insert_of_ne h w f.bindings
  · rw [bindings_define_of_ne s hj]

/-- The binding of a name in a frame. -/
structure Binding where
  frame : Nat
  name : Text
  value : Value

/-- The store `t` is `s` with one binding more, whose name `s` does not mention. -/
structure Adds (b : Binding) (s t : Store) : Prop where
  unmentioned : s.mentions b.name = false
  erase_eq : t.erase b.frame b.name = s
  bound : (t.bindings b.frame).get? b.name = some b.value

/-- A store that does not mention a name can be given a binding of it. -/
theorem adds_define {b : Binding} {s : Store} (hframe : b.frame < s.frames.size)
    (hs : s.mentions b.name = false) : s.Adds b (s.define b.frame b.name b.value) where
  unmentioned := hs
  erase_eq := by
    refine erase_define_self (fun hkey => ?_) b.value
    obtain ⟨binding, hb, hname⟩ := List.mem_map.mp hkey
    exact (mentions_eq_false_iff.mp hs _ binding hb).1 hname
  bound := by
    rw [bindings_define_self s hframe]
    exact Table.get?_insert_self _ _ _

namespace Adds

variable {b : Binding} {s t : Store}

theorem size_eq (h : s.Adds b t) : t.frames.size = s.frames.size := by
  rw [← h.erase_eq, size_erase]

theorem identities_eq (h : s.Adds b t) : t.identities = s.identities := by
  rw [← h.erase_eq]
  rfl

theorem lookup?_eq (h : s.Adds b t) {name : Text} (hname : name ≠ b.name) (i : Nat) :
    t.lookup? i name = s.lookup? i name := by
  rw [← h.erase_eq, lookup?_erase t b.frame hname]

theorem define (h : s.Adds b t) (i : Nat) {name : Text} (hname : name ≠ b.name) {w : Value}
    (hw : w.mentions b.name = false) : (s.define i name w).Adds b (t.define i name w) where
  unmentioned := mentions_define h.unmentioned i hname hw
  erase_eq := by rw [erase_define t b.frame hname, h.erase_eq]
  bound := by rw [get?_define_of_ne (Ne.symm hname), h.bound]

theorem defineAll (h : s.Adds b t) (i : Nat) {bindings : List (Text × Value)}
    (hbindings : ∀ binding ∈ bindings, binding.1 ≠ b.name ∧ binding.2.mentions b.name = false) :
    (s.defineAll i bindings).Adds b (t.defineAll i bindings) := by
  induction bindings generalizing s t with
  | nil => exact h
  | cons binding rest ih =>
    obtain ⟨⟨hname, hvalue⟩, hrest⟩ := List.forall_mem_cons.mp hbindings
    exact ih (h.define i hname hvalue) hrest

theorem newFrame (h : s.Adds b t) (outer : Option Nat) :
    (s.newFrame outer).2.Adds b (t.newFrame outer).2 where
  unmentioned := mentions_newFrame h.unmentioned outer
  erase_eq := by rw [erase_newFrame, h.erase_eq]
  bound := by rw [bindings_newFrame, h.bound]

theorem newIdentity (h : s.Adds b t) : s.newIdentity.2.Adds b t.newIdentity.2 where
  unmentioned := h.unmentioned
  erase_eq := congrArg (fun s => s.newIdentity.2) h.erase_eq
  bound := h.bound

theorem extend (h : s.Adds b t) (home : Nat) {formals : List Text} (hformals : b.name ∉ formals)
    {args : List Value} (hargs : ∀ arg ∈ args, arg.mentions b.name = false) :
    (s.extend home formals args).2.Adds b (t.extend home formals args).2 := by
  have hbindings : ∀ binding ∈ formals.zip args,
      binding.1 ≠ b.name ∧ binding.2.mentions b.name = false := by
    intro binding hb
    obtain ⟨hname, hvalue⟩ := List.of_mem_zip hb
    exact ⟨fun heq => hformals (heq ▸ hname), hargs _ hvalue⟩
  have hnew := (h.newFrame (some home)).defineAll s.frames.size hbindings
  show (Store.defineAll _ s.frames.size _).Adds b (Store.defineAll _ t.frames.size _)
  rw [h.size_eq]
  exact hnew

end Adds

end Store
end SmallLisp
