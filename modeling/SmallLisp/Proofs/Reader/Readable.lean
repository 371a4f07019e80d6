import SmallLisp.Proofs.Number.Grammar
import SmallLisp.Proofs.Reader.Grammar
import SmallLisp.Proofs.Reader.Scan

/-!
What the forms of a text are made of.

An atom is a text of its own, not empty and made of code points that belong to atoms.  A form that has
been read is built of lists, of numbers other than NaN and of symbols whose names are atoms but not
number literals (`Value.Readable`).  A number literal is an atom as well, whatever the script of its
digits.
-/

namespace SmallLisp

namespace Token

/-- A text that is an atom as a whole. -/
def IsAtom (t : Text) : Prop := t ≠ [] ∧ ∀ c ∈ t, isAtomChar c = true

instance (t : Text) : Decidable (IsAtom t) := inferInstanceAs (Decidable (_ ∧ _))

/-- An atom that is being read is an atom already. -/
def Mode.Valid : Mode → Prop
  | .atom _ reversed => IsAtom reversed
  | _ => True

def Valid (t : Token) : Prop := t.kind = .atom → IsAtom t.text

theorem isAtom_reverse {t : Text} (h : IsAtom t) : IsAtom t.reverse :=
  ⟨List.reverse_ne_nil_iff.mpr h.1, fun c hc => h.2 c (List.mem_reverse.mp hc)⟩

theorem Mode.valid_extend {mode : Mode} {c : CodePoint} (h : mode.Valid)
    (hc : isAtomChar c = true) (column : Nat) : (mode.extend column c).Valid := by
  cases mode with
  | atom start reversed => exact ⟨nofun, List.forall_mem_cons.mpr ⟨hc, h.2⟩⟩
  | gap | comment => exact ⟨nofun, List.forall_mem_cons.mpr ⟨hc, nofun⟩⟩

theorem valid_punctuation (line column : Nat) (c : CodePoint) :
    ∀ t ∈ punctuation line column c, t.Valid := by
  intro t ht
  unfold punctuation at ht
  split at ht
  · cases List.mem_singleton.mp ht
    exact nofun
  split at ht
  · cases List.mem_singleton.mp ht
    exact nofun
  split at ht
  · cases List.mem_singleton.mp ht
    exact nofun
  · cases ht

namespace Scanner

theorem valid_pending {st : Scanner} (h : st.mode.Valid) : ∀ t ∈ st.pending, t.Valid := by
  obtain ⟨mode, line, column⟩ := st
  intro t ht
  cases mode with
  | gap | comment => cases ht
  | atom start reversed =>
    cases List.mem_singleton.mp ht
    exact fun _ => isAtom_reverse h

theorem valid_step {st : Scanner} (h : st.mode.Valid) (c : CodePoint) :
    (∀ t ∈ (st.step c).1, t.Valid) ∧ (st.step c).2.mode.Valid := by
  have hpending := valid_pending h
  unfold step
  split
  · refine ⟨nofun, ?_⟩
    split <;> trivial
  split
  next hatom => exact ⟨nofun, Mode.valid_extend h hatom _⟩
  split
  · exact ⟨hpending, trivial⟩
  split
  · exact ⟨hpending, trivial⟩
  · exact ⟨List.forall_mem_append.mpr ⟨hpending, valid_punctuation _ _ c⟩, trivial⟩

theorem valid_scan {st : Scanner} (h : st.mode.Valid) (s : Text) : ∀ t ∈ st.scan s, t.Valid := by
  induction s generalizing st with
  | nil =>
    rw [scan_nil]
    exact valid_pending h
  | cons c cs ih =>
    obtain ⟨hended, hnext⟩ := valid_step h c
    rw [scan_cons]
    exact List.forall_mem_append.mpr ⟨hended, ih hnext⟩

end Scanner

theorem valid_lex (source : Text) : ∀ t ∈ lex source, t.Valid := by
  have hstart : Scanner.start.mode.Valid := trivial
  exact Scanner.valid_scan hstart source

end Token

/-! ## Forms -/

namespace Value

mutual

/-- The values that forms of texts are. -/
def Readable : Value → Prop
  | .number x => x ≠ .nan
  | .symbol name => Token.IsAtom name ∧ Binary64.read? name = none
  | .list items => ReadableAll items
  | _ => False

def ReadableAll : List Value → Prop
  | [] => True
  | v :: vs => v.Readable ∧ ReadableAll vs

end

theorem readableAll_reverse {vs : List Value} (h : ReadableAll vs) : ReadableAll vs.reverse := by
  have hiff (vs : List Value) : ReadableAll vs ↔ ∀ v ∈ vs, v.Readable := by
    induction vs with
    | nil => exact ⟨fun _ => nofun, fun _ => trivial⟩
    | cons v vs ih => rw [ReadableAll, ih, List.forall_mem_cons]
  rw [hiff] at h ⊢
  exact fun v hv => h v (List.mem_reverse.mp hv)

theorem readable_ofAtom {t : Text} (h : Token.IsAtom t) : (ofAtom t).Readable := by
  unfold ofAtom
  split
  next x hread =>
    obtain ⟨l, _, rfl⟩ := Option.map_eq_some_iff.mp hread
    exact l.value_ne_nan
  next hread => exact ⟨h, hread⟩

theorem readable_quote {v : Value} (h : v.Readable) : (list [.symbol "quote", v]).Readable := by
  have hname : Token.IsAtom "quote" ∧ Binary64.read? "quote" = none := by decide
  exact ⟨hname, h, trivial⟩

end Value
namespace Reader

open Value

def Step.Readable : Step → Prop
  | .more stack => ∀ o ∈ stack, ReadableAll o.items
  | .done form => form.Readable
  | .failed _ => True

theorem readable_deliver {v : Value} (hv : v.Readable) {stack : List Opened}
    (h : ∀ o ∈ stack, ReadableAll o.items) : (deliver v stack).Readable := by
  induction stack generalizing v with
  | nil => exact hv
  | cons o rest ih =>
    obtain ⟨ho, hrest⟩ := List.forall_mem_cons.mp h
    by_cases hquote : o.opener.kind = .quote
    · rw [deliver_quote hquote]
      exact ih (readable_quote hv) hrest
    · rw [deliver_list hquote]
      exact List.forall_mem_cons.mpr ⟨⟨hv, ho⟩, hrest⟩

theorem readable_feed {stack : List Opened} (h : ∀ o ∈ stack, ReadableAll o.items) {t : Token}
    (ht : t.Valid) : (feed stack t).Readable := by
  unfold feed
  split
  next => exact List.forall_mem_cons.mpr ⟨trivial, h⟩
  next => exact List.forall_mem_cons.mpr ⟨trivial, h⟩
  next =>
    cases stack with
    | nil => trivial
    | cons o rest =>
      obtain ⟨ho, hrest⟩ := List.forall_mem_cons.mp h
      by_cases hquote : o.opener.kind = .quote
      · rw [close_quote t hquote]
        trivial
      · have hlist : (list o.items.reverse).Readable := readableAll_reverse ho
        rw [close_list t hquote]
        exact readable_deliver hlist hrest
  next hkind => exact readable_deliver (readable_ofAtom (ht hkind)) h

theorem readable_readAll {stack : List Opened} (h : ∀ o ∈ stack, ReadableAll o.items)
    {ts : List Token} (hts : ∀ t ∈ ts, t.Valid) : ∀ v ∈ (readAll stack ts).forms, v.Readable := by
  induction ts generalizing stack with
  | nil => exact nofun
  | cons t ts ih =>
    obtain ⟨ht, hts⟩ := List.forall_mem_cons.mp hts
    have hstep := readable_feed h ht
    rw [readAll_cons]
    cases hfeed : feed stack t with
    | more stack =>
      rw [hfeed] at hstep
      exact ih hstep hts
    | done form =>
      rw [hfeed] at hstep
      exact List.forall_mem_cons.mpr ⟨hstep, ih nofun hts⟩
    | failed e => exact nofun

end Reader

/-- Every form that is read is readable, also before an error. -/
theorem readable_of_mem_forms {source : Text} {v : Value} (h : v ∈ (read source).forms) :
    v.Readable := by
  have hstack : ∀ o ∈ ([] : List Reader.Opened), Value.ReadableAll o.items := nofun
  exact Reader.readable_readAll hstack (Token.valid_lex source) v h

/-! ## Number literals are atoms -/

theorem CodePoint.ofNat_toNat (c : CodePoint) : ofNat c.toNat = c := by
  cases c with
  | char c =>
    have hc : ¬(firstSurrogate ≤ c.toNat ∧ c.toNat - firstSurrogate < 0x800) := by
      have hvalid : c.toNat < 0xd800 ∨ 0xdfff < c.toNat ∧ c.toNat < 0x110000 := c.valid
      unfold firstSurrogate
      omega
    rw [toNat, ofNat, dif_neg hc, Char.ofNat_toNat]
  | surrogate n =>
    have hn : firstSurrogate ≤ firstSurrogate + n.val ∧
        firstSurrogate + n.val - firstSurrogate < 0x800 :=
      ⟨Nat.le_add_right _ _, by omega⟩
    rw [toNat, ofNat, dif_pos hn]
    exact congrArg surrogate (Fin.ext (Nat.add_sub_cancel_left _ _))

theorem Token.isAtomChar_of_isDigit {c : CodePoint} (h : c.isDigit = true) :
    isAtomChar c = true := by
  have htable : ∀ z ∈ CodePoint.digitZeros, ∀ i < 10,
      isAtomChar (CodePoint.ofNat (z + i)) = true := by decide +kernel
  rw [CodePoint.isDigit, CodePoint.digitValue?, Option.isSome_map, List.find?_isSome] at h
  obtain ⟨z, hz, hrange⟩ := h
  rw [Bool.and_eq_true, decide_eq_true_eq, decide_eq_true_eq] at hrange
  have hc := htable z hz (c.toNat - z) (by omega)
  rwa [Nat.add_sub_cancel' hrange.1, CodePoint.ofNat_toNat] at hc

namespace Literal

open Token

theorem Digits.isAtomChar {ds : Text} (h : Digits ds) : ∀ c ∈ ds, isAtomChar c = true :=
  fun c hc => isAtomChar_of_isDigit (h c hc)

theorem IsSign.isAtomChar {s : Text} (h : IsSign s) : ∀ c ∈ s, isAtomChar c = true := by
  cases h <;> decide

theorem IsMantissa.isAtom {m : Text} (h : IsMantissa m) : IsAtom m := by
  have hpoint {part : Text} (hpart : Digits part) :
      ∀ c ∈ CodePoint.char '.' :: part, isAtomChar c = true :=
    List.forall_mem_cons.mpr ⟨by decide, hpart.isAtomChar⟩
  cases h with
  | whole hds hne => exact ⟨hne, hds.isAtomChar⟩
  | pointed hds hne hpart =>
    refine ⟨List.append_ne_nil_of_left_ne_nil hne _, ?_⟩
    exact List.forall_mem_append.mpr ⟨hds.isAtomChar, hpoint hpart⟩
  | pointFirst hpart => exact ⟨nofun, hpoint hpart⟩

theorem IsExponent.isAtomChar {e : Text} (h : IsExponent e) : ∀ c ∈ e, isAtomChar c = true := by
  cases h with
  | none => exact nofun
  | @marked mark s ds hmark hs hds =>
    have hfirst : Token.isAtomChar mark = true := by rcases hmark with rfl | rfl <;> decide
    have hrest := List.forall_mem_append.mpr ⟨hs.isAtomChar, hds.isAtomChar⟩
    exact List.forall_mem_cons.mpr ⟨hfirst, hrest⟩

theorem IsLiteral.isAtom {t : Text} (h : IsLiteral t) : IsAtom t := by
  cases h with
  | @mk s m e hs hm he =>
    have hne : s ++ m ++ e ≠ [] := by simp [hm.isAtom.1]
    have hstart := List.forall_mem_append.mpr ⟨hs.isAtomChar, hm.isAtom.2⟩
    exact ⟨hne, List.forall_mem_append.mpr ⟨hstart, he.isAtomChar⟩⟩

end Literal

theorem Token.isAtom_of_read? {t : Text} {x : Binary64} (h : Binary64.read? t = some x) :
    IsAtom t := by
  obtain ⟨l, hl, _⟩ := Option.map_eq_some_iff.mp h
  have hliteral : Literal.IsLiteral t := (Literal.parse?_isSome_iff t).mp (by rw [hl]; rfl)
  exact hliteral.isAtom

end SmallLisp
