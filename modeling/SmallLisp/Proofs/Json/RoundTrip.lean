import Mathlib.Data.List.Forall2
import SmallLisp.Json.Printer
import SmallLisp.Json.Reader
import SmallLisp.Proofs.Reader.Readable

/-!
JSON documents are read as they were written.

Every code point is written by itself, as a letter after a backslash or as one or two unit escapes
(`writtenChar_cases`), and each of these is read back.  There is one thing that the notation does not
tell: two surrogates that stand side by side and form a pair are written like the character that the
pair stands for, and that is what is read (`joinPairs`).  All other texts come back as they were
(`readString_writeString`).  Objects are read field by field (`parse_render_object`).

What is written is `Plain`: it has no control characters and nothing outside basic Latin.
-/

namespace SmallLisp
namespace Json

/-- The text with the surrogates that form a pair joined into one character. -/
def joinPairs : Text → Text
  | c :: d :: t =>
    if isHighSurrogate c.toNat && isLowSurrogate d.toNat then joined c.toNat d.toNat :: joinPairs t
    else c :: joinPairs (d :: t)
  | [c] => [c]
  | [] => []

/-! ## Unit escapes -/

theorem hexValue?_digitChar : ∀ d < 16, hexValue? (.char (Nat.digitChar d)) = some d := by decide

theorem hex_four (n : Nat) :
    Text.hex 4 n = [.char (Nat.digitChar (n / 4096 % 16)), .char (Nat.digitChar (n / 256 % 16)),
      .char (Nat.digitChar (n / 16 % 16)), .char (Nat.digitChar (n % 16))] := by
  simp [Text.hex, Nat.div_div_eq_div_mul]

theorem unit?_hex {n : Nat} (hn : n < 0x10000) (t : Text) : unit? (Text.hex 4 n ++ t) = some n := by
  have hdigit (m : Nat) : hexValue? (.char (Nat.digitChar (m % 16))) = some (m % 16) :=
    hexValue?_digitChar _ (Nat.mod_lt _ (by decide))
  rw [hex_four]
  simp only [unit?, List.cons_append, hdigit, Option.bind_eq_bind, Option.bind_some]
  show some _ = some n
  congr 1
  omega

theorem length_hex (width n : Nat) : (Text.hex width n).length = width := by
  induction width generalizing n with
  | zero => rfl
  | succ width ih => rw [Text.hex, List.length_append, ih, List.length_singleton]

theorem length_unitEscape (n : Nat) : (unitEscape n).length = 6 := by
  rw [unitEscape, List.length_append, length_hex]
  rfl

theorem hasMore_append {n : Nat} {u t : Text} (hu : u.length = n) (ht : t ≠ []) :
    hasMore n (u ++ t) = true := by
  subst hu
  rw [hasMore, List.drop_left]
  cases t with
  | nil => exact absurd rfl ht
  | cons c t => rfl

/-- No low surrogate is spelled at the head of the text. -/
def LacksLow (t : Text) : Prop :=
  ∀ more, t = "\\u" ++ more → ∃ n, unit? more = some n ∧ isLowSurrogate n = false

theorem drop_hex (n : Nat) (t : Text) : (Text.hex 4 n ++ t).drop 4 = t :=
  List.drop_left' (length_hex 4 n)

theorem unitEscapeAt_alone {n : Nat} (hn : n < 0x10000) (offset : Nat) {t : Text} (ht : t ≠ [])
    (h : isHighSurrogate n = true → LacksLow t) :
    unitEscapeAt offset (Text.hex 4 n ++ t) = .ok (.ofNat n, 4) := by
  unfold unitEscapeAt
  simp only [hasMore_append (length_hex 4 n) ht, unit?_hex hn, drop_hex]
  split
  next hmore => cases hmore
  split
  next more =>
    split
    next hpair =>
      obtain ⟨low, hlow, hlacks⟩ := h (Bool.and_eq_true_iff.mp hpair).1 more rfl
      simp only [hlow, hlacks, Bool.false_eq_true, if_false]
    next => rfl
  next => rfl

theorem unitEscapeAt_pair {m n : Nat} (hm : isHighSurrogate m = true) (hn : isLowSurrogate n = true)
    (offset : Nat) {t : Text} (ht : t ≠ []) :
    unitEscapeAt offset (Text.hex 4 m ++ (unitEscape n ++ t)) = .ok (joined m n, 10) := by
  have hm' : m < 0x10000 := by
    simp only [isHighSurrogate, Bool.and_eq_true, decide_eq_true_eq] at hm
    omega
  have hn' : n < 0x10000 := by
    simp only [isLowSurrogate, Bool.and_eq_true, decide_eq_true_eq] at hn
    omega
  have hrest : unitEscape n ++ t = .char '\\' :: .char 'u' :: (Text.hex 4 n ++ t) := rfl
  unfold unitEscapeAt
  simp only [hasMore_append (length_hex 4 m) (t := unitEscape n ++ t) nofun, unit?_hex hm', drop_hex]
  simp only [hrest, hm, hasMore_append (length_hex 4 n) ht, unit?_hex hn', hn, Bool.not_true,
    Bool.false_eq_true, if_false, Bool.and_self, if_true]

/-! ## Strings -/

theorem stringFrom_skip (start : Nat) (done : Text) (offset : Nat) (u t : Text) :
    stringFrom start done offset u.length (u ++ t) =
      stringFrom start done (offset + u.length) 0 t := by
  induction u generalizing offset with
  | nil => rfl
  | cons c u ih =>
    rw [List.length_cons, List.cons_append, stringFrom, ih]
    congr 1
    omega

/-- A code point takes one unit, or two that form a pair. -/
theorem codePointEscape_cases (c : CodePoint) :
    (c.toNat < 0x10000 ∧ codePointEscape c = unitEscape c.toNat) ∨
      ∃ m n, codePointEscape c = unitEscape m ++ unitEscape n ∧ isHighSurrogate m = true ∧
        isLowSurrogate n = true ∧ joined m n = c ∧ 0x10000 ≤ c.toNat := by
  unfold codePointEscape
  simp only
  split
  next hsmall => exact .inl ⟨hsmall, rfl⟩
  next hlarge =>
    have hbound : c.toNat < 0x110000 := by
      cases c with
      | char c =>
        have hvalid : c.toNat < 0xd800 ∨ 0xdfff < c.toNat ∧ c.toNat < 0x110000 := c.valid
        show c.toNat < 0x110000
        omega
      | surrogate n => exact absurd (show 0xd800 + n.val < 0x10000 by omega) hlarge
    refine .inr ⟨_, _, rfl, ?_, ?_, ?_, by omega⟩
    · simp only [isHighSurrogate, Bool.and_eq_true, decide_eq_true_eq]
      omega
    · simp only [isLowSurrogate, Bool.and_eq_true, decide_eq_true_eq]
      omega
    · have hjoined : 0x10000 + (0xd800 + (c.toNat - 0x10000) / 0x400 - 0xd800) * 0x400 +
          (0xdc00 + (c.toNat - 0x10000) % 0x400 - 0xdc00) = c.toNat := by omega
      rw [joined, hjoined, CodePoint.ofNat_toNat]

/-- How a code point is written: by itself, as a letter after a backslash, or as one or two unit
escapes. -/
theorem writtenChar_cases (c : CodePoint) :
    (writtenChar c = [c] ∧ c ≠ '"' ∧ c ≠ '\\' ∧ 0x20 ≤ c.toNat ∧ c.toNat < 0x80) ∨
      (∃ letter : CodePoint, writtenChar c = [.char '\\', letter] ∧ letter ≠ 'u' ∧
        escape? letter = some c ∧ c.toNat < 0x80 ∧ 0x20 ≤ letter.toNat ∧ letter.toNat < 0x80) ∨
      (c.toNat < 0x10000 ∧ writtenChar c = unitEscape c.toNat) ∨
      ∃ m n, writtenChar c = unitEscape m ++ unitEscape n ∧ isHighSurrogate m = true ∧
        isLowSurrogate n = true ∧ joined m n = c ∧ 0x10000 ≤ c.toNat := by
  have hescaped {d letter : CodePoint}
      (hd : escape? letter = some d ∧ d.toNat < 0x80 ∧ 0x20 ≤ letter.toNat ∧ letter.toNat < 0x80)
      (h : (c == d) = true) :
      escape? letter = some c ∧ c.toNat < 0x80 ∧ 0x20 ≤ letter.toNat ∧ letter.toNat < 0x80 := by
    rw [beq_iff_eq.mp h]
    exact hd
  unfold writtenChar
  split
  next hquote =>
    rw [Bool.or_eq_true, beq_iff_eq, beq_iff_eq] at hquote
    rcases hquote with rfl | rfl <;> exact .inr (.inl ⟨_, rfl, by decide, rfl, by decide⟩)
  next hquote =>
    split
    next h => exact .inr (.inl ⟨'n', rfl, by decide, hescaped ⟨rfl, by decide⟩ h⟩)
    split
    next h => exact .inr (.inl ⟨'r', rfl, by decide, hescaped ⟨rfl, by decide⟩ h⟩)
    split
    next h => exact .inr (.inl ⟨'t', rfl, by decide, hescaped ⟨rfl, by decide⟩ h⟩)
    split
    next h => exact .inr (.inl ⟨'b', rfl, by decide, hescaped ⟨rfl, by decide⟩ h⟩)
    split
    next h => exact .inr (.inl ⟨'f', rfl, by decide, hescaped ⟨rfl, by decide⟩ h⟩)
    split
    next hplain =>
      simp only [Bool.or_eq_true, beq_iff_eq, not_or] at hquote
      rw [Bool.and_eq_true, decide_eq_true_eq, decide_eq_true_eq] at hplain
      exact .inl ⟨rfl, hquote.1, hquote.2, hplain.1, by omega⟩
    exact .inr (.inr (codePointEscape_cases c))

section Reading

variable (start : Nat) (done : Text) (offset : Nat)

theorem stringFrom_unit {n : Nat} (hn : n < 0x10000) {t : Text} (ht : t ≠ [])
    (h : isHighSurrogate n = true → LacksLow t) :
    stringFrom start done offset 0 (unitEscape n ++ t) =
      stringFrom start (.ofNat n :: done) (offset + 6) 0 t := by
  have hskip := stringFrom_skip start (.ofNat n :: done) (offset + 1) (.char 'u' :: Text.hex 4 n) t
  rw [List.length_cons, length_hex] at hskip
  show stringFrom start done offset 0 (.char '\\' :: .char 'u' :: (Text.hex 4 n ++ t)) = _
  rw [stringFrom]
  simp only [unitEscapeAt_alone hn (offset + 2) ht h]
  exact hskip

theorem stringFrom_pair {m n : Nat} (hm : isHighSurrogate m = true) (hn : isLowSurrogate n = true)
    {t : Text} (ht : t ≠ []) :
    stringFrom start done offset 0 (unitEscape m ++ (unitEscape n ++ t)) =
      stringFrom start (joined m n :: done) (offset + 12) 0 t := by
  have hskip := stringFrom_skip start (joined m n :: done) (offset + 1)
    (.char 'u' :: (Text.hex 4 m ++ unitEscape n)) t
  rw [List.length_cons, List.length_append, length_hex] at hskip
  show stringFrom start done offset 0
    (.char '\\' :: .char 'u' :: (Text.hex 4 m ++ (unitEscape n ++ t))) = _
  rw [stringFrom]
  simp only [unitEscapeAt_pair hm hn (offset + 2) ht]
  rw [List.cons_append, List.append_assoc] at hskip
  exact hskip

theorem stringFrom_writtenChar (c : CodePoint) {t : Text} (ht : t ≠ [])
    (h : isHighSurrogate c.toNat = true → LacksLow t) :
    stringFrom start done offset 0 (writtenChar c ++ t) =
      stringFrom start (c :: done) (offset + (writtenChar c).length) 0 t := by
  rcases writtenChar_cases c with ⟨hw, hquote, hbackslash, hspace, -⟩ |
    ⟨letter, hw, hletter, hescape, -, -⟩ | ⟨hsmall, hw⟩ | ⟨m, n, hw, hm, hn, hjoined, -⟩
  · rw [hw]
    have hcontrol : ¬c.toNat < 0x20 := by omega
    rw [List.singleton_append, stringFrom.eq_def]
    simp only [beq_iff_eq, hquote, hbackslash, hcontrol, if_false]
    rfl
  · rw [hw]
    have hskip := stringFrom_skip start (c :: done) (offset + 1) [letter] t
    show stringFrom start done offset 0 (.char '\\' :: letter :: t) = _
    rw [stringFrom.eq_def]
    simp only
    split
    next hq => cases hq
    split
    next =>
      simp only [hescape]
      exact hskip
    next hb => exact absurd rfl hb
  · rw [hw, stringFrom_unit start done offset hsmall ht h, CodePoint.ofNat_toNat]
    rfl
  · rw [hw, List.append_assoc, stringFrom_pair start done offset hm hn ht, hjoined]
    rfl

end Reading

theorem lacksLow_writtenChar {c : CodePoint} (hc : isLowSurrogate c.toNat = false) (t : Text) :
    LacksLow (writtenChar c ++ t) := by
  intro more hmore
  replace hmore : writtenChar c ++ t = .char '\\' :: .char 'u' :: more := hmore
  rcases writtenChar_cases c with ⟨hw, -, hbackslash, -⟩ | ⟨letter, hw, hletter, -⟩ | ⟨hsmall, hw⟩ |
    ⟨m, n, hw, hm, -⟩
  · rw [hw] at hmore
    cases hmore
    exact absurd rfl hbackslash
  · rw [hw] at hmore
    cases hmore
    exact absurd rfl hletter
  · rw [hw] at hmore
    cases hmore
    exact ⟨_, unit?_hex hsmall t, hc⟩
  · rw [hw] at hmore
    cases hmore
    refine ⟨m, ?_, ?_⟩
    · show unit? ((Text.hex 4 m ++ unitEscape n) ++ t) = some m
      rw [List.append_assoc]
      refine unit?_hex ?_ _
      simp only [isHighSurrogate, Bool.and_eq_true, decide_eq_true_eq] at hm
      omega
    · simp only [isHighSurrogate, Bool.and_eq_true, decide_eq_true_eq] at hm
      simp only [isLowSurrogate, Bool.and_eq_false_iff, decide_eq_false_iff_not]
      omega

theorem lacksLow_quote (t : Text) : LacksLow (.char '"' :: t) := by
  intro more hmore
  replace hmore : .char '"' :: t = .char '\\' :: .char 'u' :: more := hmore
  cases hmore

theorem writtenChar_of_surrogate {c : CodePoint}
    (h : isHighSurrogate c.toNat = true ∨ isLowSurrogate c.toNat = true) :
    writtenChar c = unitEscape c.toNat := by
  simp only [isHighSurrogate, isLowSurrogate, Bool.and_eq_true, decide_eq_true_eq] at h
  rcases writtenChar_cases c with ⟨-, -, -, -, hc⟩ | ⟨letter, -, -, -, hc, -⟩ | ⟨-, hw⟩ |
    ⟨m, n, -, -, -, -, hc⟩
  · omega
  · omega
  · exact hw
  · omega

/-- What has been written between quotes is read, with the pairs joined. -/
theorem stringFrom_written (start : Nat) (done : Text) (offset : Nat) (t rest : Text) :
    stringFrom start done offset 0 (t.flatMap writtenChar ++ .char '"' :: rest) =
      .ok (done.reverse ++ joinPairs t, offset + (t.flatMap writtenChar).length + 1) := by
  have hquote (u : Text) : u ++ .char '"' :: rest ≠ [] := List.append_ne_nil_of_right_ne_nil u nofun
  fun_induction joinPairs t generalizing done offset with
  | case1 c d t hpair ih =>
    rw [Bool.and_eq_true] at hpair
    have hc := writtenChar_of_surrogate (.inl hpair.1)
    have hd := writtenChar_of_surrogate (.inr hpair.2)
    rw [List.flatMap_cons, List.flatMap_cons, hc, hd, List.append_assoc, List.append_assoc,
      stringFrom_pair start done offset hpair.1 hpair.2 (hquote _), ih]
    simp only [List.reverse_cons, List.append_assoc, List.singleton_append, List.length_append,
      length_unitEscape]
    congr 3
    omega
  | case2 c d t hpair ih =>
    have hlacks : isHighSurrogate c.toNat = true →
        LacksLow ((d :: t).flatMap writtenChar ++ .char '"' :: rest) := by
      intro hc
      rw [hc, Bool.true_and, Bool.not_eq_true] at hpair
      rw [List.flatMap_cons, List.append_assoc]
      exact lacksLow_writtenChar hpair _
    rw [List.flatMap_cons, List.append_assoc, stringFrom_writtenChar start done offset c (hquote _) hlacks,
      ih]
    simp only [List.reverse_cons, List.append_assoc, List.singleton_append, List.length_append]
    congr 3
    omega
  | case3 c =>
    rw [List.flatMap_singleton,
      stringFrom_writtenChar start done offset c (List.cons_ne_nil _ _) fun _ => lacksLow_quote rest,
      stringFrom.eq_def]
    simp
  | case4 =>
    rw [List.flatMap_nil, List.nil_append, stringFrom.eq_def]
    simp

theorem readString_writeString (offset : Nat) (t rest : Text) :
    readString ⟨offset, writeString t ++ rest⟩ =
      .ok (joinPairs t, ⟨offset + (writeString t).length, rest⟩) := by
  have hlength : (writeString t).length = (t.flatMap writtenChar).length + 2 := by
    simp [writeString]
  have hdrop : (writeString t ++ rest).drop 1 = t.flatMap writtenChar ++ .char '"' :: rest := by
    simp [writeString]
  unfold readString
  rw [hdrop, stringFrom_written]
  show Except.ok (joinPairs t, Rest.drop ⟨offset, writeString t ++ rest⟩ _) = _
  rw [show offset + 1 + (t.flatMap writtenChar).length + 1 - offset = (writeString t).length by omega,
    Rest.drop, List.drop_left]

/-! ## Plain text -/

/-- Printable basic Latin, and one character more. -/
def Plain (t : Text) : Prop := ∀ c ∈ t, 0x20 ≤ c.toNat ∧ c.toNat < 0x80

instance (t : Text) : Decidable (Plain t) :=
  inferInstanceAs (Decidable (∀ c ∈ t, 0x20 ≤ c.toNat ∧ c.toNat < 0x80))

theorem Plain.append {t u : Text} (ht : Plain t) (hu : Plain u) : Plain (t ++ u) :=
  fun c hc => (List.mem_append.mp hc).elim (ht c) (hu c)

theorem plain_hex (width n : Nat) : Plain (Text.hex width n) := by
  have hdigit : ∀ d < 16, 0x20 ≤ (Nat.digitChar d).toNat ∧ (Nat.digitChar d).toNat < 0x80 := by decide
  induction width generalizing n with
  | zero => exact nofun
  | succ width ih =>
    refine (ih (n / 16)).append fun c hc => ?_
    rw [List.mem_singleton.mp hc]
    exact hdigit _ (Nat.mod_lt _ (by decide))

theorem plain_unitEscape (n : Nat) : Plain (unitEscape n) :=
  Plain.append (t := "\\u") (by decide) (plain_hex 4 n)

theorem plain_writtenChar (c : CodePoint) : Plain (writtenChar c) := by
  rcases writtenChar_cases c with ⟨hw, -, -, hc⟩ | ⟨letter, hw, -, -, -, hletter⟩ | ⟨-, hw⟩ |
    ⟨m, n, hw, -⟩
  · rw [hw]
    exact List.forall_mem_singleton.mpr hc
  · rw [hw]
    exact List.forall_mem_cons.mpr ⟨by decide, List.forall_mem_singleton.mpr hletter⟩
  · rw [hw]
    exact plain_unitEscape _
  · rw [hw]
    exact (plain_unitEscape m).append (plain_unitEscape n)

theorem plain_writeString (t : Text) : Plain (writeString t) := by
  have hinside : Plain (t.flatMap writtenChar) := by
    intro c hc
    obtain ⟨d, -, hd⟩ := List.mem_flatMap.mp hc
    exact plain_writtenChar d c hd
  have hquote : Plain [.char '"'] := by decide
  exact (hquote.append hinside).append hquote

theorem Plain.join {separator : Text} (hseparator : Plain separator) {texts : List Text}
    (h : ∀ t ∈ texts, Plain t) : Plain (Text.join separator texts) := by
  fun_induction Text.join separator texts with
  | case1 => exact nofun
  | case2 t => exact h t (List.mem_singleton_self t)
  | case3 t u rest ih =>
    obtain ⟨ht, hrest⟩ := List.forall_mem_cons.mp h
    exact (ht.append hseparator).append (ih hrest)

theorem plain_render_object {fields : List (Text × Json)}
    (h : ∀ field ∈ fields, Plain field.2.render) : Plain (object fields).render := by
  have hfields : ∀ t ∈ renderFields fields, Plain t := by
    induction fields with
    | nil => exact nofun
    | cons field fields ih =>
      obtain ⟨hfield, hrest⟩ := List.forall_mem_cons.mp h
      have hcolon : Plain ": " := by decide
      rw [renderFields]
      exact List.forall_mem_cons.mpr
        ⟨((plain_writeString field.1).append hcolon).append hfield, ih hrest⟩
  have hcomma : Plain ", " := by decide
  have hopen : Plain "\x7b" := by decide
  have hclose : Plain "\x7d" := by decide
  rw [render]
  exact (hopen.append (hcomma.join hfields)).append hclose

/-! ## Objects -/

/-- After blanks, the reader takes the text of `v`, whatever follows it, for `w`. -/
def ReadsAs (read : Reader) (v w : Json) : Prop :=
  ∀ offset rest, ∃ offset', read (Rest.skipSpace ⟨offset, v.render ++ rest⟩) = .ok (w, ⟨offset', rest⟩)

theorem Rest.skipSpace_of_not_space {c : CodePoint} (hc : isSpace c = false) (offset : Nat) (t : Text) :
    skipSpace ⟨offset, c :: t⟩ = ⟨offset, c :: t⟩ := by
  rw [skipSpace, List.takeWhile_cons_of_neg (by simp [hc])]
  rfl

theorem Rest.skipSpace_space (offset : Nat) (t : Text) :
    skipSpace ⟨offset, .char ' ' :: t⟩ = skipSpace ⟨offset + 1, t⟩ := by
  rw [skipSpace, skipSpace, List.takeWhile_cons_of_pos rfl, List.length_cons]
  simp only [drop, List.drop_succ_cons, mk.injEq, and_true]
  omega

theorem readsAs_string (depth : Nat) (s : Text) :
    ReadsAs (value depth) (.string s) (.string (joinPairs s)) := by
  intro offset rest
  have htext : (Json.string s).render ++ rest = writeString s ++ rest := rfl
  have hskip : Rest.skipSpace ⟨offset, writeString s ++ rest⟩ = ⟨offset, writeString s ++ rest⟩ :=
    Rest.skipSpace_of_not_space rfl offset _
  have hread : (readString ⟨offset, writeString s ++ rest⟩).map (fun p => (Json.string p.1, p.2)) =
      .ok (.string (joinPairs s), ⟨offset + (writeString s).length, rest⟩) := by
    rw [readString_writeString]
    rfl
  rw [htext, hskip]
  exact ⟨_, by cases depth <;> exact hread⟩

theorem readsAs_bool (depth : Nat) (b : Bool) : ReadsAs (value depth) (.bool b) (.bool b) := by
  intro offset rest
  have hskip : Rest.skipSpace ⟨offset, (Json.bool b).render ++ rest⟩ =
      ⟨offset, (Json.bool b).render ++ rest⟩ := by
    cases b <;> exact Rest.skipSpace_of_not_space rfl offset _
  have hread : readScalar ⟨offset, (Json.bool b).render ++ rest⟩ =
      .ok (.bool b, ⟨offset + (Json.bool b).render.length, rest⟩) := by
    cases b <;> rfl
  rw [hskip]
  refine ⟨offset + (Json.bool b).render.length, ?_⟩
  cases b <;> cases depth <;> exact hread

/-- Field by field, the keys are read with their pairs joined and the values as they should be. -/
def FieldsReadAs (read : Reader) : List (Text × Json) → List (Text × Json) → Prop :=
  List.Forall₂ fun field field' => field'.1 = joinPairs field.1 ∧ ReadsAs read field.2 field'.2

theorem readFields_field {read : Reader} {v w : Json} (h : ReadsAs read v w) (key : Text)
    (fuel offset : Nat) (more : Text) :
    ∃ offset', readFields read (fuel + 1) ⟨offset, writeString key ++ (": " ++ (v.render ++ more))⟩ =
      let r := Rest.skipSpace ⟨offset', more⟩
      match r.text with
      | .char '\x7d' :: _ => pure ([(joinPairs key, w)], r.drop 1)
      | .char ',' :: _ => do
        let (rest, r) ← readFields read fuel (r.drop 1).skipSpace
        pure ((joinPairs key, w) :: rest, r)
      | _ => failAt "Expecting ',' delimiter" r.offset := by
  obtain ⟨offset', hvalue⟩ := h (offset + (writeString key).length + 2) more
  refine ⟨offset', ?_⟩
  rw [readFields]
  split
  next =>
    rw [readString_writeString]
    have hcolon : Rest.skipSpace ⟨offset + (writeString key).length, ": " ++ (v.render ++ more)⟩ =
        ⟨offset + (writeString key).length, ": " ++ (v.render ++ more)⟩ :=
      Rest.skipSpace_of_not_space rfl _ _
    have hspace : (Rest.drop ⟨offset + (writeString key).length, ": " ++ (v.render ++ more)⟩ 1).skipSpace =
        Rest.skipSpace ⟨offset + (writeString key).length + 2, v.render ++ more⟩ :=
      Rest.skipSpace_space _ _
    simp only [bind, Except.bind, hcolon, hspace, hvalue]
    rfl
  next hne => exact absurd rfl (hne _)

theorem readFields_render {read : Reader} {field field' : Text × Json}
    {fields fields' : List (Text × Json)}
    (h : FieldsReadAs read (field :: fields) (field' :: fields')) {fuel : Nat}
    (hfuel : fields.length < fuel) (offset : Nat) (rest : Text) :
    ∃ offset', readFields read fuel
        ⟨offset, Text.join ", " (renderFields (field :: fields)) ++ .char '\x7d' :: rest⟩ =
      .ok (field' :: fields', ⟨offset', rest⟩) := by
  induction fields generalizing field field' fields' fuel offset with
  | nil =>
    obtain ⟨key, v⟩ := field
    obtain ⟨_, w⟩ := field'
    cases h with
    | cons hfield hfields =>
      cases hfields
      obtain ⟨rfl, hread⟩ := hfield
      obtain ⟨fuel, rfl⟩ := Nat.exists_eq_succ_of_ne_zero (Nat.ne_zero_of_lt hfuel)
      obtain ⟨offset', hstep⟩ := readFields_field hread key fuel offset (.char '\x7d' :: rest)
      have htext : Text.join ", " (renderFields [(key, v)]) ++ .char '\x7d' :: rest =
          writeString key ++ (": " ++ (v.render ++ .char '\x7d' :: rest)) := by
        simp only [renderFields, Text.join, List.append_assoc]
      rw [htext, hstep, Rest.skipSpace_of_not_space rfl]
      exact ⟨_, rfl⟩
  | cons next fields ih =>
    obtain ⟨key, v⟩ := field
    obtain ⟨_, w⟩ := field'
    cases h with
    | cons hfield hfields =>
      obtain ⟨rfl, hread⟩ := hfield
      cases hfields with
      | @cons _ next' _ fields' hnext hfields =>
        obtain ⟨fuel, rfl⟩ := Nat.exists_eq_succ_of_ne_zero (Nat.ne_zero_of_lt hfuel)
        let tail := Text.join ", " (renderFields (next :: fields)) ++ .char '\x7d' :: rest
        obtain ⟨offset₁, hstep⟩ := readFields_field hread key fuel offset (", " ++ tail)
        obtain ⟨offset₂, hrest⟩ := ih (.cons hnext hfields) (Nat.lt_of_succ_lt_succ hfuel) (offset₁ + 2)
        have htext : Text.join ", " (renderFields ((key, v) :: next :: fields)) ++ .char '\x7d' :: rest =
            writeString key ++ (": " ++ (v.render ++ (", " ++ tail))) := by
          simp only [tail, renderFields, Text.join, List.append_assoc]
        have hcomma : Rest.skipSpace ⟨offset₁, ", " ++ tail⟩ = ⟨offset₁, ", " ++ tail⟩ :=
          Rest.skipSpace_of_not_space rfl _ _
        have hkey : Rest.skipSpace ⟨offset₁ + 2, tail⟩ = ⟨offset₁ + 2, tail⟩ := by
          cases fields <;> exact Rest.skipSpace_of_not_space rfl _ _
        have hspace : (Rest.drop ⟨offset₁, ", " ++ tail⟩ 1).skipSpace = ⟨offset₁ + 2, tail⟩ :=
          (Rest.skipSpace_space _ _).trans hkey
        rw [htext, hstep, hcomma]
        refine ⟨offset₂, ?_⟩
        show (readFields read fuel (Rest.drop ⟨offset₁, ", " ++ tail⟩ 1).skipSpace >>= fun _ => _) = _
        rw [hspace, hrest]
        rfl

/-- There are no more fields than code points. -/
theorem length_le_renderFields (fields : List (Text × Json)) :
    fields.length ≤ (Text.join ", " (renderFields fields)).length := by
  induction fields with
  | nil => exact Nat.le_refl 0
  | cons field fields ih =>
    have hfirst : 0 < (writeString field.1 ++ ": " ++ field.2.render).length := Nat.succ_pos _
    cases fields with
    | nil => exact hfirst
    | cons next fields =>
      simp only [renderFields, Text.join, List.length_append, List.length_cons] at ih hfirst ⊢
      omega

/-- An object is read field by field. -/
theorem parse_render_object {depth : Nat} {field field' : Text × Json}
    {fields fields' : List (Text × Json)}
    (h : FieldsReadAs (value depth) (field :: fields) (field' :: fields')) :
    parse (depth + 1) (Json.object (field :: fields)).render =
      .ok (.object (Table.ofList (field' :: fields'))) := by
  have hrender : (Json.object (field :: fields)).render =
      .char '\x7b' :: (Text.join ", " (renderFields (field :: fields)) ++ [.char '\x7d']) := by
    simp [render, Text.ofString]
  obtain ⟨u, hu⟩ : ∃ u, Text.join ", " (renderFields (field :: fields)) ++ [.char '\x7d'] =
      .char '"' :: u := by
    cases fields <;> exact ⟨_, rfl⟩
  have hfuel : fields.length < (CodePoint.char '"' :: u).length + 1 := by
    have := length_le_renderFields (field :: fields)
    rw [← hu]
    simp only [List.length_append, List.length_cons] at this ⊢
    omega
  obtain ⟨offset, hfields⟩ := readFields_render h hfuel 1 []
  rw [hu] at hfields hrender
  have hopen : (Rest.drop ⟨0, .char '\x7b' :: .char '"' :: u⟩ 1).skipSpace = ⟨1, .char '"' :: u⟩ :=
    Rest.skipSpace_of_not_space rfl _ _
  have hobject : value (depth + 1) ⟨0, .char '\x7b' :: .char '"' :: u⟩ =
      .ok (.object (Table.ofList (field' :: fields')), ⟨offset, []⟩) := by
    show readObject (value depth) ⟨0, .char '\x7b' :: .char '"' :: u⟩ = _
    simp only [readObject, hopen, hfields]
    rfl
  rw [hrender]
  show (value (depth + 1) (Rest.skipSpace ⟨0, .char '\x7b' :: .char '"' :: u⟩) >>= fun _ => _) = _
  rw [Rest.skipSpace_of_not_space rfl, hobject]
  rfl

end Json
end SmallLisp
