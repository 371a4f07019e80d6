import SmallLisp.Eval.Primitives

/-!
The names that no file can be found for.

A path cannot be used because of a code point in one of its steps (`Path.invalid?_eq_none_iff`), so a
name that cannot be used is no better in any directory of the search path.  Looking for a file goes
through the candidates in order, and it fails in two ways only: the path of the name itself cannot be
used, or it comes to a candidate that is too long (`Primitive.Rejects`).
-/

namespace SmallLisp

/-- The code point stands for nothing that a path can hold. -/
def CodePoint.isForbidden : CodePoint → Bool
  | .char c => c == '\x00'
  | .surrogate n => (Utf8.escapedByte? n).isNone

theorem Text.mem_join_iff {c : CodePoint} {separator : Text} (hc : c ∉ separator) (ts : List Text) :
    c ∈ Text.join separator ts ↔ ∃ t ∈ ts, c ∈ t := by
  induction ts with
  | nil => simp [join]
  | cons t rest ih =>
    cases rest with
    | nil => simp [join]
    | cons u rest =>
      have hjoin : join separator (t :: u :: rest) = t ++ separator ++ join separator (u :: rest) := rfl
      rw [hjoin, List.mem_append, List.mem_append, ih]
      simp [hc]

namespace Path

theorem badSurrogates?_eq_none_iff (start : Nat) (t : Text) :
    badSurrogates? start t = none ↔
      ∀ n, CodePoint.surrogate n ∈ t → (Utf8.escapedByte? n).isSome = true := by
  induction t generalizing start with
  | nil => simp [badSurrogates?]
  | cons c t ih =>
    cases c with
    | char c => simp [badSurrogates?, ih]
    | surrogate n =>
      by_cases h : (Utf8.escapedByte? n).isSome = true
      · simp only [badSurrogates?, h, if_true, ih, List.mem_cons, CodePoint.surrogate.injEq]
        constructor
        · rintro hrest m (rfl | hm)
          · exact h
          · exact hrest m hm
        · exact fun hall m hm => hall m (.inr hm)
      · simp only [badSurrogates?, h]
        exact ⟨nofun, fun hall => absurd (hall n List.mem_cons_self) h⟩

theorem invalid?_eq_none_iff_toText (p : Path) :
    p.invalid? = none ↔ ∀ c ∈ p.toText, c.isForbidden = false := by
  have hnul : (if p.toText.contains '\x00' then some Invalid.nul else none) = none ↔
      CodePoint.char '\x00' ∉ p.toText := by
    simp
  rw [invalid?, Option.or_eq_none_iff, badSurrogates?_eq_none_iff, hnul]
  constructor
  · rintro ⟨hsurrogates, hchars⟩ c hc
    cases c with
    | char c =>
      refine beq_false_of_ne fun hzero => ?_
      exact hchars (hzero ▸ hc)
    | surrogate n =>
      have h := hsurrogates n hc
      simpa [CodePoint.isForbidden, Option.isSome_iff_ne_none] using h
  · intro h
    refine ⟨fun n hn => ?_, fun hzero => ?_⟩
    · have hn := h _ hn
      simpa [CodePoint.isForbidden, Option.isSome_iff_ne_none] using hn
    · exact absurd (h _ hzero) (by decide)

theorem mem_toText_iff {c : CodePoint} (hc : c.isForbidden = true) (p : Path) :
    c ∈ p.toText ↔ ∃ step ∈ p.steps, c ∈ step := by
  have hslash : c ≠ .char '/' := by
    rintro rfl
    cases hc
  have hdot : c ≠ .char '.' := by
    rintro rfl
    cases hc
  have hjoin : c ∈ Text.join "/" p.steps ↔ ∃ step ∈ p.steps, c ∈ step :=
    Text.mem_join_iff (by simpa [Text.ofString] using hslash) p.steps
  unfold toText
  split
  · split
    next hempty => simpa [Text.ofString, List.isEmpty_iff.mp hempty] using hdot
    next => exact hjoin
  · rw [List.mem_append, hjoin]
    simp [Text.ofString, hslash]
  · rw [List.mem_append, hjoin]
    simp [Text.ofString, hslash]

/-- What makes a path useless stands in one of its steps. -/
theorem invalid?_eq_none_iff (p : Path) :
    p.invalid? = none ↔ ∀ step ∈ p.steps, ∀ c ∈ step, c.isForbidden = false := by
  rw [invalid?_eq_none_iff_toText]
  constructor
  · intro h step hstep c hc
    refine Bool.eq_false_iff.mpr fun hforbidden => ?_
    have := h c ((mem_toText_iff hforbidden p).mpr ⟨step, hstep, hc⟩)
    rw [hforbidden] at this
    cases this
  · intro h c hc
    refine Bool.eq_false_iff.mpr fun hforbidden => ?_
    obtain ⟨step, hstep, hmem⟩ := (mem_toText_iff hforbidden p).mp hc
    rw [h step hstep c hmem] at hforbidden
    cases hforbidden

/-- A path that cannot be used cannot be used from any directory either. -/
theorem invalid?_eq_none_of_within {base p : Path} (h : (base.within p).invalid? = none) :
    p.invalid? = none := by
  rw [invalid?_eq_none_iff] at h ⊢
  intro step hstep
  refine h step ?_
  unfold within
  split
  · exact hstep
  · exact List.mem_append_right base.steps hstep

end Path

namespace Primitive

theorem invalid?_of_isFile {files : FileTree} {p : Path} (h : isFile files p = .ok true) :
    p.invalid? = none := by
  unfold isFile at h
  split at h
  · cases h
  · assumption
  · cases h
  · cases h

theorem isFile_of_invalid {files : FileTree} {p : Path} (h : p.invalid? ≠ none) :
    isFile files p = .ok false := by
  obtain ⟨reason, hreason⟩ := Option.ne_none_iff_exists'.mp h
  simp only [isFile, hreason]

/-- Only a path that is too long is an error. -/
theorem isFile_eq_error_iff {files : FileTree} {p : Path} {reason : FileError} :
    isFile files p = .error reason ↔
      p.invalid? = none ∧ ∃ path, reason = .nameTooLong path ∧
        files.resolve p = .error (.nameTooLong path) := by
  unfold isFile
  split
  next hinvalid => simp [hinvalid]
  next hresolve => simp [hresolve]
  next path hinvalid hresolve => simp [hinvalid, hresolve, eq_comm]
  next hinvalid hfile hlong =>
    constructor
    · exact nofun
    · rintro ⟨-, path, rfl, hresolve⟩
      exact absurd hresolve (hlong path)

/-- The paths that a relative path may stand for, in the order in which they are tried. -/
def candidates (host : Host) (p : Path) : List Path := p :: host.searchPath.map fun d => d.within p

/-- The first path that leads to a file. -/
def firstFile (files : FileTree) (otherwise : Path) : List Path → Except FileError Path
  | [] => .ok otherwise
  | q :: rest => do
    let found ← isFile files q
    if found then pure q else firstFile files otherwise rest

theorem searchFile_eq_firstFile (files : FileTree) (p : Path) (directories : List Path) :
    searchFile files p directories = firstFile files p (directories.map fun d => d.within p) := by
  induction directories with
  | nil => rfl
  | cons d rest ih => rw [searchFile, List.map_cons, firstFile, ih]

theorem findFile_of_absolute (host : Host) {name : Text} (h : (Path.ofText name).isAbsolute = true) :
    findFile host name = .ok (.ofText name) := by
  simp only [findFile, h, if_true]
  rfl

theorem findFile_of_relative (host : Host) {name : Text} (h : (Path.ofText name).isAbsolute = false) :
    findFile host name =
      firstFile host.files (.ofText name) (candidates host (.ofText name)) := by
  rw [findFile, candidates, firstFile, ← searchFile_eq_firstFile]
  simp [h]

section FirstFile

variable {files : FileTree} {otherwise q : Path} {qs : List Path} {found : Bool}

theorem firstFile_cons_of_ok (h : isFile files q = .ok found) (qs : List Path) :
    firstFile files otherwise (q :: qs) = if found then .ok q else firstFile files otherwise qs := by
  rw [firstFile, h]
  rfl

theorem firstFile_cons_of_error {reason : FileError} (h : isFile files q = .error reason)
    (qs : List Path) : firstFile files otherwise (q :: qs) = .error reason := by
  rw [firstFile, h]
  rfl

theorem isFile_of_firstFile (h : firstFile files otherwise qs = .ok q) :
    q = otherwise ∨ q ∈ qs ∧ isFile files q = .ok true := by
  induction qs with
  | nil =>
    cases h
    exact .inl rfl
  | cons c cs ih =>
    cases hfound : isFile files c with
    | error reason =>
      rw [firstFile_cons_of_error hfound] at h
      cases h
    | ok found =>
      rw [firstFile_cons_of_ok hfound] at h
      cases found with
      | false => exact (ih h).imp_right fun ⟨hq, hfile⟩ => ⟨List.mem_cons_of_mem c hq, hfile⟩
      | true =>
        cases h
        exact .inr ⟨List.mem_cons_self, hfound⟩

theorem firstFile_of_none (h : ∀ c ∈ qs, isFile files c = .ok false) :
    firstFile files otherwise qs = .ok otherwise := by
  induction qs with
  | nil => rfl
  | cons c cs ih =>
    rw [firstFile_cons_of_ok (h c List.mem_cons_self)]
    exact ih fun d hd => h d (List.mem_cons_of_mem c hd)

/-- The search fails at the first candidate that is an error, if no file is found before it. -/
theorem firstFile_eq_error_iff {reason : FileError} :
    firstFile files otherwise qs = .error reason ↔
      ∃ before c after, qs = before ++ c :: after ∧ (∀ d ∈ before, isFile files d = .ok false) ∧
        isFile files c = .error reason := by
  constructor
  · intro h
    induction qs with
    | nil => cases h
    | cons c cs ih =>
      cases hfound : isFile files c with
      | error other =>
        rw [firstFile_cons_of_error hfound] at h
        cases h
        exact ⟨[], c, cs, rfl, nofun, hfound⟩
      | ok found =>
        rw [firstFile_cons_of_ok hfound] at h
        cases found with
        | true => cases h
        | false =>
          obtain ⟨before, d, after, rfl, hbefore, hd⟩ := ih h
          refine ⟨c :: before, d, after, rfl, fun e he => ?_, hd⟩
          rcases List.mem_cons.mp he with rfl | he
          · exact hfound
          · exact hbefore e he
  · rintro ⟨before, c, after, rfl, hbefore, hc⟩
    induction before with
    | nil => exact firstFile_cons_of_error hc after
    | cons d ds ih =>
      rw [List.cons_append, firstFile_cons_of_ok (hbefore d List.mem_cons_self)]
      exact ih fun e he => hbefore e (List.mem_cons_of_mem d he)

end FirstFile

/-- The file system does not take the name, and the fault tells why. -/
inductive Rejects (host : Host) (name : Text) : Fault → Prop
  | invalid {reason : Path.Invalid} :
    (Path.ofText name).invalid? = some reason → Rejects host name (.invalidPath reason)
  /-- No candidate before `q` is a file, and `q` is too long. -/
  | tooLong {before after : List Path} {q : Path} {path : Text} :
    (Path.ofText name).isAbsolute = false →
    candidates host (.ofText name) = before ++ q :: after →
    (∀ c ∈ before, isFile host.files c = .ok false) → q.invalid? = none →
    host.files.resolve q = .error (.nameTooLong path) →
    Rejects host name (.file (.nameTooLong path))

theorem findFile_eq_error_iff {host : Host} {name : Text} {reason : FileError} :
    findFile host name = .error reason ↔ Rejects host name (.file reason) := by
  cases habsolute : (Path.ofText name).isAbsolute with
  | true =>
    rw [findFile_of_absolute host habsolute]
    refine ⟨nofun, ?_⟩
    rintro (_ | ⟨hrelative, _⟩)
    rw [habsolute] at hrelative
    cases hrelative
  | false =>
    rw [findFile_of_relative host habsolute, firstFile_eq_error_iff]
    constructor
    · rintro ⟨before, q, after, hcandidates, hbefore, hq⟩
      obtain ⟨hvalid, path, rfl, hresolve⟩ := isFile_eq_error_iff.mp hq
      exact .tooLong habsolute hcandidates hbefore hvalid hresolve
    · rintro (_ | ⟨_, hcandidates, hbefore, hvalid, hresolve⟩)
      exact ⟨_, _, _, hcandidates, hbefore, isFile_eq_error_iff.mpr ⟨hvalid, _, rfl, hresolve⟩⟩

/-- A name that cannot be used is found nowhere, so that its own path is tried in the end. -/
theorem findFile_of_invalid (host : Host) {name : Text} (h : (Path.ofText name).invalid? ≠ none) :
    findFile host name = .ok (.ofText name) := by
  cases habsolute : (Path.ofText name).isAbsolute with
  | true => exact findFile_of_absolute host habsolute
  | false =>
    rw [findFile_of_relative host habsolute]
    refine firstFile_of_none fun c hc => isFile_of_invalid ?_
    rcases List.mem_cons.mp hc with rfl | hc
    · exact h
    · obtain ⟨d, -, rfl⟩ := List.mem_map.mp hc
      exact fun hvalid => h (Path.invalid?_eq_none_of_within hvalid)

section Found

variable {host : Host} {name : Text} {p : Path}

/-- A path that was found is the path of the name itself, or a candidate that leads to a file. -/
theorem isFile_of_findFile (h : findFile host name = .ok p) :
    p = .ofText name ∨ p ∈ candidates host (.ofText name) ∧ isFile host.files p = .ok true := by
  cases habsolute : (Path.ofText name).isAbsolute with
  | true =>
    rw [findFile_of_absolute host habsolute] at h
    exact .inl (Except.ok.inj h).symm
  | false =>
    rw [findFile_of_relative host habsolute] at h
    exact isFile_of_firstFile h

/-- A path that was found can be used, unless it is the path of the name itself. -/
theorem invalid?_of_findFile {reason : Path.Invalid} (h : findFile host name = .ok p)
    (hinvalid : p.invalid? = some reason) : p = .ofText name := by
  rcases isFile_of_findFile h with rfl | ⟨-, hfile⟩
  · rfl
  · rw [invalid?_of_isFile hfile] at hinvalid
    cases hinvalid

theorem eq_ofText_of_findFile (hsearch : host.searchPath = []) (h : findFile host name = .ok p) :
    p = .ofText name := by
  rcases isFile_of_findFile h with rfl | ⟨hcandidate, -⟩
  · rfl
  · rw [candidates, hsearch] at hcandidate
    exact List.mem_singleton.mp hcandidate

end Found

end Primitive
end SmallLisp
