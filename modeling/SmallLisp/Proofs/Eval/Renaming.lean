import Mathlib.Data.Nat.Basic
import SmallLisp.Proofs.Eval.Simulation
import SmallLisp.Proofs.Store.Identities

/-!
Two matchings of states.

In the first one (`Matching.renamed`) the stores match in a renaming, and whatever else a run can read is
the same on both sides: the input, the files, and where texts are written to.  The journals may differ,
because all that can be read of them is what is in the log file.

In the second one (`Matching.numbered`) every state corresponds to itself if all identities in its store
have been given out.  That two evaluations follow each other then says of one evaluation that its state
stays such a state.
-/

namespace SmallLisp

/-! ## The log file -/

theorem FileTree.write_inj {t : FileTree} {steps : List FileName} {a b : List UInt8}
    (h : t.write steps a = t.write steps b) : a = b := by
  have hentries := congrArg FileTree.entries h
  simp only [write, List.cons.injEq, Prod.mk.injEq, Node.file.injEq] at hentries
  exact hentries.1.2

/-- What has been added to a file can be seen, unless the file stays empty. -/
theorem FileTree.append_inj {t : FileTree} {p : Path} {a b : List UInt8}
    (hp : t.resolve p ≠ .ok .void) (h : t.append p a = t.append p b) : a = b := by
  unfold append at h
  split at h
  · rename_i hvoid
    exact absurd hvoid hp
  · exact List.append_cancel_left (write_inj h)
  · exact write_inj h

theorem FileTree.append_void {t : FileTree} {p : Path} (hp : t.resolve p = .ok .void)
    (a : List UInt8) : t.append p a = t := by
  unfold append
  rw [hp]

theorem Log.addedByJournal_cons (time : Text) (n : Notice) (journal : Journal) :
    addedByJournal time (n :: journal) =
      addedByJournal time journal ++ addedByJournal time [n] := by
  unfold addedByJournal
  rw [List.reverse_cons, List.flatMap_append]
  rfl

namespace Host

variable {host : Host} {journal journal' : Journal}

/-- A notice has the same effect on the same files. -/
theorem filesAfter_cons (h : host.filesAfter journal = host.filesAfter journal') (n : Notice) :
    host.filesAfter (n :: journal) = host.filesAfter (n :: journal') := by
  unfold filesAfter at h ⊢
  cases hlog : host.logFile? with
  | none => rfl
  | some p =>
    simp only [hlog] at h ⊢
    by_cases hvoid : host.files.resolve p = .ok .void
    · rw [FileTree.append_void hvoid, FileTree.append_void hvoid]
    · have hadded := FileTree.append_inj hvoid h
      rw [Log.addedByJournal_cons, hadded, ← Log.addedByJournal_cons]

theorem text_eq_of_filesAfter (h : host.filesAfter journal = host.filesAfter journal') (p : Path) :
    host.text journal p = host.text journal' p := by
  unfold text
  rw [h]

end Host

/-! ## Renamed states -/

namespace Matching

/-- The stores match, and what else can be read is the same.  Since the states in which `written` and
`written'` had been written to the consoles, the same texts have been written. -/
structure Renamed (host : Host) (roots : Nat → Prop) (written written' : List (Output × Text))
    (ρ : Renaming) (s t : State) : Prop where
  store : s.store.Matches roots ρ t.store
  input : s.console.input = t.console.input
  output : s.console.output = t.console.output
  files : host.filesAfter s.journal = host.filesAfter t.journal
  texts : ∃ texts, s.console.written = texts ++ written ∧ t.console.written = texts ++ written'

def renamed (host : Host) (roots : Nat → Prop) (written written' : List (Output × Text)) :
    Matching Renaming where
  states := Renamed host roots written written'
  frames := Renaming.frames
  identities := Renaming.identities

theorem lawful_renamed (host : Host) (roots : Nat → Prop) (written written' : List (Output × Text)) :
    (renamed host roots written written').Lawful host where
  frames_mono hρ := hρ.1 _ _
  identities_mono hρ := hρ.2 _ _
  distinct h := h.store.distinct_identities
  text p h := Host.text_eq_of_filesAfter h.files p
  input h := h.input
  lookup name h hframes := h.store.lookup? hframes name
  define name h hframes hv := { h with store := h.store.define hframes name hv }
  identity {ρ s t} h := ⟨ρ.addIdentity s.store.identities t.store.identities, ρ.le_addIdentity _ _,
    { h with store := h.store.newIdentity }, .inr ⟨rfl, rfl⟩⟩
  extend {ρ s t i j as bs} formals h hframes hargs :=
    ⟨ρ.addFrame s.store.frames.size t.store.frames.size, ρ.le_addFrame _ _,
      { h with store := h.store.extend hframes formals hargs }, .inr ⟨rfl, rfl⟩⟩
  write {ρ s t} text h := by
    obtain ⟨texts, hs, ht⟩ := h.texts
    refine { h with texts := ⟨(s.console.output, text) :: texts, ?_, ?_⟩ }
    · show (s.console.output, text) :: s.console.written = _
      rw [hs]
      rfl
    · show (t.console.output, text) :: t.console.written = _
      rw [ht, h.output]
      rfl
  take {ρ s t} rest h := by
    refine ⟨h.store, ?_, ?_, h.files, ?_⟩
    · rw [Console.input_setInput, Console.input_setInput]
    · rw [Console.output_setInput, Console.output_setInput]
      exact h.output
    · rw [Console.written_setInput, Console.written_setInput]
      exact h.texts
  note n h := { h with files := Host.filesAfter_cons h.files n }

end Matching

/-! ## Numbered states -/

namespace Matching

/-- A state whose store is numbered, with `n` identities given out and the output `output`. -/
structure Numbered (output : Output) (n : Nat) (s t : State) : Prop where
  same : s = t
  store : s.store.Numbered
  identities : s.store.identities = n
  output : s.console.output = output

def numbered (output : Output) : Matching Nat where
  states := Numbered output
  frames _ := Eq
  identities := Value.Below

theorem lawful_numbered (output : Output) (host : Host) : (numbered output).Lawful host where
  frames_mono _ h := h
  identities_mono hmn h := h.mono hmn
  distinct _ := Value.distinct_below _
  text p h := by rw [h.same]
  input h := by rw [h.same]
  lookup {n s t i j} name h hij := by
    obtain ⟨rfl, hstore, rfl, _⟩ := h
    cases hij
    cases hv : s.store.lookup? i name with
    | none => exact .none
    | some v => exact .some (hstore.lookup? hv)
  define {n s t i j a b} name h hij hv := by
    obtain ⟨rfl, hstore, rfl, houtput⟩ := h
    cases hij
    cases hv.eq_of_below
    exact ⟨rfl, hstore.define i name hv, rfl, houtput⟩
  identity {n s t} h := by
    obtain ⟨rfl, hstore, rfl, houtput⟩ := h
    exact ⟨s.store.identities + 1, Nat.le_succ _, ⟨rfl, hstore.newIdentity, rfl, houtput⟩,
      rfl, Nat.lt_succ_self _⟩
  extend {n s t i j as bs} formals h hij hargs := by
    obtain ⟨rfl, hstore, rfl, houtput⟩ := h
    cases hij
    cases hargs.eq_of_below
    refine ⟨s.store.identities, Nat.le_refl _, ⟨rfl, ?_, Store.identities_defineAll _ _ _, houtput⟩, rfl⟩
    refine (hstore.newFrame (some i)).defineAll _ fun binding hb => ?_
    exact hargs.numbered_of_mem (List.of_mem_zip hb).2
  write text h := by
    obtain ⟨rfl, hstore, rfl, houtput⟩ := h
    exact ⟨rfl, hstore, rfl, houtput⟩
  take rest h := by
    obtain ⟨rfl, hstore, rfl, houtput⟩ := h
    exact ⟨rfl, hstore, rfl, (Console.output_setInput _ _).trans houtput⟩
  note n h := by
    obtain ⟨rfl, hstore, rfl, houtput⟩ := h
    exact ⟨rfl, hstore, rfl, houtput⟩

end Matching

/-- A run that follows itself gives out identities and none twice, and leaves the output in place. -/
theorem Matching.Simulates.numbered {α : Type} {P : Nat → α → α → Prop} {m : Run α} {s : State}
    (h : (numbered s.console.output).Simulates s.store.identities P m m s s) :
    (m s).2.store.Numbered ∧ s.store.identities ≤ (m s).2.store.identities ∧
      (m s).2.console.output = s.console.output := by
  obtain ⟨n, hn, hstates, _⟩ := h
  rw [← hstates.identities] at hn
  exact ⟨hstates.store, hn, hstates.output⟩

theorem numbered_evaluateReading (host : Host) (frames frame : Nat) (source : Text) {s : State}
    (hs : s.store.Numbered) :
    let t := (evaluateReading (evaluate host frames) frame (read source) s).2
    t.store.Numbered ∧ s.store.identities ≤ t.store.identities ∧
      t.console.output = s.console.output :=
  have hlawful := Matching.lawful_numbered s.console.output host
  (hlawful.simulates_evaluateReading (hlawful.follows_evaluate frames) ⟨rfl, hs, rfl, rfl⟩
    (rfl : frame = frame) source).numbered

end SmallLisp
