import SmallLisp.Proofs.Eval.Reachable
import SmallLisp.Proofs.Eval.Steady

/-!
Calls made again.

A call of a closure changes no frame that was there before it.  So what the closure and its arguments can
see after the call is what they could see before, and a second call does the same: it simulates the first
one in the renaming that leaves all old frames and identities as they are (`simulates_again`).  The main
statement, `apply_repeatable`, is about all reachable stores and all closures and arguments in them; only
the input and the files, which are not in the store, must still be as they were.
-/

namespace SmallLisp

/-- The evaluation of the body when a closure is called with `n` stack frames. -/
def Evaluation.ofCall (n home : Nat) (formals : List Text) (body : Value) (args : List Value)
    (s : State) : Evaluation :=
  ⟨n - 1, body, s.store.frames.size, s.extend home formals args⟩

section Repetition

variable {host : Host} {n frame id home : Nat} {formals : List Text} {body : Value}
  {args : List Value} {s t : State} {r : Except Fault Value}

/-- A call changes no frame, takes back no identity and leaves the output in place. -/
theorem later_call (hs : s.store.Closed) (hfn : (Value.closure id formals body home).Known s.store)
    (hargs : Value.KnownAll s.store args)
    (hrun : apply host (.ofFrames host n) frame (.closure id formals body home) args s = (r, t)) :
    s.store.SameOutside s.store.frames.size t.store ∧ s.store.identities ≤ t.store.identities ∧
      t.console.output = s.console.output := by
  have hsame : s.store.SameOutside s.store.frames.size
      (apply host (.ofFrames host n) frame (.closure id formals body home) args s).2.store :=
    callEffect_sameOutside.applyClosure ((callEffect_sameOutside.headroom host n).enter 1)
      (.closure id formals body home) formals body home args s
  have hlawful := Matching.lawful_closed s.console.output host
  cases hfn with
  | closure _ hid hbody hhome =>
    have hsimulates := hlawful.simulates_call n frame frame ⟨rfl, hs, rfl, rfl⟩ formals hid hbody hhome
      hargs
    obtain ⟨hlater, houtput, -⟩ := hsimulates.later hrun
    rw [hrun] at hsame
    exact ⟨hsame, hlater.identities, houtput⟩

/-- A call that takes nothing from the input and changes no file is followed by the same call again. -/
theorem simulates_again (hs : s.store.Closed)
    (hfn : (Value.closure id formals body home).Known s.store) (hargs : Value.KnownAll s.store args)
    (hrun : apply host (.ofFrames host n) frame (.closure id formals body home) args s = (r, t))
    (hinput : t.console.input = s.console.input)
    (hfiles : host.filesAfter t.journal = host.filesAfter s.journal) :
    let call := apply host (.ofFrames host n) frame (.closure id formals body home) args
    let M := Matching.renamed host (fun _ => True) t.console.written s.console.written
    M.Simulates (.all s.store) M.values call call t s := by
  obtain ⟨hsame, hidentities, houtput⟩ := later_call hs hfn hargs hrun
  have hlawful := Matching.lawful_renamed host (fun _ => True) t.console.written s.console.written
  have hstates : Matching.Renamed host (fun _ => True) t.console.written s.console.written
      (.all s.store) t s :=
    ⟨hs.matches_later hsame hidentities, hinput, houtput, hfiles, [], rfl, rfl⟩
  cases hfn with
  | closure _ hid hbody hhome =>
    exact hlawful.simulates_call n frame frame hstates formals hid hbody hhome hargs

/-- A call that does not read a line takes nothing from the input. -/
theorem input_of_call
    (hread : formals.length = args.length →
      ¬(Evaluation.ofCall n home formals body args s).Performs host .readline) :
    (apply host (.ofFrames host n) frame (.closure id formals body home) args s).2.console.input =
      s.console.input := by
  by_cases hl : formals.length = args.length
  · rw [apply_closure host n frame id body home hl s]
    by_contra hinput
    exact hread hl (Evaluation.performs_readline hinput)
  · have hquiet := quiet_applyClosure_of_length_ne ((Headroom.ofFrames host n).enter 1)
      (.closure id formals body home) body home hl
    exact congrArg (fun t => t.console.input) (hquiet s)

end Repetition

/-- In any reachable store, let a closure be applied to arguments, both made of frames and identities of
the store.  If no line is read and no file changes, then applying the closure to the arguments again, with
the same stack, ends in the same way: with a value that is printed the same, or in the same fault.  And
the same texts are written.  The body of the closure may be anything. -/
theorem apply_repeatable (host : Host) (n frame id home : Nat) (formals : List Text) (body : Value)
    (args : List Value) {s : State} (hs : s.store.Reachable)
    (hfn : (Value.closure id formals body home).Known s.store)
    (hargs : ∀ v ∈ args, v.Known s.store) :
    let call := apply host (.ofFrames host n) frame (.closure id formals body home) args
    let t := (call s).2
    (formals.length = args.length →
      ¬(Evaluation.ofCall n home formals body args s).Performs host .readline) →
    host.filesAfter t.journal = host.filesAfter s.journal →
    (call t).1.map Value.render = (call s).1.map Value.render ∧
      (∀ depth, ((call >>= Run.shown depth) t).1 = ((call >>= Run.shown depth) s).1) ∧
      ∃ texts, t.console.written = texts ++ s.console.written ∧
        (call t).2.console.written = texts ++ t.console.written := by
  intro call t hread hfiles
  have hrun : apply host (.ofFrames host n) frame (.closure id formals body home) args s =
      ((call s).1, t) := rfl
  have hagain := simulates_again hs.closed hfn (Value.alikeAll_self hargs) hrun (input_of_call hread)
    hfiles
  refine ⟨?_, fun depth => ?_, ?_⟩
  · obtain ⟨ρ, -, -, hends⟩ := hagain
    exact hends.map_eq fun hv => Value.Alike.render_eq hv
  · have hshown := hagain.bind fun ρ v w t' s' _ hst hv => Matching.simulates_shown hst hv depth
    obtain ⟨ρ, -, -, hends⟩ := hshown
    exact hends.eq fun h => h
  · obtain ⟨ρ, -, hstates, -⟩ := hagain
    obtain ⟨texts, ht, hs⟩ := hstates.texts
    exact ⟨texts, hs, ht⟩

/-- A body that makes two closures, compares them and binds the answer. -/
def comparingBody : Value :=
  let closure : Value := .list [.symbol "lambda", .list [], .symbol "x"]
  .list [.symbol "def", .symbol "y", .list [.symbol "equal?", closure, closure]]

/-- The definition of a procedure with that body in a new interpreter. -/
def comparingDefinition : Evaluation where
  frames := 20
  form := .list [.symbol "def", .symbol "f", .list [.symbol "lambda", .list [.symbol "x"], comparingBody]]
  frame := 0
  state := ((Session.start (.start []) []).run
    [(⟨⟨⟨[], []⟩, [], none, []⟩, 20, none⟩, .create .nothing none none)]).state

theorem known_comparingBody (s : Store) : comparingBody.Known s := by
  have hclosure : Value.Known s (.list [.symbol "lambda", .list [], .symbol "x"]) :=
    .list (.cons (.symbol _) (.cons (.list .nil) (.cons (.symbol _) .nil)))
  have hequal : Value.Known s (.list [.symbol "equal?", _, _]) :=
    .list (.cons (.symbol _) (.cons hclosure (.cons hclosure .nil)))
  exact .list (.cons (.symbol _) (.cons (.symbol _) (.cons hequal .nil)))

theorem reachable_comparingDefinition :
    (comparingDefinition.final ⟨⟨[], []⟩, [], none, []⟩).store.Reachable := by
  refine .evaluated (.session _ _ _) ?_ (by decide)
  have hlambda : Value.Known comparingDefinition.state.store
      (.list [.symbol "lambda", .list [.symbol "x"], comparingBody]) :=
    .list (.cons (.symbol _) (.cons (.list (.cons (.symbol _) .nil))
      (.cons (known_comparingBody _) .nil)))
  exact .list (.cons (.symbol _) (.cons (.symbol _) (.cons hlambda .nil)))

theorem apply_repeatable_comparing :
    let host : Host := ⟨⟨[], []⟩, [], none, []⟩
    let s := comparingDefinition.final host
    let call := apply host (.ofFrames host 20) 0 (.closure 1 ["x"] comparingBody 0) [.bool true]
    let t := (call s).2
    s.store.Reachable ∧ s.store.lookup? 0 "f" = some (.closure 1 ["x"] comparingBody 0) ∧
      ¬(Evaluation.ofCall 20 0 ["x"] comparingBody [.bool true] s).Performs host .readline ∧
      t.store.identities = s.store.identities + 2 ∧
      (call t).1.map Value.render = (call s).1.map Value.render := by
  intro host s call t
  have hs : s.store.Reachable := reachable_comparingDefinition
  have hf : s.store.lookup? 0 "f" = some (.closure 1 ["x"] comparingBody 0) := rfl
  have hread : ¬(Evaluation.ofCall 20 0 ["x"] comparingBody [.bool true] s).Performs host .readline := by
    have hclosure (m : Nat) (u : State) : ¬Evaluation.Performs host
        ⟨m, .list [.symbol "lambda", .list [], .symbol "x"], s.store.frames.size, u⟩ .readline :=
      Evaluation.not_performs_of_inert (.inl rfl)
    have hhead : evaluate host 16 (.symbol "equal?") s.store.frames.size
        (s.extend 0 ["x"] [.bool true]) = (.ok (.builtin .equal 0), s.extend 0 ["x"] [.bool true]) := rfl
    refine Evaluation.not_performs_of_define rfl (List.forall_mem_cons.mpr
      ⟨Evaluation.not_performs_of_not_list rfl, List.forall_mem_singleton.mpr ?_⟩)
    exact Evaluation.not_performs_of_call rfl hhead ⟨nofun, nofun, nofun⟩ rfl
      (List.forall_mem_cons.mpr ⟨hclosure, List.forall_mem_singleton.mpr hclosure⟩)
  have hfiles (journal : Journal) : host.filesAfter journal = host.files := rfl
  have hagain := apply_repeatable host 20 0 1 0 ["x"] comparingBody [.bool true] hs
    (hs.closed.lookup? hf) (List.forall_mem_singleton.mpr (.bool true)) (fun _ => hread)
    ((hfiles _).trans (hfiles _).symm)
  exact ⟨hs, hf, hread, by decide +kernel, hagain.1⟩

end SmallLisp
