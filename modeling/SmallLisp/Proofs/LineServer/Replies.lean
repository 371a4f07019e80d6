import SmallLisp.LineServer
import SmallLisp.Proofs.Eval.Faults
import SmallLisp.Proofs.Json.Limits

/-!
Which requests have no reply.

A server replies to what is no request, to what it does not know, and to code that has a value, fails,
overflows or wants to leave.  `Unanswered` lists what is left: requests that exceed a limit of the JSON
reader, code that is no string, values that are too deep to be written, and code in which a primitive
breaks off.  A line ends the connection exactly if it is one of these, given that outputs take every text
and that no file or directory is forbidden.
-/

namespace SmallLisp

namespace LineServer

/-- The line asks for the evaluation of the code, whatever kind of document that is. -/
def Asks (service : Service) (line : List UInt8) (code : Json) : Prop :=
  ∃ text request, Utf8.decode line = .ok text ∧ Json.parse service.setup.frames text = .ok request ∧
    (request.field? "cmd").bind Json.string? = some evalCommand ∧
    (request.field? "code").getD (.string "") = code

/-- Running the code, a primitive breaks off with the fault. -/
def Breaks (service : Service) (s : State) (code : Text) (f : Fault) : Prop :=
  ∃ e, Evaluation.OfText service.setup.host service.setup.frames service.interpreter.frame (read code) s
    e ∧ e.Breaks service.setup.host f

/-- There is no reply to the line. -/
inductive Unanswered (service : Service) (s : State) (line : List UInt8) : Escape → Prop
  | tooDeep {text : Text} : Utf8.decode line = .ok text →
    Json.parse service.setup.frames text = .error .tooDeep → Unanswered service s line (.fault .overflow)
  | tooManyDigits {text : Text} {count : Nat} : Utf8.decode line = .ok text →
    Json.parse service.setup.frames text = .error (.tooManyDigits count) →
    Unanswered service s line (.tooManyDigits count)
  | notText {code : Json} : Asks service line code → code.string? = none →
    Unanswered service s line (.notText code.kind)
  | unwritable {code : Text} {v : Value} {t : State} : Asks service line (.string code) →
    service.interpreter.eval service.setup code s = (.ok v, t) →
    v.rendersWithin service.setup.frames = false → Unanswered service s line (.fault .overflow)
  | broken {code : Text} {f : Fault} : Asks service line (.string code) → Breaks service s code f →
    Unanswered service s line (.fault f)

section

variable {service : Service} {s t : State} {line : List UInt8} {code : Text} {f : Fault}

theorem Breaks.not_ordinary (h : Breaks service s code f) : ¬f.Ordinary := by
  obtain ⟨_, _, _, _, _, _, _, _, _, _, hbreaks⟩ := h
  intro hf
  cases hbreaks <;> cases hf

theorem eval_error_iff (hf : ¬f.Ordinary) :
    (service.interpreter.eval service.setup code s).1 = .error f ↔ Breaks service s code f :=
  evaluateReading_error_iff hf

/-! ## Code -/

theorem answer_of_value {v : Value}
    (h : service.interpreter.eval service.setup code s = (.ok v, t)) :
    answer service code s =
      (.ok (if v.rendersWithin service.setup.frames then .ok (.result v.render)
        else .error (.fault .overflow)), t) := by
  rw [answer, Run.bind_ok (Run.outcome_of_run h)]
  simp only
  split <;> rfl

theorem answer_of_ordinary (hf : f.Ordinary)
    (h : service.interpreter.eval service.setup code s = (.error f, t)) :
    ∃ message, answer service code s = (.ok (.ok (.error message)), t) := by
  rw [answer, Run.bind_ok (Run.outcome_of_run h)]
  cases hf with
  | error e => exact ⟨e.message, rfl⟩
  | exit status => exact ⟨exitRefused, rfl⟩
  | overflow => exact ⟨Fault.overflow.describe, rfl⟩

theorem answer_of_break (hf : ¬f.Ordinary)
    (h : service.interpreter.eval service.setup code s = (.error f, t)) :
    answer service code s = (.ok (.error (.fault f)), t) := by
  rw [answer, Run.bind_ok (Run.outcome_of_run h)]
  cases f with
  | error e => exact absurd (.error e) hf
  | exit status => exact absurd (.exit status) hf
  | overflow => exact absurd .overflow hf
  | _ => rfl

/-- Code is answered, or its value is too deep to be written, or a primitive breaks off in it. -/
theorem answer_cases (service : Service) (s : State) (code : Text) :
    (∃ reply, (answer service code s).1 = .ok (.ok reply)) ∨
      (∃ v t, service.interpreter.eval service.setup code s = (.ok v, t) ∧
        v.rendersWithin service.setup.frames = false) ∨
      ∃ f, Breaks service s code f := by
  match h : service.interpreter.eval service.setup code s with
  | (.ok v, t) =>
    cases hwritten : v.rendersWithin service.setup.frames with
    | true =>
      rw [answer_of_value h, hwritten]
      exact .inl ⟨_, rfl⟩
    | false => exact .inr (.inl ⟨v, t, rfl, hwritten⟩)
  | (.error f, t) =>
    by_cases hf : f.Ordinary
    · obtain ⟨message, hanswer⟩ := answer_of_ordinary hf h
      exact .inl ⟨_, congrArg Prod.fst hanswer⟩
    · exact .inr (.inr ⟨f, (eval_error_iff hf).mp (by rw [h])⟩)

/-! ## Lines -/

theorem handle_of_string (h : Asks service line (.string code)) :
    handle service line s = answer service code s := by
  obtain ⟨text, request, hdecode, hparse, hcommand, hcode⟩ := h
  simp only [handle, hdecode, hparse, respond, if_pos hcommand, hcode]

theorem handle_of_not_string {code : Json} (h : Asks service line code) (hcode : code.string? = none) :
    handle service line s = (.ok (.error (.notText code.kind)), s) := by
  obtain ⟨text, request, hdecode, hparse, hcommand, heq⟩ := h
  simp only [handle, hdecode, hparse, respond, if_pos hcommand, heq]
  cases code with
  | string code => cases hcode
  | _ => rfl

theorem Unanswered.handle_eq {escape : Escape} (h : Unanswered service s line escape) :
    (handle service line s).1 = .ok (.error escape) := by
  cases h with
  | tooDeep hdecode hparse =>
    simp only [handle, hdecode, hparse]
    rfl
  | tooManyDigits hdecode hparse =>
    simp only [handle, hdecode, hparse]
    rfl
  | notText hasks hcode => rw [handle_of_not_string hasks hcode]
  | unwritable hasks hvalue hdeep =>
    rw [handle_of_string hasks, answer_of_value hvalue, hdeep]
    rfl
  | broken hasks hbreaks =>
    have hf := hbreaks.not_ordinary
    have herror := (eval_error_iff hf).mpr hbreaks
    rw [handle_of_string hasks, answer_of_break hf (Prod.ext herror rfl)]

/-- A line has a reply, or there is a reason why it has none. -/
theorem handle_cases (service : Service) (s : State) (line : List UInt8) :
    (∃ reply, (handle service line s).1 = .ok (.ok reply)) ∨
      ∃ escape, Unanswered service s line escape := by
  cases hdecode : Utf8.decode line with
  | error malformed =>
    simp only [handle, hdecode]
    exact .inl ⟨_, rfl⟩
  | ok text =>
    cases hparse : Json.parse service.setup.frames text with
    | error failure =>
      cases failure with
      | malformed message offset =>
        simp only [handle, hdecode, hparse]
        exact .inl ⟨_, rfl⟩
      | tooDeep => exact .inr ⟨_, .tooDeep hdecode hparse⟩
      | tooManyDigits count => exact .inr ⟨_, .tooManyDigits hdecode hparse⟩
    | ok request =>
      by_cases hcommand : (request.field? "cmd").bind Json.string? = some evalCommand
      · have hasks : Asks service line ((request.field? "code").getD (.string "")) :=
          ⟨text, request, hdecode, hparse, hcommand, rfl⟩
        cases hcode : (request.field? "code").getD (.string "") with
        | string code =>
          rw [hcode] at hasks
          rcases answer_cases service s code with hreply | ⟨v, t, hvalue, hdeep⟩ | ⟨f, hbreaks⟩
          · rw [handle_of_string hasks]
            exact .inl hreply
          · exact .inr ⟨_, .unwritable hasks hvalue hdeep⟩
          · exact .inr ⟨_, .broken hasks hbreaks⟩
        | _ => exact .inr ⟨_, .notText hasks (by rw [hcode]; rfl)⟩
      · simp only [handle, hdecode, hparse, respond, if_neg hcommand]
        exact .inl ⟨_, rfl⟩

end

/-- A server replies to a line exactly if nothing keeps it from that, and else the connection ends with
what does.  A line that exceeds a limit of the JSON reader has more opening brackets than stack frames,
or a number with more digits than the limit.  The code may write any text, as outputs take all of them, and
use any file, as none is forbidden. -/
theorem handle_replies_unless_unanswered (service : Service) (s : State) (line : List UInt8) :
    ((∃ reply, (handle service line s).1 = .ok (.ok reply)) ↔
        ∀ escape, ¬Unanswered service s line escape) ∧
      (∀ escape, (handle service line s).1 = .ok (.error escape) ↔
        Unanswered service s line escape) ∧
      ∀ text failure, Utf8.decode line = .ok text →
        Json.parse service.setup.frames text = .error failure →
        failure.BorneOut service.setup.frames text := by
  refine ⟨⟨?_, fun h => ?_⟩, fun escape => ⟨fun h => ?_, Unanswered.handle_eq⟩, ?_⟩
  · rintro ⟨reply, hreply⟩ escape hescape
    rw [hescape.handle_eq] at hreply
    cases hreply
  · rcases handle_cases service s line with hreply | ⟨escape, hescape⟩
    · exact hreply
    · exact absurd hescape (h escape)
  · rcases handle_cases service s line with ⟨reply, hreply⟩ | ⟨escape', hescape⟩
    · rw [hreply] at h
      cases h
    · rw [hescape.handle_eq] at h
      cases h
      exact hescape
  · intro text failure _ hparse
    exact Json.parse_borneOut hparse

/-- The line that asks for some code, which stands between quotes if it is a string. -/
def askingFor (code : Text) : List UInt8 :=
  Utf8.toName ("\x7b\"cmd\": \"eval\", \"code\": " ++ code ++ "\x7d")

/-- A quoted list in a list, `depth` times, as a JSON string. -/
def quotedNest (depth : Nat) : Text :=
  "\"'" ++ List.replicate depth (CodePoint.char '(') ++ List.replicate depth (CodePoint.char ')') ++ "\""

/-- A new server has no reply to a list that nests too deep to be written, to code that is a number, and
to code that uses a file whose name has no bytes. -/
theorem new_server_leaves_unanswered :
    let setup : Setup := ⟨⟨⟨[], []⟩, [], none, []⟩, Limit.default.available, none⟩
    let s := (Interpreter.create setup .nothing none none ⟨.empty, .start [], []⟩).2
    let outcome (code : Text) := (handle ⟨setup, ⟨0⟩⟩ (askingFor code) s).1
    outcome (quotedNest 327) = .ok (.error (.fault .overflow)) ∧
      outcome "5" = .ok (.error (.notText "int")) ∧
      outcome "\"(use '\\ud800)\"" =
        .ok (.error (.fault (.invalidPath (.surrogates (.surrogate 0) 0 1)))) := by
  refine ⟨?_, ?_, ?_⟩ <;> decide +kernel

end LineServer
end SmallLisp
