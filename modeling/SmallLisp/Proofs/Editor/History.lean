import Mathlib.Data.List.Induction
import SmallLisp.Editor.Workspace

/-!
What a server of documents knows after any history of events.

An event opens, changes or closes one document or asks something about it, whatever has happened to the
document before.  A server knows exactly the documents whose last change left them a text, each with the
index of that text, and what it has published last for a document belongs to its last change
(`Server.Knows`).  One event keeps this (`Knows.handle`), so every history does.  The answer to a request
is therefore a function of the text of one document (`answerTo`).
-/

namespace SmallLisp
namespace Editor

/-- What an editor can ask about a document. -/
inductive Request where
  | hover (p : Position)
  | completion
  | signatureHelp (p : Position)
  | outline
  deriving DecidableEq

inductive Answer where
  | hover (shown : Option Text)
  | completion (items : List Completion)
  | signatureHelp (help : Option SignatureHelp)
  | outline (entries : Option (List OutlineEntry))
  deriving DecidableEq

/-- What can happen to a document; a change comes with the whole text after it. -/
inductive Action where
  | opened (text : Text)
  | changed (text : Text)
  | closed
  | asked (request : Request)
  deriving DecidableEq

namespace Action

/-- Whether the text of the document is set or taken away. -/
def isChange : Action → Bool
  | .asked _ => false
  | _ => true

def text? : Action → Option Text
  | .opened text | .changed text => some text
  | .closed | .asked _ => none

end Action

structure Event where
  uri : Text
  action : Action
  deriving DecidableEq

def Workspace.answer (w : Workspace) (uri : Text) : Request → Answer
  | .hover p => .hover (w.hover? uri p)
  | .completion => .completion (w.completions uri)
  | .signatureHelp p => .signatureHelp (w.signatureHelp? uri p)
  | .outline => .outline (w.outline? uri)

/-- The documents of a server and all that it has published, in the order in which it did. -/
structure Server where
  workspace : Workspace
  published : List Publication

namespace Server

def start : Server := ⟨.empty, []⟩

/-- Goes on with the changed documents and publishes the diagnostics. -/
def publish (server : Server) (change : Workspace × Publication) : Server :=
  ⟨change.1, server.published ++ [change.2]⟩

/-- Handles an event; a request has an answer. -/
def handle (server : Server) (e : Event) : Option Answer × Server :=
  match e.action with
  | .opened text | .changed text => (none, server.publish (server.workspace.update e.uri text))
  | .closed => (none, server.publish (server.workspace.close e.uri))
  | .asked request => (some (server.workspace.answer e.uri request), server)

/-- The server after a history of events. -/
def after (events : List Event) : Server :=
  events.foldl (fun server e => (server.handle e).2) start

theorem after_concat (events : List Event) (e : Event) :
    after (events ++ [e]) = ((after events).handle e).2 := by
  rw [after, List.foldl_append]
  rfl

/-- What was published last for a document. -/
def lastPublished? (server : Server) (uri : Text) : Option Publication :=
  (server.published.filter fun publication => publication.uri == uri).getLast?

end Server

/-! ## The last change of a document -/

def Event.changes (e : Event) (uri : Text) : Bool := e.uri == uri && e.action.isChange

/-- The last event of a history that opened, changed or closed the document. -/
def lastChange? (uri : Text) (events : List Event) : Option Action :=
  (events.filter fun e => e.changes uri).getLast?.map Event.action

/-- The text that a history leaves to a document, if it leaves the document open. -/
def textAfter? (uri : Text) (events : List Event) : Option Text :=
  (lastChange? uri events).bind Action.text?

theorem lastChange?_concat (uri : Text) (events : List Event) (e : Event) :
    lastChange? uri (events ++ [e]) =
      if e.changes uri then some e.action else lastChange? uri events := by
  rw [lastChange?, List.filter_append]
  by_cases h : e.changes uri = true
  · have hlast : [e].filter (fun e => e.changes uri) = [e] := by simp [h]
    rw [if_pos h, hlast, List.getLast?_concat]
    rfl
  · have hlast : [e].filter (fun e => e.changes uri) = [] := by simp [h]
    rw [if_neg h, hlast, List.append_nil]
    rfl

/-- What happens to other documents is no change of this one. -/
theorem lastChange?_filter (uri : Text) (events : List Event) :
    lastChange? uri (events.filter fun e => e.uri == uri) = lastChange? uri events := by
  have hchanges (e : Event) : (e.changes uri && e.uri == uri) = e.changes uri := by
    by_cases h : (e.uri == uri) = true <;> simp [Event.changes, h]
  rw [lastChange?, List.filter_filter]
  simp only [hchanges]
  rfl

/-! ## What one event keeps -/

/-- The document with a text, as the server keeps it. -/
def Document.ofText (text : Text) : Document := ⟨text, indexOf text⟩

/-- What is published for a document after an event. -/
def publicationOf (uri : Text) (last : Action) : Publication :=
  ⟨uri, match last.text? with
    | some text => diagnostics (indexOf text)
    | none => []⟩

/-- Of the document, the server knows what follows from its last change. -/
structure Server.Knows (server : Server) (uri : Text) (last : Option Action) : Prop where
  document : server.workspace.document? uri = (last.bind Action.text?).map Document.ofText
  published : server.lastPublished? uri = last.map (publicationOf uri)

namespace Server

variable {server : Server} {uri : Text} {last : Option Action}

theorem lastPublished?_publish_self (server : Server) {change : Workspace × Publication}
    (h : change.2.uri = uri) : (server.publish change).lastPublished? uri = some change.2 := by
  have hlast : [change.2].filter (fun publication => publication.uri == uri) = [change.2] := by simp [h]
  rw [lastPublished?, publish, List.filter_append, hlast, List.getLast?_concat]

theorem lastPublished?_publish_of_ne (server : Server) {change : Workspace × Publication}
    (h : change.2.uri ≠ uri) :
    (server.publish change).lastPublished? uri = server.lastPublished? uri := by
  have hlast : [change.2].filter (fun publication => publication.uri == uri) = [] := by simp [h]
  rw [lastPublished?, publish, List.filter_append, hlast, List.append_nil]
  rfl

theorem document?_update_self (w : Workspace) (uri text : Text) :
    (w.update uri text).1.document? uri = some (.ofText text) :=
  Table.get?_insert_self uri _ w.documents

theorem document?_update_of_ne (w : Workspace) {other : Text} (h : uri ≠ other) (text : Text) :
    (w.update other text).1.document? uri = w.document? uri :=
  Table.get?_insert_of_ne h _ w.documents

theorem document?_close_self (w : Workspace) (uri : Text) :
    (w.close uri).1.document? uri = none :=
  Table.get?_erase_self uri w.documents

theorem document?_close_of_ne (w : Workspace) {other : Text} (h : uri ≠ other) :
    (w.close other).1.document? uri = w.document? uri :=
  Table.get?_erase_of_ne h w.documents

theorem knows_start (uri : Text) : start.Knows uri none := ⟨rfl, rfl⟩

/-- What is published with a change of another document leaves this one as it is. -/
theorem Knows.publish_of_ne (h : server.Knows uri last) {change : Workspace × Publication}
    (hne : change.2.uri ≠ uri) (hdocument : change.1.document? uri = server.workspace.document? uri) :
    (server.publish change).Knows uri last where
  document := hdocument.trans h.document
  published := (lastPublished?_publish_of_ne server hne).trans h.published

/-- After an event the server knows of each document what follows from its last change. -/
theorem Knows.handle (h : server.Knows uri last) (e : Event) :
    (server.handle e).2.Knows uri (if e.changes uri then some e.action else last) := by
  obtain ⟨other, action⟩ := e
  by_cases heq : other = uri
  · subst heq
    cases action with
    | opened text | changed text =>
      rw [if_pos (by simp [Event.changes, Action.isChange])]
      exact ⟨document?_update_self _ _ _, lastPublished?_publish_self _ rfl⟩
    | closed =>
      rw [if_pos (by simp [Event.changes, Action.isChange])]
      exact ⟨document?_close_self _ _, lastPublished?_publish_self _ rfl⟩
    | asked request =>
      rw [if_neg (by simp [Event.changes, Action.isChange])]
      exact h
  · rw [if_neg (by simp [Event.changes, heq])]
    have hne : uri ≠ other := Ne.symm heq
    cases action with
    | opened text | changed text => exact h.publish_of_ne heq (document?_update_of_ne _ hne _)
    | closed => exact h.publish_of_ne heq (document?_close_of_ne _ hne)
    | asked request => exact h

/-- What a history leaves known of a document depends on its last change only. -/
theorem knows_after (events : List Event) (uri : Text) :
    (after events).Knows uri (lastChange? uri events) := by
  induction events using List.reverseRecOn with
  | nil => exact knows_start uri
  | append_singleton events e ih =>
    rw [after_concat, lastChange?_concat]
    exact ih.handle e

end Server

/-! ## Answers -/

/-- The answer to a request about a document with that text, or about one that is not open. -/
def answerTo (text? : Option Text) : Request → Answer
  | .hover p => .hover (text?.bind fun text => (wordAt? text p).bind (hover? (indexOf text)))
  | .completion => .completion ((text?.map fun text => completions (indexOf text)).getD [])
  | .signatureHelp p =>
    .signatureHelp (text?.bind fun text => (callee? (textBefore text p)).bind signatureHelp?)
  | .outline => .outline (text?.map fun text => outline (indexOf text))

theorem Workspace.answer_eq_answerTo {w : Workspace} {uri : Text} {text? : Option Text}
    (h : w.document? uri = text?.map Document.ofText) (request : Request) :
    w.answer uri request = answerTo text? request := by
  cases request with
  | hover p =>
    simp only [answer, answerTo, Workspace.hover?, h]
    cases text? <;> rfl
  | completion =>
    simp only [answer, answerTo, Workspace.completions, h]
    cases text? <;> rfl
  | signatureHelp p =>
    simp only [answer, answerTo, Workspace.signatureHelp?, h]
    cases text? <;> rfl
  | outline =>
    simp only [answer, answerTo, Workspace.outline?, h]
    cases text? <;> rfl

theorem Server.handle_asked (events : List Event) (uri : Text) (request : Request) :
    (after events).handle ⟨uri, .asked request⟩ =
      (some (answerTo (textAfter? uri events) request), after events) := by
  have hanswer := Workspace.answer_eq_answerTo (knows_after events uri).document request
  simp only [handle, hanswer]
  rfl

/-- After any history of events on any documents, a document is open exactly if its last change opened or
changed it; it has the text of that change and the index of this text; what was published last for it
are the diagnostics of that index, and none after it was closed; and a request is answered from that text
alone, as if nothing had ever happened to other documents, and changes nothing. -/
theorem Server.after_knows_last_changes (events : List Event) (uri : Text) :
    (uri ∈ (after events).workspace.documents.keys ↔
        ∃ text, lastChange? uri events = some (.opened text) ∨
          lastChange? uri events = some (.changed text)) ∧
      (∀ document, (after events).workspace.document? uri = some document ↔
        ∃ text, textAfter? uri events = some text ∧ document = ⟨text, indexOf text⟩) ∧
      (after events).lastPublished? uri = (lastChange? uri events).map (publicationOf uri) ∧
      ∀ request, (after events).handle ⟨uri, .asked request⟩ =
          (some (answerTo (textAfter? uri events) request), after events) ∧
        ((after events).handle ⟨uri, .asked request⟩).1 =
          ((after (events.filter fun e => e.uri == uri)).handle ⟨uri, .asked request⟩).1 := by
  have hknows := knows_after events uri
  refine ⟨?_, fun document => ?_, hknows.published, fun request => ⟨handle_asked events uri request, ?_⟩⟩
  · rw [Table.mem_keys_iff_isSome_get?]
    show ((after events).workspace.document? uri).isSome = true ↔ _
    rw [hknows.document, Option.isSome_map]
    cases lastChange? uri events with
    | none => simp
    | some action => cases action <;> simp [Action.text?]
  · rw [hknows.document, Option.map_eq_some_iff]
    exact exists_congr fun text => and_congr_right fun _ => eq_comm
  · rw [handle_asked, handle_asked, textAfter?, textAfter?, lastChange?_filter]

end Editor
end SmallLisp
