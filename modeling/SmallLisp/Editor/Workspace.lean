import SmallLisp.Editor.Index
import SmallLisp.Editor.Position

/-!
The documents that an editor has open, and the answers to its requests about them.  A text event
changes one document and publishes its diagnostics; a request changes nothing.
-/

namespace SmallLisp
namespace Editor

structure Document where
  text : Text
  index : DocumentIndex

/-- The open documents by their addresses. -/
structure Workspace where
  documents : Table Document

/-- Diagnostics sent to the editor for a document. -/
structure Publication where
  uri : Text
  diagnostics : List Diagnostic
  deriving DecidableEq

namespace Workspace

def empty : Workspace := ⟨[]⟩

/-- The document has this text from now on; it may have been open before or not. -/
def update (w : Workspace) (uri text : Text) : Workspace × Publication :=
  let index := indexOf text
  (⟨w.documents.insert uri ⟨text, index⟩⟩, ⟨uri, diagnostics index⟩)

/-- The document is closed; its diagnostics are taken back. -/
def close (w : Workspace) (uri : Text) : Workspace × Publication :=
  (⟨w.documents.erase uri⟩, ⟨uri, []⟩)

def document? (w : Workspace) (uri : Text) : Option Document := w.documents.get? uri

def hover? (w : Workspace) (uri : Text) (p : Position) : Option Text := do
  let d ← w.document? uri
  let word ← wordAt? d.text p
  Editor.hover? d.index word

def completions (w : Workspace) (uri : Text) : List Completion :=
  match w.document? uri with
  | none => []
  | some d => Editor.completions d.index

def signatureHelp? (w : Workspace) (uri : Text) (p : Position) : Option SignatureHelp := do
  let d ← w.document? uri
  let callee ← callee? (textBefore d.text p)
  Editor.signatureHelp? callee

def outline? (w : Workspace) (uri : Text) : Option (List OutlineEntry) :=
  (w.document? uri).map fun d => outline d.index

end Workspace
end Editor
end SmallLisp
