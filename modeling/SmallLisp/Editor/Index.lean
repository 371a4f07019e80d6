import SmallLisp.Editor.Signature
import SmallLisp.Reader.Form

/-!
The index of a document: the names it defines at top level and its first syntax error.  Definitions
are found in the tokens, so a document that cannot be read has an index too.
-/

namespace SmallLisp
namespace Editor

/-- A name defined at top level, and where it stands, counted from zero. -/
structure Definition where
  name : Text
  isFunction : Bool
  line : Nat
  character : Nat
  deriving DecidableEq, Repr

/-- A syntax error and where it is, counted from zero. -/
structure Problem where
  message : Text
  line : Nat
  character : Nat
  deriving DecidableEq, Repr

structure DocumentIndex where
  /-- The definitions by name, in the order of the first definition of each name. -/
  definitions : Table Definition
  problem : Option Problem
  deriving DecidableEq

def definesNames : List Text := ["def", "define"]

def lambdaNames : List Text := ["lambda", "λ"]

/-- Whether the tokens begin with a `lambda` form. -/
def startsLambda : List Token → Bool
  | paren :: head :: _ => paren.kind = .lparen && lambdaNames.contains head.text
  | _ => false

/-- The definition that begins before these tokens with a parenthesis, if it is one. -/
def definitionAfter? : List Token → Option Definition
  | head :: name :: rest =>
    if head.kind = .atom ∧ definesNames.contains head.text ∧ name.kind = .atom then
      some ⟨name.text, startsLambda rest, name.line - 1, name.column - 1⟩
    else none
  | _ => none

/-- The definitions that begin outside of all parentheses, `depth` of which are open.  A closing
parenthesis without a partner changes nothing. -/
def definitionsFrom (depth : Nat) : List Token → List Definition
  | [] => []
  | t :: ts =>
    match t.kind with
    | .lparen =>
      let here := if depth = 0 then (definitionAfter? ts).toList else []
      here ++ definitionsFrom (depth + 1) ts
    | .rparen => definitionsFrom (depth - 1) ts
    | .quote | .atom => definitionsFrom depth ts

def problemOf (e : SyntaxError) : Problem :=
  ⟨e.describe, (e.line.getD 1 - 1).toNat, (e.column.getD 1 - 1).toNat⟩

/-- The index of a document; of several definitions of a name the last one counts. -/
def indexOf (text : Text) : DocumentIndex :=
  { definitions :=
      Table.ofList ((definitionsFrom 0 (lex text)).map fun d => (d.name, d)),
    problem := (read text).error.map problemOf }

/-- What is shown for a word: its signature, or where it is defined. -/
def hover? (index : DocumentIndex) (word : Text) : Option Text :=
  match signature? word with
  | some signature => some signature
  | none =>
    (index.definitions.get? word).map fun d =>
      word ++ " : " ++ (if d.isFunction then "function" else "var" : Text) ++ " (defined at " ++
        Text.ofNat (d.line + 1) ++ ":" ++ Text.ofNat (d.character + 1) ++ ")"

/-- A part of one line of a document. -/
structure Span where
  line : Nat
  character : Nat
  length : Nat
  deriving DecidableEq, Repr

structure Diagnostic where
  span : Span
  message : Text
  deriving DecidableEq, Repr

/-- Who the diagnostics come from. -/
def diagnosticSource : Text := "callisp-ls"

def diagnostics (index : DocumentIndex) : List Diagnostic :=
  match index.problem with
  | none => []
  | some p => [⟨⟨p.line, p.character, 1⟩, p.message⟩]

inductive CompletionKind where
  | keyword
  | function
  | variable
  deriving DecidableEq, Repr

structure Completion where
  label : Text
  kind : CompletionKind
  detail : Option Text
  deriving DecidableEq, Repr

/-- The completions that every document has. -/
def fixedCompletions : List Completion :=
  formSignatures.map (fun entry => ⟨entry.1, .keyword, some entry.2⟩) ++
    primitiveSignatures.map fun entry => ⟨entry.1, .function, some entry.2⟩

/-- The completions for the names that a document defines. -/
def localCompletions (index : DocumentIndex) : List Completion :=
  index.definitions.map fun entry =>
    ⟨entry.1, if entry.2.isFunction then .function else .variable, none⟩

def completions (index : DocumentIndex) : List Completion :=
  fixedCompletions ++ localCompletions index

/-- A defined name as an outline of the document lists it. -/
structure OutlineEntry where
  name : Text
  isFunction : Bool
  span : Span
  deriving DecidableEq, Repr

def outline (index : DocumentIndex) : List OutlineEntry :=
  index.definitions.map fun entry =>
    ⟨entry.1, entry.2.isFunction, ⟨entry.2.line, entry.2.character, entry.1.length⟩⟩

end Editor
end SmallLisp
