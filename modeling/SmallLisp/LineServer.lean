import SmallLisp.CommandLine.Repl
import SmallLisp.Json.Printer
import SmallLisp.Json.Reader

/-!
Evaluation by request.  A request is a line with a JSON object that holds a command and the code to
evaluate, and every request has one line with a JSON object as its reply.  All requests share one
interpreter, so definitions stay.
-/

namespace SmallLisp
namespace LineServer

inductive Reply where
  | result (text : Text)
  | error (message : Text)
  deriving DecidableEq, Repr

/-- What ends a connection instead of a reply. -/
inductive Escape where
  | fault (f : Fault)
  /-- The code is not a string. -/
  | notText (kind : Text)
  /-- A whole number in the request is too long. -/
  | tooManyDigits (count : Nat)
  deriving DecidableEq

/-- The words for what ended a connection. -/
def Escape.describe : Escape → Text
  | .fault f => f.describe
  | .notText kind => "expected string or bytes-like object, got '" ++ kind ++ "'"
  | .tooManyDigits count =>
    "Exceeds the limit (" ++ Text.ofNat Json.digitLimit ++
      " digits) for integer string conversion: value has " ++ Text.ofNat count ++
      " digits; use sys.set_int_max_str_digits() to increase the limit"

def Reply.toJson : Reply → Json
  | .result text => .object [("ok", .bool true), ("result", .string text)]
  | .error message => .object [("ok", .bool false), ("error", .string message)]

/-- What the server works with: the setup and the interpreter. -/
structure Service where
  setup : Setup
  interpreter : Interpreter

def exitRefused : Text := "exit is not available in the REPL server"

/-- Evaluates code and gives the text of its value. -/
def answer (service : Service) (code : Text) : Run (Except Escape Reply) := do
  match ← Run.outcome (service.interpreter.eval service.setup code) with
  | .ok v =>
    if v.rendersWithin service.setup.frames then pure (.ok (.result v.render))
    else pure (.error (.fault .overflow))
  | .error (.error e) => pure (.ok (.error e.message))
  | .error .overflow => pure (.ok (.error Fault.overflow.describe))
  | .error (.exit _) => pure (.ok (.error exitRefused))
  | .error f => pure (.error (.fault f))

/-- The complaint about a command. -/
def unknownCommand (request : Json) : Reply :=
  let command := match request with
    | .object _ => (request.field? "cmd").getD .null
    | other => other
  .error ("Unknown cmd: " ++ command.describe)

/-- The only command. -/
def evalCommand : Text := "eval"

/-- The reply to a request that is a JSON document. -/
def respond (service : Service) (request : Json) : Run (Except Escape Reply) :=
  if (request.field? "cmd").bind Json.string? = some evalCommand then
    match (request.field? "code").getD (.string "") with
    | .string code => answer service code
    | other => pure (.error (.notText other.kind))
  else pure (.ok (unknownCommand request))

def invalid (reason : Text) : Reply := .error ("Invalid request: " ++ reason)

/-- The reply to a line. -/
def handle (service : Service) (line : List UInt8) : Run (Except Escape Reply) :=
  match Utf8.decode line with
  | .error malformed => pure (.ok (invalid malformed.describe))
  | .ok text =>
    match Json.parse service.setup.frames text with
    | .ok request => respond service request
    | .error (.malformed message offset) =>
      pure (.ok (invalid (message ++ ": " ++ Json.describePlace text offset)))
    | .error .tooDeep => pure (.error (.fault .overflow))
    | .error (.tooManyDigits count) => pure (.error (.tooManyDigits count))

/-- Bytes that are blank around a request. -/
def isBlankByte (b : UInt8) : Bool := b == 0x20 || (0x09 ≤ b && b ≤ 0x0d)

def trimBytes (bytes : List UInt8) : List UInt8 :=
  ((bytes.dropWhile isBlankByte).reverse.dropWhile isBlankByte).reverse

/-- The pieces of bytes between line feeds. -/
def splitLines : List UInt8 → List (List UInt8)
  | [] => [[]]
  | b :: bs =>
    match splitLines bs with
    | [] => [[b]]
    | line :: rest => if b == 0x0a then [] :: line :: rest else (b :: line) :: rest

/-- The requests that a client sent: its lines, without the blanks around them, the blank ones left
out. -/
def requests (data : List UInt8) : List (List UInt8) :=
  ((splitLines data).map trimBytes).filter (!·.isEmpty)

/-- The replies to requests, up to the first request that has none; and what ended the connection
there. -/
def serveEach (service : Service) : List (List UInt8) → Run (List Reply × Option Escape)
  | [] => pure ([], none)
  | line :: rest => do
    match ← handle service line with
    | .error escape => pure ([], some escape)
    | .ok reply =>
      let (replies, escape) ← serveEach service rest
      pure (reply :: replies, escape)

/-- Serves one client, which has sent `data`. -/
def serve (service : Service) (data : List UInt8) : Run (List Reply × Option Escape) :=
  serveEach service (requests data)

/-- The text that is sent for replies. -/
def sent (replies : List Reply) : Text :=
  replies.flatMap fun reply => reply.toJson.render ++ "\n"

end LineServer
end SmallLisp
