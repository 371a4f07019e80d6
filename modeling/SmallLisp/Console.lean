import SmallLisp.Text.Basic

/-!
The streams of a program.  There is a standard input and a standard output, and either can be
covered by an installed one.  An input is what is still to arrive; what has been written to an output
stays.

An output takes every text, and writing to it never fails.  That is an assumption: an output that encodes
what is written, and takes only what has an encoding, refuses a text with a surrogate, and such an output
is not modelled.  What is proved about the faults of a program is about outputs that take every text.
-/

namespace SmallLisp

/-- What asking an input for a line can bring. -/
inductive Arrival where
  /-- A line with its ending; only the last one can lack an ending. -/
  | line (text : Text)
  | interrupted
  | failed
  deriving DecidableEq, Repr

abbrev Input := List Arrival

/-- Where texts can be written. -/
inductive Output where
  | standard
  | named (name : Text)
  deriving DecidableEq, Repr

structure Console where
  standardInput : Input
  installedInput : Option Input
  installedOutput : Option Output
  /-- What has been written and where, the latest first. -/
  written : List (Output × Text)

namespace Console

def start (input : Input) : Console := ⟨input, none, none, []⟩

/-- The input that programs read. -/
def input (c : Console) : Input := c.installedInput.getD c.standardInput

/-- The output that programs write to. -/
def output (c : Console) : Output := c.installedOutput.getD .standard

def setInput (c : Console) (input : Input) : Console :=
  match c.installedInput with
  | some _ => { c with installedInput := some input }
  | none => { c with standardInput := input }

/-- The console after writing, to an output that takes every text. -/
def writeTo (c : Console) (output : Output) (text : Text) : Console :=
  { c with written := (output, text) :: c.written }

/-- Writes to the output that programs write to. -/
def write (c : Console) (text : Text) : Console := c.writeTo c.output text

/-- All that has been written to an output. -/
def text (c : Console) (output : Output) : Text :=
  c.written.reverse.flatMap fun entry => if entry.1 = output then entry.2 else []

/-- Covers the standard streams by exactly the given ones. -/
def set (c : Console) (input : Option Input) (output : Option Output) : Console :=
  { c with installedInput := input, installedOutput := output }

/-- Covers the streams that are given; the others stay as they are. -/
def install (c : Console) (input : Option Input) (output : Option Output) : Console :=
  { c with
    installedInput := input.or c.installedInput,
    installedOutput := output.or c.installedOutput }

/-! ## What setting the input leaves as it is -/

theorem setInput_input (c : Console) : c.setInput c.input = c := by
  obtain ⟨standard, installed, output, written⟩ := c
  cases installed <;> rfl

theorem input_setInput (c : Console) (input : Input) : (c.setInput input).input = input := by
  obtain ⟨standard, installed, output, written⟩ := c
  cases installed <;> rfl

theorem isSome_installedInput_setInput (c : Console) (input : Input) :
    (c.setInput input).installedInput.isSome = c.installedInput.isSome := by
  obtain ⟨standard, installed, output, written⟩ := c
  cases installed <;> rfl

/-- A covered standard input stays as it is. -/
theorem standardInput_setInput (c : Console) (input : Input) (h : c.installedInput.isSome = true) :
    (c.setInput input).standardInput = c.standardInput := by
  obtain ⟨standard, installed, output, written⟩ := c
  cases installed with
  | none => cases h
  | some _ => rfl

theorem installedOutput_setInput (c : Console) (input : Input) :
    (c.setInput input).installedOutput = c.installedOutput := by
  obtain ⟨standard, installed, output, written⟩ := c
  cases installed <;> rfl

theorem output_setInput (c : Console) (input : Input) : (c.setInput input).output = c.output := by
  rw [output, installedOutput_setInput, output]

theorem written_setInput (c : Console) (input : Input) :
    (c.setInput input).written = c.written := by
  obtain ⟨standard, installed, output, written⟩ := c
  cases installed <;> rfl

theorem text_setInput (c : Console) (input : Input) (output : Output) :
    (c.setInput input).text output = c.text output := by
  rw [text, written_setInput, text]

theorem text_write (c : Console) (t : Text) (output : Output) :
    (c.write t).text output = c.text output ++ if c.output = output then t else [] := by
  show ((c.output, t) :: c.written).reverse.flatMap _ = _
  rw [List.reverse_cons, List.flatMap_append, List.flatMap_singleton]
  rfl

end Console
end SmallLisp
