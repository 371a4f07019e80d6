import SmallLisp.Files.Path
import SmallLisp.Text.Utf8

/-!
The files a program can read.  Reading follows a path step by step, and the first step that cannot
be made tells why the file cannot be read.

Every directory can be searched and every file can be read: there are no permissions, no links that lead
in circles and no devices that fail, so the errors of `FileError` are all there are.  In particular a
directory that may not be searched, below which even asking for a file is an error, is not modelled.
-/

namespace SmallLisp

/-- Why a file cannot be read, where nothing is forbidden. -/
inductive FileError where
  | missing (path : Text)
  | notDirectory (path : Text)
  | isDirectory (path : Text)
  | nameTooLong (path : Text)
  | undecodable (malformed : Utf8.Malformed)
  deriving DecidableEq, Repr

namespace FileError

def describe : FileError → Text
  | .missing path => "[Errno 2] No such file or directory: " ++ Text.quoted path
  | .notDirectory path => "[Errno 20] Not a directory: " ++ Text.quoted path
  | .isDirectory path => "[Errno 21] Is a directory: " ++ Text.quoted path
  | .nameTooLong path => "[Errno 36] File name too long: " ++ Text.quoted path
  | .undecodable malformed => malformed.describe

end FileError

inductive FileTree.Node where
  | directory
  | file (bytes : List UInt8)
  /-- A device that can be read and written like a file and stays empty. -/
  | void
  deriving DecidableEq, Repr

/-- Files and directories, each with the steps that lead to it from the root, and the directory that
relative paths start from.  The directories on the way to an entry or to the working directory need
no entries of their own. -/
structure FileTree where
  workingDirectory : List FileName
  entries : List (List FileName × FileTree.Node)

namespace FileTree

/-- The longest name a directory can hold and the longest path, in bytes. -/
def nameLimit : Nat := 255

def pathLimit : Nat := 4095

/-- What stands at the end of the steps from the root, if anything does. -/
def node? (t : FileTree) (steps : List FileName) : Option Node :=
  match t.entries.find? fun entry => entry.1 == steps with
  | some entry => some entry.2
  | none =>
    if steps.isPrefixOf t.workingDirectory || t.entries.any fun entry => steps.isPrefixOf entry.1 then
      some .directory
    else none

/-- One step of the path that is written `path`, from the end of the steps `here`. -/
def step (path : Text) (t : FileTree) (here : List FileName) (name : Text) :
    Except FileError (List FileName) :=
  let next := here ++ [Utf8.toName name]
  match t.node? here with
  | some .directory =>
    if name == ".." then .ok here.dropLast
    else if nameLimit < (Utf8.toName name).length then .error (.nameTooLong path)
    else if (t.node? next).isSome then .ok next
    else .error (.missing path)
  | some _ => .error (.notDirectory path)
  | none => .error (.missing path)

/-- Where a path leads: the steps from the root, and what stands at their end. -/
def find (t : FileTree) (p : Path) : Except FileError (List FileName × Node) := do
  let path := p.toText
  if pathLimit < (Utf8.toName path).length then throw (.nameTooLong path)
  let place ← p.steps.foldlM (step path t) (if p.isAbsolute then [] else t.workingDirectory)
  match t.node? place with
  | some node => pure (place, node)
  | none => throw (.missing path)

/-- What a path leads to. -/
def resolve (t : FileTree) (p : Path) : Except FileError Node := (t.find p).map Prod.snd

/-- Whether a path leads to the end of the steps from the root. -/
def leadsTo (t : FileTree) (p : Path) (steps : List FileName) : Bool :=
  match t.find p with
  | .ok (place, _) => place == steps
  | .error _ => false

/-- The bytes of the file a path leads to. -/
def bytes (t : FileTree) (p : Path) : Except FileError (List UInt8) :=
  match t.resolve p with
  | .ok (.file bytes) => .ok bytes
  | .ok .void => .ok []
  | .ok .directory => .error (.isDirectory p.toText)
  | .error e => .error e

/-- The text of the file a path leads to, with line feeds as its line endings. -/
def text (t : FileTree) (p : Path) : Except FileError Text :=
  match t.bytes p with
  | .error e => .error e
  | .ok bytes =>
    match Utf8.decode bytes with
    | .error malformed => .error (.undecodable malformed)
    | .ok text => .ok (Text.unifyNewlines text)

/-- The path from the root, without steps to the parent. -/
def absolute (t : FileTree) (p : Path) : Path :=
  if p.isAbsolute then { p with steps := Path.simplify p.steps }
  else ⟨.root, Path.simplify (t.workingDirectory.map Utf8.ofName ++ p.steps)⟩

/-- Writes the file at the end of the steps from the root, in place of one that was there. -/
def write (t : FileTree) (steps : List FileName) (bytes : List UInt8) : FileTree :=
  { t with entries := (steps, .file bytes) :: t.entries.filter fun entry => entry.1 != steps }

/-- Makes an empty file at the end of an absolute path, unless a file is there.  Only the last step of
the path may be missing. -/
def create (t : FileTree) (p : Path) : Except FileError FileTree :=
  match t.resolve p with
  | .ok (.file _) | .ok .void => .ok t
  | .ok .directory => .error (.isDirectory p.toText)
  | .error (.missing path) =>
    match t.resolve p.parent with
    | .ok .directory => .ok (t.write p.names [])
    | _ => .error (.missing path)
  | .error e => .error e

/-- Adds bytes at the end of the file at the end of an absolute path, which is made if it is
missing. -/
def append (t : FileTree) (p : Path) (added : List UInt8) : FileTree :=
  match t.resolve p with
  | .ok .void => t
  | .ok (.file bytes) => t.write p.names (bytes ++ added)
  | _ => t.write p.names added

end FileTree
end SmallLisp
