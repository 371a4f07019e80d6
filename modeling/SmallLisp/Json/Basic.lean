import SmallLisp.Number.Shortest
import SmallLisp.Table
import SmallLisp.Text.Quoted

/-!
JSON documents.  Whole numbers are exact and other numbers are double-precision; of equal keys of an
object the last one counts.
-/

namespace SmallLisp

inductive Json where
  | null
  | bool (b : Bool)
  | integer (n : Int)
  | number (x : Binary64)
  | string (s : Text)
  | array (items : List Json)
  | object (fields : List (Text × Json))

namespace Json

instance : Inhabited Json := ⟨.null⟩

/-- The value of a field of an object. -/
def field? (name : Text) : Json → Option Json
  | .object fields => Table.get? name fields
  | _ => none

def string? : Json → Option Text
  | .string s => some s
  | _ => none

/-- The name of the variant in diagnostics. -/
def kind : Json → Text
  | .null => "NoneType"
  | .bool _ => "bool"
  | .integer _ => "int"
  | .number _ => "float"
  | .string _ => "str"
  | .array _ => "list"
  | .object _ => "dict"

mutual

/-- The text of a document in diagnostics. -/
def inspect : Json → Text
  | .null => "None"
  | .bool b => if b then "True" else "False"
  | .integer n => Text.ofInt n
  | .number x => x.inspect
  | .string s => Text.quoted s
  | .array items => "[" ++ Text.join ", " (inspectAll items) ++ "]"
  | .object fields => "\x7b" ++ Text.join ", " (inspectFields fields) ++ "\x7d"

def inspectAll : List Json → List Text
  | [] => []
  | v :: vs => v.inspect :: inspectAll vs

def inspectFields : List (Text × Json) → List Text
  | [] => []
  | (k, v) :: rest => (Text.quoted k ++ ": " ++ v.inspect) :: inspectFields rest

end

/-- The text of a document in diagnostics, a string standing by itself without quotes. -/
def describe : Json → Text
  | .string s => s
  | v => v.inspect

end Json
end SmallLisp
