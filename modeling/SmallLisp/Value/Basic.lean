import SmallLisp.Number.Shortest
import SmallLisp.Primitive
import SmallLisp.Text.Quoted

/-!
Values, which are also the forms of programs.  A procedure carries an identity besides its content,
because two procedures are the same only if they were made by the same evaluation.
-/

namespace SmallLisp

inductive Value where
  | number (x : Binary64)
  | bool (b : Bool)
  | symbol (name : Text)
  | list (items : List Value)
  /-- A procedure made by a `lambda` form in the frame `frame`. -/
  | closure (id : Nat) (formals : List Text) (body : Value) (frame : Nat)
  /-- A primitive procedure; those made by one registration share the identity `id`. -/
  | builtin (op : Primitive) (id : Nat)
  | unspecified

namespace Value

instance : Inhabited Value := ⟨.unspecified⟩

/-- The name of the variant of a value. -/
def kind : Value → Text
  | .number _ => "number"
  | .bool _ => "bool"
  | .symbol _ => "symbol"
  | .list _ => "list"
  | .closure .. | .builtin .. => "function"
  | .unspecified => "unspecified"

def number? : Value → Option Binary64
  | .number x => some x
  | _ => none

def symbol? : Value → Option Text
  | .symbol name => some name
  | _ => none

def list? : Value → Option (List Value)
  | .list items => some items
  | _ => none

mutual

/-- How deeply the lists of a value nest. -/
def height : Value → Nat
  | .list items => heightAll items + 1
  | _ => 0

def heightAll : List Value → Nat
  | [] => 0
  | v :: vs => max v.height (heightAll vs)

end

end Value
end SmallLisp
