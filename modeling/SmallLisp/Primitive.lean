import SmallLisp.Text.Basic

/-!
The primitive procedures of the language: their names, and how many arguments each takes.  What they
do is told where evaluation is, since some of them evaluate.
-/

namespace SmallLisp

/-- How many arguments a procedure takes; without `most` there is no upper bound.  The bounds are
integers, so that a declaration that admits no number of arguments can be told from one that does. -/
structure Arity where
  least : Int
  most : Option Int
  deriving DecidableEq, Repr

namespace Arity

def exactly (n : Nat) : Arity := ⟨n, some ↑n⟩

def atLeast (n : Nat) : Arity := ⟨n, none⟩

/-- Whether `n` arguments are allowed. -/
def admits (a : Arity) (n : Nat) : Bool :=
  a.least ≤ n && (a.most.all fun most => (n : Int) ≤ most)

/-- The allowed numbers of arguments in words. -/
def describe (a : Arity) : Text :=
  match a.most with
  | none => "at least " ++ Text.ofInt a.least
  | some most =>
    if a.least = most then "exactly " ++ Text.ofInt most
    else Text.ofInt a.least ++ " to " ++ Text.ofInt most

end Arity

inductive Primitive where
  | add
  | subtract
  | multiply
  | divide
  | greater
  | greaterEq
  | less
  | lessEq
  | equal
  | list
  | isList
  | isEmpty
  | count
  | type
  | eval
  | use
  | putstr
  | readline
  | exit
  deriving DecidableEq, Repr

namespace Primitive

/-- Every primitive, in the order in which a new environment lists them. -/
def all : List Primitive :=
  [.add, .subtract, .multiply, .divide, .greater, .greaterEq, .less, .lessEq, .equal, .list, .isList,
    .isEmpty, .count, .type, .eval, .use, .putstr, .readline, .exit]

def name : Primitive → Text
  | .add => "+"
  | .subtract => "-"
  | .multiply => "*"
  | .divide => "/"
  | .greater => ">"
  | .greaterEq => ">="
  | .less => "<"
  | .lessEq => "<="
  | .equal => "equal?"
  | .list => "list"
  | .isList => "list?"
  | .isEmpty => "empty?"
  | .count => "count"
  | .type => "type"
  | .eval => "eval"
  | .use => "use"
  | .putstr => "putstr"
  | .readline => "readline"
  | .exit => "exit"

def ofName? (name : Text) : Option Primitive :=
  all.find? fun p => p.name == name

def arity : Primitive → Arity
  | .subtract | .divide => .atLeast 1
  | .isList | .isEmpty | .count | .type | .eval | .use | .putstr => .exactly 1
  | .readline => .exactly 0
  | .exit => ⟨0, some 1⟩
  | _ => .atLeast 0

theorem mem_all (p : Primitive) : p ∈ all := by
  cases p <;> simp [all]

end Primitive
end SmallLisp
