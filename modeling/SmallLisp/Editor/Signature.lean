import SmallLisp.Table
import SmallLisp.Text.Blank

/-!
The signatures of the special forms and the primitive procedures.
-/

namespace SmallLisp
namespace Editor

def formSignatures : Table Text :=
  [("def", "(def name value)"),
    ("define", "(define name value)"),
    ("lambda", "(lambda (params) body)"),
    ("λ", "(λ (params) body)"),
    ("if", "(if condition then else)"),
    ("quote", "(quote expr)")]

def primitiveSignatures : Table Text :=
  [("+", "(+ &rest nums)"),
    ("-", "(- x &rest nums)"),
    ("*", "(* &rest nums)"),
    ("/", "(/ x &rest nums)"),
    (">", "(> &rest nums)"),
    (">=", "(>= &rest nums)"),
    ("<", "(< &rest nums)"),
    ("<=", "(<= &rest nums)"),
    ("equal?", "(equal? &rest xs)"),
    ("list", "(list &rest xs)"),
    ("list?", "(list? x)"),
    ("empty?", "(empty? xs)"),
    ("count", "(count xs)"),
    ("type", "(type x)"),
    ("eval", "(eval expr)"),
    ("use", "(use path)"),
    ("putstr", "(putstr x)"),
    ("readline", "(readline)"),
    ("exit", "(exit &optional code)")]

/-- The signature of a special form or a primitive procedure. -/
def signature? (name : Text) : Option Text :=
  Table.get? name (formSignatures ++ primitiveSignatures)

/-- A signature and its parameters. -/
structure SignatureHelp where
  label : Text
  parameters : List Text
  deriving DecidableEq, Repr

/-- The parameters that a signature names: its words after the first, without the outer
parentheses. -/
def parametersOf (signature : Text) : List Text :=
  (Text.words (Text.trim (fun c => c == .char '(' || c == .char ')') signature)).drop 1

def signatureHelp? (callee : Text) : Option SignatureHelp :=
  (signature? callee).map fun label => ⟨label, parametersOf label⟩

end Editor
end SmallLisp
