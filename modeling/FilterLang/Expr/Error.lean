import FilterLang.Expr.Basic
import FilterLang.Token.Recognition

namespace FilterLang

/-- How many groups may be open at once: parentheses, and brackets after an expression. -/
def maxNesting : Nat := 100

inductive Expectation where
  | expression
  | arrayElement
  | kind (kind : Token.Kind)
  deriving DecidableEq, Repr

inductive ParseError where
  | lexical (error : LexError)
  | unexpectedToken (expected : Expectation) (found : Token)
  | unexpectedEnd (expected : Expectation)
  | trailingInput (found : Token)
  | invalidScalar (found : Expr.Kind)
  | invalidArray (found : Expr.Kind)
  | scalarMemberAccess (found : Expr.Kind)
  | invalidArrayElement (found : Token)
  | invalidNumber (found : Token)
  | nestingTooDeep (position : Nat)
  deriving DecidableEq, Repr

def Expectation.text : Expectation → String
  | expression => "an expression"
  | arrayElement => "an array element"
  | kind k => k.name

namespace ParseError

def located (token : Token) : String :=
  "\"" ++ token.text ++ "\" at position " ++ toString token.position

def message : ParseError → String
  | lexical error => error.message
  | unexpectedToken expected found =>
    "Unexpected token " ++ located found ++ ", expected " ++ expected.text
  | unexpectedEnd expected => "Unexpected end of input, expected " ++ expected.text
  | trailingInput found =>
    "Unexpected token " ++ located found ++ " after a complete expression"
  | invalidScalar found =>
    "Invalid scalar: " ++ found.name ++ " cannot be used where a scalar is required"
  | invalidArray found =>
    "Invalid array expression: " ++ found.name ++ " cannot be used where an array is required"
  | scalarMemberAccess found =>
    "Invalid member expression: can't access member value of a scalar (" ++ found.name ++ ")"
  | invalidArrayElement found =>
    "Invalid array element " ++ located found ++
      ": elements must be literals or member expressions"
  | invalidNumber found => "Invalid number literal " ++ located found
  | nestingTooDeep position =>
    "Maximum nesting depth " ++ toString maxNesting ++ " exceeded at position " ++
      toString position

end ParseError

end FilterLang
