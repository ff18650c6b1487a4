import FilterLang.Operator

namespace FilterLang

inductive Token.Kind where
  | comma
  | dot
  | openParenthesis
  | closedParenthesis
  | openBracket
  | closedBracket
  | equality
  | relational
  | and
  | or
  | not
  | contains
  | isIn
  | notIn
  | has
  | boolean (value : Bool)
  | null
  | number
  | string
  | identifier
  deriving DecidableEq, Repr

/-- A piece of the source: `text` as written, quotes included, from the character at `position`. -/
structure Token where
  kind : Token.Kind
  text : String
  position : Nat
  deriving DecidableEq, Repr

namespace Token

namespace Kind

def all : List Kind :=
  [comma, dot, openParenthesis, closedParenthesis, openBracket, closedBracket, equality, relational,
    and, or, not, contains, isIn, notIn, has, boolean true, boolean false, null, number, string,
    identifier]

def name : Kind → String
  | comma => "COMMA"
  | dot => "DOT"
  | openParenthesis => "OPEN_PARENTHESIS"
  | closedParenthesis => "CLOSED_PARENTHESIS"
  | openBracket => "OPEN_SQUARE_BRACKET"
  | closedBracket => "CLOSED_SQUARE_BRACKET"
  | equality => "EQUALITY_OPERATOR"
  | relational => "RELATIONAL_OPERATOR"
  | and => "AND"
  | or => "OR"
  | not => "NOT"
  | contains => "CONTAINS"
  | isIn => "IN"
  | notIn => "NOT_IN"
  | has => "HAS"
  | boolean true => "TRUE"
  | boolean false => "FALSE"
  | null => "NULL"
  | number => "NUMERIC_LITERAL"
  | string => "STRING_LITERAL"
  | identifier => "IDENTIFIER"

def ofName? (text : String) : Option Kind := all.find? (·.name == text)

def isLiteral : Kind → Bool
  | boolean _ | null | number | string => true
  | _ => false

end Kind

def operator? (token : Token) : Option Operator :=
  match token.kind with
  | .or => some .or
  | .and => some .and
  | .equality => (Operator.ofSymbol? token.text).filter (·.level == .equality)
  | .relational => (Operator.ofSymbol? token.text).filter (·.level == .relational)
  | .contains => some .contains
  | .has => some .has
  | .isIn => some .isIn
  | .notIn => some .notIn
  | _ => none

end Token

end FilterLang
