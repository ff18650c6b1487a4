import FilterLang.Binary64.Basic
import FilterLang.Operator

namespace FilterLang

inductive Literal where
  | number (value : Binary64)
  | string (value : String)
  | boolean (value : Bool)
  | null
  deriving DecidableEq

/-- Filter expressions. `grouped` records that the node stood in parentheses and never changes its
    meaning. The property of a member is a name after a point or, if `computed`, any expression in
    brackets. Nothing here restricts what may be an operand of what. -/
inductive Expr where
  | identifier (name : String) (grouped : Bool)
  | literal (value : Literal) (grouped : Bool)
  | array (elements : List Expr) (grouped : Bool)
  | member (object property : Expr) (computed grouped : Bool)
  | binary (operator : Operator) (left right : Expr) (grouped : Bool)

inductive Expr.Kind where
  | identifier
  | number
  | string
  | boolean
  | null
  | family (family : Family)
  | member
  | array
  deriving DecidableEq, Repr

def Literal.kind : Literal → Expr.Kind
  | number _ => .number
  | string _ => .string
  | boolean _ => .boolean
  | null => .null

def Literal.equal : Literal → Literal → Bool
  | number x, number y => x.equal y
  | string s, string t => s == t
  | boolean a, boolean b => a == b
  | null, null => true
  | _, _ => false

namespace Expr

def Kind.name : Kind → String
  | identifier => "Identifier"
  | number => "NumericLiteral"
  | string => "StringLiteral"
  | boolean => "BooleanLiteral"
  | null => "NullLiteral"
  | family .logical => "LogicalExpression"
  | family .comparison => "BinaryExpression"
  | family .scalar => "ScalarExpression"
  | family .array => "ArrayExpression"
  | member => "MemberExpression"
  | array => "ArrayLiteralExpression"

def kind : Expr → Kind
  | identifier .. => .identifier
  | literal value _ => value.kind
  | array .. => .array
  | member .. => .member
  | binary operator .. => .family operator.family

/-- Array literals do not count. -/
def isLiteral : Expr → Bool
  | literal .. => true
  | _ => false

def grouped : Expr → Bool
  | identifier _ g | literal _ g | array _ g | member _ _ _ g | binary _ _ _ g => g

def parenthesized : Expr → Expr
  | identifier name _ => identifier name true
  | literal value _ => literal value true
  | array elements _ => array elements true
  | member object property computed _ => member object property computed true
  | binary operator left right _ => binary operator left right true

/-- Two nodes that agree in everything but the parentheses around the nodes themselves. -/
inductive SameParts : Expr → Expr → Prop
  | identifier {name : String} {g h : Bool} : SameParts (identifier name g) (identifier name h)
  | literal {value : Literal} {g h : Bool} : SameParts (literal value g) (literal value h)
  | array {elements : List Expr} {g h : Bool} : SameParts (array elements g) (array elements h)
  | member {object property : Expr} {computed g h : Bool} :
      SameParts (member object property computed g) (member object property computed h)
  | binary {operator : Operator} {left right : Expr} {g h : Bool} :
      SameParts (binary operator left right g) (binary operator left right h)

theorem SameParts.trans {a b c : Expr} (first : a.SameParts b) (second : b.SameParts c) :
    a.SameParts c := by
  cases first <;> cases second <;> constructor

/-- The parts and the flag are all there is to a node. -/
theorem SameParts.eq_of_grouped {a b : Expr} (same : a.SameParts b)
    (flags : a.grouped = b.grouped) : a = b := by
  cases same <;> cases flags <;> rfl

@[simp]
theorem grouped_parenthesized (e : Expr) : e.parenthesized.grouped = true := by
  cases e <;> rfl

theorem sameParts_parenthesized (e : Expr) : e.parenthesized.SameParts e := by
  cases e <;> constructor

theorem parenthesized_parenthesized (e : Expr) : e.parenthesized.parenthesized = e.parenthesized :=
  (sameParts_parenthesized _).eq_of_grouped (by simp)

mutual

def equal : Expr → Expr → Bool
  | identifier n g, identifier m h => n == m && g == h
  | literal v g, literal w h => v.equal w && g == h
  | array xs g, array ys h => equalElements xs ys && g == h
  | member o p c g, member q r d h => equal o q && equal p r && c == d && g == h
  | binary s l r g, binary t m u h => s == t && equal l m && equal r u && g == h
  | _, _ => false

def equalElements : List Expr → List Expr → Bool
  | [], [] => true
  | x :: xs, y :: ys => equal x y && equalElements xs ys
  | _, _ => false

end

end Expr

end FilterLang
