namespace FilterLang

inductive Operator where
  | or
  | and
  | equal
  | notEqual
  | less
  | greater
  | lessEqual
  | greaterEqual
  | contains
  | has
  | isIn
  | notIn
  deriving DecidableEq, Repr

/-- Binding strength, loosest first. An access chain and everything inside it is a `member`. -/
inductive Level where
  | or
  | and
  | equality
  | relational
  | contains
  | inclusion
  | has
  | member
  deriving DecidableEq, Repr

inductive Family where
  | logical
  | comparison
  | scalar
  | array
  deriving DecidableEq, Repr

def Level.rank : Level → Nat
  | or => 0
  | and => 1
  | equality => 2
  | relational => 3
  | contains => 4
  | inclusion => 5
  | has => 6
  | member => 7

namespace Operator

def all : List Operator :=
  [or, and, equal, notEqual, less, greater, lessEqual, greaterEqual, contains, has, isIn, notIn]

def symbol : Operator → String
  | or => "or"
  | and => "and"
  | equal => "=="
  | notEqual => "!="
  | less => "<"
  | greater => ">"
  | lessEqual => "<="
  | greaterEqual => ">="
  | contains => "contains"
  | has => "has"
  | isIn => "in"
  | notIn => "not in"

def ofSymbol? (text : String) : Option Operator := all.find? (·.symbol == text)

def level : Operator → Level
  | or => .or
  | and => .and
  | equal | notEqual => .equality
  | less | greater | lessEqual | greaterEqual => .relational
  | contains => .contains
  | has => .has
  | isIn | notIn => .inclusion

def family : Operator → Family
  | or | and => .logical
  | equal | notEqual | less | greater | lessEqual | greaterEqual => .comparison
  | contains => .scalar
  | has | isIn | notIn => .array

end Operator

end FilterLang
