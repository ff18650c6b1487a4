namespace FilterLang.Manual

inductive Category where
  | language
  | operators
  | precedence
  | errors
  deriving DecidableEq, Repr

def overview : String :=
  r#"SIEVE DOCUMENTATION

Sieve is a small filter-expression language. An expression compares fields,
literals and arrays and combines the results with `and` / `or`. This tool
parses expressions into a typed syntax tree; it does not evaluate them.

DOCUMENTATION CATEGORIES

  syntax            Literals, identifiers, member access, array literals
  operators         Logical, comparison and membership operators
  precedence        Binding order and associativity
  errors            What the parser rejects and why

QUICK REFERENCE

  status == "open"                  Equality
  age >= 18 and verified == true    Logical AND
  title contains "draft"            Scalar membership
  tags has "urgent"                 Array contains a value
  status in ["open", "pending"]     Value is in an array
  owner.name, items[0]              Member access

Run 'sieve doc <category>' for detailed documentation.
"#

def syntaxText : String :=
  r#"SYNTAX

LITERALS
  42, 3.14          Numbers: digits with an optional fraction, no sign or exponent
  "text", 'text'    Strings: either quote, no escape sequences
  true, false       Booleans (lower-case only)
  null              Null (lower-case only)

IDENTIFIERS
  A run of ASCII letters, digits and underscores:
    status
    created_at
    field2

MEMBER ACCESS
  object.field      Field access; the field must be an identifier
  object[expr]      Computed access; any expression is accepted as the key

  Accessors chain left to right:
    a.b[0].c

  Field access on a literal is rejected:
    "abc".length    => error
    1.x             => error

ARRAY LITERALS
  []
  [1, 2, 3]
  ["a", user.name, items[0]]

  Elements are literals or access chains starting with an identifier.
  Nested arrays and parenthesized elements are not allowed.

GROUPING
  (a or b) and c

  Parentheses change grouping only; the tree records that a node was
  parenthesized so it can be printed back the same way.
"#

def operatorsText : String :=
  r#"OPERATORS

LOGICAL
  and               Both sides hold
  or                Either side holds

  Keywords are case-insensitive: AND, And and and are the same operator.

COMPARISON
  ==  !=            Equality
  <  >  <=  >=      Relational

SCALAR MEMBERSHIP
  left contains right

  Neither side may be an array literal.
    title contains "draft"        ok
    title contains ["a", "b"]     error

ARRAY MEMBERSHIP
  array has value               The array on the left holds the value
  value in array                The value is one of the array's elements
  value not in array            Negated `in`

  The array side must be an array literal or a bare identifier:
    tags has "urgent"             ok
    [1, 2] has x                  ok
    1 has x                       error
    a in [1, 2, 3]                ok
    a in b.c                      error (member expressions are not accepted)

  One `has` and one `in`/`not in` may be combined:
    tags has "x" in flags

  Keywords are case-insensitive: NOT IN, Not In and not in are the same.
"#

def precedenceText : String :=
  r#"PRECEDENCE

From loosest to tightest:

  1. or
  2. and
  3. ==  !=
  4. <  >  <=  >=
  5. contains
  6. has, in, not in
  7. .field  [key]
  8. literals, identifiers, ( ... ), [ ... ]

ASSOCIATIVITY
  Every binary level groups to the left:

    a or b or c       => (a or b) or c
    a == b == c       => (a == b) == c
    a < b < c         => (a < b) < c

  `contains`, `has` and `in` do not chain. A second occurrence at the same
  level is reported as unexpected input.

EXAMPLES
  a or b and c                    => a or (b and c)
  true and false or null          => (true and false) or null
  x == 1 and y in [1, 2]          => (x == 1) and (y in [1, 2])
"#

def errorsText : String :=
  r#"ERRORS

Parsing stops at the first error. Nothing is returned on failure.

LEXICAL ERRORS
  An unrecognised character or an unterminated string:

    a = 1         Unexpected character '=' at position 2
    "open         Unterminated string starting with " at position 0

SYNTAX ERRORS
  Unexpected token           a..b, a == ), a.1
  Unexpected end of input    a and, (a
  Trailing input             a b
  Invalid scalar             a contains [1]
  Invalid array expression   1 has x, a in b.c
  Scalar member access       "s".x, (1).y
  Invalid array element      [[1]], [(a)], [1,]
  Invalid number             a digit run too large for a 64-bit float
  Nesting too deep           more than 100 nested ( ... ) or [ ... ]
"#

namespace Category

def all : List Category := [language, operators, precedence, errors]

def name : Category → String
  | language => "Syntax"
  | operators => "Operators"
  | precedence => "Precedence"
  | errors => "Errors"

def keys : Category → List String
  | language => ["syntax", "literals"]
  | operators => ["operators", "ops"]
  | precedence => ["precedence", "grammar"]
  | errors => ["errors", "error"]

def ofName? (text : String) : Option Category :=
  all.find? (·.keys.contains (String.ofList (text.toList.map Char.toLower)))

def text : Category → String
  | language => syntaxText
  | operators => operatorsText
  | precedence => precedenceText
  | errors => errorsText

end Category

end FilterLang.Manual
