import FilterLang.Binary64.Basic

namespace FilterLang

namespace Json

/-- The values without parts. Digits alone are a natural number if 64 bits hold it, and every other
    number is a real one. A number beyond the finite binary64 range and a string with an unpaired
    surrogate escape are well spelt but `unrepresentable`. -/
inductive Scalar where
  | null
  | boolean (value : Bool)
  | natural (value : Nat)
  | real (value : Binary64)
  | string (value : String)
  | unrepresentable
  deriving DecidableEq

end Json

/-- A value as written: the members of an object in their order, repetitions kept. -/
inductive Json where
  | scalar (value : Json.Scalar)
  | array (elements : List Json)
  | object (members : List (String × Json))

namespace Json

def string (value : String) : Json := scalar (.string value)

def boolean (value : Bool) : Json := scalar (.boolean value)

inductive Lexeme where
  | openBrace
  | closeBrace
  | openBracket
  | closeBracket
  | colon
  | comma
  | scalar (value : Scalar)
  deriving DecidableEq

mutual

def spell : Json → (rest : List Lexeme) → List Lexeme
  | scalar value, rest => .scalar value :: rest
  | array elements, rest => .openBracket :: spellElements elements (.closeBracket :: rest)
  | object members, rest => .openBrace :: spellMembers members (.closeBrace :: rest)

def spellElements : List Json → (rest : List Lexeme) → List Lexeme
  | [], rest => rest
  | [element], rest => element.spell rest
  | element :: elements, rest => element.spell (.comma :: spellElements elements rest)

def spellMembers : List (String × Json) → (rest : List Lexeme) → List Lexeme
  | [], rest => rest
  | [(key, value)], rest => .scalar (.string key) :: .colon :: value.spell rest
  | (key, value) :: members, rest =>
    .scalar (.string key) :: .colon :: value.spell (.comma :: spellMembers members rest)

end

def lexemes (value : Json) : List Lexeme := value.spell []

end Json

end FilterLang
