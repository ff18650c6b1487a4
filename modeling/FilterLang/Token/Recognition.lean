import FilterLang.Text.Blank
import FilterLang.Token.Basic

namespace FilterLang

inductive LexError.Cause where
  | unexpectedCharacter
  | unterminatedString
  deriving DecidableEq, Repr

/-- `character` stands at `position`; of an unterminated string it is the opening quote. -/
structure LexError where
  cause : LexError.Cause
  character : Char
  position : Nat
  deriving DecidableEq, Repr

def LexError.message (error : LexError) : String :=
  match error.cause with
  | .unexpectedCharacter =>
    "Unexpected character '" ++ error.character.toString ++ "' at position " ++
      toString error.position
  | .unterminatedString =>
    "Unterminated string starting with " ++ error.character.toString ++ " at position " ++
      toString error.position

namespace Token

def inSuffix? (text : List Char) : Option Nat :=
  let blanks := text.takeWhile Text.isBlank
  let word := (text.dropWhile Text.isBlank).takeWhile Text.isWord
  if !blanks.isEmpty && Text.lower word == ['i', 'n'] then some (blanks.length + 2) else none

/-- The keyword that a whole word is. Operators may be in any letter case, literals in lower case
    only, and `not` alone is no keyword. -/
def Kind.ofKeyword? (word : List Char) : Option Kind :=
  match String.ofList (Text.lower word) with
  | "and" => some .and
  | "or" => some .or
  | "contains" => some .contains
  | "has" => some .has
  | "in" => some .isIn
  | _ =>
    match String.ofList word with
    | "true" => some (.boolean true)
    | "false" => some (.boolean false)
    | "null" => some .null
    | _ => none

def wordKind (word after : List Char) : Kind × Nat :=
  match Kind.ofKeyword? word with
  | some kind => (kind, 0)
  | none =>
    if Text.lower word == ['n', 'o', 't'] then
      match inSuffix? after with
      | some length => (.notIn, length)
      | none => (.identifier, 0)
    else (.identifier, 0)

def fractionLength : List Char → Nat
  | '.' :: rest =>
    let digits := rest.takeWhile Char.isDigit
    if digits.isEmpty then 0 else digits.length + 1
  | _ => 0

/-- The longest token that starts with a character that is no blank: its kind, and how many of
    the characters in `rest` belong to it. -/
def recognize (head : Char) (rest : List Char) : Except LexError.Cause (Kind × Nat) :=
  match head with
  | ',' => .ok (.comma, 0)
  | '.' => .ok (.dot, 0)
  | '(' => .ok (.openParenthesis, 0)
  | ')' => .ok (.closedParenthesis, 0)
  | '[' => .ok (.openBracket, 0)
  | ']' => .ok (.closedBracket, 0)
  | '=' => if rest.head? == some '=' then .ok (.equality, 1) else .error .unexpectedCharacter
  | '!' => .ok (if rest.head? == some '=' then (.equality, 1) else (.not, 0))
  | '<' | '>' => .ok (.relational, if rest.head? == some '=' then 1 else 0)
  | _ =>
    if head == '"' || head == '\'' then
      let body := rest.takeWhile (· != head)
      if body.length < rest.length then .ok (.string, body.length + 1)
      else .error .unterminatedString
    else if head.isDigit then
      let digits := rest.takeWhile Char.isDigit
      .ok (.number, digits.length + fractionLength (rest.dropWhile Char.isDigit))
    else if Text.isWord head then
      let tail := rest.takeWhile Text.isWord
      let (kind, suffix) := wordKind (head :: tail) (rest.dropWhile Text.isWord)
      .ok (kind, tail.length + suffix)
    else .error .unexpectedCharacter

end Token

end FilterLang
