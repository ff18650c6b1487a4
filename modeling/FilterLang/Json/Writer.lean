import FilterLang.Binary64.Style
import FilterLang.Json.Basic

namespace FilterLang.Json

/-- Numbers have a point or an exponent. Those that are not finite have no text of their own. -/
def numberStyle : NumberStyle where
  tie := .toEven
  positional := some (-5, 15)
  point := true
  nan := "null"
  infinity := "null"
  negativeInfinity := "null"

def hexDigit (n : Nat) : Char := Nat.digitChar (n % 16)

def escape (c : Char) : List Char :=
  match c with
  | '"' => ['\\', '"']
  | '\\' => ['\\', '\\']
  | '\x08' => ['\\', 'b']
  | '\t' => ['\\', 't']
  | '\n' => ['\\', 'n']
  | '\x0c' => ['\\', 'f']
  | '\r' => ['\\', 'r']
  | _ =>
    if c.toNat < 0x20 then ['\\', 'u', '0', '0', hexDigit (c.toNat / 16), hexDigit c.toNat]
    else [c]

def Scalar.text : Scalar → String
  | null | unrepresentable => "null"
  | boolean true => "true"
  | boolean false => "false"
  | natural value => String.ofList (Nat.toDigits 10 value)
  | real value => numberStyle.render value
  | string value => String.ofList ('"' :: value.toList.flatMap escape ++ ['"'])

namespace Lexeme

def text : Lexeme → String
  | openBrace => "\x7b"
  | closeBrace => "\x7d"
  | openBracket => "["
  | closeBracket => "]"
  | colon => ":"
  | comma => ","
  | scalar value => value.text

def isOpening : Lexeme → Bool
  | openBrace | openBracket => true
  | _ => false

def isClosing : Lexeme → Bool
  | closeBrace | closeBracket => true
  | _ => false

end Lexeme

def newline (depth : Nat) : String := String.ofList ('\n' :: List.replicate (2 * depth) ' ')

/-- The layout between two pieces, `depth` brackets being open: each element and member has a line
    of its own, and an empty bracket stays closed. -/
def gap (depth : Nat) (before after : Lexeme) : String :=
  if before.isOpening && after.isClosing then ""
  else if before.isOpening || before == .comma then newline depth
  else if after.isClosing then newline (depth - 1)
  else if before == .colon then " "
  else ""

def depthAfter (depth : Nat) (piece : Lexeme) : Nat :=
  if piece.isOpening then depth + 1 else if piece.isClosing then depth - 1 else depth

def layOut (depth : Nat) (before : Lexeme) : List Lexeme → List String
  | [] => []
  | piece :: rest => gap depth before piece :: piece.text :: layOut (depthAfter depth piece) piece rest

def compact (value : Json) : String := String.join (value.lexemes.map Lexeme.text)

def pretty (value : Json) : String :=
  match value.lexemes with
  | [] => ""
  | first :: rest => String.join (first.text :: layOut (depthAfter 0 first) first rest)

def write (indented : Bool) (value : Json) : String := if indented then value.pretty else value.compact

end FilterLang.Json
