namespace FilterLang

/-- The number `digits × 10 ^ exponent`. -/
structure Decimal where
  digits : Nat
  exponent : Int
  deriving DecidableEq, Repr

namespace Decimal

def ofDigits (digits : List Char) (places : Nat) (exponent : Int) : Decimal :=
  ⟨Nat.ofDigitChars 10 digits 0, exponent - places⟩

/-- Reads digits with an optional fraction. A sign, an exponent or a bare point is refused. -/
def ofNumeral? (text : List Char) : Option Decimal :=
  let whole := text.takeWhile Char.isDigit
  if whole.isEmpty then none
  else
    match text.dropWhile Char.isDigit with
    | [] => some (ofDigits whole 0 0)
    | '.' :: fraction =>
      if !fraction.isEmpty && fraction.all Char.isDigit then
        some (ofDigits (whole ++ fraction) fraction.length 0)
      else none
    | _ => none

end Decimal

end FilterLang
