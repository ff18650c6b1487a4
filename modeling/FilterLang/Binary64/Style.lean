import FilterLang.Binary64.Shortest

namespace FilterLang

structure NumberStyle where
  tie : Tie
  /-- The least and the greatest decimal order written without an exponent; `none` for all. -/
  positional : Option (Int × Int)
  /-- Whole numbers end in `.0`. -/
  point : Bool
  nan : String
  infinity : String
  negativeInfinity : String

namespace NumberStyle

def isPositional (style : NumberStyle) (order : Int) : Bool :=
  match style.positional with
  | none => true
  | some (least, greatest) => least ≤ order && order ≤ greatest

/-- Digits without an exponent; the first stands for `10 ^ order`. -/
def positionalText (style : NumberStyle) (digits : List Char) (order : Int) : List Char :=
  let whole := (order + 1).toNat
  if order < 0 then '0' :: '.' :: List.replicate (-order - 1).toNat '0' ++ digits
  else if whole < digits.length then digits.take whole ++ '.' :: digits.drop whole
  else
    digits ++ List.replicate (whole - digits.length) '0' ++ if style.point then ['.', '0'] else []

def exponentText (digits : List Char) (order : Int) : List Char :=
  let mantissa :=
    match digits with
    | first :: second :: rest => first :: '.' :: second :: rest
    | digits => digits
  mantissa ++ 'e' :: (if order < 0 then '-' else '+') :: Nat.toDigits 10 order.natAbs

def decimalText (style : NumberStyle) (d : Decimal) : List Char :=
  let digits := Nat.toDigits 10 d.digits
  let order := d.exponent + (digits.length - 1 : Nat)
  let significant := (digits.reverse.dropWhile (· == '0')).reverse
  if style.isPositional order then style.positionalText significant order
  else exponentText significant order

def magnitudeText (style : NumberStyle) (units : Nat) : List Char :=
  if units = 0 then style.positionalText ['0'] 0
  else style.decimalText (Binary64.shortest style.tie units)

def render (style : NumberStyle) : Binary64 → String
  | .nan => style.nan
  | .infinity false => style.infinity
  | .infinity true => style.negativeInfinity
  | .finite false units _ => String.ofList (style.magnitudeText units)
  | .finite true units _ => String.ofList ('-' :: style.magnitudeText units)

end NumberStyle

end FilterLang
