import FilterLang.Binary64.Basic
import FilterLang.Numeral
import FilterLang.Text.Blank

namespace FilterLang.Binary64

/-- Reads `inf`, `infinity` or `nan` in any letter case, or digits with an optional point among them
    and an optional exponent; all with an optional sign. Digits give the nearest number. -/
def ofText? (text : String) : Option Binary64 :=
  let (negative, body) := Numeral.takeSign text.toList
  match String.ofList (Text.lower body) with
  | "nan" => some .nan
  | "inf" | "infinity" => some (.infinity negative)
  | _ =>
    let whole := body.takeWhile Char.isDigit
    let (fraction, rest) : List Char × List Char :=
      match body.dropWhile Char.isDigit with
      | '.' :: rest => (rest.takeWhile Char.isDigit, rest.dropWhile Char.isDigit)
      | rest => ([], rest)
    match Numeral.scanExponent rest with
    | (exponent, []) =>
      if whole.isEmpty && fraction.isEmpty then none
      else
        let digits := Decimal.ofDigits (whole ++ fraction) fraction.length (exponent.getD 0)
        some (ofDecimal negative digits)
    | _ => none

end FilterLang.Binary64
