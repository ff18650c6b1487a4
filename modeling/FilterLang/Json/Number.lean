import FilterLang.Binary64.Arithmetic
import FilterLang.Json.Basic
import FilterLang.Numeral

namespace FilterLang.Json

def appendDigits (number : Nat) : List Char → Nat × Nat
  | [] => (number, 0)
  | digit :: rest =>
    let longer := 10 * number + (digit.toNat - '0'.toNat)
    if longer < UInt64.size then
      let (result, count) := appendDigits longer rest
      (result, count + 1)
    else (number, 0)

/-- What is kept of a numeral: as many digits as 64 bits hold. Other digits before the point count
    as zeros, and those after it are dropped. -/
def keptDigits (numeral : Numeral) : Decimal :=
  let (whole, count) := appendDigits 0 numeral.whole
  let (digits, places) := appendDigits whole numeral.fraction
  ⟨digits, numeral.exponent + (numeral.whole.length - count : Nat) - places⟩

/-- The number that a numeral stands for. The digits that are kept are rounded first and scaled
    then, so that the result may differ from the nearest number. -/
def approximate (numeral : Numeral) : Binary64 :=
  let kept := keptDigits numeral
  (Binary64.ofDecimal numeral.negative ⟨kept.digits, 0⟩).scale kept.exponent

def Scalar.ofNumeral (number : Numeral → Binary64) (numeral : Numeral) : Scalar :=
  let kept := keptDigits numeral
  let value := number numeral
  if numeral.plain && kept.exponent == 0 then .natural kept.digits
  else if value.isFinite then .real value
  else .unrepresentable

end FilterLang.Json
