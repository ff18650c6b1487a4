import FilterLang.Decimal

namespace FilterLang

/-- A signed number in digits. Without sign, fraction and exponent it is `plain`. -/
structure Numeral where
  negative : Bool
  whole : List Char
  fraction : List Char
  exponent : Int
  plain : Bool
  deriving DecidableEq, Repr

namespace Numeral

def magnitude (n : Numeral) : Decimal :=
  Decimal.ofDigits (n.whole ++ n.fraction) n.fraction.length n.exponent

def takeMinus : List Char → Bool × List Char
  | '-' :: rest => (true, rest)
  | rest => (false, rest)

def takeSign : List Char → Bool × List Char
  | '+' :: rest => (false, rest)
  | rest => takeMinus rest

def scanFraction : List Char → List Char × List Char
  | '.' :: rest =>
    let digits := rest.takeWhile Char.isDigit
    if digits.isEmpty then ([], '.' :: rest) else (digits, rest.dropWhile Char.isDigit)
  | rest => ([], rest)

def scanExponent : List Char → Option Int × List Char
  | [] => (none, [])
  | mark :: rest =>
    let (negative, body) := takeSign rest
    let digits := body.takeWhile Char.isDigit
    if (mark == 'e' || mark == 'E') && !digits.isEmpty then
      let size : Int := Nat.ofDigitChars 10 digits 0
      (some (if negative then -size else size), body.dropWhile Char.isDigit)
    else (none, mark :: rest)

def scan? (text : List Char) : Option (Numeral × List Char) :=
  let (negative, body) := takeMinus text
  let whole := body.takeWhile Char.isDigit
  if whole.isEmpty then none
  else
    let (fraction, afterFraction) := scanFraction (body.dropWhile Char.isDigit)
    let (exponent, rest) := scanExponent afterFraction
    let plain := !negative && fraction.isEmpty && exponent.isNone
    some (⟨negative, whole, fraction, exponent.getD 0, plain⟩, rest)

theorem takeMinus_length_le (text : List Char) : (takeMinus text).2.length ≤ text.length := by
  unfold takeMinus
  split
  · exact Nat.le_succ _
  · exact Nat.le_refl _

theorem takeSign_length_le (text : List Char) : (takeSign text).2.length ≤ text.length := by
  unfold takeSign
  split
  · exact Nat.le_succ _
  · exact takeMinus_length_le _

theorem length_dropWhile_lt {text : List Char} {p : Char → Bool}
    (taken : (text.takeWhile p).isEmpty = false) : (text.dropWhile p).length < text.length := by
  have whole := congrArg List.length (List.takeWhile_append_dropWhile (p := p) (l := text))
  have := List.length_pos_iff.mpr (List.isEmpty_eq_false_iff.mp taken)
  rw [List.length_append] at whole
  omega

theorem scanFraction_length_le (text : List Char) :
    (scanFraction text).2.length ≤ text.length := by
  unfold scanFraction
  split
  · next rest =>
    dsimp only
    split
    · exact Nat.le_refl _
    · exact Nat.le_succ_of_le (List.dropWhile_suffix _).length_le
  · exact Nat.le_refl _

theorem scanExponent_length_le (text : List Char) :
    (scanExponent text).2.length ≤ text.length := by
  unfold scanExponent
  split
  · exact Nat.le_refl _
  · next mark rest =>
    dsimp only
    split
    · exact Nat.le_succ_of_le
        (Nat.le_trans (List.dropWhile_suffix _).length_le (takeSign_length_le rest))
    · exact Nat.le_refl _

/-- Every numeral has a digit. -/
theorem scan?_shorter {text after : List Char} {numeral : Numeral}
    (read : scan? text = some (numeral, after)) : after.length < text.length := by
  unfold scan? at read
  dsimp only at read
  split at read
  · cases read
  · next digits =>
    cases read
    refine Nat.lt_of_le_of_lt (scanExponent_length_le _) ?_
    refine Nat.lt_of_le_of_lt (scanFraction_length_le _) ?_
    exact Nat.lt_of_lt_of_le (length_dropWhile_lt (by simpa using digits))
      (takeMinus_length_le text)

end Numeral

end FilterLang
