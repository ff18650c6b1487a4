import FilterLang.Binary64.Basic

namespace FilterLang

inductive Tie where
  | up
  | toEven
  deriving DecidableEq, Repr

namespace Binary64

def exactDecimal (units : Nat) : Decimal :=
  let shift := units.log2 - 52
  if 1074 ≤ shift then ⟨units / one, 0⟩
  else ⟨units / Nat.pow 2 shift * Nat.pow 5 (1074 - shift), (shift : Int) - 1074⟩

def readsBack (units : Nat) (d : Decimal) : Bool :=
  match ofDecimal false d with
  | .finite _ u _ => u == units
  | _ => false

/-- The better of the two decimals next to `exact` that have `dropped` digits fewer, among those
    that read back. -/
def neighbour? (tie : Tie) (units : Nat) (exact : Decimal) (dropped : Nat) : Option Decimal :=
  let scale := Nat.pow 10 dropped
  let below : Decimal := ⟨exact.digits / scale, exact.exponent + dropped⟩
  let above : Decimal := ⟨exact.digits / scale + 1, exact.exponent + dropped⟩
  let doubled := 2 * (exact.digits % scale)
  let nearer :=
    if doubled < scale then below
    else if scale < doubled then above
    else
      match tie with
      | .up => above
      | .toEven => if below.digits % 2 = 0 then below else above
  match readsBack units below, readsBack units above with
  | true, true => some nearer
  | true, false => some below
  | false, true => some above
  | false, false => none

def shorten (tie : Tie) (units : Nat) (exact : Decimal) : Nat → Decimal
  | 0 => exact
  | dropped + 1 =>
    match neighbour? tie units exact (dropped + 1) with
    | some d => d
    | none => shorten tie units exact dropped

/-- A decimal with the fewest digits among those that round to the magnitude, and of these one
    nearest to it. -/
def shortest (tie : Tie) (units : Nat) : Decimal :=
  let exact := exactDecimal units
  shorten tie units exact ((Nat.toDigits 10 exact.digits).length - 1)

end Binary64

end FilterLang
