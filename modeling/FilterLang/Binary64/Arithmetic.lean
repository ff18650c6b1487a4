import FilterLang.Binary64.Basic

namespace FilterLang.Binary64

def mul : Binary64 → Binary64 → Binary64
  | nan, _ | _, nan => nan
  | finite s u _, finite t v _ => ofRatio (s != t) (u * v) (one * one)
  | infinity s, infinity t => infinity (s != t)
  | infinity s, finite t u _ | finite s u _, infinity t => if u = 0 then nan else infinity (s != t)

def div : Binary64 → Binary64 → Binary64
  | nan, _ | _, nan => nan
  | finite s u _, finite t v _ =>
    if v ≠ 0 then ofRatio (s != t) u v
    else if u = 0 then nan
    else infinity (s != t)
  | infinity s, finite t _ _ => infinity (s != t)
  | finite s _ _, infinity t => zero (s != t)
  | infinity _, infinity _ => nan

def powerOfTen (n : Nat) : Binary64 := ofDecimal false ⟨1, n⟩

def isZero : Binary64 → Bool
  | finite _ u _ => u == 0
  | _ => false

/-- A number times a power of ten, one rounding for the power and one for the result. Powers below
    the finite range are divided off in steps of `10 ^ 308`, each with a rounding of its own. -/
def scale (x : Binary64) (exponent : Int) : Binary64 :=
  if x.isZero || !x.isFinite then x
  else if 0 ≤ exponent then x.mul (powerOfTen exponent.toNat)
  else if -308 ≤ exponent then x.div (powerOfTen (-exponent).toNat)
  else scale (x.div (powerOfTen 308)) (exponent + 308)
termination_by (-exponent).toNat
decreasing_by omega

end FilterLang.Binary64
