import FilterLang.Decimal

namespace FilterLang

namespace Binary64

def one : Nat := Nat.pow 2 1074

def limit : Nat := Nat.pow 2 2098

theorem limit_pos : 0 < limit := by
  unfold limit
  apply Nat.pow_pos
  decide

end Binary64

def Representable (units : Nat) : Prop :=
  Nat.pow 2 (units.log2 - 52) ∣ units ∧ units < Binary64.limit

instance (units : Nat) : Decidable (Representable units) :=
  inferInstanceAs (Decidable (_ ∧ _))

/-- A binary64 number. The magnitude of a finite one is `units × 2 ^ -1074`; both zeros are
    finite, and a single value stands for every NaN. -/
inductive Binary64 where
  | nan
  | infinity (negative : Bool)
  | finite (negative : Bool) (units : Nat) (representable : Representable units)
  deriving DecidableEq

def roundHalfEven (n d : Nat) : Nat :=
  let quotient := n / d
  let doubled := 2 * (n % d)
  if doubled < d then quotient
  else if d < doubled then quotient + 1
  else quotient + quotient % 2

namespace Binary64

def quantum (n d : Nat) : Nat := Nat.pow 2 ((n / d).log2 - 52)

def roundUnits (n d : Nat) : Nat :=
  roundHalfEven n (d * quantum n d) * quantum n d

theorem roundHalfEven_le (n d : Nat) : roundHalfEven n d ≤ n / d + 1 := by
  unfold roundHalfEven
  dsimp only
  split
  · omega
  · split <;> omega

theorem div_quantum_lt (n d : Nat) : n / (d * quantum n d) < Nat.pow 2 53 := by
  rw [← Nat.div_div_eq_div_mul, quantum]
  simp only [Nat.pow_eq]
  rw [Nat.div_lt_iff_lt_mul (Nat.two_pow_pos _), ← Nat.pow_add]
  refine Nat.lt_of_lt_of_le Nat.lt_log2_self (Nat.pow_le_pow_right (by decide) ?_)
  omega

/-- Rounding carries at most into a 54th bit, and then all lower bits are zero. -/
theorem dvd_roundUnits (n d : Nat) : Nat.pow 2 ((roundUnits n d).log2 - 52) ∣ roundUnits n d := by
  have bound : roundHalfEven n (d * quantum n d) ≤ Nat.pow 2 53 :=
    Nat.le_trans (roundHalfEven_le _ _) (div_quantum_lt n d)
  unfold roundUnits
  generalize roundHalfEven n (d * quantum n d) = q at bound
  unfold quantum
  simp only [Nat.pow_eq] at bound ⊢
  generalize (n / d).log2 - 52 = e
  rcases Nat.lt_or_eq_of_le bound with small | carried
  · refine Nat.dvd_trans (Nat.pow_dvd_pow 2 ?_) (Nat.dvd_mul_left _ _)
    by_cases zero : q = 0
    · simp [zero]
    · have : (q * 2 ^ e).log2 < 53 + e := by
        rw [Nat.log2_lt (Nat.mul_ne_zero zero (Nat.ne_of_gt (Nat.two_pow_pos e))), Nat.pow_add]
        exact Nat.mul_lt_mul_of_pos_right small (Nat.two_pow_pos e)
      omega
  · rw [carried, ← Nat.pow_add, Nat.log2_two_pow]
    exact Nat.pow_dvd_pow 2 (by omega)

def ofRatio (negative : Bool) (n d : Nat) : Binary64 :=
  let units := roundUnits (n * one) d
  if small : units < limit then .finite negative units ⟨dvd_roundUnits _ _, small⟩
  else .infinity negative

def zero (negative : Bool) : Binary64 := .finite negative 0 ⟨Nat.dvd_zero _, limit_pos⟩

/-- The number nearest to a decimal. Exponents that alone decide the answer are settled first, so
    that no power of ten grows beyond the length of the digits by more than a few hundred. -/
def ofDecimal (negative : Bool) (d : Decimal) : Binary64 :=
  if d.digits = 0 then zero negative
  else if 310 ≤ d.exponent then .infinity negative
  else if d.exponent + (d.digits.log2 + 1 : Nat) < -330 then zero negative
  else
    ofRatio negative (d.digits * Nat.pow 10 d.exponent.toNat) (Nat.pow 10 (-d.exponent).toNat)

def ofNat (n : Nat) : Binary64 := ofDecimal false ⟨n, 0⟩

def isFinite : Binary64 → Bool
  | .finite .. => true
  | _ => false

def equal : Binary64 → Binary64 → Bool
  | .finite s u _, .finite t v _ => u == v && (s == t || u == 0)
  | .infinity s, .infinity t => s == t
  | _, _ => false

end Binary64

end FilterLang
