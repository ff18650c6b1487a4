import FilterLang.Binary64.Basic
import Mathlib.Tactic.Ring

namespace FilterLang

theorem le_roundHalfEven (n d : Nat) : n / d ≤ roundHalfEven n d := by
  unfold roundHalfEven
  dsimp only
  split
  · exact Nat.le_refl _
  · split <;> omega

theorem roundHalfEven_exact (n : Nat) {d : Nat} (pos : 0 < d) : roundHalfEven (n * d) d = n := by
  unfold roundHalfEven
  simp [Nat.mul_div_cancel _ pos, Nat.mul_mod_left, pos]

theorem roundHalfEven_of_lt {n d : Nat} (small : 2 * n < d) : roundHalfEven n d = 0 := by
  have less : n < d := by omega
  unfold roundHalfEven
  simp [Nat.div_eq_of_lt less, Nat.mod_eq_of_lt less, small]

/-- Rounding looks only at the ratio. -/
theorem roundHalfEven_mul (n d : Nat) {c : Nat} (pos : 0 < c) :
    roundHalfEven (n * c) (d * c) = roundHalfEven n d := by
  have below : 2 * (n % d * c) < d * c ↔ 2 * (n % d) < d := by
    rw [← Nat.mul_assoc]
    exact Nat.mul_lt_mul_right pos
  have above : d * c < 2 * (n % d * c) ↔ d < 2 * (n % d) := by
    rw [← Nat.mul_assoc]
    exact Nat.mul_lt_mul_right pos
  unfold roundHalfEven
  simp only [Nat.mul_div_mul_right n d pos, Nat.mul_mod_mul_right, below, above]

namespace Binary64

theorem quantum_eq (n d : Nat) : quantum n d = 2 ^ ((n / d).log2 - 52) := rfl

theorem one_eq : one = 2 ^ 1074 := Nat.pow_eq

theorem limit_eq : limit = 2 ^ 2098 := Nat.pow_eq

theorem quantum_mul (n d : Nat) {c : Nat} (pos : 0 < c) :
    quantum (n * c) (d * c) = quantum n d := by
  unfold quantum
  rw [Nat.mul_div_mul_right n d pos]

theorem roundUnits_mul (n d : Nat) {c : Nat} (pos : 0 < c) :
    roundUnits (n * c) (d * c) = roundUnits n d := by
  unfold roundUnits
  rw [quantum_mul n d pos, Nat.mul_right_comm, roundHalfEven_mul _ _ pos]

theorem roundUnits_exact {units : Nat} (representable : Representable units) {d : Nat}
    (pos : 0 < d) : roundUnits (units * d) d = units := by
  obtain ⟨m, exact⟩ := representable.1
  have step : quantum (units * d) d = Nat.pow 2 (units.log2 - 52) := by
    unfold quantum
    rw [Nat.mul_div_cancel _ pos]
  unfold roundUnits
  rw [step]
  generalize Nat.pow 2 (units.log2 - 52) = q at exact step
  have posQuantum : 0 < q := by
    rw [← step]
    exact Nat.two_pow_pos _
  have product : units * d = m * (d * q) := by
    rw [exact]
    ring
  rw [product, roundHalfEven_exact m (Nat.mul_pos pos posQuantum), exact, Nat.mul_comm]

theorem roundUnits_of_lt {n d : Nat} (small : 2 * n < d) : roundUnits n d = 0 := by
  have less : n < d := by omega
  have step : quantum n d = 1 := by
    unfold quantum
    rw [Nat.div_eq_of_lt less]
    rfl
  unfold roundUnits
  rw [step, Nat.mul_one, Nat.mul_one, roundHalfEven_of_lt small]

theorem two_pow_log2 {n d : Nat} (bits : 52 ≤ (n / d).log2) :
    2 ^ (n / d).log2 = 2 ^ 52 * quantum n d := by
  rw [quantum_eq, ← Nat.pow_add]
  congr 1
  omega

/-- A quotient of 53 bits or more has at least `2 ^ 52` steps of its own size. -/
theorem le_div_quantum {n d : Nat} (nonzero : n / d ≠ 0) (bits : 52 ≤ (n / d).log2) :
    2 ^ 52 ≤ n / (d * quantum n d) := by
  have posQuantum : 0 < quantum n d := Nat.two_pow_pos _
  rw [← Nat.div_div_eq_div_mul, Nat.le_div_iff_mul_le posQuantum, ← two_pow_log2 bits]
  exact Nat.log2_self_le nonzero

/-- Rounding does not fall below a power of two that the quotient reaches. -/
theorem two_pow_le_roundUnits {n d k : Nat} (large : 2 ^ k ≤ n / d) (bits : 52 ≤ k) :
    2 ^ k ≤ roundUnits n d := by
  have nonzero : n / d ≠ 0 := by
    have := Nat.two_pow_pos k
    omega
  have order : k ≤ (n / d).log2 := (Nat.le_log2 nonzero).mpr large
  have whole := le_div_quantum nonzero (bits.trans order)
  calc 2 ^ k ≤ 2 ^ (n / d).log2 := Nat.pow_le_pow_right (by decide) order
    _ = 2 ^ 52 * quantum n d := two_pow_log2 (bits.trans order)
    _ ≤ roundHalfEven n (d * quantum n d) * quantum n d :=
      Nat.mul_le_mul_right _ (Nat.le_trans whole (le_roundHalfEven _ _))

theorem ofRatio_mul (negative : Bool) (n d : Nat) {c : Nat} (pos : 0 < c) :
    ofRatio negative (n * c) (d * c) = ofRatio negative n d := by
  unfold ofRatio
  simp only [Nat.mul_right_comm n c one, roundUnits_mul _ _ pos]

theorem ofRatio_congr (negative : Bool) {n d m c : Nat} (posD : 0 < d) (posC : 0 < c)
    (same : n * c = m * d) : ofRatio negative n d = ofRatio negative m c := by
  rw [← ofRatio_mul negative n d posC, ← ofRatio_mul negative m c posD, same, Nat.mul_comm d c]

theorem ofRatio_overflow (negative : Bool) {n d : Nat} (pos : 0 < d) (large : 2 ^ 1024 * d ≤ n) :
    ofRatio negative n d = .infinity negative := by
  have split : limit = 2 ^ 1024 * one := by
    rw [limit_eq, one_eq, ← Nat.pow_add]
  have whole : limit ≤ n * one / d := by
    rw [Nat.le_div_iff_mul_le pos, split, Nat.mul_right_comm]
    exact Nat.mul_le_mul_right _ large
  have tooLarge : limit ≤ roundUnits (n * one) d := by
    rw [limit_eq] at whole ⊢
    exact two_pow_le_roundUnits whole (by decide)
  unfold ofRatio
  dsimp only
  rw [dif_neg (Nat.not_lt.mpr tooLarge)]

theorem ofRatio_underflow (negative : Bool) {n d : Nat} (small : 2 * (n * one) < d) :
    ofRatio negative n d = zero negative := by
  unfold ofRatio zero
  simp only [roundUnits_of_lt small, limit_pos, dif_pos]

theorem ofRatio_exact (negative : Bool) {units n d : Nat} (representable : Representable units)
    (pos : 0 < d) (exact : n * one = units * d) :
    ofRatio negative n d = .finite negative units representable := by
  unfold ofRatio
  simp only [exact, roundUnits_exact representable pos, representable.2, dif_pos]

end Binary64

end FilterLang
