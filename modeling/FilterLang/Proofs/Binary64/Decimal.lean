import FilterLang.Binary64.Shortest
import FilterLang.Proofs.Binary64.Rounding

namespace FilterLang.Binary64

theorem limit_magnitude_le : 2 ^ 1024 ≤ 10 ^ 310 := by decide +kernel

theorem double_one_lt : 2 * one < 10 ^ 330 := by decide +kernel

/-- The exponents that are settled first get the answer that rounding would give. -/
theorem ofDecimal_eq_ofRatio (negative : Bool) (d : Decimal) :
    ofDecimal negative d =
      ofRatio negative (d.digits * 10 ^ d.exponent.toNat) (10 ^ (-d.exponent).toNat) := by
  obtain ⟨digits, exponent⟩ := d
  unfold ofDecimal
  dsimp only
  split
  · next none =>
    subst none
    refine (ofRatio_underflow negative ?_).symm
    rw [Nat.zero_mul, Nat.zero_mul]
    exact Nat.pow_pos (by decide)
  · next some =>
    split
    · next large =>
      refine (ofRatio_overflow negative (Nat.pow_pos (by decide)) ?_).symm
      have whole : (-exponent).toNat = 0 := by omega
      have order : 310 ≤ exponent.toNat := by omega
      calc 2 ^ 1024 * 10 ^ (-exponent).toNat = 2 ^ 1024 := by rw [whole, Nat.pow_zero, Nat.mul_one]
        _ ≤ 10 ^ 310 := limit_magnitude_le
        _ ≤ 10 ^ exponent.toNat := pow_le_pow_right₀ (by decide) order
        _ ≤ digits * 10 ^ exponent.toNat := Nat.le_mul_of_pos_left _ (Nat.pos_of_ne_zero some)
    · split
      · next small =>
        refine (ofRatio_underflow negative ?_).symm
        have none : exponent.toNat = 0 := by omega
        have order : digits.log2 + 1 + 330 ≤ (-exponent).toNat := by omega
        -- A decimal digit holds at least one bit, so the bits bound the digits.
        have bound : digits < 10 ^ (digits.log2 + 1) :=
          Nat.lt_of_lt_of_le Nat.lt_log2_self (Nat.pow_le_pow_left (by decide) _)
        calc 2 * (digits * 10 ^ exponent.toNat * one) = digits * (2 * one) := by
              rw [none, Nat.pow_zero, Nat.mul_one, Nat.mul_left_comm]
          _ < 10 ^ (digits.log2 + 1) * 10 ^ 330 := Nat.mul_lt_mul'' bound double_one_lt
          _ = 10 ^ (digits.log2 + 1 + 330) := (pow_add ..).symm
          _ ≤ 10 ^ (-exponent).toNat := Nat.pow_le_pow_right (by decide) order
      · rfl

/-- Zeros at the end of the digits count as powers of ten. -/
theorem ofDecimal_shift (negative : Bool) (digits k : Nat) (exponent : Int) :
    ofDecimal negative ⟨digits * 10 ^ k, exponent⟩ = ofDecimal negative ⟨digits, exponent + k⟩ := by
  rw [ofDecimal_eq_ofRatio, ofDecimal_eq_ofRatio]
  apply ofRatio_congr negative (Nat.pow_pos (by decide)) (Nat.pow_pos (by decide))
  dsimp only
  rw [Nat.mul_assoc, Nat.mul_assoc, Nat.mul_assoc, ← Nat.pow_add, ← Nat.pow_add, ← Nat.pow_add]
  congr 2
  omega

theorem ofDecimal_exactDecimal (negative : Bool) {units : Nat}
    (representable : Representable units) :
    ofDecimal negative (exactDecimal units) = .finite negative units representable := by
  obtain ⟨m, exact⟩ := representable.1
  rw [ofDecimal_eq_ofRatio]
  apply ofRatio_exact negative representable (Nat.pow_pos (by decide))
  unfold exactDecimal
  simp only [Nat.pow_eq] at exact ⊢
  generalize units.log2 - 52 = shift at exact
  subst exact
  split
  · next large =>
    have whole : one ∣ 2 ^ shift * m := by
      rw [one_eq]
      exact Nat.dvd_mul_right_of_dvd (pow_dvd_pow 2 large) m
    simp only [Int.toNat_zero, Int.neg_zero, Nat.pow_zero, Nat.mul_one]
    exact Nat.div_mul_cancel whole
  · next small =>
    have none : ((shift : Int) - 1074).toNat = 0 := by omega
    have order : (-((shift : Int) - 1074)).toNat = 1074 - shift := by omega
    have split : one = 2 ^ (1074 - shift) * 2 ^ shift := by
      rw [one_eq, ← Nat.pow_add]
      congr 1
      omega
    rw [none, order, split, Nat.mul_div_cancel_left _ (Nat.two_pow_pos shift), Nat.pow_zero,
      Nat.mul_one, show (10 : Nat) = 5 * 2 from rfl, Nat.mul_pow]
    ring

theorem sign_of_ofDecimal {negative sign : Bool} {d : Decimal} {units : Nat}
    {representable : Representable units}
    (read : ofDecimal negative d = .finite sign units representable) : negative = sign := by
  rw [ofDecimal_eq_ofRatio] at read
  unfold ofRatio at read
  dsimp only at read
  split at read <;> cases read
  rfl

theorem readsBack_iff {units : Nat} (representable : Representable units) {d : Decimal} :
    readsBack units d = true ↔ ofDecimal false d = .finite false units representable := by
  unfold readsBack
  constructor
  · intro same
    split at same
    · next sign u _ read =>
      obtain rfl := beq_iff_eq.mp same
      rw [read, sign_of_ofDecimal read]
    · cases same
  · intro read
    rw [read]
    exact beq_self_eq_true units

theorem readsBack_of_neighbour? {tie : Tie} {units dropped : Nat} {exact d : Decimal}
    (found : neighbour? tie units exact dropped = some d) : readsBack units d = true := by
  unfold neighbour? at found
  dsimp only at found
  split at found
  · next below above =>
    cases found
    repeat' split
    all_goals first | exact below | exact above
  · next below _ =>
    cases found
    exact below
  · next _ above =>
    cases found
    exact above
  · cases found

theorem readsBack_shorten (tie : Tie) {units : Nat} {exact : Decimal}
    (reads : readsBack units exact = true) (dropped : Nat) :
    readsBack units (shorten tie units exact dropped) = true := by
  induction dropped with
  | zero => exact reads
  | succ dropped ih =>
    unfold shorten
    split
    · next d found => exact readsBack_of_neighbour? found
    · exact ih

theorem ofDecimal_shortest (tie : Tie) {units : Nat} (representable : Representable units) :
    ofDecimal false (shortest tie units) = .finite false units representable := by
  have exact := (readsBack_iff representable).mpr (ofDecimal_exactDecimal false representable)
  exact (readsBack_iff representable).mp (readsBack_shorten tie exact _)

theorem ofDecimal_of_magnitude {d : Decimal} {units : Nat} {representable : Representable units}
    (read : ofDecimal false d = .finite false units representable) (negative : Bool) :
    ofDecimal negative d = .finite negative units representable := by
  rw [ofDecimal_eq_ofRatio] at read ⊢
  unfold ofRatio at read ⊢
  dsimp only at read ⊢
  split at read
  · next small =>
    rw [dif_pos small]
    cases read
    rfl
  · cases read

theorem digits_shortest (tie : Tie) {units : Nat} (representable : Representable units)
    (nonzero : units ≠ 0) : (shortest tie units).digits ≠ 0 := by
  intro none
  have reads := ofDecimal_shortest tie representable
  rw [ofDecimal, if_pos none] at reads
  injection reads with _ same
  exact nonzero same.symm

end FilterLang.Binary64
