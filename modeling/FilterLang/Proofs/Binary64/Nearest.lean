import FilterLang.Proofs.Binary64.Decimal
import Mathlib.Algebra.Group.Nat.Even
import Mathlib.Data.Nat.Cast.Order.Field
import Mathlib.Data.Rat.Cast.Order
import Mathlib.Tactic.FieldSimp
import Mathlib.Tactic.Linarith
import Mathlib.Tactic.Positivity

namespace FilterLang

/-- A quotient lies between two whole numbers and is rounded to the nearer one, or to the even one
    if it is in their middle. -/
theorem roundHalfEven_cases (n : Nat) {d : Nat} (pos : 0 < d) :
    ∃ (below : Nat) (part : ℚ), (n : ℚ) / d = below + part ∧ 0 ≤ part ∧ part < 1 ∧
      (roundHalfEven n d = below ∧ part ≤ 1 / 2 ∧ (part = 1 / 2 → Even below) ∨
        roundHalfEven n d = below + 1 ∧ 1 / 2 ≤ part ∧ (part = 1 / 2 → Even (below + 1))) := by
  have posRat : (0 : ℚ) < d := by exact_mod_cast pos
  have whole : (d : ℚ) * (n / d : Nat) + (n % d : Nat) = n := by
    exact_mod_cast Nat.div_add_mod n d
  have less : ((n % d : Nat) : ℚ) < d := by exact_mod_cast Nat.mod_lt n pos
  refine ⟨n / d, (n % d : Nat) / d, ?_, by positivity, (div_lt_one posRat).mpr less, ?_⟩
  · rw [← whole]
    field_simp
  · unfold roundHalfEven
    rcases Nat.lt_trichotomy (2 * (n % d)) d with low | middle | high
    · have low' : 2 * ((n % d : Nat) : ℚ) < d := by exact_mod_cast low
      have part : ((n % d : Nat) : ℚ) / d < 1 / 2 := by
        rw [div_lt_div_iff₀ posRat (by norm_num)]
        linarith
      exact .inl ⟨by simp [low], part.le, fun half => absurd half part.ne⟩
    · have middle' : 2 * ((n % d : Nat) : ℚ) = d := by exact_mod_cast middle
      have part : ((n % d : Nat) : ℚ) / d = 1 / 2 := by
        rw [div_eq_div_iff posRat.ne' (by norm_num)]
        linarith
      rcases Nat.mod_two_eq_zero_or_one (n / d) with even | odd
      · exact .inl ⟨by simp [middle, even], part.le, fun _ => Nat.even_iff.mpr even⟩
      · exact .inr ⟨by simp [middle, odd], part.ge, fun _ => Nat.even_iff.mpr (by omega)⟩
    · have high' : (d : ℚ) < 2 * ((n % d : Nat) : ℚ) := by exact_mod_cast high
      have part : 1 / 2 < ((n % d : Nat) : ℚ) / d := by
        rw [div_lt_div_iff₀ (by norm_num) posRat]
        linarith
      exact .inr ⟨by simp [high, Nat.not_lt_of_lt high], part.le,
        fun half => absurd half part.ne'⟩

/-- How far a whole number is from a point between two neighbours. -/
theorem abs_sub_between (m below : Nat) {part : ℚ} (low : 0 ≤ part) (high : part < 1) :
    (m : ℚ) ≤ below ∧ |(m : ℚ) - (below + part)| = part + (below - m) ∨
      (below : ℚ) + 1 ≤ m ∧ |(m : ℚ) - (below + part)| = 1 - part + (m - (below + 1)) := by
  rcases Nat.lt_or_ge below m with above | under
  · have above' : (below : ℚ) + 1 ≤ m := by exact_mod_cast above
    refine .inr ⟨above', ?_⟩
    rw [abs_of_nonneg (by linarith)]
    ring
  · have under' : (m : ℚ) ≤ below := by exact_mod_cast under
    refine .inl ⟨under', ?_⟩
    rw [abs_of_nonpos (by linarith)]
    ring

/-- No whole number is nearer to a quotient than the rounded one, and where another one is as near
    the rounded one is even. -/
theorem roundHalfEven_nearest (n : Nat) {d : Nat} (pos : 0 < d) (m : Nat) :
    |(roundHalfEven n d : ℚ) - n / d| ≤ |(m : ℚ) - n / d| ∧
      (|(m : ℚ) - n / d| = |(roundHalfEven n d : ℚ) - n / d| →
        m = roundHalfEven n d ∨ Even (roundHalfEven n d)) := by
  obtain ⟨below, part, split, low, high, rounded⟩ := roundHalfEven_cases n pos
  have other := abs_sub_between m below low high
  rw [split]
  rcases rounded with ⟨rounded, side, even⟩ | ⟨rounded, side, even⟩
  · have distance : |(below : ℚ) - (below + part)| = part := by
      rw [sub_add_cancel_left, abs_neg, abs_of_nonneg low]
    rw [rounded, distance]
    rcases other with ⟨under, far⟩ | ⟨above, far⟩
    · refine ⟨by linarith, fun tie => .inl ?_⟩
      have same : (m : ℚ) = below := by linarith
      exact_mod_cast same
    · exact ⟨by linarith, fun tie => .inr (even (by linarith))⟩
  · have distance : |((below + 1 : Nat) : ℚ) - (below + part)| = 1 - part := by
      rw [Nat.cast_add, Nat.cast_one, add_sub_add_left_eq_sub, abs_of_nonneg (by linarith)]
    rw [rounded, distance]
    rcases other with ⟨under, far⟩ | ⟨above, far⟩
    · exact ⟨by linarith, fun tie => .inr (even (by linarith))⟩
    · refine ⟨by linarith, fun tie => .inl ?_⟩
      have same : (m : ℚ) = below + 1 := by linarith
      exact_mod_cast same

namespace Binary64

def significand (units : Nat) : Nat := units / 2 ^ (units.log2 - 52)

/-- Magnitudes of at most 53 significant bits, however large. -/
def Fits (units : Nat) : Prop := 2 ^ (units.log2 - 52) ∣ units

theorem fits_roundUnits (n d : Nat) : Fits (roundUnits n d) := dvd_roundUnits n d

theorem quantum_pos (n d : Nat) : 0 < quantum n d := Nat.two_pow_pos _

/-- Magnitudes are multiples of the distance between neighbours at a quotient, unless they are below
    a power of two that the quotient reaches. -/
theorem Fits.quantum_dvd_or_lt {units : Nat} (fits : Fits units) (n d : Nat) :
    quantum n d ∣ units ∨ units < 2 ^ 52 * quantum n d ∧ 2 ^ 52 * quantum n d ≤ n / d := by
  rw [quantum_eq]
  rcases Nat.lt_or_ge (units.log2 - 52) ((n / d).log2 - 52) with fine | coarse
  · have nonzero : n / d ≠ 0 := by
      rintro none
      rw [none, Nat.log2_zero] at fine
      omega
    rw [← quantum_eq, ← two_pow_log2 (by omega)]
    refine .inr ⟨?_, Nat.log2_self_le nonzero⟩
    calc units < 2 ^ (units.log2 + 1) := Nat.lt_log2_self
      _ ≤ 2 ^ (n / d).log2 := Nat.pow_le_pow_right (by decide) (by omega)
  · exact .inl ((Nat.pow_dvd_pow 2 coarse).trans fits)

theorem even_significand {steps e : Nat} (even : Even steps) (most : steps ≤ 2 ^ 53)
    (least : e = 0 ∨ 2 ^ 52 ≤ steps) : Even (significand (steps * 2 ^ e)) := by
  unfold significand
  rcases Nat.lt_or_eq_of_le most with small | rfl
  · have order : (steps * 2 ^ e).log2 - 52 = e := by
      rcases least with rfl | large
      · by_cases none : steps = 0
        · simp [none]
        · have := (Nat.log2_lt none).mpr small
          simp only [Nat.pow_zero, Nat.mul_one]
          omega
      · have exact : (steps * 2 ^ e).log2 = 52 + e := by
          rw [Nat.log2_eq_iff (by positivity), Nat.pow_add]
          refine ⟨Nat.mul_le_mul_right _ large, ?_⟩
          rw [show 52 + e + 1 = 53 + e by omega, Nat.pow_add]
          exact Nat.mul_lt_mul_of_pos_right small (Nat.two_pow_pos e)
        omega
    rwa [order, Nat.mul_div_cancel _ (Nat.two_pow_pos e)]
  · -- Here rounding has carried into a 54th bit.
    have carried : 2 ^ 53 * 2 ^ e = 2 ^ 52 * 2 ^ (e + 1) := by
      ring
    have order : (2 ^ 53 * 2 ^ e).log2 - 52 = e + 1 := by
      rw [← Nat.pow_add, Nat.log2_two_pow]
      omega
    rw [order, carried, Nat.mul_div_cancel _ (Nat.two_pow_pos _)]
    decide

variable {n d : Nat}

/-- Distances from a quotient in steps of its own size. -/
theorem abs_sub_quantum (n : Nat) (pos : 0 < d) (m : Nat) :
    |((m * quantum n d : Nat) : ℚ) - n / d| =
      |(m : ℚ) - n / ((d * quantum n d : Nat) : ℚ)| * quantum n d := by
  have posQuantum : (0 : ℚ) < quantum n d := by exact_mod_cast quantum_pos n d
  have posRat : (0 : ℚ) < d := by exact_mod_cast pos
  have scaled : ((m * quantum n d : Nat) : ℚ) - n / d =
      (m - n / ((d * quantum n d : Nat) : ℚ)) * quantum n d := by
    rw [Nat.cast_mul, Nat.cast_mul]
    field_simp
  rw [scaled, abs_mul, abs_of_pos posQuantum]

/-- No magnitude of 53 bits is nearer to a quotient than the rounded one, and where another one is
    as near the rounded one has an even significand. -/
theorem roundUnits_nearest (pos : 0 < d) {units : Nat} (fits : Fits units) :
    |(roundUnits n d : ℚ) - n / d| ≤ |(units : ℚ) - n / d| ∧
      (|(units : ℚ) - n / d| = |(roundUnits n d : ℚ) - n / d| →
        units = roundUnits n d ∨ Even (significand (roundUnits n d))) := by
  have posQuantum : (0 : ℚ) < quantum n d := by exact_mod_cast quantum_pos n d
  have steps := roundHalfEven_nearest n (Nat.mul_pos pos (quantum_pos n d))
  have multiple : ∀ m : Nat, |(roundUnits n d : ℚ) - n / d| ≤
      |((m * quantum n d : Nat) : ℚ) - n / d| := by
    intro m
    rw [roundUnits, abs_sub_quantum n pos, abs_sub_quantum n pos]
    exact mul_le_mul_of_nonneg_right (steps m).1 posQuantum.le
  rcases fits.quantum_dvd_or_lt n d with ⟨m, rfl⟩ | ⟨small, reached⟩
  · rw [Nat.mul_comm]
    refine ⟨multiple m, fun tie => ?_⟩
    rw [roundUnits, abs_sub_quantum n pos, abs_sub_quantum n pos,
      mul_left_inj' posQuantum.ne'] at tie
    rcases (steps m).2 tie with same | even
    · left
      rw [roundUnits, same]
    · refine .inr (even_significand even ?_ ?_)
      · exact (roundHalfEven_le _ _).trans (div_quantum_lt n d)
      · by_cases bits : 52 < (n / d).log2
        · have nonzero : n / d ≠ 0 := by
            intro none
            simp [none] at bits
          exact .inr ((le_div_quantum nonzero bits.le).trans (le_roundHalfEven _ _))
        · exact .inl (by omega)
  · have nearer := multiple (2 ^ 52)
    generalize 2 ^ 52 * quantum n d = power at small reached nearer
    have small' : (units : ℚ) < power := Nat.cast_lt.mpr small
    have reached' : (power : ℚ) ≤ n / d := (Nat.cast_le.mpr reached).trans Nat.cast_div_le
    have further : |(power : ℚ) - n / d| < |(units : ℚ) - n / d| := by
      rw [abs_of_nonpos (by linarith), abs_of_nonpos (by linarith)]
      linarith
    exact ⟨by linarith, fun tie => by linarith⟩

/-- Half the distance between the largest magnitudes and the first that is too large. -/
def halfStep : Nat := Nat.pow 2 2044

def largest : Nat := limit - 2 * halfStep

theorem fits_limit : Fits limit := by
  unfold Fits
  decide +kernel

theorem fits_largest : Fits largest := by
  unfold Fits
  decide +kernel

theorem odd_significand_largest : ¬ Even (significand largest) := by
  rw [Nat.not_even_iff]
  decide +kernel

/-- Below a power of two, magnitudes keep the distance that neighbours have there. -/
theorem Fits.add_step_le {units k : Nat} (fits : Fits units) (small : units < 2 ^ (k + 1)) :
    units + 2 ^ (k - 52) ≤ 2 ^ (k + 1) := by
  rcases Nat.lt_or_ge units.log2 k with less | top
  · have half : units < 2 ^ k :=
      Nat.lt_of_lt_of_le Nat.lt_log2_self (Nat.pow_le_pow_right (by decide) less)
    have step : 2 ^ (k - 52) ≤ 2 ^ k := Nat.pow_le_pow_right (by decide) (Nat.sub_le k 52)
    rw [Nat.pow_succ]
    omega
  · have whole : 2 ^ (k - 52) ∣ 2 ^ (k + 1) := Nat.pow_dvd_pow 2 (by omega)
    have steps : 2 ^ (k - 52) ∣ units :=
      Nat.dvd_trans (Nat.pow_dvd_pow 2 (Nat.sub_le_sub_right top 52)) fits
    have gap := Nat.le_of_dvd (Nat.sub_pos_of_lt small) (Nat.dvd_sub whole steps)
    omega

theorem Fits.le_largest {units : Nat} (fits : Fits units) (small : units < limit) :
    units ≤ largest := by
  have power : limit = 2 ^ (2097 + 1) := limit_eq
  have spacing : 2 ^ (2097 - 52) = 2 * halfStep := by decide +kernel
  have gap := fits.add_step_le (power ▸ small)
  rw [spacing, ← power] at gap
  exact Nat.le_sub_of_add_le gap

theorem roundUnits_lt_limit_iff (pos : 0 < d) :
    roundUnits n d < limit ↔ (n : ℚ) / d < limit - halfStep := by
  have posHalf : (0 : ℚ) < halfStep := by
    exact_mod_cast (show 0 < halfStep from Nat.two_pow_pos _)
  have top : (largest : ℚ) = limit - 2 * halfStep := by
    have order : 2 * halfStep ≤ limit := by decide +kernel
    rw [largest, Nat.cast_sub order, Nat.cast_mul]
    rfl
  constructor
  · intro small
    have most : (roundUnits n d : ℚ) ≤ largest := by
      exact_mod_cast (fits_roundUnits n d).le_largest small
    obtain ⟨nearest, even⟩ := roundUnits_nearest (n := n) pos fits_limit
    have small' : (roundUnits n d : ℚ) < limit := by exact_mod_cast small
    by_contra large
    -- The quotient is in the middle at least, so it is the middle and the largest magnitude even.
    have off : (roundUnits n d : ℚ) - n / d < 0 := by linarith
    rw [abs_of_neg off] at nearest even
    rcases abs_cases ((limit : ℚ) - n / d) with ⟨same, -⟩ | ⟨same, -⟩
    · rw [same] at nearest even
      have exact : (roundUnits n d : ℚ) = largest := by linarith
      rcases even (by linarith) with equal | even
      · exact absurd equal.symm small.ne
      · rw [show roundUnits n d = largest by exact_mod_cast exact] at even
        exact odd_significand_largest even
    · linarith
  · intro small
    by_contra large
    have nearest := (roundUnits_nearest (n := n) pos fits_largest).1
    have large' : (limit : ℚ) ≤ roundUnits n d := by exact_mod_cast Nat.le_of_not_lt large
    rw [abs_of_nonneg (by linarith)] at nearest
    rcases abs_cases ((largest : ℚ) - n / d) with ⟨same, -⟩ | ⟨same, -⟩
    all_goals linarith

def distance (x : ℚ) (units : Nat) : ℚ := |units - x * 2 ^ 1074|

/-- No magnitude is nearer to a number, and where another one is as near this one is even. -/
structure Nearest (x : ℚ) (units : Nat) : Prop where
  representable : Representable units
  nearest : ∀ other, Representable other → distance x units ≤ distance x other
  even : ∀ other, Representable other → distance x other = distance x units →
    other = units ∨ Even (significand units)

theorem two_pow_dvd_of_even {units : Nat} (fits : Fits units) (even : Even (significand units)) :
    2 ^ (units.log2 - 52 + 1) ∣ units := by
  obtain ⟨half, same⟩ := even.two_dvd
  have whole : significand units * 2 ^ (units.log2 - 52) = units := Nat.div_mul_cancel fits
  refine ⟨half, ?_⟩
  calc units = 2 * half * 2 ^ (units.log2 - 52) := by rw [← same, whole]
    _ = 2 ^ (units.log2 - 52 + 1) * half := by ring

/-- In the middle between two even magnitudes, or nearer to the lower one, there is another one. -/
theorem exists_between {u v : Nat} (ru : Representable u) (rv : Representable v) (less : u < v)
    (evenU : Even (significand u)) (evenV : Even (significand v)) :
    ∃ w, Representable w ∧ u < w ∧ 2 * w ≤ u + v := by
  have order : u.log2 ≤ v.log2 := by
    by_cases none : u = 0
    · simp [none]
    · rw [Nat.le_log2 (Nat.ne_zero_of_lt less)]
      exact (Nat.log2_self_le none).trans less.le
  have lower := two_pow_dvd_of_even ru.1 evenU
  have upper : 2 ^ (u.log2 - 52 + 1) ∣ v :=
    (Nat.pow_dvd_pow 2 (by omega)).trans (two_pow_dvd_of_even rv.1 evenV)
  obtain ⟨m, sum⟩ := Nat.dvd_add lower upper
  have middle : u + v = 2 * (2 ^ (u.log2 - 52) * m) := by
    rw [sum]
    ring
  have reached : u < 2 ^ (u.log2 - 52 + 53) :=
    Nat.lt_of_lt_of_le Nat.lt_log2_self (Nat.pow_le_pow_right (by decide) (by omega))
  have below := rv.2
  generalize u.log2 - 52 = e at middle reached
  rcases Nat.lt_or_ge (2 ^ e * m) (2 ^ (e + 53)) with narrow | wide
  · refine ⟨2 ^ e * m, ⟨?_, by omega⟩, by omega, middle.ge⟩
    have bits : (2 ^ e * m).log2 < e + 53 := (Nat.log2_lt (by omega)).mpr narrow
    exact (Nat.pow_dvd_pow 2 (by omega)).trans (Nat.dvd_mul_right ..)
  · refine ⟨2 ^ (e + 53), ⟨?_, by omega⟩, reached, by omega⟩
    rw [Nat.log2_two_pow]
    exact Nat.pow_dvd_pow 2 (by omega)

theorem Nearest.unique {x : ℚ} {u v : Nat} (first : Nearest x u) (second : Nearest x v) :
    u = v := by
  wlog less : u < v generalizing u v with swapped
  · rcases Nat.lt_or_eq_of_le (Nat.le_of_not_lt less) with more | same
    · exact (swapped second first more).symm
    · exact same.symm
  have tie := le_antisymm (first.nearest v second.representable)
    (second.nearest u first.representable)
  have evenU := (first.even v second.representable tie.symm).resolve_left less.ne'
  have evenV := (second.even u first.representable tie).resolve_left less.ne
  obtain ⟨w, representable, above, below⟩ :=
    exists_between first.representable second.representable less evenU evenV
  have nearest := first.nearest w representable
  have less' : (u : ℚ) < v := Nat.cast_lt.mpr less
  have above' : (u : ℚ) < w := Nat.cast_lt.mpr above
  have below' : 2 * (w : ℚ) ≤ u + v := by exact_mod_cast below
  unfold distance at tie nearest
  generalize x * 2 ^ 1074 = y at tie nearest
  have middle : y = (u + v) / 2 := by
    rcases abs_eq_abs.mp tie with same | opposite
    · linarith
    · linarith
  rw [abs_of_nonpos (by linarith), abs_of_nonpos (by linarith)] at nearest
  linarith

theorem overflow_eq : (limit : ℚ) - halfStep = (2 ^ 1024 - 2 ^ 970) * 2 ^ 1074 := by
  have half : halfStep = 2 ^ 2044 := Nat.pow_eq
  rw [limit_eq, half, sub_mul, ← pow_add, ← pow_add, Nat.cast_pow, Nat.cast_pow, Nat.cast_ofNat]

/-- A quotient in units. -/
theorem units_eq (n d : Nat) : ((n * one : Nat) : ℚ) / d = n / d * 2 ^ 1074 := by
  rw [one_eq, Nat.cast_mul, Nat.cast_pow, Nat.cast_ofNat, mul_div_right_comm]

/-- Where there is a magnitude nearest to a quotient, the quotient is rounded to it. -/
theorem ofRatio_nearest (negative : Bool) (pos : 0 < d)
    (small : (n : ℚ) / d < 2 ^ 1024 - 2 ^ 970) :
    ∃ units representable, ofRatio negative n d = .finite negative units representable ∧
      Nearest (n / d) units := by
  have finite : roundUnits (n * one) d < limit := by
    rw [roundUnits_lt_limit_iff pos, units_eq, overflow_eq]
    exact mul_lt_mul_of_pos_right small (by positivity)
  have representable : Representable (roundUnits (n * one) d) := ⟨dvd_roundUnits _ _, finite⟩
  refine ⟨_, representable, ?_, representable, fun other fits => ?_, fun other fits tie => ?_⟩
  · unfold ofRatio
    dsimp only
    rw [dif_pos finite]
  · unfold distance
    rw [← units_eq]
    exact (roundUnits_nearest pos fits.1).1
  · unfold distance at tie
    rw [← units_eq] at tie
    exact (roundUnits_nearest pos fits.1).2 tie

theorem ofRatio_infinity (negative : Bool) (pos : 0 < d)
    (large : 2 ^ 1024 - 2 ^ 970 ≤ (n : ℚ) / d) : ofRatio negative n d = .infinity negative := by
  have infinite : ¬ roundUnits (n * one) d < limit := by
    rw [roundUnits_lt_limit_iff pos, units_eq, overflow_eq, not_lt]
    exact mul_le_mul_of_nonneg_right large (by positivity)
  unfold ofRatio
  dsimp only
  rw [dif_neg infinite]

/-- Zero is nearest to what is at most half of the least positive magnitude. -/
theorem nearest_zero {x : ℚ} (nonneg : 0 ≤ x) (small : x ≤ 1 / 2 ^ 1075) : Nearest x 0 := by
  have half : x * 2 ^ 1074 ≤ 1 / 2 := by
    calc x * 2 ^ 1074 ≤ 1 / 2 ^ 1075 * 2 ^ 1074 := mul_le_mul_of_nonneg_right small (by positivity)
      _ = 1 / 2 := by
        rw [pow_succ (2 : ℚ) 1074]
        field_simp
  have nonneg' : 0 ≤ x * 2 ^ 1074 := mul_nonneg nonneg (by positivity)
  refine ⟨⟨Nat.dvd_zero _, limit_pos⟩, fun other _ => ?_, fun other _ tie => .inr ?_⟩
  · unfold distance
    generalize x * 2 ^ 1074 = y at half nonneg'
    rw [Nat.cast_zero, zero_sub, abs_neg, abs_of_nonneg nonneg']
    rcases Nat.eq_zero_or_pos other with rfl | pos
    · rw [Nat.cast_zero, zero_sub, abs_neg, abs_of_nonneg nonneg']
    · have pos' : (1 : ℚ) ≤ other := by exact_mod_cast pos
      rw [abs_of_nonneg (by linarith)]
      linarith
  · decide

theorem lt_overflow {x : ℚ} (small : x ≤ 1) : x < 2 ^ 1024 - 2 ^ 970 := by
  have large : (1 : ℚ) ≤ 2 ^ 970 := one_le_pow₀ (by norm_num)
  have split : (2 : ℚ) ^ 1024 = 2 ^ 970 * 2 ^ 54 := by rw [← pow_add]
  rw [split]
  generalize (2 : ℚ) ^ 970 = step at large
  linarith

end Binary64

def Decimal.value (d : Decimal) : ℚ := d.digits * 10 ^ d.exponent

theorem Decimal.value_nonneg (d : Decimal) : 0 ≤ d.value :=
  mul_nonneg (Nat.cast_nonneg _) (zpow_nonneg (by norm_num) _)

theorem Decimal.value_eq (d : Decimal) :
    d.value =
      ((d.digits * 10 ^ d.exponent.toNat : Nat) : ℚ) / (10 ^ (-d.exponent).toNat : Nat) := by
  obtain ⟨digits, exponent⟩ := d
  unfold value
  obtain ⟨k, rfl | rfl⟩ := Int.eq_nat_or_neg exponent
  · simp
  · simp [div_eq_mul_inv]

namespace Binary64

theorem ofDecimal_nearest (negative : Bool) {d : Decimal} (small : d.value < 2 ^ 1024 - 2 ^ 970) :
    ∃ units representable, ofDecimal negative d = .finite negative units representable ∧
      Nearest d.value units := by
  rw [d.value_eq] at small ⊢
  rw [ofDecimal_eq_ofRatio]
  exact ofRatio_nearest negative (Nat.pow_pos (by decide)) small

theorem ofDecimal_infinity (negative : Bool) {d : Decimal} (large : 2 ^ 1024 - 2 ^ 970 ≤ d.value) :
    ofDecimal negative d = .infinity negative := by
  rw [d.value_eq] at large
  rw [ofDecimal_eq_ofRatio]
  exact ofRatio_infinity negative (Nat.pow_pos (by decide)) large

end Binary64

end FilterLang
