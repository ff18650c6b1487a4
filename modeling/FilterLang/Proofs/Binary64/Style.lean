import FilterLang.Binary64.Style
import FilterLang.Proofs.Binary64.Decimal
import FilterLang.Proofs.Token.Lexeme

namespace FilterLang

def pointPart : List Char → List Char
  | [] => []
  | places => '.' :: places

theorem pointPart_of_ne_nil {places : List Char} (nonempty : places ≠ []) :
    pointPart places = '.' :: places := by
  cases places with
  | nil => contradiction
  | cons => rfl

theorem ofDigitChars_zeros (digits : List Char) (k : Nat) :
    Nat.ofDigitChars 10 (digits ++ List.replicate k '0') 0 =
      Nat.ofDigitChars 10 digits 0 * 10 ^ k := by
  rw [Nat.ofDigitChars_append, Nat.ofDigitChars_replicate_zero, Nat.mul_comm]

theorem isDigit_of_mem_zeros {k : Nat} {c : Char} (member : c ∈ List.replicate k '0') :
    c.isDigit = true := by
  rw [List.eq_of_mem_replicate member]
  rfl

theorem split_zeros (digits : List Char) :
    ∃ k, digits = (digits.reverse.dropWhile (· == '0')).reverse ++ List.replicate k '0' := by
  have zeros : digits.reverse.takeWhile (· == '0') =
      List.replicate (digits.reverse.takeWhile (· == '0')).length '0' :=
    List.eq_replicate_of_mem fun c member => by simpa using List.mem_takeWhile_imp member
  refine ⟨(digits.reverse.takeWhile (· == '0')).length, ?_⟩
  calc digits = (digits.reverse.takeWhile (· == '0') ++
          digits.reverse.dropWhile (· == '0')).reverse := by
        rw [List.takeWhile_append_dropWhile, List.reverse_reverse]
    _ = (digits.reverse.dropWhile (· == '0')).reverse ++
          (digits.reverse.takeWhile (· == '0')).reverse := List.reverse_append
    _ = _ := by
        conv_lhs => rw [zeros, List.reverse_replicate]

theorem head?_toDigits {n : Nat} (nonzero : n ≠ 0) : (Nat.toDigits 10 n).head? ≠ some '0' := by
  induction n using Nat.strongRecOn with
  | ind n ih =>
  rw [Nat.toDigits_eq_if (by decide)]
  split
  · next small =>
    have all : ∀ digit : Fin 10, digit.val ≠ 0 → [Nat.digitChar digit].head? ≠ some '0' := by decide
    exact all ⟨n, small⟩ nonzero
  · next large =>
    rw [List.head?_append, Option.or_of_isSome (by simp [Nat.toDigits_ne_nil])]
    exact ih (n / 10) (by omega) (by omega)

namespace Decimal

def significant (d : Decimal) : List Char :=
  ((Nat.toDigits 10 d.digits).reverse.dropWhile (· == '0')).reverse

def order (d : Decimal) : Int := d.exponent + ((Nat.toDigits 10 d.digits).length - 1 : Nat)

variable {d : Decimal}

theorem isDigits_significant (nonzero : d.digits ≠ 0) : Token.IsDigits d.significant := by
  obtain ⟨k, split⟩ := split_zeros (Nat.toDigits 10 d.digits)
  change _ = d.significant ++ _ at split
  constructor
  · intro empty
    have value := Nat.ofDigitChars_ten_toDigits (n := d.digits)
    rw [split, empty, ofDigitChars_zeros, Nat.ofDigitChars_nil, Nat.zero_mul] at value
    exact nonzero value.symm
  · intro c member
    apply Nat.isDigit_of_mem_toDigits (b := 10) (n := d.digits) (by decide) (by decide)
    rw [split]
    exact List.mem_append_left _ member

theorem head?_significant (nonzero : d.digits ≠ 0) : d.significant.head? ≠ some '0' := by
  obtain ⟨k, split⟩ := split_zeros (Nat.toDigits 10 d.digits)
  change _ = d.significant ++ _ at split
  have head := head?_toDigits nonzero
  have some : d.significant.head?.isSome = true := by
    simp [(isDigits_significant nonzero).nonempty]
  rwa [split, List.head?_append, Option.or_of_isSome some] at head

/-- The zeros that are left out only move the point. -/
theorem ofDecimal_significant (nonzero : d.digits ≠ 0) (negative : Bool) :
    Binary64.ofDecimal negative
        ⟨Nat.ofDigitChars 10 d.significant 0, d.order + 1 - d.significant.length⟩ =
      Binary64.ofDecimal negative d := by
  obtain ⟨k, split⟩ := split_zeros (Nat.toDigits 10 d.digits)
  change _ = d.significant ++ _ at split
  have value := Nat.ofDigitChars_ten_toDigits (n := d.digits)
  have length := congrArg List.length split
  have pos := List.length_pos_iff.mpr (isDigits_significant nonzero).nonempty
  rw [split, ofDigitChars_zeros] at value
  rw [List.length_append, List.length_replicate] at length
  calc Binary64.ofDecimal negative ⟨Nat.ofDigitChars 10 d.significant 0, _⟩
      = Binary64.ofDecimal negative ⟨Nat.ofDigitChars 10 d.significant 0, d.exponent + k⟩ := by
        congr 2
        unfold order
        omega
    _ = Binary64.ofDecimal negative d := by rw [← Binary64.ofDecimal_shift, value]

end Decimal

namespace NumberStyle

theorem decimalText_eq (style : NumberStyle) (d : Decimal) :
    style.decimalText d =
      if style.isPositional d.order then style.positionalText d.significant d.order
      else exponentText d.significant d.order := rfl

/-- The digits before the point and those after it, when `digits` are written without an exponent
    and the first stands for `10 ^ order`. -/
structure Positional (style : NumberStyle) (digits : List Char) (order : Int)
    (whole places : List Char) : Prop where
  text : style.positionalText digits order = whole ++ pointPart places
  isWhole : Token.IsDigits whole
  isPlaces : ∀ c ∈ places, c.isDigit = true
  point : places = [] → style.point = false
  tidy : digits.head? ≠ some '0' → whole.head? = some '0' → whole.length = 1
  value : ∀ negative,
    Binary64.ofDecimal negative (.ofDigits (whole ++ places) places.length 0) =
      Binary64.ofDecimal negative ⟨Nat.ofDigitChars 10 digits 0, order + 1 - digits.length⟩

section

variable {style : NumberStyle} {digits : List Char} {order : Int} (isDigits : Token.IsDigits digits)

include isDigits

theorem positional_of_neg (small : order < 0) :
    Positional style digits order ['0'] (List.replicate (-order - 1).toNat '0' ++ digits) where
  text := by
    rw [positionalText, if_pos small, pointPart_of_ne_nil (by simp [isDigits.nonempty])]
    rfl
  isWhole := ⟨by simp, List.all_eq_true.mp rfl⟩
  isPlaces := List.forall_mem_append.mpr ⟨fun _ => isDigit_of_mem_zeros, isDigits.inside⟩
  point := by simp [isDigits.nonempty]
  tidy := fun _ _ => rfl
  value := by
    intro negative
    have value :
        Nat.ofDigitChars 10 (['0'] ++ (List.replicate (-order - 1).toNat '0' ++ digits)) 0 =
          Nat.ofDigitChars 10 digits 0 := by
      rw [Nat.ofDigitChars_append, Nat.ofDigitChars_append, Nat.ofDigitChars_replicate_zero]
      simp [Nat.ofDigitChars_cons]
    rw [Decimal.ofDigits, value, List.length_append, List.length_replicate]
    congr 2
    omega

theorem positional_of_inside (big : ¬ order < 0) (inside : (order + 1).toNat < digits.length) :
    Positional style digits order (digits.take (order + 1).toNat)
      (digits.drop (order + 1).toNat) where
  text := by
    rw [positionalText, if_neg big, if_pos inside, pointPart_of_ne_nil (by simpa using inside)]
  isWhole := ⟨by simp [isDigits.nonempty]; omega,
    fun c member => isDigits.inside c (List.mem_of_mem_take member)⟩
  isPlaces := fun c member => isDigits.inside c (List.mem_of_mem_drop member)
  point := by
    intro empty
    rw [List.drop_eq_nil_iff] at empty
    omega
  tidy := by
    intro head first
    rw [List.head?_take, if_neg (by omega)] at first
    contradiction
  value := by
    intro negative
    rw [List.take_append_drop, Decimal.ofDigits, List.length_drop]
    congr 2
    omega

theorem positional_of_outside (big : ¬ order < 0) (outside : ¬ (order + 1).toNat < digits.length) :
    Positional style digits order
      (digits ++ List.replicate ((order + 1).toNat - digits.length) '0')
      (if style.point then ['0'] else []) where
  text := by
    rw [positionalText, if_neg big, if_neg outside]
    split <;> rfl
  isWhole := ⟨by simp [isDigits.nonempty],
    List.forall_mem_append.mpr ⟨isDigits.inside, fun _ => isDigit_of_mem_zeros⟩⟩
  isPlaces := by
    split
    · exact List.all_eq_true.mp rfl
    · exact nofun
  point := by
    split
    · exact nofun
    · next noPoint => exact fun _ => Bool.not_eq_true _ ▸ noPoint
  tidy := by
    intro head first
    have some : digits.head?.isSome = true := by simp [isDigits.nonempty]
    rw [List.head?_append, Option.or_of_isSome some] at first
    contradiction
  value := by
    intro negative
    split
    · rw [List.append_assoc, ← List.replicate_succ', Decimal.ofDigits, ofDigitChars_zeros,
        Binary64.ofDecimal_shift, List.length_singleton]
      congr 2
      omega
    · rw [List.append_nil, Decimal.ofDigits, ofDigitChars_zeros, Binary64.ofDecimal_shift,
        List.length_nil]
      congr 2
      omega

theorem exists_positional (style : NumberStyle) (order : Int) :
    ∃ whole places, Positional style digits order whole places := by
  by_cases small : order < 0
  · exact ⟨_, _, positional_of_neg isDigits small⟩
  by_cases inside : (order + 1).toNat < digits.length
  · exact ⟨_, _, positional_of_inside isDigits small inside⟩
  · exact ⟨_, _, positional_of_outside isDigits small inside⟩

end

end NumberStyle

end FilterLang
