import FilterLang.Json.Writer
import FilterLang.Proofs.Json.NumberText

namespace FilterLang

namespace Numeral

def exponentPart : Option Int → List Char
  | none => []
  | some e => 'e' :: (if e < 0 then '-' else '+') :: Nat.toDigits 10 e.natAbs

inductive Spells : List Char → Numeral → Prop where
  | parts {whole places : List Char} (negative : Bool) (exponent : Option Int) :
      Token.IsDigits whole → (∀ c ∈ places, c.isDigit = true) →
      Spells (signPart negative ++ (whole ++ (pointPart places ++ exponentPart exponent)))
        ⟨negative, whole, places, exponent.getD 0,
          !negative && places.isEmpty && exponent.isNone⟩

theorem exponentText_exponentPart (exponent : Option Int) :
    ExponentText (exponentPart exponent) exponent := by
  cases exponent with
  | none => exact .absent
  | some e =>
    have isDigits : Token.IsDigits (Nat.toDigits 10 e.natAbs) :=
      ⟨Nat.toDigits_ne_nil, fun c => Nat.isDigit_of_mem_toDigits (by decide) (by decide)⟩
    by_cases negative : e < 0
    · have size : -(e.natAbs : Int) = e := by omega
      have present := @ExponentText.present 'e' ['-'] _ true (by simp) (by simp) isDigits
      rw [if_pos rfl, Nat.ofDigitChars_ten_toDigits, size] at present
      simpa [exponentPart, negative] using present
    · have size : (e.natAbs : Int) = e := by omega
      have present := @ExponentText.present 'e' ['+'] _ false (by simp) (by simp) isDigits
      rw [if_neg Bool.false_ne_true, Nat.ofDigitChars_ten_toDigits, size] at present
      simpa [exponentPart, negative] using present

theorem Spells.scan?_eq {text after : List Char} {numeral : Numeral} (spells : Spells text numeral)
    (ends : Text.HeadNot goesOn after) : scan? (text ++ after) = some (numeral, after) := by
  obtain @⟨whole, places, negative, exponent, isWhole, isPlaces⟩ := spells
  exact (exponentText_exponentPart exponent).scan?_eq negative isWhole isPlaces ends

end Numeral

namespace Json

structure Renders (numeral : Numeral) (x : Binary64) : Prop where
  spells : Numeral.Spells (numberStyle.render x).toList numeral
  real : numeral.plain = false
  tidy : numeral.whole.head? = some '0' → numeral.whole.length = 1
  value : Binary64.ofDecimal numeral.negative numeral.magnitude = x

theorem render_finite (negative : Bool) {units : Nat} (representable : Representable units) :
    (numberStyle.render (.finite negative units representable)).toList =
      Numeral.signPart negative ++ numberStyle.magnitudeText units := by
  cases negative <;> simp [NumberStyle.render, Numeral.signPart]

theorem exponentText_eq (first : Char) (rest : List Char) (order : Int) :
    NumberStyle.exponentText (first :: rest) order =
      [first] ++ (pointPart rest ++ Numeral.exponentPart (some order)) := by
  cases rest <;> rfl

theorem renders_positional {digits whole places : List Char} {order : Int} {units : Nat}
    {representable : Representable units}
    (positional : numberStyle.Positional digits order whole places)
    (text : numberStyle.magnitudeText units = numberStyle.positionalText digits order)
    (tidy : whole.head? = some '0' → whole.length = 1) (negative : Bool)
    (value : Binary64.ofDecimal negative
        ⟨Nat.ofDigitChars 10 digits 0, order + 1 - digits.length⟩ =
      .finite negative units representable) :
    Renders ⟨negative, whole, places, 0, false⟩ (.finite negative units representable) where
  spells := by
    have spells := Numeral.Spells.parts negative none positional.isWhole positional.isPlaces
    have nonempty : places ≠ [] := fun empty => by cases positional.point empty
    have real : places.isEmpty = false := by simpa using nonempty
    rw [real, Bool.and_false, Bool.false_and, Numeral.exponentPart, List.append_nil] at spells
    rwa [render_finite, text, positional.text]
  real := rfl
  tidy := tidy
  value := (positional.value negative).trans value

theorem renders_exponential {first : Char} {rest : List Char} {order : Int} {units : Nat}
    {representable : Representable units} (isDigits : Token.IsDigits (first :: rest))
    (text : numberStyle.magnitudeText units = NumberStyle.exponentText (first :: rest) order)
    (negative : Bool)
    (value : Binary64.ofDecimal negative
        ⟨Nat.ofDigitChars 10 (first :: rest) 0, order + 1 - (first :: rest).length⟩ =
      .finite negative units representable) :
    Renders ⟨negative, [first], rest, order, false⟩ (.finite negative units representable) where
  spells := by
    have isWhole : Token.IsDigits [first] :=
      ⟨by simp, fun c member => isDigits.inside c (by simp_all)⟩
    have isPlaces : ∀ c ∈ rest, c.isDigit = true :=
      fun c member => isDigits.inside c (List.mem_cons_of_mem _ member)
    have spells := Numeral.Spells.parts negative (some order) isWhole isPlaces
    rw [Option.isNone_some, Bool.and_false, Option.getD_some] at spells
    rwa [render_finite, text, exponentText_eq]
  real := rfl
  tidy := fun _ => rfl
  value := by
    rw [← value]
    change Binary64.ofDecimal negative ⟨_, _⟩ = _
    congr 2
    simp only [List.length_cons]
    omega

theorem renders_zero (negative : Bool) (representable : Representable 0) :
    Renders ⟨negative, ['0'], ['0'], 0, false⟩ (.finite negative 0 representable) := by
  have isDigits : Token.IsDigits ['0'] := ⟨by simp, List.all_eq_true.mp rfl⟩
  have positional : numberStyle.Positional ['0'] 0 ['0'] ['0'] :=
    NumberStyle.positional_of_outside isDigits (by decide) (by decide)
  exact renders_positional positional rfl (fun _ => rfl) negative rfl

theorem exists_renders_of_ne_zero (negative : Bool) {units : Nat}
    (representable : Representable units) (nonzero : units ≠ 0) :
    ∃ numeral, Renders numeral (.finite negative units representable) := by
  have digits := Binary64.digits_shortest numberStyle.tie representable nonzero
  have isDigits := Decimal.isDigits_significant digits
  have reads := Binary64.ofDecimal_shortest numberStyle.tie representable
  have value := (Decimal.ofDecimal_significant digits negative).trans
    (Binary64.ofDecimal_of_magnitude reads negative)
  have tidy := Decimal.head?_significant digits
  have text : numberStyle.magnitudeText units =
      numberStyle.decimalText (Binary64.shortest numberStyle.tie units) := if_neg nonzero
  rw [NumberStyle.decimalText_eq] at text
  generalize (Binary64.shortest numberStyle.tie units).order = order at text value
  generalize (Binary64.shortest numberStyle.tie units).significant = significant at *
  split at text
  · obtain ⟨whole, places, positional⟩ := NumberStyle.exists_positional isDigits numberStyle order
    exact ⟨_, renders_positional positional text (positional.tidy tidy) negative value⟩
  · cases significant with
    | nil => exact absurd rfl isDigits.nonempty
    | cons first rest => exact ⟨_, renders_exponential isDigits text negative value⟩

theorem exists_renders {x : Binary64} (finite : x.isFinite = true) :
    ∃ numeral, Renders numeral x := by
  cases x with
  | nan | infinity => cases finite
  | finite negative units representable =>
    by_cases zero : units = 0
    · subst zero
      exact ⟨_, renders_zero negative representable⟩
    · exact exists_renders_of_ne_zero negative representable zero

end Json

end FilterLang
