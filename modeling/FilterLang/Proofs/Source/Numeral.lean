import FilterLang.Expr.Source
import FilterLang.Proofs.Binary64.Style

namespace FilterLang

namespace Decimal

inductive Writes : List Char → Decimal → Prop where
  | whole {digits : List Char} :
      Token.IsDigits digits → Writes digits (ofDigits digits 0 0)
  | fraction {digits places : List Char} :
      Token.IsDigits digits → Token.IsDigits places →
      Writes (digits ++ '.' :: places) (ofDigits (digits ++ places) places.length 0)

variable {text : List Char} {d : Decimal}

theorem Writes.ofNumeral?_eq (writes : Writes text d) : ofNumeral? text = some d := by
  unfold ofNumeral?
  cases writes with
  | whole digits =>
    have none := Text.headNot_nil Char.isDigit
    have taken := Text.takeWhile_run digits.inside none
    have left := Text.dropWhile_run digits.inside none
    rw [List.append_nil] at taken left
    simp [taken, left, digits.nonempty]
  | @fraction whole places digits fraction =>
    have point : Text.HeadNot Char.isDigit ('.' :: places) := Text.headNot_cons.mpr (by decide)
    have all : places.all Char.isDigit = true := List.all_eq_true.mpr fraction.inside
    simp [Text.takeWhile_run digits.inside point, Text.dropWhile_run digits.inside point,
      digits.nonempty, fraction.nonempty, all]

theorem Writes.lexeme (writes : Writes text d) {after : List Char}
    (ends : Text.HeadNot Char.isDigit after)
    (noFraction : ∀ rest, after = '.' :: rest → Text.HeadNot Char.isDigit rest) :
    Token.Lexeme .number text after := by
  cases writes with
  | whole digits => exact .whole digits ends noFraction
  | fraction digits places => exact .fraction digits places ends

end Decimal

theorem NumberStyle.Positional.writes {style : NumberStyle} {digits whole places : List Char}
    {order : Int} (positional : style.Positional digits order whole places) :
    Decimal.Writes (style.positionalText digits order)
      (.ofDigits (whole ++ places) places.length 0) := by
  rw [positional.text]
  cases places with
  | nil =>
    rw [pointPart, List.append_nil]
    exact .whole positional.isWhole
  | cons digit places =>
    exact .fraction positional.isWhole ⟨List.cons_ne_nil _ _, positional.isPlaces⟩

theorem sourceNumber_writes {units : Nat} (representable : Representable units) :
    ∃ d, Decimal.Writes (sourceNumber.magnitudeText units) d ∧
      Binary64.ofDecimal false d = .finite false units representable := by
  unfold NumberStyle.magnitudeText
  split
  · next zero =>
    subst zero
    have zeroDigit : Token.IsDigits ['0'] := ⟨by simp, List.all_eq_true.mp rfl⟩
    obtain ⟨whole, places, positional⟩ :=
      NumberStyle.exists_positional zeroDigit sourceNumber 0
    exact ⟨_, positional.writes, (positional.value false).trans rfl⟩
  · next nonzero =>
    have digits := Binary64.digits_shortest sourceNumber.tie representable nonzero
    have everywhere : sourceNumber.isPositional = fun _ => true := rfl
    rw [NumberStyle.decimalText_eq, everywhere, if_pos rfl]
    obtain ⟨whole, places, positional⟩ :=
      NumberStyle.exists_positional (Decimal.isDigits_significant digits) sourceNumber _
    refine ⟨_, positional.writes, ?_⟩
    rw [positional.value, Decimal.ofDecimal_significant digits]
    exact Binary64.ofDecimal_shortest sourceNumber.tie representable

end FilterLang
