import FilterLang.Proofs.Binary64.Nearest
import FilterLang.Proofs.Grammar.Acceptance
import FilterLang.Proofs.Source.Spelled

namespace FilterLang

theorem Decimal.value_ofDigits (whole places : List Char) :
    (ofDigits (whole ++ places) places.length 0).value =
      Nat.ofDigitChars 10 whole 0 + Nat.ofDigitChars 10 places 0 / 10 ^ places.length := by
  have digits : Nat.ofDigitChars 10 (whole ++ places) 0 =
      10 ^ places.length * Nat.ofDigitChars 10 whole 0 + Nat.ofDigitChars 10 places 0 := by
    rw [Nat.ofDigitChars_append, Nat.ofDigitChars_eq_ofDigitChars_zero]
  simp only [value, ofDigits, digits, zero_sub, zpow_neg, zpow_natCast]
  push_cast
  field_simp

namespace Parser

variable {fault : Option LexError} {tokens : List Token} {failure : Failure}

/-- Where there is no operand to start with, there is no expression. -/
theorem outcome_expression_of_primary_error (spare : Nat)
    (failed : outcome (primary fault (inner fault spare) tokens) = .error failure) :
    outcome (expression fault spare tokens) = .error failure := by
  have all (level : Level) :
      outcome (atLevel fault (inner fault spare) level tokens) = .error failure := by
    induction level using Level.descend with
    | member =>
      rw [atLevel, outcome_member, failed]
      rfl
    | looser level notMember tighter =>
      cases folds : level.folds with
      | true =>
        rw [outcome_atLevel_of_folds _ _ folds, tighter]
        rfl
      | false =>
        rw [outcome_atLevel_of_not_folds _ _ folds notMember, tighter]
        rfl
  rw [expression_eq_atLevel]
  exact all .or

end Parser

section

variable {text : String} {kind : Token.Kind}

theorem Scan.ofText_lexeme (lexeme : Token.Lexeme kind text.toList []) :
    ofText text = ⟨[⟨kind, text, 0⟩], none⟩ := by
  have done : Lexer.scan ⟨[], 0 + text.toList.length⟩ = ⟨[], none⟩ := Lexer.scan_of_end rfl
  have scanned := Lexer.scan_of_lexeme 0 lexeme
  rwa [List.append_nil, done, String.ofList_toList] at scanned

/-- A text that is one constant is parsed as that constant. -/
theorem parse_of_constant {value : Literal} (lexeme : Token.Lexeme kind text.toList [])
    (found : Token.literal? ⟨kind, text, 0⟩ = some value) :
    parse text = .ok (.literal value false) := by
  rw [parse_eq_ok_iff, Scan.ofText_lexeme lexeme]
  exact ⟨rfl, (Derives.root (.constant found)).loosen (Nat.zero_le _)⟩

theorem parse_of_invalidNumber (lexeme : Token.Lexeme .number text.toList [])
    (missing : Token.literal? ⟨.number, text, 0⟩ = none) :
    parse text = .error (.invalidNumber ⟨.number, text, 0⟩) := by
  let token : Token := ⟨.number, text, 0⟩
  have failed : outcome (Parser.expression none maxNesting [token]) =
      .error ⟨.invalidNumber token, []⟩ := by
    apply Parser.outcome_expression_of_primary_error
    rw [Parser.outcome_primary_literal _ _ _ rfl, Parser.outcome_literal, missing]
    rfl
  have ready : Ready (Scan.mk [token] none).error (Scan.mk [token] none).tokens := .inl rfl
  rw [parse, Scan.ofText_lexeme lexeme, Scan.parse_eq_map _ ready, failed]
  rfl

end

/-- Digits, with a fraction or without, are parsed as the number nearest to their exact value, of
    two as near the even one, and are refused where rounding would leave the finite numbers. -/
theorem parse_number {text : String} {whole places : List Char} (digits : Token.IsDigits whole)
    (spelled : text.toList = whole ∧ places = [] ∨
      text.toList = whole ++ '.' :: places ∧ Token.IsDigits places) :
    let value : ℚ :=
      Nat.ofDigitChars 10 whole 0 + Nat.ofDigitChars 10 places 0 / 10 ^ places.length
    (2 ^ 1024 - 2 ^ 970 ≤ value →
      parse text = .error (.invalidNumber ⟨.number, text, 0⟩)) ∧
    (value < 2 ^ 1024 - 2 ^ 970 → ∃ units representable,
      parse text = .ok (.literal (.number (.finite false units representable)) false) ∧
        ∀ other, Binary64.Nearest value other ↔ other = units) ∧
    (value ≤ 1 / 2 ^ 1075 → parse text = .ok (.literal (.number (.zero false)) false)) := by
  intro value
  have writes : ∃ d, Decimal.Writes text.toList d ∧ d.value = value := by
    refine ⟨_, ?_, Decimal.value_ofDigits whole places⟩
    rcases spelled with ⟨same, rfl⟩ | ⟨same, isPlaces⟩
    · rw [same, List.append_nil]
      exact .whole digits
    · rw [same]
      exact .fraction digits isPlaces
  obtain ⟨d, writes, exact⟩ := writes
  have lexeme : Token.Lexeme .number text.toList [] :=
    writes.lexeme (Text.headNot_nil _) (fun rest same => by cases same)
  have nearest : d.value < 2 ^ 1024 - 2 ^ 970 → ∃ units representable,
      parse text = .ok (.literal (.number (.finite false units representable)) false) ∧
        Binary64.Nearest d.value units := by
    intro small
    obtain ⟨units, representable, read, nearest⟩ := Binary64.ofDecimal_nearest false small
    refine ⟨units, representable, parse_of_constant lexeme ?_, nearest⟩
    simp [Token.literal?, writes.ofNumeral?_eq, read, Binary64.isFinite]
  rw [← exact]
  refine ⟨fun large => ?_, fun small => ?_, fun tiny => ?_⟩
  · apply parse_of_invalidNumber lexeme
    simp [Token.literal?, writes.ofNumeral?_eq, Binary64.ofDecimal_infinity false large,
      Binary64.isFinite]
  · obtain ⟨units, representable, parsed, found⟩ := nearest small
    refine ⟨units, representable, parsed, fun other => ⟨fun also => also.unique found, ?_⟩⟩
    rintro rfl
    exact found
  · have most : (1 : ℚ) / 2 ^ 1075 ≤ 1 :=
      div_le_one_of_le₀ (one_le_pow₀ (by norm_num)) (by positivity)
    have small := Binary64.lt_overflow (tiny.trans most)
    obtain ⟨units, representable, parsed, found⟩ := nearest small
    obtain rfl := found.unique (Binary64.nearest_zero d.value_nonneg tiny)
    exact parsed

theorem parse_number_halves :
    Token.IsDigits ['0'] ∧ Token.IsDigits ['5'] ∧ "0.5".toList = ['0'] ++ '.' :: ['5'] ∧
      ∃ units representable,
        parse "0.5" = .ok (.literal (.number (.finite false units representable)) false) ∧
          ∀ other, Binary64.Nearest (1 / 2) other ↔ other = units := by
  have zero : Token.IsDigits ['0'] := ⟨by simp, by simp⟩
  have five : Token.IsDigits ['5'] := ⟨by simp, by simp⟩
  have spelled : "0.5".toList = ['0'] ++ '.' :: ['5'] := rfl
  have read := (parse_number zero (.inr ⟨spelled, five⟩)).2.1
  rw [show Nat.ofDigitChars 10 ['0'] 0 = 0 from rfl, show Nat.ofDigitChars 10 ['5'] 0 = 5 from rfl,
    show ((0 : Nat) + (5 : Nat) / 10 ^ ['5'].length : ℚ) = 1 / 2 by norm_num] at read
  exact ⟨zero, five, spelled, read (Binary64.lt_overflow (by norm_num))⟩

end FilterLang
