import FilterLang.Json.Fields
import FilterLang.Proofs.Json.Numerals
import FilterLang.Proofs.Json.Strings

namespace FilterLang.Json

variable {number : Numeral → Binary64}

def Scalar.reread (number : Numeral → Binary64) : Scalar → Scalar
  | null | unrepresentable => null
  | boolean value => boolean value
  | string value => string value
  | natural value => ofNumeral number ⟨false, Nat.toDigits 10 value, [], 0, true⟩
  | real value =>
    match Numeral.scan? (numberStyle.render value).toList with
    | some (numeral, _) => ofNumeral number numeral
    | none => null

theorem scan?_natural (value : Nat) {after : List Char} (ends : Text.HeadNot Numeral.goesOn after) :
    Numeral.scan? (Nat.toDigits 10 value ++ after) =
      some (⟨false, Nat.toDigits 10 value, [], 0, true⟩, after) := by
  have isDigits : Token.IsDigits (Nat.toDigits 10 value) :=
    ⟨Nat.toDigits_ne_nil, fun c => Nat.isDigit_of_mem_toDigits (by decide) (by decide)⟩
  have spells := @Numeral.Spells.parts _ [] false none isDigits nofun
  simpa [Numeral.signPart, pointPart, Numeral.exponentPart] using spells.scan?_eq ends

section

variable {digits : List Char} {start : Nat}

/-- All digits are kept if 64 bits hold their value. -/
theorem appendDigits_of_lt (small : Nat.ofDigitChars 10 digits start < UInt64.size) :
    appendDigits start digits = (Nat.ofDigitChars 10 digits start, digits.length) := by
  induction digits generalizing start with
  | nil => rfl
  | cons digit digits ih =>
    rw [Nat.ofDigitChars_cons] at small
    -- A value only grows with the digits behind it, so that no shorter one is too large.
    have kept : 10 * start + (digit.toNat - '0'.toNat) < UInt64.size := by
      rw [Nat.ofDigitChars_eq_ofDigitChars_zero] at small
      have grows := Nat.le_mul_of_pos_left (10 * start + (digit.toNat - '0'.toNat))
        (Nat.pow_pos (n := digits.length) (show 0 < 10 by decide))
      omega
    rw [appendDigits, if_pos kept, ih small, Nat.ofDigitChars_cons, List.length_cons]

theorem count_appendDigits_lt (first : start < UInt64.size)
    (large : UInt64.size ≤ Nat.ofDigitChars 10 digits start) :
    (appendDigits start digits).2 < digits.length := by
  induction digits generalizing start with
  | nil => exact absurd large (Nat.not_le_of_lt first)
  | cons digit digits ih =>
    rw [Nat.ofDigitChars_cons] at large
    rw [appendDigits, List.length_cons]
    split
    · next kept => exact Nat.succ_lt_succ (ih kept large)
    · exact Nat.succ_pos _

end

theorem natural?_ofNumeral {numeral : Numeral} (scaled : (keptDigits numeral).exponent ≠ 0) :
    (scalar (.ofNumeral number numeral)).natural? = none := by
  have real : (numeral.plain && (keptDigits numeral).exponent == 0) = false := by simp [scaled]
  simp only [Scalar.ofNumeral, real, Bool.false_eq_true, if_false]
  split <;> rfl

/-- A natural number is read back as one exactly when 64 bits hold it. -/
theorem natural?_reread (value : Nat) :
    (scalar ((Scalar.natural value).reread number)).natural? =
      if value < UInt64.size then some value else none := by
  have digits := Nat.ofDigitChars_ten_toDigits (n := value)
  by_cases small : value < UInt64.size
  · have kept := appendDigits_of_lt (digits.trans_lt small)
    simp [Scalar.reread, Scalar.ofNumeral, keptDigits, kept, digits, appendDigits, natural?, small]
  · have cut := count_appendDigits_lt (by decide) ((Nat.le_of_not_lt small).trans_eq digits.symm)
    rw [if_neg small]
    refine natural?_ofNumeral ?_
    simp only [keptDigits, appendDigits]
    omega

theorem lexeme?_of_scan? {text after : List Char} {numeral : Numeral}
    (scans : Numeral.scan? text = some (numeral, after))
    (tidy : numeral.whole.head? = some '0' → numeral.whole.length = 1) :
    lexeme? number text = some (.scalar (.ofNumeral number numeral), after) := by
  unfold lexeme?
  split
  · cases scans
  · next head rest =>
    split
    case h_11 =>
      rw [scans]
      simp only [Bool.and_eq_true, beq_iff_eq, bne_iff_ne]
      rw [if_neg]
      rintro ⟨zero, long⟩
      exact long (tidy zero)
    all_goals cases scans

theorem lexeme?_natural (value : Nat) {after : List Char}
    (ends : Text.HeadNot Numeral.goesOn after) :
    lexeme? number ((Scalar.natural value).text.toList ++ after) =
      some (.scalar ((Scalar.natural value).reread number), after) := by
  rw [Scalar.text, String.toList_ofList]
  refine lexeme?_of_scan? (scan?_natural value ends) fun first => ?_
  by_cases zero : value = 0
  · rw [zero, Nat.toDigits_zero, List.length_singleton]
  · exact absurd first (head?_toDigits zero)

theorem lexeme?_null (after : List Char) :
    lexeme? number ("null".toList ++ after) = some (.scalar .null, after) := by
  simp [lexeme?, stripWord?]

theorem render_of_not_finite {value : Binary64} (infinite : ¬ value.isFinite = true) :
    numberStyle.render value = "null" := by
  cases value with
  | nan => rfl
  | infinity negative => cases negative <;> rfl
  | finite => exact absurd rfl infinite

theorem lexeme?_real (value : Binary64) {after : List Char}
    (ends : Text.HeadNot Numeral.goesOn after) :
    lexeme? number ((Scalar.real value).text.toList ++ after) =
      some (.scalar ((Scalar.real value).reread number), after) := by
  rw [Scalar.text]
  by_cases finite : value.isFinite = true
  · obtain ⟨numeral, renders⟩ := exists_renders finite
    have alone := renders.spells.scan?_eq (Text.headNot_nil Numeral.goesOn)
    rw [List.append_nil] at alone
    rw [lexeme?_of_scan? (renders.spells.scan?_eq ends) renders.tidy, Scalar.reread, alone]
  · have null := render_of_not_finite finite
    have none : Numeral.scan? "null".toList = none := by simp [Numeral.scan?, Numeral.takeMinus]
    rw [null, Scalar.reread, null, none]
    exact lexeme?_null after

theorem lexeme?_characters {text : List Char} {value : String}
    (stands : Characters text value.toList) (after : List Char) :
    lexeme? number ('"' :: (text ++ '"' :: after)) = some (.scalar (.string value), after) := by
  obtain ⟨parts, scanned, joined⟩ := stands.scanString?_eq after
  rw [lexeme?]
  simp [scanned, Scalar.ofParts, joined]

theorem lexeme?_string (value : String) (after : List Char) :
    lexeme? number ((Scalar.string value).text.toList ++ after) =
      some (.scalar (.string value), after) := by
  have text : (Scalar.string value).text.toList ++ after =
      '"' :: (value.toList.flatMap escape ++ '"' :: after) := by
    simp [Scalar.text]
  rw [text, lexeme?_characters (characters_flatMap_escape value.toList)]

def Lexeme.reread (number : Numeral → Binary64) : Lexeme → Lexeme
  | scalar value => scalar (value.reread number)
  | piece => piece

def Lexeme.isScalar : Lexeme → Bool
  | scalar _ => true
  | _ => false

/-- A piece is read from its text in front of any text that does not go on with a number. -/
theorem lexeme?_text (piece : Lexeme) {after : List Char}
    (ends : piece.isScalar = true → Text.HeadNot Numeral.goesOn after) :
    lexeme? number (piece.text.toList ++ after) = some (piece.reread number, after) := by
  cases piece with
  | scalar value =>
    cases value with
    | null | unrepresentable => exact lexeme?_null after
    | boolean value => cases value <;> simp [Lexeme.text, Scalar.text, lexeme?, stripWord?,
        Lexeme.reread, Scalar.reread]
    | natural value => exact lexeme?_natural value (ends rfl)
    | real value => exact lexeme?_real value (ends rfl)
    | string value => exact lexeme?_string value after
  | _ => simp [Lexeme.text, lexeme?, Lexeme.reread]

theorem not_isSpace_of_lexeme? {c : Char} {text after : List Char} {piece : Lexeme}
    (read : lexeme? number (c :: text) = some (piece, after)) : isSpace c = false := by
  by_contra space
  simp only [isSpace, Bool.or_eq_true, beq_iff_eq, Bool.not_eq_false] at space
  rcases space with ((rfl | rfl) | rfl) | rfl
  all_goals simp [lexeme?, Numeral.scan?, Numeral.takeMinus] at read

inductive Laid : List Lexeme → List Char → Prop where
  | ending {gap : List Char} : (∀ c ∈ gap, isSpace c = true) → Laid [] gap
  | piece {gap rest : List Char} {piece : Lexeme} {pieces : List Lexeme} :
      (∀ c ∈ gap, isSpace c = true) →
      (piece.isScalar = true → Text.HeadNot Numeral.goesOn rest) → Laid pieces rest →
      Laid (piece :: pieces) (gap ++ (piece.text.toList ++ rest))

theorem lex?_of_lexeme? {gap text after : List Char} {piece : Lexeme}
    (blank : ∀ c ∈ gap, isSpace c = true)
    (read : lexeme? number text = some (piece, after)) :
    lex? number (gap ++ text) = (lex? number after).map (piece :: ·) := by
  cases text with
  | nil => cases read
  | cons c text =>
    have start : Text.HeadNot isSpace (c :: text) :=
      Text.headNot_cons.mpr (not_isSpace_of_lexeme? read)
    have left := Text.dropWhile_run blank start
    rw [lex?, left, List.isEmpty_cons, if_neg Bool.false_ne_true]
    split
    · next found =>
      rw [read] at found
      cases found
      rfl
    · next found => simp [read] at found

theorem lex?_blank {gap : List Char} (blank : ∀ c ∈ gap, isSpace c = true) :
    lex? number gap = some [] := by
  have none := Text.dropWhile_run blank (Text.headNot_nil isSpace)
  rw [List.append_nil] at none
  rw [lex?]
  simp [none]

/-- The pieces of a laid out text are read back, whatever the layout. -/
theorem Laid.lex?_eq {pieces : List Lexeme} {text : List Char} (laid : Laid pieces text) :
    lex? number text = some (pieces.map (·.reread number)) := by
  induction laid with
  | ending blank => exact lex?_blank blank
  | piece blank ends _ ih =>
    rw [lex?_of_lexeme? blank (lexeme?_text _ ends), ih]
    rfl

end FilterLang.Json
