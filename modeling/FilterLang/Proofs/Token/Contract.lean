import FilterLang.Binary64.Text
import FilterLang.Expr.Json
import FilterLang.Proofs.Expr.WellFormed
import FilterLang.Proofs.Source.Numeral
import FilterLang.Proofs.Token.Respelled

namespace FilterLang

/-- The bytes of a text from `start` to `stop`, if they are in range and cut no character. -/
def Text.slice? (text : String) (start stop : Nat) : Option String :=
  if start ≤ stop ∧ (String.Pos.Raw.mk start).IsValid text ∧ (String.Pos.Raw.mk stop).IsValid text
  then some (String.Pos.Raw.extract text ⟨start⟩ ⟨stop⟩)
  else none

theorem Text.slice?_append (before middle after : List Char) :
    slice? (String.ofList (before ++ middle ++ after)) (String.utf8Len before)
      (String.utf8Len before + String.utf8Len middle) = some (String.ofList middle) := by
  have valid (first second : List Char) :
      (String.Pos.Raw.mk (String.utf8Len first)).IsValid (String.ofList (first ++ second)) := by
    rw [String.Pos.Raw.isValid_ofList]
    exact ⟨first.length, by rw [List.take_left, String.utf8ByteSize_ofList]⟩
  have start := valid before (middle ++ after)
  have stop := valid (before ++ middle) after
  rw [← List.append_assoc] at start
  rw [String.utf8Len_append] at stop
  rw [slice?, if_pos ⟨Nat.le_add_right .., start, stop⟩, String.extract_of_valid]

/-- A text in quotes, cut by its first and its last byte. -/
theorem Text.slice?_quoted {quote : Char} (narrow : quote.utf8Size = 1) {text : String}
    {body : List Char} (quoted : text.toList = quote :: (body ++ [quote])) :
    slice? text 1 (text.utf8ByteSize - 1) = some (String.ofList body) := by
  have same : text = String.ofList ([quote] ++ body ++ [quote]) := by
    rw [← String.ofList_toList (s := text), quoted]
    rfl
  have size : text.utf8ByteSize - 1 = 1 + String.utf8Len body := by
    rw [same, String.utf8ByteSize_ofList]
    simp only [String.utf8Len_append, String.utf8Len_cons, String.utf8Len_nil, narrow]
    omega
  have inside := slice?_append [quote] body [quote]
  simp only [String.utf8Len_cons, String.utf8Len_nil, narrow, Nat.zero_add] at inside
  rw [size, same]
  exact inside

namespace Decimal

variable {text : List Char} {d : Decimal}

theorem exists_writes {after : List Char} (lexeme : Token.Lexeme .number text after) :
    ∃ d, Writes text d := by
  cases lexeme with
  | mark member => simp [Token.marks] at member
  | whole digits => exact ⟨_, .whole digits⟩
  | fraction digits places => exact ⟨_, .fraction digits places⟩
  | keyword _ _ found => exact absurd rfl (Token.Lexeme.keyword_ne found).2.2

theorem Writes.starts (writes : Writes text d) :
    ∃ first rest, text = first :: rest ∧ first.isDigit = true := by
  have start : ∀ {digits more : List Char}, Token.IsDigits digits →
      ∃ first rest, digits ++ more = first :: rest ∧ first.isDigit = true := by
    intro digits more isDigits
    cases digits with
    | nil => exact absurd rfl isDigits.nonempty
    | cons first rest => exact ⟨first, rest ++ more, rfl, isDigits.inside first (by simp)⟩
  cases writes with
  | whole digits =>
    rw [← List.append_nil text]
    exact start digits
  | fraction digits => exact start digits

/-- The reader of number texts of every form reads what the digits write. -/
theorem Writes.ofText?_eq {text : String} (writes : Writes text.toList d) :
    Binary64.ofText? text = some (.ofDecimal false d) := by
  obtain ⟨first, rest, starts, digit⟩ := writes.starts
  have unsigned : Numeral.takeSign text.toList = (false, text.toList) := by
    rw [starts]
    unfold Numeral.takeSign Numeral.takeMinus
    split
    · next same =>
      cases same
      cases digit
    · split
      · next same =>
        cases same
        cases digit
      · rfl
  have noName : ∀ name ∈ ["nan", "inf", "infinity"],
      String.ofList (Text.lower text.toList) ≠ name := by
    -- The names start with a letter, and what is read starts with a digit.
    intro name member same
    have letter : ∀ name ∈ ["nan", "inf", "infinity"], name.toList.head?.all (!·.isDigit) := by
      decide
    have head := letter name member
    rw [← same, String.toList_ofList, starts, Text.lower, List.map_cons, List.head?_cons,
      Option.all_some, (Text.classes_toLower first).2, digit] at head
    cases head
  unfold Binary64.ofText?
  rw [unsigned]
  dsimp only
  split
  · next same => exact absurd same (noName _ (by simp))
  · next same => exact absurd same (noName _ (by simp))
  · next same => exact absurd same (noName _ (by simp))
  · generalize text.toList = body at *
    cases writes with
    | whole digits =>
      have taken := Text.takeWhile_run digits.inside (Text.headNot_nil Char.isDigit)
      have left := Text.dropWhile_run digits.inside (Text.headNot_nil Char.isDigit)
      rw [List.append_nil] at taken left
      simp [taken, left, digits.nonempty, Numeral.scanExponent]
    | @fraction whole places digits fraction =>
      have point : Text.HeadNot Char.isDigit ('.' :: places) := Text.headNot_cons.mpr (by decide)
      have taken := Text.takeWhile_run fraction.inside (Text.headNot_nil Char.isDigit)
      have left := Text.dropWhile_run fraction.inside (Text.headNot_nil Char.isDigit)
      rw [List.append_nil] at taken left
      simp [Text.takeWhile_run digits.inside point, Text.dropWhile_run digits.inside point, taken,
        left, digits.nonempty, Numeral.scanExponent]

end Decimal

namespace Token

/-- What the text of a token is, where the parser counts on it for the sake of its kind. -/
structure Contract (token : Token) : Prop where
  quoted : token.kind = .string → ∃ quote, (quote = '"' ∨ quote = '\'') ∧
    token.text.toList = quote :: (token.unquoted.toList ++ [quote]) ∧
    quote ∉ token.unquoted.toList ∧
    Text.slice? token.text 1 (token.text.utf8ByteSize - 1) = some token.unquoted
  equality : token.kind = .equality → ∃ operator,
    Expr.operatorIn? .comparison token.text = some operator ∧ operator.level = .equality
  relational : token.kind = .relational → ∃ operator,
    Expr.operatorIn? .comparison token.text = some operator ∧ operator.level = .relational
  number : token.kind = .number → ∃ d, Decimal.ofNumeral? token.text.toList = some d ∧
    Binary64.ofText? token.text = some (.ofDecimal false d)

namespace Lexeme

variable {text after : List Char}

theorem of_equality (lexeme : Lexeme .equality text after) :
    text = ['=', '='] ∨ text = ['!', '='] := by
  cases lexeme with
  | mark member => simp [marks] at member
  | keyword _ _ found => simp [IsKeyword] at found
  | equality first => rcases first with rfl | rfl <;> simp

theorem of_relational (lexeme : Lexeme .relational text after) :
    text ∈ [['<'], ['>'], ['<', '='], ['>', '=']] := by
  cases lexeme with
  | mark member => simp [marks] at member
  | keyword _ _ found => simp [IsKeyword] at found
  | inclusive first => rcases first with rfl | rfl <;> simp
  | strict first => rcases first with rfl | rfl <;> simp

end Lexeme

theorem contract_of_lexeme {token : Token} {after : List Char}
    (lexeme : Lexeme token.kind token.text.toList after) : token.Contract := by
  obtain ⟨kind, text, position⟩ := token
  refine ⟨fun same => ?_, fun same => ?_, fun same => ?_, fun same => ?_⟩
  all_goals
    obtain rfl : kind = _ := same
    have spelled := String.ofList_toList (s := text)
  · obtain ⟨quote, body, quoted, isQuote, absent⟩ := lexeme.of_string
    have inside : unquoted ⟨.string, text, position⟩ = String.ofList body := by
      simp [unquoted, quoted]
    have narrow : quote.utf8Size = 1 := by rcases isQuote with rfl | rfl <;> decide
    refine ⟨quote, isQuote, ?_, ?_, ?_⟩
    · rw [inside, String.toList_ofList]
      exact quoted
    · rwa [inside, String.toList_ofList]
    · rw [inside]
      exact Text.slice?_quoted narrow quoted
  · rcases lexeme.of_equality with same | same
    all_goals
      dsimp only at same ⊢
      rw [← spelled, same]
      exact ⟨_, rfl, rfl⟩
  · have cases := lexeme.of_relational
    simp only [List.mem_cons, List.not_mem_nil, or_false] at cases
    rcases cases with same | same | same | same
    all_goals
      dsimp only at same ⊢
      rw [← spelled, same]
      exact ⟨_, rfl, rfl⟩
  · obtain ⟨d, writes⟩ := Decimal.exists_writes lexeme
    exact ⟨d, writes.ofNumeral?_eq, writes.ofText?_eq⟩

end Token

theorem Scanned.contract {tokens : List Token} (scanned : Scanned tokens) :
    ∀ token ∈ tokens, token.Contract := by
  intro token member
  obtain ⟨after, lexeme⟩ := scanned.lexemes token member
  exact Token.contract_of_lexeme lexeme

end FilterLang
