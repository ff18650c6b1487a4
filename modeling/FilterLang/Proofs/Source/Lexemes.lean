import FilterLang.Proofs.Expr.WellFormed
import FilterLang.Proofs.Source.Numeral
import FilterLang.Proofs.Token.LongestMatch

namespace FilterLang

structure Text.Separated (after : List Char) : Prop where
  word : HeadNot isWord after
  point : ∀ rest, after = '.' :: rest → HeadNot Char.isDigit rest

theorem Text.Separated.digit {after : List Char} (separated : Separated after) :
    HeadNot Char.isDigit after :=
  separated.word.isDigit

theorem Text.separated_cons {c : Char} {after : List Char} (outside : isWord c = false)
    (noPoint : c ≠ '.') : Separated (c :: after) :=
  ⟨headNot_cons.mpr outside, fun _ same => absurd (List.head_eq_of_cons_eq same) noPoint⟩

theorem Token.inSuffix?_of_headNot {after : List Char} (noBlank : Text.HeadNot Text.isBlank after) :
    inSuffix? after = none := by
  simp [inSuffix?, noBlank.takeWhile_eq_nil]

theorem Token.isWord_of_mem {word : String} (member : word ∈ operatorWords ++ constantWords) :
    IsWord word.toList := by
  have all : ∀ word ∈ operatorWords ++ constantWords, word.toList ≠ [] ∧
      word.toList.all Text.isWord = true ∧ word.toList.head?.any Char.isDigit = false := by decide
  obtain ⟨nonempty, inside, start⟩ := all word member
  refine ⟨nonempty, List.all_eq_true.mp inside, fun c first => ?_⟩
  simpa [Option.mem_def.mp first] using start

namespace Operator

theorem lexeme_symbol (operator : Operator) (more : List Char) :
    Token.Lexeme operator.tokenKind operator.symbol.toList (' ' :: more) := by
  have ends : Text.HeadNot Text.isWord (' ' :: more) := Text.headNot_cons.mpr (by decide)
  have noEqual : (' ' :: more).head? ≠ some '=' := by simp
  cases operator with
  | equal => exact .equality (.inl rfl)
  | notEqual => exact .equality (.inr rfl)
  | less => exact .strict (.inl rfl) noEqual
  | greater => exact .strict (.inr rfl) noEqual
  | lessEqual => exact .inclusive (.inl rfl)
  | greaterEqual => exact .inclusive (.inr rfl)
  | notIn =>
    have word : Token.IsWord ['n', 'o', 't'] :=
      ⟨by simp, List.all_eq_true.mp rfl, Text.headNot_cons.mpr rfl⟩
    have suffix : Token.IsInSuffix [' ', 'i', 'n'] (' ' :: more) := by
      refine ⟨⟨[' '], ['i', 'n'], rfl, by simp, ?_, ?_, rfl⟩, ends⟩
      all_goals exact List.all_eq_true.mp rfl
    exact .notIn word rfl suffix
  | or | and | contains | has | isIn =>
    exact .keyword (Token.isWord_of_mem (by decide)) ends (Token.Kind.ofKeyword?_eq_some_iff.mp rfl)

theorem spells_of_symbol {operator : Operator} {token : Token}
    (kind : token.kind = operator.tokenKind)
    (text : token.text.toList = operator.symbol.toList) : token.Spells operator :=
  ⟨kind, fun _ => String.toList_inj.mp text⟩

/-- Only `in` can be taken for the end of `not in`. -/
theorem inSuffix?_symbol {operator : Operator} (other : operator ≠ isIn) (more : List Char) :
    Token.inSuffix? (' ' :: (operator.symbol.toList ++ ' ' :: more)) = none := by
  cases operator <;> first | contradiction | rfl

end Operator

theorem toList_quoted (value : String) :
    ∃ quote, (quoted value).toList = quote :: (value.toList ++ [quote]) ∧
      (quote = '"' ∨ quote = '\'') ∧
      (¬ ('"' ∈ value.toList ∧ '\'' ∈ value.toList) → quote ∉ value.toList) := by
  unfold quoted
  split
  · next double =>
    have double : '"' ∈ value.toList := by simpa using double
    exact ⟨'\'', by simp, .inr rfl, fun notBoth single => notBoth ⟨double, single⟩⟩
  · next noDouble =>
    exact ⟨'"', by simp, .inl rfl, fun _ => by simpa using noDouble⟩

theorem Literal.lexeme_source {value : Literal} (spellable : value.Spellable) {after : List Char}
    (separated : Text.Separated after) :
    ∃ kind, Token.Lexeme kind value.source.toList after ∧
      ∀ token : Token, token.kind = kind → token.text.toList = value.source.toList →
        token.literal? = some value := by
  cases value with
  | number x =>
    obtain ⟨finite, positive⟩ := spellable
    cases x with
    | nan | infinity => cases finite
    | finite negative units representable =>
      cases positive
      obtain ⟨d, writes, reads⟩ := sourceNumber_writes representable
      have text : (number (.finite false units representable)).source.toList =
          sourceNumber.magnitudeText units := String.toList_ofList
      rw [text]
      refine ⟨.number, writes.lexeme separated.digit separated.point, fun token kind same => ?_⟩
      simp [Token.literal?, kind, same, writes.ofNumeral?_eq, reads, Binary64.isFinite]
  | string value =>
    obtain ⟨quote, text, isQuote, absent⟩ := toList_quoted value
    refine ⟨.string, ?_, fun token kind same => ?_⟩
    · rw [source, text]
      exact .string isQuote (absent spellable)
    · have body := Token.unquoted_of_quoted (same.trans text)
      simp [Token.literal?, kind, String.toList_inj.mp body]
  | boolean value =>
    refine ⟨.boolean value, ?_, fun token kind _ => by simp [Token.literal?, kind]⟩
    cases value <;> exact .keyword (Token.isWord_of_mem (by decide)) separated.word
      (Token.Kind.ofKeyword?_eq_some_iff.mp rfl)
  | null =>
    refine ⟨.null, ?_, fun token kind _ => by simp [Token.literal?, kind]⟩
    exact .keyword (Token.isWord_of_mem (by decide)) separated.word
      (Token.Kind.ofKeyword?_eq_some_iff.mp rfl)

end FilterLang
