import FilterLang.Proofs.Token.Munch
import Mathlib.Data.List.Chain

namespace FilterLang

namespace Token

namespace Lexeme

variable {text after : List Char}

theorem keyword_ne {word : List Char} {kind : Kind} (found : IsKeyword word kind) :
    kind ≠ .identifier ∧ kind ≠ .string ∧ kind ≠ .number := by
  simp only [IsKeyword, List.mem_cons, Prod.mk.injEq, List.not_mem_nil, or_false] at found
  rcases found with (⟨-, rfl⟩ | ⟨-, rfl⟩ | ⟨-, rfl⟩ | ⟨-, rfl⟩ | ⟨-, rfl⟩) |
    (⟨-, rfl⟩ | ⟨-, rfl⟩ | ⟨-, rfl⟩) <;> decide

theorem of_identifier (lexeme : Lexeme .identifier text after) :
    IsWord text ∧ Text.HeadNot Text.isWord after ∧ (∀ kind, ¬ IsKeyword text kind) ∧
      (Text.lower text = ['n', 'o', 't'] → ∀ suffix rest, after = suffix ++ rest →
        ¬ IsInSuffix suffix rest) := by
  cases lexeme with
  | mark member => simp [marks] at member
  | keyword _ _ found => exact absurd rfl (keyword_ne found).1
  | identifier word ends noKeyword noSuffix => exact ⟨word, ends, noKeyword, noSuffix⟩

theorem of_string (lexeme : Lexeme .string text after) :
    ∃ quote body, text = quote :: (body ++ [quote]) ∧ (quote = '"' ∨ quote = '\'') ∧
      quote ∉ body := by
  cases lexeme with
  | mark member => simp [marks] at member
  | keyword _ _ found => exact absurd rfl (keyword_ne found).2.1
  | string isQuote absent => exact ⟨_, _, rfl, isQuote, absent⟩

theorem of_isIn (lexeme : Lexeme .isIn text after) :
    IsWord text ∧ Text.HeadNot Text.isWord after ∧ Text.lower text = ['i', 'n'] := by
  cases lexeme with
  | mark member => simp [marks] at member
  | keyword word ends found =>
    refine ⟨word, ends, ?_⟩
    have same : String.ofList (Text.lower text) = "in" := by simpa [IsKeyword] using found
    have spelled := congrArg String.toList same
    rwa [String.toList_ofList] at spelled

end Lexeme

/-- A name `not` does not stand in front of an `in`: together they would be one token. -/
def Apart (first second : Token) : Prop :=
  first.kind = .identifier → Text.lower first.text.toList = ['n', 'o', 't'] → second.kind ≠ .isIn

end Token

structure Scanned (tokens : List Token) : Prop where
  lexemes : ∀ token ∈ tokens, ∃ after, Token.Lexeme token.kind token.text.toList after
  apart : tokens.IsChain Token.Apart

namespace Scanned

theorem left {before after : List Token} (scanned : Scanned (before ++ after)) : Scanned before :=
  ⟨fun token member => scanned.lexemes token (List.mem_append_left _ member),
    scanned.apart.left_of_append⟩

theorem right {before after : List Token} (scanned : Scanned (before ++ after)) : Scanned after :=
  ⟨fun token member => scanned.lexemes token (List.mem_append_right _ member),
    scanned.apart.right_of_append⟩

theorem tail {token : Token} {tokens : List Token} (scanned : Scanned (token :: tokens)) :
    Scanned tokens := by
  rw [← List.singleton_append] at scanned
  exact scanned.right

theorem isName {token : Token} {tokens : List Token} (scanned : Scanned tokens)
    (member : token ∈ tokens) (kind : token.kind = .identifier) : Token.IsName token.text := by
  obtain ⟨after, lexeme⟩ := scanned.lexemes token member
  rw [kind] at lexeme
  obtain ⟨word, -, noKeyword, -⟩ := lexeme.of_identifier
  rw [Token.Kind.not_isKeyword_iff, Token.Kind.ofKeyword?_eq_none_iff] at noKeyword
  obtain ⟨noOperator, noConstant⟩ := noKeyword
  rw [String.ofList_toList] at noConstant
  exact ⟨word, noOperator, noConstant⟩

end Scanned

/-- An `in` comes first after a whole word only with blanks between them. -/
theorem Token.isInSuffix_of_next {after blanks word : List Char}
    (ends : Text.HeadNot Text.isWord (blanks ++ (word ++ after)))
    (blank : ∀ c ∈ blanks, Text.isBlank c = true) (lexeme : Token.Lexeme .isIn word after) :
    Token.IsInSuffix (blanks ++ word) after := by
  obtain ⟨isWord, endsWord, spelled⟩ := lexeme.of_isIn
  refine ⟨⟨blanks, word, rfl, ?_, blank, isWord.inside, spelled⟩, endsWord⟩
  rintro rfl
  cases word with
  | nil => exact absurd rfl isWord.nonempty
  | cons c word =>
    have outside := Text.headNot_cons.mp ends
    rw [isWord.inside c (by simp)] at outside
    cases outside

theorem Munches.scanned {text : List Char} {offset : Nat} {scan : Scan}
    (munches : Munches text offset scan) :
    Scanned scan.tokens ∧
      ∀ token ∈ scan.tokens.head?, token.kind = .isIn → ∃ blanks word after,
        text = blanks ++ (word ++ after) ∧ (∀ c ∈ blanks, Text.isBlank c = true) ∧
        Token.Lexeme .isIn word after := by
  -- An `in` must be known where it is scanned: only the text tells what may stand in front of it.
  induction munches with
  | ending | unterminated | unexpected => exact ⟨⟨by simp, .nil⟩, by simp⟩
  | @token blanks lexeme after offset kind scan blank longest _ ih =>
    obtain ⟨scanned, first⟩ := ih
    refine ⟨⟨?_, ?_⟩, ?_⟩
    · intro token member
      rcases List.mem_cons.mp member with rfl | member
      · exact ⟨after, by simpa using longest⟩
      · exact scanned.lexemes token member
    · apply scanned.apart.cons
      intro next head kindName isNot kindIn
      obtain ⟨between, word, rest, rfl, blank, isIn⟩ := first next head kindIn
      subst kindName
      obtain ⟨-, ends, -, noSuffix⟩ := longest.of_identifier
      rw [String.toList_ofList] at isNot
      apply noSuffix isNot (between ++ word) rest (by simp)
      exact Token.isInSuffix_of_next ends blank isIn
    · intro token head kindIn
      cases head
      subst kindIn
      exact ⟨blanks, lexeme, after, rfl, blank, longest⟩

/-- The tokens of every text are lexemes, and no `not` among them stands in front of an `in`. -/
theorem Lexer.scanned (text : List Char) (offset : Nat) : Scanned (scan ⟨text, offset⟩).tokens :=
  (munches_scan text offset).scanned.1

end FilterLang
