import FilterLang.Command.Basic
import FilterLang.Proofs.Grammar.Acceptance
import FilterLang.Proofs.Grammar.Failure
import FilterLang.Proofs.Token.Cut
import Mathlib

namespace FilterLang

theorem wholly_follows {fault : Option LexError} {tokens : List Token}
    (ready : Ready fault tokens) :
    Follows fault tokens (outcome (Parser.expression fault maxNesting tokens) >>= wholly)
      (outcome (Parser.expression none maxNesting tokens) >>= wholly) := by
  refine (Parser.expression_faithful maxNesting ready).bind fun e rest _ suffix ready => ?_
  cases rest with
  | nil => exact .ok e suffix ready
  | cons token unread => exact .error ⟨(List.suffix_cons token unread).trans suffix, suffix⟩

namespace Scan

/-- A parse meets the fault of the source, or does what it would do without it. -/
theorem parse_cases (scan : Scan) :
    (∃ error, scan.error = some error ∧ scan.parse = .error ⟨.lexical error, []⟩) ∨
      scan.parse = parse ⟨scan.tokens, none⟩ := by
  rcases scan.ready_or_empty with ready | ⟨error, rfl⟩
  · rw [parse_eq_map scan ready, parse_eq_map ⟨scan.tokens, none⟩ (.inl rfl)]
    rcases (wholly_follows ready).same with ⟨error, faulty, failed⟩ | same
    · exact .inl ⟨error, faulty, by rw [failed]; rfl⟩
    · exact .inr (by rw [same])
  · exact .inl ⟨error, rfl, rfl⟩

theorem faithful_of_parse {scan : Scan} {failure : Failure} (failed : scan.parse = .error failure) :
    failure.Faithful scan.error scan.tokens := by
  rcases scan.ready_or_empty with ready | ⟨error, rfl⟩
  · have follows := wholly_follows ready
    rw [parse_eq_map scan ready] at failed
    cases run : outcome (Parser.expression scan.error maxNesting scan.tokens) >>= wholly with
    | ok found => simp [run, Except.map] at failed
    | error other =>
      simp only [run, Except.map, Except.error.injEq] at failed
      exact follows.failure failure (failed ▸ run)
  · cases failed
    exact ⟨List.nil_suffix, rfl, rfl⟩

/-- Where the tokens in front of a fault are a whole expression, or its start, the parse gets to the
    fault. -/
theorem parse_eq_lexical {scan : Scan} {error : LexError} (fault : scan.error = some error)
    (partly : (∃ e, parse ⟨scan.tokens, none⟩ = .ok e) ∨
      ∃ expected unread, parse ⟨scan.tokens, none⟩ = .error ⟨.unexpectedEnd expected, unread⟩) :
    scan.parse = .error ⟨.lexical error, []⟩ := by
  rcases scan.parse_cases with ⟨other, faulty, failed⟩ | same
  · rw [fault] at faulty
    cases faulty
    exact failed
  -- Without meeting the fault, the parse could not end as it does on the tokens alone.
  rw [← same] at partly
  rcases partly with ⟨e, parsed⟩ | ⟨expected, unread, failed⟩
  · have fine := (parse_iff_derives.mp parsed).1
    simp [fault] at fine
  · have fine := (faithful_of_parse failed).named.1
    simp [fault] at fine

end Scan

theorem parse_eq_error_iff {text : String} {error : ParseError} :
    parse text = .error error ↔ ∃ unread, (Scan.ofText text).parse = .error ⟨error, unread⟩ := by
  unfold parse
  cases (Scan.ofText text).parse with
  | ok e => simp [Except.mapError]
  | error failure =>
    obtain ⟨found, unread⟩ := failure
    simp [Except.mapError]

theorem tokenize_of_parse_lexical {text : String} {error : LexError}
    (failed : parse text = .error (.lexical error)) : tokenize text = .error error := by
  obtain ⟨unread, failed⟩ := parse_eq_error_iff.mp failed
  exact Scan.toExcept_eq_error_iff.mpr (Scan.faithful_of_parse failed).named.1

theorem exists_parse_error {text : String} {error : LexError}
    (faulty : tokenize text = .error error) :
    ∃ failure, parse text = .error failure ∧
      (failure = .lexical error ∨ ∀ other, failure ≠ .lexical other) := by
  cases parsed : parse text with
  | ok e =>
    have fine := (parse_eq_ok_iff.mp parsed).1
    simp [Scan.toExcept_eq_error_iff.mp faulty] at fine
  | error failure =>
    refine ⟨failure, rfl, ?_⟩
    by_cases lexical : ∃ other, failure = .lexical other
    · obtain ⟨other, rfl⟩ := lexical
      have same := tokenize_of_parse_lexical parsed
      rw [faulty] at same
      cases same
      exact .inl rfl
    · exact .inr fun other same => lexical ⟨other, same⟩

theorem parse_lexical_of_cut {text : String} {error : LexError}
    (faulty : tokenize text = .error error)
    (partly : (∃ e, parse (String.ofList (text.toList.take error.position)) = .ok e) ∨
      ∃ expected, parse (String.ofList (text.toList.take error.position)) =
        .error (.unexpectedEnd expected)) :
    parse text = .error (.lexical error) := by
  have fault := Scan.toExcept_eq_error_iff.mp faulty
  have cut := Scan.ofText_take fault
  refine parse_eq_error_iff.mpr ⟨[], Scan.parse_eq_lexical fault ?_⟩
  rw [← cut]
  rcases partly with ⟨e, parsed⟩ | ⟨expected, failed⟩
  · exact .inl ⟨e, Scan.parse_iff_derives.mpr (parse_eq_ok_iff.mp parsed)⟩
  · exact .inr ⟨expected, parse_eq_error_iff.mp failed⟩

theorem listTokens_of_check_lexical {options : CheckOptions} {expression : String}
    {error : LexError} (failed : check options expression = .error (.parse (.lexical error)))
    (pretty : Bool) : listTokens pretty expression = .error (.lexical error) := by
  unfold check at failed
  unfold listTokens
  cases parsed : parse (Text.trimLineEnds expression) with
  | ok e => simp [parsed] at failed
  | error failure =>
    simp only [parsed, Except.error.injEq, CommandError.parse.injEq] at failed
    subst failed
    rw [tokenize_of_parse_lexical parsed]

/-- A parse, which reads tokens as it goes, gives the lexical error of the whole text or stops in
    front of it. It gives it at least where the text before the error is an expression, or the start
    of one. -/
theorem parse_agrees_with_tokenize (text : String) :
    (∀ error, parse text = .error (.lexical error) → tokenize text = .error error) ∧
    (∀ error, tokenize text = .error error →
      (∃ failure, parse text = .error failure ∧
        (failure = .lexical error ∨ ∀ other, failure ≠ .lexical other)) ∧
      ((∃ e, parse (String.ofList (text.toList.take error.position)) = .ok e) ∨
          (∃ expected, parse (String.ofList (text.toList.take error.position)) =
            .error (.unexpectedEnd expected)) →
        parse text = .error (.lexical error))) ∧
    (∀ e, parse text = .ok e → ∃ tokens, tokenize text = .ok tokens) ∧
    ∀ options pretty error, check options text = .error (.parse (.lexical error)) →
      listTokens pretty text = .error (.lexical error) := by
  refine ⟨fun error => tokenize_of_parse_lexical, fun error faulty => ?_, fun e parsed => ?_,
    fun options pretty error failed => listTokens_of_check_lexical failed pretty⟩
  · exact ⟨exists_parse_error faulty, parse_lexical_of_cut faulty⟩
  · obtain ⟨fine, -⟩ := parse_eq_ok_iff.mp parsed
    exact ⟨_, Scan.toExcept_eq_ok_iff.mpr ⟨fine, rfl⟩⟩

theorem parse_agrees_with_tokenize_element :
    let error : LexError := ⟨.unexpectedCharacter, '#', 14⟩
    parse "tags has ['a'," = .error (.unexpectedEnd .arrayElement) ∧
      tokenize "tags has ['a',#]" = .error error ∧
      parse "tags has ['a',#]" = .error (.lexical error) ∧
      check {} "tags has ['a',#]" = .error (.parse (.lexical error)) ∧
      listTokens true "tags has ['a',#]" = .error (.lexical error) :=
  have cut : parse "tags has ['a'," = .error (.unexpectedEnd .arrayElement) := by cbv
  have faulty : tokenize "tags has ['a',#]" = .error ⟨.unexpectedCharacter, '#', 14⟩ := by cbv
  have agrees := parse_agrees_with_tokenize "tags has ['a',#]"
  have parsed := (agrees.2.1 _ faulty).2 (.inr ⟨_, cut⟩)
  have checked : check {} "tags has ['a',#]" =
      .error (.parse (.lexical ⟨.unexpectedCharacter, '#', 14⟩)) := by cbv
  ⟨cut, faulty, parsed, checked, agrees.2.2.2 {} true _ checked⟩

end FilterLang
