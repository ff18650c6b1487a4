import FilterLang.Command.Basic
import FilterLang.Proofs.Token.LineEnds

namespace FilterLang

/-- The line ends that are dropped make no difference. -/
theorem check_eq (options : CheckOptions) (expression : String) :
    check options expression = ((parse expression).map options.render).mapError .parse := by
  rw [check, parse_trimLineEnds]
  cases parse expression <;> rfl

theorem listTokens_eq (pretty : Bool) (expression : String) :
    listTokens pretty expression =
      ((tokenize expression).map fun tokens => (Token.listJson tokens).write pretty).mapError
        .lexical := by
  rw [listTokens, tokenize_trimLineEnds]
  cases tokenize expression <;> rfl

/-- Blanks at the end of a text change neither what is read from it nor the error if nothing is.
    So the commands, which drop the line ends of an expression, render what is read from it as it
    stands, and pass on its error. -/
theorem trailing_blanks_ignored (text : String) :
    (∀ blanks : String, (∀ c ∈ blanks.toList, Text.isBlank c = true) →
      parse (text ++ blanks) = parse text ∧ tokenize (text ++ blanks) = tokenize text) ∧
    (∀ options, check options text = ((parse text).map options.render).mapError .parse) ∧
    ∀ pretty, listTokens pretty text =
      ((tokenize text).map fun tokens => (Token.listJson tokens).write pretty).mapError
        .lexical := by
  refine ⟨fun blanks blank => ?_, fun options => ?_, fun pretty => ?_⟩
  · exact ⟨parse_trailing blank text, tokenize_trailing blank text⟩
  · exact check_eq options text
  · exact listTokens_eq pretty text

-- A `not` at the end looks for an `in` behind the blanks, and an open string takes them in.
theorem trailing_blanks_ignored_open :
    (∀ c ∈ " \t\r\n".toList, Text.isBlank c = true) ∧
      parse "a not \t\r\n" = .error (.trailingInput ⟨.identifier, "not", 2⟩) ∧
      tokenize "a 'not \t\r\n" = .error ⟨.unterminatedString, '\'', 2⟩ ∧
      check {} "a 'not\r\n" = .error (.parse (.lexical ⟨.unterminatedString, '\'', 2⟩)) ∧
      check { format := .source } "a\tor b\r\n" = .ok (.rendered "a or b") ∧
      listTokens false "!\n\n" =
        .ok "[\x7b\"kind\":\"NOT\",\"text\":\"!\",\"position\":0\x7d]" := by
  have blank : ∀ c ∈ " \t\r\n".toList, Text.isBlank c = true := by simp [Text.isBlank]
  have unread : parse "a not" = .error (.trailingInput ⟨.identifier, "not", 2⟩) := by cbv
  have unclosed : tokenize "a 'not" = .error ⟨.unterminatedString, '\'', 2⟩ := by cbv
  have failed : parse "a 'not\r\n" = .error (.lexical ⟨.unterminatedString, '\'', 2⟩) := by cbv
  have parsed : parse "a\tor b\r\n" =
      .ok (.binary .or (.identifier "a" false) (.identifier "b" false) false) := by cbv
  have read : tokenize "!\n\n" = .ok [⟨.not, "!", 0⟩] := by cbv
  refine ⟨blank, ?_, ?_, ?_, ?_, ?_⟩
  · exact ((trailing_blanks_ignored "a not").1 _ blank).1.trans unread
  · exact ((trailing_blanks_ignored "a 'not").1 _ blank).2.trans unclosed
  · rw [(trailing_blanks_ignored _).2.1, failed]
    rfl
  · rw [(trailing_blanks_ignored _).2.1, parsed]
    rfl
  · rw [(trailing_blanks_ignored _).2.2, read]
    cbv

end FilterLang
