import FilterLang.Proofs.Grammar.LexicalErrors
import FilterLang.Proofs.Token.Layout

namespace FilterLang

def ParseError.token? : ParseError → Option Token
  | unexpectedToken _ found | trailingInput found | invalidArrayElement found
  | invalidNumber found => some found
  | _ => none

namespace Scan

/-- What an error says of a source is so. A token that could not stand where it does is the last one
    that was read, and where more was expected, or the source has a fault, all tokens were read. -/
def Confirms (scan : Scan) : ParseError → Prop
  | .lexical error => scan.error = some error ∧ scan.consulted = scan.tokens
  | .unexpectedEnd _ => scan.error = none ∧ scan.consulted = scan.tokens
  | .unexpectedToken _ found | .trailingInput found | .invalidArrayElement found =>
    scan.consulted.getLast? = some found
  | .invalidNumber found => found ∈ scan.tokens ∧ found.kind = .number
  | .nestingTooDeep position => ∃ bracket ∈ scan.tokens, bracket.position = position ∧
    bracket.kind ∈ [.openParenthesis, .openBracket]
  | .invalidScalar kind => kind = .array
  | .invalidArray kind => kind ≠ .array ∧ kind ≠ .identifier
  | .scalarMemberAccess kind => kind ∈ [.number, .string, .boolean, .null]

variable {scan : Scan} {failure : Failure}

theorem consulted_of_error (failed : scan.parse = .error failure) {read : List Token}
    (split : scan.tokens = read ++ failure.unread) : scan.consulted = read := by
  simp [consulted, failed, split]

theorem consulted_prefix (scan : Scan) : scan.consulted <+: scan.tokens := by
  unfold consulted
  split
  · exact List.prefix_refl _
  · exact List.take_prefix _ _

theorem confirms_of_parse (failed : scan.parse = .error failure) :
    scan.Confirms failure.error := by
  obtain ⟨⟨read, split⟩, named⟩ := faithful_of_parse failed
  have all : failure.unread = [] → scan.consulted = scan.tokens := by
    intro none
    rw [consulted_of_error failed split.symm, ← split, none, List.append_nil]
  have last : ∀ found, found :: failure.unread <:+ scan.tokens →
      scan.consulted.getLast? = some found := by
    rintro found ⟨before, split⟩
    have read : scan.tokens = before ++ [found] ++ failure.unread := by simp [← split]
    rw [consulted_of_error failed read, List.getLast?_concat]
  obtain ⟨error, unread⟩ := failure
  cases error with
  | lexical error => exact ⟨named.1, all named.2⟩
  | unexpectedEnd expected => exact ⟨named.1, all named.2.1⟩
  | unexpectedToken expected found => exact last found named.1
  | trailingInput found | invalidArrayElement found => exact last found named
  | _ => exact named

theorem Confirms.mem_tokens {error : ParseError} (confirms : scan.Confirms error) {found : Token}
    (named : error.token? = some found) : found ∈ scan.tokens := by
  have read : scan.consulted.getLast? = some found → found ∈ scan.tokens := fun last =>
    scan.consulted_prefix.subset (List.mem_of_getLast? last)
  cases error with
  | unexpectedToken | trailingInput | invalidArrayElement =>
    cases named
    exact read confirms
  | invalidNumber =>
    cases named
    exact confirms.1
  | _ => cases named

end Scan

/-- Errors are faithful: what an error says of a text is so, and a token that it names is one of the
    text, with what stands at its position. -/
theorem confirms_of_parse_error {text : String} {error : ParseError}
    (failed : parse text = .error error) :
    (Scan.ofText text).Confirms error ∧
      (Scan.ofText text).consulted <+: (Scan.ofText text).tokens ∧
      ∀ found, error.token? = some found → found ∈ (Scan.ofText text).tokens ∧
        (text.toList.drop found.position).take found.text.length = found.text.toList := by
  obtain ⟨unread, failed⟩ := parse_eq_error_iff.mp failed
  have confirms := Scan.confirms_of_parse failed
  refine ⟨confirms, Scan.consulted_prefix _, fun found named => ?_⟩
  have member := confirms.mem_tokens named
  exact ⟨member, ((Lexer.munches_scan text.toList 0).liesIn [] rfl).slice found member⟩

theorem confirms_of_parse_error_element :
    let text := "a in ['é', b, (c)]"
    let found : Token := ⟨.openParenthesis, "(", 14⟩
    parse text = .error (.invalidArrayElement found) ∧
      (Scan.ofText text).consulted.getLast? = some found ∧
      found ∈ (Scan.ofText text).tokens ∧
        (text.toList.drop 14).take found.text.length = found.text.toList := by
  intro text found
  have failed : parse "a in ['é', b, (c)]" =
      .error (.invalidArrayElement ⟨.openParenthesis, "(", 14⟩) := by cbv
  obtain ⟨confirms, -, lies⟩ := confirms_of_parse_error failed
  exact ⟨failed, confirms, lies found rfl⟩

end FilterLang
