import FilterLang.Proofs.Descent.Progress
import FilterLang.Proofs.Grammar.LexicalErrors
import FilterLang.Proofs.Token.Truncated

namespace FilterLang

namespace Scan

variable {scan : Scan}

/-- Where the input goes on behind an expression, the tokens before are one. -/
theorem parse_of_trailing {found : Token} {unread : List Token}
    (failed : scan.parse = .error ⟨.trailingInput found, unread⟩) :
    ∃ before e, scan.tokens = before ++ found :: unread ∧ Scan.parse ⟨before, none⟩ = .ok e := by
  rcases scan.ready_or_empty with ready | ⟨error, rfl⟩
  · rw [parse_eq_map scan ready] at failed
    cases read : outcome (Parser.expression scan.error maxNesting scan.tokens) with
    | error failure =>
      have inner := inner_of_expression ready read
      rw [read] at failed
      cases failed
      exact inner.elim
    | ok result =>
      obtain ⟨e, rest⟩ := result
      rw [read] at failed
      cases rest with
      | nil => cases failed
      | cons token rest =>
        cases failed
        obtain ⟨-, before, split, derives⟩ := Parser.expression_reads maxNesting read
        exact ⟨before, e, split, parse_iff_derives.mpr ⟨rfl, derives⟩⟩
  · cases failed

end Scan

/-- What follows a complete expression is blamed for it: the text before is an expression of its
    own. -/
theorem parse_take_of_trailingInput {text : String} {found : Token}
    (failed : parse text = .error (.trailingInput found)) :
    let start := String.ofList (text.toList.take found.position)
    (found.text ≠ "" ∧
      (text.toList.drop found.position).take found.text.length = found.text.toList) ∧
      ∃ before unread e, (Scan.ofText text).tokens = before ++ found :: unread ∧
        tokenize start = .ok before ∧ parse start = .ok e := by
  intro start
  obtain ⟨unread, failed⟩ := parse_eq_error_iff.mp failed
  obtain ⟨before, e, split, parsed⟩ := Scan.parse_of_trailing failed
  have munches := Lexer.munches_scan text.toList 0
  have lies := munches.liesIn [] rfl
  have member : found ∈ (Scan.ofText text).tokens := by simp [split]
  have cut : Scan.ofText start = ⟨before, none⟩ := by
    rw [Scan.ofText, Lexer.ofText, String.toList_ofList]
    exact (munches.takeBefore split).scan_eq
  refine ⟨⟨lies.nonempty found member, lies.slice found member⟩, before, unread, e, split, ?_, ?_⟩
  · rw [tokenize, cut]
    rfl
  · rw [parse, cut, parsed]
    rfl

theorem parse_take_of_trailingInput_not :
    parse "a.b not c" = .error (.trailingInput ⟨.identifier, "not", 4⟩) ∧
      ("a.b not c".toList.drop 4).take 3 = ['n', 'o', 't'] ∧
      ∃ e, parse "a.b " = .ok e := by
  have failed : parse "a.b not c" = .error (.trailingInput ⟨.identifier, "not", 4⟩) := by cbv
  have start : String.ofList ("a.b not c".toList.take 4) = "a.b " := by cbv
  obtain ⟨⟨-, slice⟩, before, unread, e, -, -, parsed⟩ := parse_take_of_trailingInput failed
  rw [start] at parsed
  exact ⟨failed, slice, e, parsed⟩

end FilterLang
