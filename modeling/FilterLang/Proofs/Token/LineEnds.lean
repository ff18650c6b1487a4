import FilterLang.Proofs.Token.Seam
import FilterLang.Expr.Parser

namespace FilterLang

theorem Token.inSuffix?_append_blanks {text blanks : List Char}
    (blank : ∀ c ∈ blanks, Text.isBlank c = true) :
    inSuffix? (text ++ blanks) = inSuffix? text := by
  by_cases visible : text.dropWhile Text.isBlank = []
  · have all : ∀ c ∈ text, Text.isBlank c = true := List.dropWhile_eq_nil_iff.mp visible
    rw [inSuffix?_of_blanks all, inSuffix?_of_blanks (List.forall_mem_append.mpr ⟨all, blank⟩)]
  · have start : Text.HeadBlank blanks := fun c first => blank c (List.mem_of_head? first)
    exact inSuffix?_append start.headNot_isWord visible

/-- Blanks behind a text change nothing of what is read, nor the error that ends it. -/
theorem Munches.append_blanks {text blanks : List Char} {offset : Nat} {scan : Scan}
    (munches : Munches text offset scan) (blank : ∀ c ∈ blanks, Text.isBlank c = true) :
    Munches (text ++ blanks) offset scan := by
  have start : Text.HeadBlank blanks := fun c first => blank c (List.mem_of_head? first)
  induction munches with
  | ending before => exact .ending (List.forall_mem_append.mpr ⟨before, blank⟩)
  | @token between lexeme after offset kind scan before longest _ ih =>
    have extended : Token.Lexeme kind lexeme (after ++ blanks) := by
      refine longest.transfer (start.breaks.endsAs_append after) fun isName isNot => ?_
      -- A `not` looks past the blanks behind it, where no more than blanks are added.
      subst isName
      rw [Token.inSuffix?_append_blanks blank]
      exact Token.inSuffix?_eq_none_iff.mpr (longest.of_identifier.2.2.2 isNot)
    rw [List.append_assoc, List.append_assoc]
    exact .token before extended ih
  | @unterminated between rest quote offset before isQuote absent =>
    rw [List.append_assoc, List.cons_append]
    refine .unterminated before isQuote fun member => ?_
    rcases List.mem_append.mp member with inside | behind
    · exact absent inside
    · have := blank quote behind
      rcases isQuote with rfl | rfl <;> cases this
  | @unexpected between rest c offset before unexpected =>
    rw [List.append_assoc, List.cons_append]
    refine .unexpected before { unexpected with alone := fun equals first => ?_ }
    cases rest with
    | nil => cases start '=' first
    | cons d rest => exact unexpected.alone equals first

/-- Blanks behind a text matter to nothing. -/
theorem Scan.ofText_trailing {blanks : String}
    (blank : ∀ c ∈ blanks.toList, Text.isBlank c = true) (text : String) :
    ofText (text ++ blanks) = ofText text := by
  have munches := (Lexer.munches_scan text.toList 0).append_blanks blank
  rw [← String.toList_append] at munches
  exact munches.scan_eq

theorem parse_trailing {blanks : String} (blank : ∀ c ∈ blanks.toList, Text.isBlank c = true)
    (text : String) : parse (text ++ blanks) = parse text := by
  rw [parse, Scan.ofText_trailing blank, parse]

theorem tokenize_trailing {blanks : String} (blank : ∀ c ∈ blanks.toList, Text.isBlank c = true)
    (text : String) : tokenize (text ++ blanks) = tokenize text := by
  rw [tokenize, Scan.ofText_trailing blank, tokenize]

theorem Text.exists_lineEnds (text : String) :
    ∃ ends : String, trimLineEnds text ++ ends = text ∧ ∀ c ∈ ends.toList, isBlank c = true := by
  let isEnd (c : Char) : Bool := c == '\r' || c == '\n'
  refine ⟨String.ofList (text.toList.reverse.takeWhile isEnd).reverse, ?_, fun c member => ?_⟩
  · rw [trimLineEnds, ← String.ofList_append, ← List.reverse_append,
      List.takeWhile_append_dropWhile, List.reverse_reverse, String.ofList_toList]
  · rw [String.toList_ofList, List.mem_reverse] at member
    have line : isEnd c = true := List.mem_takeWhile_imp member
    obtain rfl | rfl : c = '\r' ∨ c = '\n' := by simpa [isEnd] using line
    all_goals rfl

theorem Scan.ofText_trimLineEnds (text : String) :
    ofText (Text.trimLineEnds text) = ofText text := by
  obtain ⟨ends, split, blank⟩ := Text.exists_lineEnds text
  have trimmed := ofText_trailing blank (Text.trimLineEnds text)
  rw [split] at trimmed
  exact trimmed.symm

theorem parse_trimLineEnds (text : String) : parse (Text.trimLineEnds text) = parse text := by
  rw [parse, Scan.ofText_trimLineEnds, parse]

theorem tokenize_trimLineEnds (text : String) :
    tokenize (Text.trimLineEnds text) = tokenize text := by
  rw [tokenize, Scan.ofText_trimLineEnds, tokenize]

end FilterLang
