import FilterLang.Proofs.Token.Scanning

namespace FilterLang

namespace Token

structure IsUnexpected (c : Char) (rest : List Char) : Prop where
  notBlank : Text.isBlank c = false
  notMark : c ∉ marks.map Prod.fst
  notSymbol : c ≠ '!' ∧ c ≠ '<' ∧ c ≠ '>'
  alone : c = '=' → rest.head? ≠ some '='
  notQuote : c ≠ '"' ∧ c ≠ '\''
  notWord : Text.isWord c = false

end Token

/-- A text from an offset on, cut into its longest lexemes one after the other, up to its end or to
    the first place where there is none. -/
inductive Munches : (text : List Char) → (offset : Nat) → Scan → Prop where
  | ending {blanks : List Char} {offset : Nat} :
      (∀ c ∈ blanks, Text.isBlank c = true) → Munches blanks offset ⟨[], none⟩
  | token {blanks lexeme after : List Char} {offset : Nat} {kind : Token.Kind} {scan : Scan} :
      (∀ c ∈ blanks, Text.isBlank c = true) → Token.Lexeme kind lexeme after →
      Munches after (offset + blanks.length + lexeme.length) scan →
      Munches (blanks ++ (lexeme ++ after)) offset
        (scan.cons ⟨kind, String.ofList lexeme, offset + blanks.length⟩)
  | unterminated {blanks rest : List Char} {quote : Char} {offset : Nat} :
      (∀ c ∈ blanks, Text.isBlank c = true) → quote = '"' ∨ quote = '\'' → quote ∉ rest →
      Munches (blanks ++ quote :: rest) offset
        ⟨[], some ⟨.unterminatedString, quote, offset + blanks.length⟩⟩
  | unexpected {blanks rest : List Char} {c : Char} {offset : Nat} :
      (∀ c ∈ blanks, Text.isBlank c = true) → Token.IsUnexpected c rest →
      Munches (blanks ++ c :: rest) offset
        ⟨[], some ⟨.unexpectedCharacter, c, offset + blanks.length⟩⟩

namespace Token

theorem length_takeWhile_ne_lt_iff {c : Char} {rest : List Char} :
    (rest.takeWhile (· != c)).length < rest.length ↔ c ∈ rest := by
  have all : rest.takeWhile (· != c) = rest ↔ c ∉ rest := by
    rw [List.takeWhile_eq_self_iff]
    constructor
    · intro other member
      simpa using other c member
    · intro absent d member
      simp only [bne_iff_ne, ne_eq]
      rintro rfl
      exact absent member
  have run := List.takeWhile_prefix (l := rest) (· != c)
  constructor
  · intro short
    by_contra absent
    rw [all.mpr absent] at short
    exact Nat.lt_irrefl _ short
  · intro member
    refine Nat.lt_of_le_of_ne run.length_le fun same => ?_
    exact all.mp (run.eq_of_length same) member

theorem recognize_eq_unterminatedString_iff {head : Char} {rest : List Char} :
    recognize head rest = .error .unterminatedString ↔
      (head = '"' ∨ head = '\'') ∧ head ∉ rest := by
  by_cases ordinary : head ∈ [',', '.', '(', ')', '[', ']', '=', '!', '<', '>']
  · simp only [List.mem_cons, List.not_mem_nil, or_false] at ordinary
    rcases ordinary with rfl | rfl | rfl | rfl | rfl | rfl | rfl | rfl | rfl | rfl
    case inr.inr.inr.inr.inr.inr.inl =>
      by_cases more : rest.head? = some '=' <;> simp [recognize, more]
    all_goals simp [recognize]
  · rw [recognize_of_ordinary rest ordinary]
    simp only [length_takeWhile_ne_lt_iff]
    by_cases quote : head = '"' ∨ head = '\''
    · have isQuote : (head == '"' || head == '\'') = true := by simpa using quote
      by_cases closed : head ∈ rest <;> simp [isQuote, quote, closed]
    · have noQuote : (head == '"' || head == '\'') = false := by simpa using quote
      simp only [noQuote, quote, false_and, iff_false]
      repeat' split
      all_goals simp_all

theorem isUnexpected_equals_iff {rest : List Char} :
    IsUnexpected '=' rest ↔ rest.head? ≠ some '=' := by
  constructor
  · intro unexpected
    exact unexpected.alone rfl
  · intro alone
    exact ⟨by decide, by decide, by decide, fun _ => alone, by decide, by decide⟩

theorem isUnexpected_iff_of_ordinary {c : Char} {rest : List Char}
    (ordinary : c ∉ [',', '.', '(', ')', '[', ']', '=', '!', '<', '>'])
    (notBlank : Text.isBlank c = false) :
    IsUnexpected c rest ↔ (c == '"' || c == '\'') = false ∧ Text.isWord c = false := by
  simp only [List.mem_cons, List.not_mem_nil, or_false, not_or] at ordinary
  constructor
  · intro unexpected
    exact ⟨by simpa using unexpected.notQuote, unexpected.notWord⟩
  · rintro ⟨noQuote, noWord⟩
    refine ⟨notBlank, ?_, ?_, fun equals => ?_, by simpa using noQuote, noWord⟩
    · simp [marks, ordinary]
    · simp [ordinary]
    · simp [equals] at ordinary

theorem recognize_eq_unexpectedCharacter_iff {head : Char} {rest : List Char}
    (notBlank : Text.isBlank head = false) :
    recognize head rest = .error .unexpectedCharacter ↔ IsUnexpected head rest := by
  by_cases ordinary : head ∈ [',', '.', '(', ')', '[', ']', '=', '!', '<', '>']
  · simp only [List.mem_cons, List.not_mem_nil, or_false] at ordinary
    rcases ordinary with mark | mark | mark | mark | mark | mark | rfl | symbol
    case inr.inr.inr.inr.inr.inr.inl =>
      rw [isUnexpected_equals_iff]
      by_cases more : rest.head? = some '=' <;> simp [recognize, more]
    case inr.inr.inr.inr.inr.inr.inr =>
      refine ⟨fun failed => ?_, fun unexpected => ?_⟩
      · rcases symbol with rfl | rfl | rfl <;> cases failed
      · obtain ⟨noBang, noLess, noGreater⟩ := unexpected.notSymbol
        rcases symbol with same | same | same <;> contradiction
    all_goals
      subst mark
      constructor
      · intro failed
        cases failed
      · intro unexpected
        exact absurd (by decide) unexpected.notMark
  · rw [recognize_of_ordinary rest ordinary, isUnexpected_iff_of_ordinary ordinary notBlank]
    cases quote : head == '"' || head == '\'' with
    | true =>
      rw [if_pos rfl]
      split <;> simp
    | false =>
      by_cases word : Text.isWord head = true
      · simp only [Bool.false_eq_true, if_false, word, if_true]
        split <;> simp
      · have noDigit : ¬ head.isDigit = true := fun digit => word (Text.isWord_of_isDigit digit)
        simp [word, noDigit]

end Token

namespace Lexer

theorem next_of_recognize_error {head : Char} {rest : List Char} {cause : LexError.Cause}
    (offset : Nat) (notBlank : Text.isBlank head = false)
    (failed : Token.recognize head rest = .error cause) :
    (next ⟨head :: rest, offset⟩).1 = .error ⟨cause, head, offset⟩ := by
  unfold next
  rw [skipBlanks_of_headNot offset (Text.headNot_cons.mpr notBlank)]
  simp only [failed]
  cases cause <;> rfl

theorem scan_of_recognize_error {head : Char} {rest : List Char} {cause : LexError.Cause}
    (offset : Nat) (notBlank : Text.isBlank head = false)
    (failed : Token.recognize head rest = .error cause) :
    scan ⟨head :: rest, offset⟩ = ⟨[], some ⟨cause, head, offset⟩⟩ := by
  have read := next_of_recognize_error offset notBlank failed
  cases found : next ⟨head :: rest, offset⟩ with
  | mk result after =>
    rw [found] at read
    subst read
    exact scan_of_error found

theorem munches_scan (text : List Char) (offset : Nat) :
    Munches text offset (scan ⟨text, offset⟩) := by
  induction size : text.length using Nat.strongRecOn generalizing text offset with
  | ind length ih =>
  have split := List.takeWhile_append_dropWhile (p := Text.isBlank) (l := text)
  have blank : ∀ c ∈ text.takeWhile Text.isBlank, Text.isBlank c = true :=
    fun c => List.mem_takeWhile_imp
  have start := Text.headNot_dropWhile Text.isBlank text
  generalize text.takeWhile Text.isBlank = blanks at split blank
  generalize text.dropWhile Text.isBlank = body at split start
  subst split
  rw [scan_of_blanks blank]
  cases body with
  | nil =>
    have done : next ⟨[], offset + blanks.length⟩ = (.ok none, ⟨[], offset + blanks.length⟩) := rfl
    rw [scan_of_end done, List.append_nil]
    exact .ending blank
  | cons head rest =>
    have notBlank := Text.headNot_cons.mp start
    cases recognized : Token.recognize head rest with
    | ok found =>
      obtain ⟨kind, taken⟩ := found
      obtain ⟨tail, after, rfl, -, lexeme⟩ := Token.lexeme_of_recognize recognized
      have shorter : after.length < length := by
        simp only [List.length_append, List.length_cons] at size
        omega
      rw [← List.cons_append, scan_of_lexeme _ lexeme]
      exact .token blank lexeme (ih after.length shorter after _ rfl)
    | error cause =>
      rw [scan_of_recognize_error _ notBlank recognized]
      cases cause with
      | unterminatedString =>
        obtain ⟨quote, absent⟩ := Token.recognize_eq_unterminatedString_iff.mp recognized
        exact .unterminated blank quote absent
      | unexpectedCharacter =>
        exact .unexpected blank
          ((Token.recognize_eq_unexpectedCharacter_iff notBlank).mp recognized)

end Lexer

/-- There is only one way to cut a text into its longest lexemes. -/
theorem Munches.scan_eq {text : List Char} {offset : Nat} {scan : Scan}
    (munches : Munches text offset scan) : Lexer.scan ⟨text, offset⟩ = scan := by
  induction munches with
  | @ending blanks offset blank =>
    have done : Lexer.next ⟨[], offset + blanks.length⟩ =
      (.ok none, ⟨[], offset + blanks.length⟩) := rfl
    have skipped := Lexer.scan_of_blanks blank [] offset
    rw [List.append_nil] at skipped
    rw [skipped, Lexer.scan_of_end done]
  | token blank lexeme _ ih =>
    rw [Lexer.scan_of_blanks blank, Lexer.scan_of_lexeme _ lexeme, ih]
    rfl
  | @unterminated _ _ c _ blank quote absent =>
    have notBlank : Text.isBlank c = false := by rcases quote with rfl | rfl <;> decide
    rw [Lexer.scan_of_blanks blank]
    exact Lexer.scan_of_recognize_error _ notBlank
      (Token.recognize_eq_unterminatedString_iff.mpr ⟨quote, absent⟩)
  | unexpected blank unexpected =>
    rw [Lexer.scan_of_blanks blank]
    exact Lexer.scan_of_recognize_error _ unexpected.notBlank
      ((Token.recognize_eq_unexpectedCharacter_iff unexpected.notBlank).mpr unexpected)

theorem munches_iff {text : List Char} {offset : Nat} {scan : Scan} :
    Munches text offset scan ↔ Lexer.scan ⟨text, offset⟩ = scan := by
  constructor
  · exact Munches.scan_eq
  · rintro rfl
    exact Lexer.munches_scan text offset

/-- Tokenizing is maximal munch: the tokens of a text before its end or its first error, and the
    error, are those of the one way to cut the text into its longest lexemes. -/
theorem tokenize_iff_munches (text : String) :
    (∀ scan, Scan.ofText text = scan ↔ Munches text.toList 0 scan) ∧
      (∀ tokens, tokenize text = .ok tokens ↔ Munches text.toList 0 ⟨tokens, none⟩) ∧
      (∀ error, tokenize text = .error error ↔
        ∃ tokens, Munches text.toList 0 ⟨tokens, some error⟩) := by
  have scanned : ∀ scan, Scan.ofText text = scan ↔ Munches text.toList 0 scan :=
    fun scan => munches_iff.symm
  refine ⟨scanned, fun tokens => ?_, fun error => ?_⟩
  · rw [← scanned, tokenize, Scan.toExcept_eq_ok_iff]
    generalize Scan.ofText text = scan
    cases scan
    simp [and_comm]
  · simp only [← scanned, tokenize, Scan.toExcept_eq_error_iff]
    generalize Scan.ofText text = scan
    cases scan
    simp

end FilterLang
