import FilterLang.Proofs.Token.Respelled

namespace FilterLang

def Token.shift (distance : Nat) (token : Token) : Token :=
  { token with position := token.position + distance }

def LexError.shift (distance : Nat) (error : LexError) : LexError :=
  { error with position := error.position + distance }

def Scan.shift (distance : Nat) (scan : Scan) : Scan :=
  ⟨scan.tokens.map (Token.shift distance), scan.error.map (LexError.shift distance)⟩

theorem Token.alike_shift (distance : Nat) (tokens : List Token) :
    List.Forall₂ Token.Alike tokens (tokens.map (shift distance)) := by
  induction tokens with
  | nil => exact .nil
  | cons token tokens ih => exact .cons ⟨rfl, fun _ => rfl⟩ ih

/-- Where a text starts matters to positions only. -/
theorem Munches.shift {text : List Char} {offset : Nat} {scan : Scan}
    (munches : Munches text offset scan) (distance : Nat) :
    Munches text (offset + distance) (scan.shift distance) := by
  induction munches with
  | ending blank => exact .ending blank
  | @token blanks lexeme after offset kind scan blank longest _ ih =>
    have place : offset + blanks.length + distance = offset + distance + blanks.length := by omega
    have further : offset + blanks.length + lexeme.length + distance =
        offset + distance + blanks.length + lexeme.length := by omega
    rw [further] at ih
    have taken := Munches.token blank longest ih
    rwa [← place] at taken
  | @unterminated blanks rest quote offset blank isQuote absent =>
    have place : offset + distance + blanks.length = offset + blanks.length + distance := by omega
    have failed : Munches (blanks ++ quote :: rest) (offset + distance) _ :=
      .unterminated blank isQuote absent
    rwa [place] at failed
  | @unexpected blanks rest c offset blank unexpected =>
    have place : offset + distance + blanks.length = offset + blanks.length + distance := by omega
    have failed : Munches (blanks ++ c :: rest) (offset + distance) _ :=
      .unexpected blank unexpected
    rwa [place] at failed

theorem Lexer.scan_shift (text : List Char) (offset distance : Nat) :
    scan ⟨text, offset + distance⟩ = (scan ⟨text, offset⟩).shift distance :=
  ((munches_scan text offset).shift distance).scan_eq

theorem Text.HeadNot.takeWhile_append {p : Char → Bool} {after : List Char}
    (ends : HeadNot p after) (text : List Char) :
    (text ++ after).takeWhile p = text.takeWhile p := by
  rw [List.takeWhile_append, ends.takeWhile_eq_nil, List.append_nil]
  split
  · next all => exact ((List.takeWhile_prefix p).eq_of_length all).symm
  · rfl

namespace Token

variable {blanks text more : List Char}

/-- The first word of a text is the same in front of a character that is no part of a word. -/
theorem inSuffix?_append (ends : Text.HeadNot Text.isWord more)
    (visible : text.dropWhile Text.isBlank ≠ []) :
    inSuffix? (text ++ more) = inSuffix? text := by
  have split := List.takeWhile_append_dropWhile (p := Text.isBlank) (l := text)
  have blank : ∀ c ∈ text.takeWhile Text.isBlank, Text.isBlank c = true :=
    fun c => List.mem_takeWhile_imp
  have body := Text.headNot_dropWhile Text.isBlank text
  generalize text.takeWhile Text.isBlank = blanks at split blank
  generalize text.dropWhile Text.isBlank = word at split body visible
  subst split
  unfold inSuffix?
  rw [List.append_assoc, Text.takeWhile_run blank (body.append visible),
    Text.dropWhile_run blank (body.append visible), Text.takeWhile_run blank body,
    Text.dropWhile_run blank body, ends.takeWhile_append]

theorem inSuffix?_blanks_append (blank : ∀ c ∈ blanks, Text.isBlank c = true)
    (ends : Text.HeadNot Text.isWord more) (noIn : inSuffix? more = none) :
    inSuffix? (blanks ++ more) = none := by
  unfold inSuffix? at noIn ⊢
  rw [List.takeWhile_append_of_pos blank, List.dropWhile_append_of_pos blank]
  by_cases start : more.takeWhile Text.isBlank = []
  · -- Where `more` does not start with a blank, it does not start with a word either.
    have all := List.takeWhile_append_dropWhile (p := Text.isBlank) (l := more)
    rw [start, List.nil_append] at all
    rw [all, ends.takeWhile_eq_nil]
    simp [Text.lower]
  · simp_all

end Token

/-- Where no `in` comes next in a text with tokens, none does in front of another text that breaks
    it off. -/
theorem Munches.inSuffix?_append {text more : List Char} {offset : Nat} {scan : Scan}
    (munches : Munches text offset scan) (fine : scan.error = none) (read : scan.tokens ≠ [])
    (ends : Text.HeadNot Text.isWord more) (noIn : Token.inSuffix? text = none) :
    Token.inSuffix? (text ++ more) = none := by
  cases munches with
  | ending => exact absurd rfl read
  | @token blanks lexeme after _ _ _ between longest _ =>
    have visible : (blanks ++ (lexeme ++ after)).dropWhile Text.isBlank ≠ [] := by
      rw [Text.dropWhile_run between (longest.headNot_isBlank after)]
      simp [longest.nonempty]
    rw [Token.inSuffix?_append ends visible, noIn]
  | unterminated | unexpected => cases fine

theorem Munches.blanks_of_nil {text : List Char} {offset : Nat} {scan : Scan}
    (munches : Munches text offset scan) (fine : scan.error = none) (nothing : scan.tokens = []) :
    ∀ c ∈ text, Text.isBlank c = true := by
  cases munches with
  | ending blank => exact blank
  | token => cases nothing
  | unterminated | unexpected => cases fine

/-- In front of a text that breaks off the lexemes, all tokens but the last one are read as if the
    text with them stood alone. -/
theorem Munches.scan_append_last {text : List Char} {offset : Nat} {scan : Scan}
    {tokens : List Token} {last : Token} (munches : Munches text offset scan)
    (fine : scan.error = none) (split : scan.tokens = tokens ++ [last]) :
    ∃ start lexeme blanks, text = start ++ (lexeme ++ blanks) ∧
      last = ⟨last.kind, String.ofList lexeme, offset + start.length⟩ ∧
      Token.Lexeme last.kind lexeme blanks ∧ (∀ c ∈ blanks, Text.isBlank c = true) ∧
      ∀ more, Text.Breaks more → Lexer.scan ⟨text ++ more, offset⟩ =
        (Lexer.scan ⟨lexeme ++ (blanks ++ more), offset + start.length⟩).prepend tokens := by
  induction munches generalizing tokens with
  | ending => cases tokens <;> cases split
  | @token blanks lexeme after offset kind scan between longest munches ih =>
    cases tokens with
    | nil =>
      obtain ⟨rfl, nothing⟩ := List.cons.inj split
      refine ⟨blanks, lexeme, after, rfl, rfl, longest, munches.blanks_of_nil fine nothing,
        fun more _ => ?_⟩
      rw [List.append_assoc, List.append_assoc, Lexer.scan_of_blanks between]
      rfl
    | cons token tokens =>
      obtain ⟨rfl, others⟩ := List.cons.inj split
      obtain ⟨start, word, ending, rfl, same, last, blank, behind⟩ := ih fine others
      have place : offset + blanks.length + lexeme.length + start.length =
          offset + (blanks ++ (lexeme ++ start)).length := by
        simp only [List.length_append]
        omega
      rw [place] at same behind
      refine ⟨blanks ++ (lexeme ++ start), word, ending, by simp, same, last, blank,
        fun more breaks => ?_⟩
      -- Only a `not` looks further than the next character, and it finds the next token there.
      have extended : Token.Lexeme kind lexeme ((start ++ (word ++ ending)) ++ more) := by
        refine longest.transfer (breaks.endsAs_append _) fun isName isNot => ?_
        subst isName
        have alone := Token.inSuffix?_eq_none_iff.mpr (longest.of_identifier.2.2.2 isNot)
        exact munches.inSuffix?_append fine (by simp [others]) breaks.word alone
      rw [List.append_assoc, List.append_assoc, Lexer.scan_of_blanks between,
        Lexer.scan_of_lexeme _ extended, behind more breaks, Scan.prepend_prepend]
      rfl
  | unterminated | unexpected => cases fine

/-- A text in front of another one that breaks off its lexemes is read as if it stood alone, unless
    it ends in a `not` that finds an `in`. -/
theorem Munches.scan_append {text more : List Char} {offset : Nat} {scan : Scan}
    (munches : Munches text offset scan) (fine : scan.error = none) (breaks : Text.Breaks more)
    (noIn : ∀ token ∈ scan.tokens.getLast?, token.kind = .identifier →
      Text.lower token.text.toList = ['n', 'o', 't'] → Token.inSuffix? more = none) :
    Lexer.scan ⟨text ++ more, offset⟩ =
      (Lexer.scan ⟨more, offset + text.length⟩).prepend scan.tokens := by
  rcases List.eq_nil_or_concat scan.tokens with nothing | ⟨tokens, last, split⟩
  · rw [nothing, Lexer.scan_of_blanks (munches.blanks_of_nil fine nothing)]
    rfl
  · rw [List.concat_eq_append] at split
    obtain ⟨start, lexeme, blanks, rfl, same, longest, blank, behind⟩ :=
      munches.scan_append_last fine split
    have text : last.text.toList = lexeme := by
      rw [same]
      exact String.toList_ofList
    have extended : Token.Lexeme last.kind lexeme (blanks ++ more) := by
      refine longest.transfer (breaks.endsAs_append blanks) fun isName isNot => ?_
      refine Token.inSuffix?_blanks_append blank breaks.word (noIn last ?_ isName ?_)
      · simp [split]
      · rwa [text]
    have place : offset + (start ++ (lexeme ++ blanks)).length =
        offset + start.length + lexeme.length + blanks.length := by
      simp only [List.length_append]
      omega
    rw [behind more breaks, Lexer.scan_of_lexeme _ extended, Lexer.scan_of_blanks blank, split,
      place, Scan.prepend_prepend, ← same]

end FilterLang
