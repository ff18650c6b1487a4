import FilterLang.Proofs.Token.Lexeme

namespace FilterLang.Token

theorem Kind.ofKeyword?_eq_none_iff {word : List Char} :
    Kind.ofKeyword? word = none ↔
      String.ofList (Text.lower word) ∉ operatorWords ∧ String.ofList word ∉ constantWords := by
  unfold Kind.ofKeyword? operatorWords constantWords
  split
  · simp_all
  · simp_all
  · simp_all
  · simp_all
  · simp_all
  · split <;> simp_all

theorem Kind.ofKeyword?_eq_some_iff {word : List Char} {kind : Kind} :
    Kind.ofKeyword? word = some kind ↔ IsKeyword word kind := by
  unfold Kind.ofKeyword? IsKeyword
  constructor
  · intro found
    split at found
    case h_6 => split at found <;> simp_all
    all_goals simp_all
  · rintro (operator | constant)
    · simp only [List.mem_cons, Prod.mk.injEq, List.not_mem_nil, or_false] at operator
      rcases operator with ⟨same, rfl⟩ | ⟨same, rfl⟩ | ⟨same, rfl⟩ | ⟨same, rfl⟩ | ⟨same, rfl⟩ <;>
        simp only [same]
    · simp only [List.mem_cons, Prod.mk.injEq, List.not_mem_nil, or_false] at constant
      rcases constant with ⟨same, rfl⟩ | ⟨same, rfl⟩ | ⟨same, rfl⟩
      all_goals
        have spelled := congrArg String.toList same
        rw [String.toList_ofList] at spelled
        subst word
        rfl

theorem Kind.not_isKeyword_iff {word : List Char} :
    (∀ kind, ¬ IsKeyword word kind) ↔ Kind.ofKeyword? word = none := by
  simp only [Option.eq_none_iff_forall_ne_some, ne_eq, Kind.ofKeyword?_eq_some_iff]

theorem Kind.ofKeyword?_not {word : List Char} (isNot : Text.lower word = ['n', 'o', 't']) :
    Kind.ofKeyword? word = none := by
  rw [Kind.ofKeyword?_eq_none_iff, isNot]
  refine ⟨by decide, fun constant => ?_⟩
  simp only [constantWords, List.mem_cons, List.not_mem_nil, or_false] at constant
  rcases constant with same | same | same
  all_goals
    have spelled := congrArg String.toList same
    rw [String.toList_ofList] at spelled
    subst word
    exact absurd isNot (by decide)

theorem inSuffix?_of_isInSuffix {suffix after : List Char} (isSuffix : IsInSuffix suffix after) :
    inSuffix? (suffix ++ after) = some suffix.length := by
  obtain ⟨⟨blanks, word, rfl, nonempty, blank, inside, spelled⟩, ends⟩ := isSuffix
  have two : word.length = 2 := by
    rw [← List.length_map (f := Char.toLower), ← Text.lower, spelled]
    rfl
  have start : Text.HeadNot Text.isBlank (word ++ after) := by
    cases word with
    | nil => exact absurd two (by decide)
    | cons c word =>
      exact Text.headNot_cons.mpr (Text.isBlank_eq_false_of_isWord (inside c (by simp)))
  unfold inSuffix?
  rw [List.append_assoc, Text.takeWhile_run blank start, Text.dropWhile_run blank start,
    Text.takeWhile_run inside ends]
  simp [nonempty, spelled, two]

theorem isInSuffix_of_inSuffix? {text : List Char} {length : Nat}
    (found : inSuffix? text = some length) :
    ∃ suffix after, text = suffix ++ after ∧ suffix.length = length ∧ IsInSuffix suffix after := by
  unfold inSuffix? at found
  dsimp only at found
  split at found
  · next both =>
    simp only [Bool.and_eq_true, Bool.not_eq_true', List.isEmpty_eq_false_iff, beq_iff_eq] at both
    obtain ⟨nonempty, spelled⟩ := both
    have two := congrArg List.length spelled
    simp only [Text.lower, List.length_map, List.length_cons, List.length_nil] at two
    cases found
    refine ⟨text.takeWhile Text.isBlank ++
      (text.dropWhile Text.isBlank).takeWhile Text.isWord,
      (text.dropWhile Text.isBlank).dropWhile Text.isWord, ?_, ?_, ?_⟩
    · rw [List.append_assoc, List.takeWhile_append_dropWhile, List.takeWhile_append_dropWhile]
    · rw [List.length_append, two]
    · exact ⟨⟨_, _, rfl, nonempty, fun c => List.mem_takeWhile_imp, fun c => List.mem_takeWhile_imp,
        spelled⟩, Text.headNot_dropWhile _ _⟩
  · cases found

theorem inSuffix?_eq_none_iff {text : List Char} :
    inSuffix? text = none ↔
      ∀ suffix rest, text = suffix ++ rest → ¬ IsInSuffix suffix rest := by
  constructor
  · rintro none suffix rest rfl isSuffix
    rw [inSuffix?_of_isInSuffix isSuffix] at none
    cases none
  · intro noSuffix
    cases found : inSuffix? text with
    | none => rfl
    | some length =>
      obtain ⟨suffix, after, split, _, isSuffix⟩ := isInSuffix_of_inSuffix? found
      exact absurd isSuffix (noSuffix suffix after split)

/-- Characters that are neither marks nor parts of symbols start strings, numbers and words. -/
theorem recognize_of_ordinary {head : Char} (rest : List Char)
    (ordinary : head ∉ [',', '.', '(', ')', '[', ']', '=', '!', '<', '>']) :
    recognize head rest =
      if head == '"' || head == '\'' then
        if (rest.takeWhile (· != head)).length < rest.length then
          .ok (.string, (rest.takeWhile (· != head)).length + 1)
        else .error .unterminatedString
      else if head.isDigit then
        .ok (.number, (rest.takeWhile Char.isDigit).length +
          fractionLength (rest.dropWhile Char.isDigit))
      else if Text.isWord head then
        .ok ((wordKind (head :: rest.takeWhile Text.isWord) (rest.dropWhile Text.isWord)).1,
          (rest.takeWhile Text.isWord).length +
            (wordKind (head :: rest.takeWhile Text.isWord) (rest.dropWhile Text.isWord)).2)
      else .error .unexpectedCharacter := by
  simp only [List.mem_cons, List.not_mem_nil, or_false, not_or] at ordinary
  unfold recognize
  split <;> first | (exfalso; simp_all; done) | rfl

theorem ordinary_of_isWord {head : Char} (word : Text.isWord head = true) :
    head ∉ [',', '.', '(', ')', '[', ']', '=', '!', '<', '>'] ∧
      (head == '"' || head == '\'') = false := by
  constructor
  · intro special
    simp only [List.mem_cons, List.not_mem_nil, or_false] at special
    rcases special with rfl | rfl | rfl | rfl | rfl | rfl | rfl | rfl | rfl | rfl <;>
      exact absurd word (by decide)
  · cases quote : head == '"' || head == '\'' with
    | false => rfl
    | true =>
      simp only [Bool.or_eq_true, beq_iff_eq] at quote
      rcases quote with rfl | rfl <;> exact absurd word (by decide)

theorem recognize_of_isWord {head : Char} (rest : List Char) (word : Text.isWord head = true)
    (notDigit : head.isDigit = false) :
    recognize head rest =
      .ok ((wordKind (head :: rest.takeWhile Text.isWord) (rest.dropWhile Text.isWord)).1,
        (rest.takeWhile Text.isWord).length +
          (wordKind (head :: rest.takeWhile Text.isWord) (rest.dropWhile Text.isWord)).2) := by
  obtain ⟨ordinary, noQuote⟩ := ordinary_of_isWord word
  simp [recognize_of_ordinary rest ordinary, noQuote, notDigit, word]

theorem recognize_of_isDigit {head : Char} (rest : List Char) (digit : head.isDigit = true) :
    recognize head rest =
      .ok (.number, (rest.takeWhile Char.isDigit).length +
        fractionLength (rest.dropWhile Char.isDigit)) := by
  obtain ⟨ordinary, noQuote⟩ := ordinary_of_isWord (Text.isWord_of_isDigit digit)
  simp [recognize_of_ordinary rest ordinary, noQuote, digit]

/-- A whole word in front of a text, with what a `not` takes from the text. -/
theorem recognize_of_word {head : Char} {tail after : List Char} (word : IsWord (head :: tail))
    (ends : Text.HeadNot Text.isWord after) :
    recognize head (tail ++ after) =
      .ok ((wordKind (head :: tail) after).1,
        tail.length + (wordKind (head :: tail) after).2) := by
  have inside : ∀ c ∈ tail, Text.isWord c = true :=
    fun c member => word.inside c (List.mem_cons_of_mem _ member)
  rw [recognize_of_isWord _ (word.inside head (by simp)) (Text.headNot_cons.mp word.start),
    Text.takeWhile_run inside ends, Text.dropWhile_run inside ends]

theorem fractionLength_of_headNot {after : List Char}
    (noFraction : ∀ rest, after = '.' :: rest → Text.HeadNot Char.isDigit rest) :
    fractionLength after = 0 := by
  unfold fractionLength
  split
  · next rest =>
    simp [(noFraction rest rfl).takeWhile_eq_nil]
  · rfl

theorem fractionLength_of_places {places after : List Char} (isPlaces : IsDigits places)
    (ends : Text.HeadNot Char.isDigit after) :
    fractionLength ('.' :: (places ++ after)) = places.length + 1 := by
  simp [fractionLength, Text.takeWhile_run isPlaces.inside ends, isPlaces.nonempty]

/-- A run of digits in front of a text that does not start with a digit. -/
theorem recognize_of_digits {head : Char} {tail after : List Char}
    (digits : IsDigits (head :: tail)) (ends : Text.HeadNot Char.isDigit after) :
    recognize head (tail ++ after) = .ok (.number, tail.length + fractionLength after) := by
  have inside : ∀ c ∈ tail, c.isDigit = true :=
    fun c member => digits.inside c (List.mem_cons_of_mem _ member)
  rw [recognize_of_isDigit _ (digits.inside head (by simp)), Text.takeWhile_run inside ends,
    Text.dropWhile_run inside ends]

theorem recognize_of_string {quote : Char} {body : List Char} (after : List Char)
    (isQuote : quote = '"' ∨ quote = '\'') (absent : quote ∉ body) :
    recognize quote (body ++ quote :: after) = .ok (.string, body.length + 1) := by
  have run : (body ++ quote :: after).takeWhile (· != quote) = body := by
    refine Text.takeWhile_run ?_ (by simp [Text.headNot_cons])
    intro c member
    simp only [bne_iff_ne, ne_eq]
    rintro rfl
    exact absent member
  have ordinary : quote ∉ [',', '.', '(', ')', '[', ']', '=', '!', '<', '>'] := by
    rcases isQuote with rfl | rfl <;> decide
  have isQuote : (quote == '"' || quote == '\'') = true := by simpa using isQuote
  rw [recognize_of_ordinary _ ordinary, run]
  simp [isQuote]

/-- A lexeme is recognized in front of the text that it is the longest lexeme for. -/
theorem recognize_of_lexeme {kind : Kind} {head : Char} {tail after : List Char}
    (lexeme : Lexeme kind (head :: tail) after) :
    recognize head (tail ++ after) = .ok (kind, tail.length) := by
  generalize whole : head :: tail = text at lexeme
  cases lexeme with
  | mark member =>
    cases whole
    simp only [marks, List.mem_cons, Prod.mk.injEq, List.not_mem_nil, or_false] at member
    rcases member with ⟨rfl, rfl⟩ | ⟨rfl, rfl⟩ | ⟨rfl, rfl⟩ | ⟨rfl, rfl⟩ | ⟨rfl, rfl⟩ | ⟨rfl, rfl⟩ <;>
      rfl
  | equality sign =>
    cases whole
    rcases sign with rfl | rfl <;> rfl
  | not noEqual =>
    cases whole
    simp [recognize, noEqual]
  | inclusive sign =>
    cases whole
    rcases sign with rfl | rfl <;> rfl
  | strict sign noEqual =>
    cases whole
    rcases sign with rfl | rfl <;> simp [recognize, noEqual]
  | string isQuote absent =>
    cases whole
    rw [List.append_assoc, List.singleton_append, recognize_of_string after isQuote absent]
    simp
  | whole digits ends noFraction =>
    subst whole
    rw [recognize_of_digits digits ends, fractionLength_of_headNot noFraction]
    rfl
  | @fraction digits places _ isDigits isPlaces ends =>
    cases digits with
    | nil => exact absurd rfl isDigits.nonempty
    | cons first digits =>
      rw [List.cons_append] at whole
      cases whole
      rw [List.append_assoc, List.cons_append,
        recognize_of_digits isDigits (Text.headNot_cons.mpr (by decide)),
        fractionLength_of_places isPlaces ends]
      simp
  | keyword word ends found =>
    subst whole
    rw [recognize_of_word word ends]
    simp [wordKind, Kind.ofKeyword?_eq_some_iff.mpr found]
  | identifier word ends noKeyword noSuffix =>
    subst whole
    rw [Kind.not_isKeyword_iff] at noKeyword
    rw [recognize_of_word word ends]
    by_cases isNot : Text.lower (head :: tail) = ['n', 'o', 't']
    · simp [wordKind, noKeyword, isNot, inSuffix?_eq_none_iff.mpr (noSuffix isNot)]
    · simp [wordKind, noKeyword, isNot]
  | @notIn word suffix _ isWord isNot isSuffix =>
    cases word with
    | nil => exact absurd rfl isWord.nonempty
    | cons first word =>
      rw [List.cons_append] at whole
      cases whole
      have ends : Text.HeadNot Text.isWord (suffix ++ after) := by
        obtain ⟨⟨blanks, _, rfl, nonempty, blank, _⟩, _⟩ := isSuffix
        cases blanks with
        | nil => contradiction
        | cons c blanks =>
          apply Text.headNot_cons.mpr
          cases isWord : Text.isWord c with
          | false => rfl
          | true =>
            have notBlank := Text.isBlank_eq_false_of_isWord isWord
            rw [blank c (by simp)] at notBlank
            cases notBlank
      rw [List.append_assoc, recognize_of_word isWord ends]
      simp [wordKind, Kind.ofKeyword?_not isNot, isNot, inSuffix?_of_isInSuffix isSuffix]

theorem lexeme_of_quote {quote : Char} {rest : List Char} (isQuote : quote = '"' ∨ quote = '\'')
    (closed : (rest.takeWhile (· != quote)).length < rest.length) :
    ∃ after, rest = rest.takeWhile (· != quote) ++ quote :: after ∧
      Lexeme .string (quote :: (rest.takeWhile (· != quote) ++ [quote])) after := by
  have split := List.takeWhile_append_dropWhile (p := (· != quote)) (l := rest)
  have absent : quote ∉ rest.takeWhile (· != quote) := by
    intro member
    simpa using List.mem_takeWhile_imp member
  cases found : rest.dropWhile (· != quote) with
  | nil =>
    rw [found, List.append_nil] at split
    rw [split] at closed
    exact absurd closed (Nat.lt_irrefl _)
  | cons c after =>
    have stopped := Text.headNot_dropWhile (· != quote) rest
    rw [found, Text.headNot_cons] at stopped
    have same : c = quote := by simpa using stopped
    rw [found, same] at split
    exact ⟨after, split.symm, .string isQuote absent⟩

theorem isDigits_takeWhile {head : Char} (rest : List Char) (digit : head.isDigit = true) :
    IsDigits (head :: rest.takeWhile Char.isDigit) := by
  refine ⟨by simp, fun c member => ?_⟩
  rcases List.mem_cons.mp member with rfl | member
  · exact digit
  · exact List.mem_takeWhile_imp member

/-- After the digits of a whole number comes a fraction or something that is none. -/
theorem lexeme_of_digits {digits after : List Char} (isDigits : IsDigits digits)
    (ends : Text.HeadNot Char.isDigit after) :
    ∃ places rest, after = places ++ rest ∧ fractionLength after = places.length ∧
      Lexeme .number (digits ++ places) rest := by
  unfold fractionLength
  split
  · next rest =>
    dsimp only
    split
    · next empty =>
      refine ⟨[], _, rfl, rfl, ?_⟩
      rw [List.append_nil]
      apply Lexeme.whole isDigits ends
      intro other same
      cases same
      have stopped := Text.headNot_dropWhile Char.isDigit rest
      have all := List.takeWhile_append_dropWhile (p := Char.isDigit) (l := rest)
      rw [List.isEmpty_iff.mp empty, List.nil_append] at all
      rwa [all] at stopped
    · next nonempty =>
      have isPlaces : IsDigits (rest.takeWhile Char.isDigit) :=
        ⟨by simpa using nonempty, fun c => List.mem_takeWhile_imp⟩
      refine ⟨'.' :: rest.takeWhile Char.isDigit, rest.dropWhile Char.isDigit, ?_, rfl, ?_⟩
      · rw [List.cons_append, List.takeWhile_append_dropWhile]
      · exact .fraction isDigits isPlaces (Text.headNot_dropWhile _ rest)
  · next noPoint =>
    refine ⟨[], after, rfl, rfl, ?_⟩
    rw [List.append_nil]
    exact .whole isDigits ends fun rest same => absurd same (noPoint rest)

theorem lexeme_of_wordKind {word after : List Char} (isWord : IsWord word)
    (ends : Text.HeadNot Text.isWord after) :
    ∃ suffix rest, after = suffix ++ rest ∧ (wordKind word after).2 = suffix.length ∧
      Lexeme (wordKind word after).1 (word ++ suffix) rest := by
  unfold wordKind
  cases found : Kind.ofKeyword? word with
  | some kind =>
    refine ⟨[], after, rfl, rfl, ?_⟩
    rw [List.append_nil]
    exact .keyword isWord ends (Kind.ofKeyword?_eq_some_iff.mp found)
  | none =>
    have noKeyword := Kind.not_isKeyword_iff.mpr found
    dsimp only
    split
    · next isNot =>
      have isNot : Text.lower word = ['n', 'o', 't'] := by simpa using isNot
      cases ahead : inSuffix? after with
      | some length =>
        obtain ⟨suffix, rest, rfl, same, isSuffix⟩ := isInSuffix_of_inSuffix? ahead
        exact ⟨suffix, rest, rfl, same.symm, .notIn isWord isNot isSuffix⟩
      | none =>
        refine ⟨[], after, rfl, rfl, ?_⟩
        rw [List.append_nil]
        exact .identifier isWord ends noKeyword fun _ => inSuffix?_eq_none_iff.mp ahead
    · next other =>
      refine ⟨[], after, rfl, rfl, ?_⟩
      rw [List.append_nil]
      exact .identifier isWord ends noKeyword fun isNot => absurd isNot (by simpa using other)

/-- The symbols that an equals sign may make longer. -/
theorem lexeme_of_symbol {head : Char} {rest : List Char} {kind : Kind} {length : Nat}
    (symbol : head ∈ ['=', '!', '<', '>'])
    (recognized : recognize head rest = .ok (kind, length)) :
    ∃ tail after, rest = tail ++ after ∧ length = tail.length ∧
      Lexeme kind (head :: tail) after := by
  simp only [List.mem_cons, List.not_mem_nil, or_false] at symbol
  by_cases longer : rest.head? = some '='
  · obtain ⟨after, rfl⟩ := List.head?_eq_some_iff.mp longer
    refine ⟨['='], after, rfl, ?_⟩
    rcases symbol with rfl | rfl | rfl | rfl <;> cases recognized
    · exact ⟨rfl, .equality (by decide)⟩
    · exact ⟨rfl, .equality (by decide)⟩
    · exact ⟨rfl, .inclusive (by decide)⟩
    · exact ⟨rfl, .inclusive (by decide)⟩
  · refine ⟨[], rest, rfl, ?_⟩
    rcases symbol with rfl | rfl | rfl | rfl <;> simp [recognize, longer] at recognized <;>
      obtain ⟨rfl, rfl⟩ := recognized
    · exact ⟨rfl, .not longer⟩
    · exact ⟨rfl, .strict (by decide) longer⟩
    · exact ⟨rfl, .strict (by decide) longer⟩

/-- What is recognized at the start of a text is its longest lexeme. -/
theorem lexeme_of_recognize {head : Char} {rest : List Char} {kind : Kind} {length : Nat}
    (recognized : recognize head rest = .ok (kind, length)) :
    ∃ tail after, rest = tail ++ after ∧ length = tail.length ∧
      Lexeme kind (head :: tail) after := by
  by_cases ordinary : head ∉ [',', '.', '(', ')', '[', ']', '=', '!', '<', '>']
  · rw [recognize_of_ordinary rest ordinary] at recognized
    split at recognized
    · next isQuote =>
      split at recognized
      · next closed =>
        cases recognized
        obtain ⟨after, whole, lexeme⟩ := lexeme_of_quote (by simpa using isQuote) closed
        exact ⟨_ ++ [head], after, by simpa using whole, by simp, lexeme⟩
      · cases recognized
    split at recognized
    · next digit =>
      cases recognized
      obtain ⟨places, after, whole, same, lexeme⟩ :=
        lexeme_of_digits (isDigits_takeWhile rest digit) (Text.headNot_dropWhile _ rest)
      refine ⟨rest.takeWhile Char.isDigit ++ places, after, ?_, by simp [same], lexeme⟩
      rw [List.append_assoc, ← whole, List.takeWhile_append_dropWhile]
    split at recognized
    · next notDigit word =>
      cases recognized
      have isWord : IsWord (head :: rest.takeWhile Text.isWord) := by
        refine ⟨by simp, fun c member => ?_, Text.headNot_cons.mpr (by simpa using notDigit)⟩
        rcases List.mem_cons.mp member with rfl | member
        · exact word
        · exact List.mem_takeWhile_imp member
      obtain ⟨suffix, after, whole, same, lexeme⟩ :=
        lexeme_of_wordKind isWord (Text.headNot_dropWhile _ rest)
      refine ⟨rest.takeWhile Text.isWord ++ suffix, after, ?_, by simp [same], lexeme⟩
      rw [List.append_assoc, ← whole, List.takeWhile_append_dropWhile]
    · cases recognized
  · simp only [List.mem_cons, List.not_mem_nil, or_false, Classical.not_not] at ordinary
    rcases ordinary with rfl | rfl | rfl | rfl | rfl | rfl | symbol
    iterate 6
      · cases recognized
        exact ⟨[], rest, rfl, rfl, .mark (by decide)⟩
    · exact lexeme_of_symbol (by simpa using symbol) recognized

end FilterLang.Token
