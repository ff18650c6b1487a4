import FilterLang.Proofs.Token.Seam
import FilterLang.Proofs.Token.Truncated

namespace FilterLang

theorem Token.not_apart_iff {first second : Token} :
    ¬ Apart first second ↔ first.kind = .identifier ∧
      Text.lower first.text.toList = ['n', 'o', 't'] ∧ second.kind = .isIn := by
  simp [Apart]

namespace Munches

variable {text more : List Char} {offset : Nat} {scan behind : Scan}
  {tokens others : List Token} {last next : Token}

/-- The first token of a text, and the characters it is made of. -/
theorem of_cons (munches : Munches text offset scan) (split : scan.tokens = next :: others) :
    ∃ blanks lexeme after, text = blanks ++ (lexeme ++ after) ∧
      next = ⟨next.kind, String.ofList lexeme, offset + blanks.length⟩ ∧
      Token.Lexeme next.kind lexeme after ∧ (∀ c ∈ blanks, Text.isBlank c = true) ∧
      Munches after (offset + blanks.length + lexeme.length) ⟨others, scan.error⟩ := by
  cases munches with
  | token blank longest munches =>
    obtain ⟨rfl, rfl⟩ := List.cons.inj split
    exact ⟨_, _, _, rfl, rfl, longest, blank, munches⟩
  | ending | unterminated | unexpected => cases split

/-- A `not` at the end of a text takes the `in` that another text starts with behind blanks. -/
theorem scan_not_in (munches : Munches text offset scan) (fine : scan.error = none)
    (split : scan.tokens = tokens ++ [last]) (blank : Text.HeadBlank more)
    (munches' : Munches more (offset + text.length) behind)
    (split' : behind.tokens = next :: others) (joins : ¬ Token.Apart last next) :
    ∃ start slice after, text ++ more = start ++ (slice ++ after) ∧
      last.position = offset + start.length ∧ next.limit = last.position + slice.length ∧
      Lexer.scan ⟨text ++ more, offset⟩ =
        ⟨tokens ++ ⟨.notIn, String.ofList slice, last.position⟩ :: others, behind.error⟩ := by
  obtain ⟨isName, isNot, isIn⟩ := Token.not_apart_iff.mp joins
  obtain ⟨start, name, ending, rfl, same, longest, ending', read⟩ :=
    munches.scan_append_last fine split
  obtain ⟨blanks, word, after, rfl, same', longest', blanks', munches'⟩ := munches'.of_cons split'
  rw [isName] at longest
  rw [isIn] at longest'
  have text : last.text.toList = name := by
    rw [same]
    exact String.toList_ofList
  rw [text] at isNot
  have between : blanks ≠ [] := by
    rintro rfl
    cases word with
    | nil => exact longest'.nonempty rfl
    | cons c word =>
      have visible := Text.headNot_cons.mp (longest'.headNot_isBlank after)
      rw [blank c rfl] at visible
      cases visible
  obtain ⟨isWord, ends, spelled⟩ := longest'.of_isIn
  have suffix : Token.IsInSuffix ((ending ++ blanks) ++ word) after := by
    refine ⟨⟨ending ++ blanks, word, rfl, by simp [between], ?_, isWord.inside, spelled⟩, ends⟩
    exact List.forall_mem_append.mpr ⟨ending', blanks'⟩
  have taken : Token.Lexeme .notIn (name ++ ((ending ++ blanks) ++ word)) after :=
    .notIn longest.of_identifier.1 isNot suffix
  have place : last.position = offset + start.length := by rw [same]
  have limit : next.limit = last.position + (name ++ ((ending ++ blanks) ++ word)).length := by
    rw [same', Token.limit_ofList, place]
    simp only [List.length_append]
    omega
  refine ⟨start, name ++ ((ending ++ blanks) ++ word), after, by simp, place, limit, ?_⟩
  have whole : name ++ (ending ++ (blanks ++ (word ++ after))) =
      name ++ ((ending ++ blanks) ++ word) ++ after := by
    simp only [List.append_assoc]
  have rest : Lexer.scan ⟨after, next.limit⟩ = ⟨others, behind.error⟩ := by
    rw [same', Token.limit_ofList]
    exact munches'.scan_eq
  rw [read _ blank.breaks, whole, Lexer.scan_of_lexeme _ taken, ← place, ← limit, rest]
  simp [Scan.prepend]

end Munches

/-- Behind blanks, a text is read as it is by itself, further on. -/
theorem Lexer.munches_behind {blanks : List Char} (blank : ∀ c ∈ blanks, Text.isBlank c = true)
    (text : List Char) (offset : Nat) :
    Munches (blanks ++ text) offset ((scan ⟨text, 0⟩).shift (offset + blanks.length)) := by
  rw [munches_iff, scan_of_blanks blank, ← scan_shift, Nat.zero_add]

namespace Scan

theorem toExcept_shift_prepend (scan : Scan) (distance : Nat) (tokens : List Token) :
    ((scan.shift distance).prepend tokens).toExcept =
      match scan.toExcept with
      | .ok others => .ok (tokens ++ others.map (Token.shift distance))
      | .error error => .error (error.shift distance) := by
  obtain ⟨others, error⟩ := scan
  cases error <;> rfl

variable {first blanks : String}

theorem munches_behind (first : String) (blank : ∀ c ∈ blanks.toList, Text.isBlank c = true)
    (second : String) :
    Munches (blanks.toList ++ second.toList) (0 + first.toList.length)
      ((ofText second).shift (first.length + blanks.length)) := by
  have lengths : 0 + first.toList.length + blanks.toList.length = first.length + blanks.length := by
    rw [Nat.zero_add, String.length_toList, String.length_toList]
  exact lengths ▸ Lexer.munches_behind blank second.toList _

theorem ofText_append_blanks (second : String) (fine : (ofText first).error = none)
    (blank : ∀ c ∈ blanks.toList, Text.isBlank c = true) (nonempty : blanks ≠ "")
    (apart : ∀ last ∈ (ofText first).tokens.getLast?, ∀ next ∈ (ofText second).tokens.head?,
      Token.Apart last next) :
    ofText (first ++ blanks ++ second) =
      ((ofText second).shift (first.length + blanks.length)).prepend (ofText first).tokens := by
  have spaced : Text.HeadBlank (blanks.toList ++ second.toList) :=
    Text.headBlank_append blank (fun none => nonempty (String.toList_eq_nil_iff.mp none)) _
  have behind := munches_behind first blank second
  have noIn : ∀ token ∈ (ofText first).tokens.getLast?, token.kind = .identifier →
      Text.lower token.text.toList = ['n', 'o', 't'] →
      Token.inSuffix? (blanks.toList ++ second.toList) = none := by
    intro token last isName isNot
    refine behind.inSuffix?_eq_none fun next found => ?_
    rw [shift, List.head?_map, Option.mem_map] at found
    obtain ⟨next, found, rfl⟩ := found
    exact apart token last next found isName isNot
  have scanned := (Lexer.munches_scan first.toList 0).scan_append fine spaced.breaks noIn
  rw [behind.scan_eq] at scanned
  rw [ofText, Lexer.ofText, String.toList_append, String.toList_append, List.append_assoc]
  exact scanned

theorem ofText_append_blanks_not_in {second : String} {tokens others : List Token}
    {last next : Token} (fine : (ofText first).error = none)
    (blank : ∀ c ∈ blanks.toList, Text.isBlank c = true) (nonempty : blanks ≠ "")
    (split : (ofText first).tokens = tokens ++ [last])
    (split' : (ofText second).tokens = next :: others) (joins : ¬ Token.Apart last next) :
    let whole := first ++ blanks ++ second
    let distance := first.length + blanks.length
    let slice := (whole.toList.drop last.position).take (distance + next.limit - last.position)
    ofText whole = ⟨tokens ++ ⟨.notIn, String.ofList slice, last.position⟩ ::
      others.map (Token.shift distance), ((ofText second).shift distance).error⟩ := by
  intro whole distance slice
  have spaced : Text.HeadBlank (blanks.toList ++ second.toList) :=
    Text.headBlank_append blank (fun none => nonempty (String.toList_eq_nil_iff.mp none)) _
  have characters : whole.toList = first.toList ++ (blanks.toList ++ second.toList) := by
    simp [whole]
  have start : ((ofText second).shift distance).tokens =
      next.shift distance :: others.map (Token.shift distance) := by
    rw [shift, split', List.map_cons]
  obtain ⟨before, text, after, parts, position, limit, scanned⟩ :=
    (Lexer.munches_scan first.toList 0).scan_not_in fine split spaced
      (munches_behind first blank second) start joins
  rw [Nat.zero_add] at position
  have width : distance + next.limit - last.position = text.length := by
    have shifted : (next.shift distance).limit = next.limit + distance := Nat.add_right_comm ..
    omega
  have taken : slice = text := by
    change (whole.toList.drop last.position).take (distance + next.limit - last.position) = text
    rw [characters, parts, width, position, List.drop_left, List.take_left]
  rw [ofText, Lexer.ofText, characters, scanned, taken]

end Scan

/-- Reading a text, blanks and another text is reading both: the second one only starts further
    on. The exception is a `not` at the end of the first and an `in` at the start of the second:
    they are one token. -/
theorem tokenize_append_blanks {first blanks : String} (second : String) {tokens : List Token}
    (read : tokenize first = .ok tokens) (blank : ∀ c ∈ blanks.toList, Text.isBlank c = true)
    (nonempty : blanks ≠ "") :
    let whole := first ++ blanks ++ second
    let distance := first.length + blanks.length
    ((∀ last ∈ tokens.getLast?, ∀ next ∈ (Scan.ofText second).tokens.head?,
        Token.Apart last next) →
      tokenize whole = match tokenize second with
        | .ok others => .ok (tokens ++ others.map (Token.shift distance))
        | .error error => .error (error.shift distance)) ∧
    ∀ start last next others, tokens = start ++ [last] → tokenize second = .ok (next :: others) →
      ¬ Token.Apart last next →
      let slice := (whole.toList.drop last.position).take
        (distance + next.limit - last.position)
      tokenize whole = .ok (start ++ ⟨.notIn, String.ofList slice, last.position⟩ ::
        others.map (Token.shift distance)) := by
  intro whole distance
  obtain ⟨fine, rfl⟩ := Scan.toExcept_eq_ok_iff.mp read
  refine ⟨fun apart => ?_, fun start last next others split found joins => ?_⟩
  · rw [tokenize, Scan.ofText_append_blanks second fine blank nonempty apart]
    exact Scan.toExcept_shift_prepend ..
  · obtain ⟨fine', split'⟩ := Scan.toExcept_eq_ok_iff.mp found
    have scanned := Scan.ofText_append_blanks_not_in fine blank nonempty split split' joins
    have noFault : ((Scan.ofText second).shift distance).error = none := by
      rw [Scan.shift, fine', Option.map_none]
    exact Scan.toExcept_eq_ok_iff.mpr
      ⟨(congrArg Scan.error scanned).trans noFault, congrArg Scan.tokens scanned⟩

theorem tokenize_append_blanks_not_in :
    (∀ c ∈ " \n".toList, Text.isBlank c = true) ∧ " \n" ≠ "" ∧
      tokenize "a Not" = .ok [⟨.identifier, "a", 0⟩, ⟨.identifier, "Not", 2⟩] ∧
      tokenize "a Not \nin b" =
        .ok [⟨.identifier, "a", 0⟩, ⟨.notIn, "Not \nin", 2⟩, ⟨.identifier, "b", 10⟩] ∧
      tokenize "a Not \nb #" = .error ⟨.unexpectedCharacter, '#', 9⟩ := by
  have blank : ∀ c ∈ " \n".toList, Text.isBlank c = true := by simp [Text.isBlank]
  have nonempty : " \n" ≠ "" := by decide
  have read : tokenize "a Not" = .ok [⟨.identifier, "a", 0⟩, ⟨.identifier, "Not", 2⟩] := by cbv
  have isIn : tokenize "in b" = .ok [⟨.isIn, "in", 0⟩, ⟨.identifier, "b", 3⟩] := by cbv
  have fails : tokenize "b #" = .error ⟨.unexpectedCharacter, '#', 2⟩ := by cbv
  have name : (Scan.ofText "b #").tokens = [⟨.identifier, "b", 0⟩] := by cbv
  obtain ⟨-, joined⟩ := tokenize_append_blanks "in b" read blank nonempty
  obtain ⟨apart, -⟩ := tokenize_append_blanks "b #" read blank nonempty
  refine ⟨blank, nonempty, read, ?_, ?_⟩
  · have text : "a Not" ++ " \n" ++ "in b" = "a Not \nin b" := rfl
    have whole := joined [⟨.identifier, "a", 0⟩] _ _ _ rfl isIn
      (Token.not_apart_iff.mpr (by decide))
    rw [text] at whole
    exact whole
  · rw [name, fails] at apart
    exact apart (by simp [Token.Apart])

end FilterLang
