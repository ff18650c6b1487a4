import FilterLang.Proofs.Token.Gap

namespace FilterLang

theorem Text.HeadNot.of_append {p : Char → Bool} {before after : List Char}
    (start : HeadNot p (before ++ after)) : HeadNot p before := by
  cases before with
  | nil => exact headNot_nil p
  | cons c before => exact start

theorem Text.endsAs_cut (before after : List Char) : EndsAs (before ++ after) before := by
  refine ⟨HeadNot.of_append, HeadNot.of_append, fun alone => ?_, fun noFraction rest same => ?_⟩
  · cases before with
    | nil => simp
    | cons c before => exact alone
  · subst same
    exact (noFraction _ rfl).of_append

namespace Token

theorem IsInSuffix.append {suffix before after : List Char} {c : Char}
    (isSuffix : IsInSuffix suffix before) (outside : Text.isWord c = false) :
    IsInSuffix suffix (before ++ c :: after) := by
  refine ⟨isSuffix.parts, ?_⟩
  cases before with
  | nil => exact Text.headNot_cons.mpr outside
  | cons d before => exact isSuffix.ends

/-- A lexeme in front of a text is one in front of the same text cut off before a character that is
    no part of a word: less text can only make less of it belong to the lexeme. -/
theorem Lexeme.cut {kind : Kind} {text before after : List Char} {c : Char}
    (lexeme : Lexeme kind text (before ++ c :: after)) (outside : Text.isWord c = false) :
    Lexeme kind text before := by
  refine lexeme.transfer (Text.endsAs_cut before (c :: after)) fun isName isNot => ?_
  subst isName
  obtain ⟨-, -, -, noSuffix⟩ := lexeme.of_identifier
  rw [inSuffix?_eq_none_iff]
  rintro suffix rest rfl isSuffix
  exact noSuffix isNot suffix _ (List.append_assoc ..) (isSuffix.append outside)

end Token

/-- The text in front of the first error has the same tokens and no error. -/
theorem Munches.cut {text : List Char} {offset : Nat} {scan : Scan} {error : LexError}
    (munches : Munches text offset scan) (fault : scan.error = some error) :
    ∃ before after, text = before ++ error.character :: after ∧
      error.position = offset + before.length ∧ Text.isWord error.character = false ∧
      Munches before offset ⟨scan.tokens, none⟩ := by
  induction munches with
  | ending => cases fault
  | @token blanks lexeme _ _ _ _ blank longest _ ih =>
    obtain ⟨before, after, rfl, place, outside, munches⟩ := ih fault
    refine ⟨blanks ++ (lexeme ++ before), after, by simp, ?_, outside, ?_⟩
    · simp [place, Nat.add_assoc]
    · exact .token blank (longest.cut outside) munches
  | unterminated blank quote _ =>
    cases fault
    refine ⟨_, _, rfl, rfl, ?_, .ending blank⟩
    rcases quote with rfl | rfl <;> rfl
  | unexpected blank unexpected =>
    cases fault
    exact ⟨_, _, rfl, rfl, unexpected.notWord, .ending blank⟩

theorem Scan.ofText_take {text : String} {error : LexError}
    (fault : (ofText text).error = some error) :
    ofText (String.ofList (text.toList.take error.position)) = ⟨(ofText text).tokens, none⟩ := by
  have munches := Lexer.munches_scan text.toList 0
  obtain ⟨before, after, whole, place, -, cut⟩ := munches.cut fault
  rw [Nat.zero_add] at place
  have same : text.toList.take error.position = before := by
    rw [whole, place, List.take_left]
  have scanned := cut.scan_eq
  rw [← same] at scanned
  rwa [ofText, Lexer.ofText, String.toList_ofList]

end FilterLang
