import FilterLang.Proofs.Json.Pieces

namespace FilterLang.Json

variable {number : Numeral → Binary64}

inductive PieceText (number : Numeral → Binary64) : Lexeme → List Char → Prop where
  | mark {piece : Lexeme} : piece.isScalar = false → PieceText number piece piece.text.toList
  | null : PieceText number (.scalar .null) "null".toList
  | boolean (value : Bool) :
      PieceText number (.scalar (.boolean value)) (Scalar.boolean value).text.toList
  | string {text : List Char} {value : String} :
      Characters text value.toList →
      PieceText number (.scalar (.string value)) ('"' :: (text ++ ['"']))
  | number {text : List Char} {numeral : Numeral} :
      numeral.NumberText text → Scalar.ofNumeral number numeral ≠ .unrepresentable →
      PieceText number (.scalar (.ofNumeral number numeral)) text

inductive Spaced (number : Numeral → Binary64) : List Lexeme → List Char → Prop where
  | ending {gap : List Char} : (∀ c ∈ gap, isSpace c = true) → Spaced number [] gap
  | piece {gap head rest : List Char} {piece : Lexeme} {pieces : List Lexeme} :
      (∀ c ∈ gap, isSpace c = true) → PieceText number piece head → Spaced number pieces rest →
      Spaced number (piece :: pieces) (gap ++ (head ++ rest))

/-- The text is the value in strict JSON. All its strings are Unicode and all its numbers finite. -/
def Strict (number : Numeral → Binary64) (text : String) (v : Json) : Prop :=
  Spaced number v.lexemes text.toList

theorem PieceText.lexeme?_eq {piece : Lexeme} {text after : List Char}
    (isPiece : PieceText number piece text)
    (ends : piece.isScalar = true → Text.HeadNot Numeral.goesOn after) :
    lexeme? number (text ++ after) = some (piece, after) := by
  cases isPiece with
  | mark isMark =>
    cases piece with
    | scalar => cases isMark
    | _ => exact lexeme?_text _ ends
  | null => exact lexeme?_null after
  | boolean value => exact lexeme?_text (.scalar (.boolean value)) ends
  | string stands =>
    rw [List.cons_append, List.append_assoc]
    exact lexeme?_characters stands after
  | number isNumber =>
    refine lexeme?_of_scan? (isNumber.scan?_eq (ends rfl)) ?_
    obtain ⟨_, _, tidy, _, _⟩ := isNumber
    exact tidy

theorem split_of_stripWord? {word text after : List Char}
    (stripped : stripWord? word text = some after) : text = word ++ after := by
  fun_induction stripWord? word text with
  | case1 =>
    cases stripped
    rfl
  | case2 c word d text same ih =>
    rw [beq_iff_eq.mp same, ih stripped, List.cons_append]
  | case3 | case4 => cases stripped

theorem pieceText_of_scan? {text after : List Char} {piece : Lexeme}
    (read : (match Numeral.scan? text with
      | some (numeral, after) =>
        if numeral.whole.head? == some '0' && numeral.whole.length != 1 then none
        else some (Lexeme.scalar (.ofNumeral number numeral), after)
      | none => none) = some (piece, after)) (has : piece ≠ .scalar .unrepresentable) :
    ∃ head, text = head ++ after ∧ PieceText number piece head := by
  split at read
  · next numeral rest scans =>
    split at read
    · cases read
    · next tidy =>
      cases read
      obtain ⟨head, split, isNumber⟩ := Numeral.numberText_of_scan? scans (by simpa using tidy)
      exact ⟨head, split, .number isNumber (by simpa using has)⟩
  · cases read

theorem pieceText_of_lexeme? {text after : List Char} {piece : Lexeme}
    (read : lexeme? number text = some (piece, after)) (has : piece ≠ .scalar .unrepresentable) :
    ∃ head, text = head ++ after ∧ PieceText number piece head := by
  unfold lexeme? at read
  split at read
  · cases read
  · next head rest =>
    split at read
    case h_7 =>
      obtain ⟨⟨parts, _⟩, scanned, same⟩ := Option.map_eq_some_iff.mp read
      cases same
      cases joined : joinUnits? parts with
      | none => simp [Scalar.ofParts, joined] at has
      | some characters =>
        obtain ⟨inner, rfl, stands⟩ := characters_of_scanString? scanned joined
        refine ⟨'"' :: (inner ++ ['"']), by simp, ?_⟩
        rw [Scalar.ofParts, joined]
        exact .string (by rwa [String.toList_ofList])
    case h_8 =>
      obtain ⟨_, stripped, same⟩ := Option.map_eq_some_iff.mp read
      cases same
      exact ⟨_, congrArg ('n' :: ·) (split_of_stripWord? stripped), .null⟩
    case h_9 =>
      obtain ⟨_, stripped, same⟩ := Option.map_eq_some_iff.mp read
      cases same
      exact ⟨_, congrArg ('t' :: ·) (split_of_stripWord? stripped), .boolean true⟩
    case h_10 =>
      obtain ⟨_, stripped, same⟩ := Option.map_eq_some_iff.mp read
      cases same
      exact ⟨_, congrArg ('f' :: ·) (split_of_stripWord? stripped), .boolean false⟩
    case h_11 => exact pieceText_of_scan? read has
    all_goals
      cases read
      exact ⟨[_], rfl, .mark rfl⟩

/-- No number goes on into spaces or into a piece that is no scalar. -/
theorem Spaced.headNot {pieces : List Lexeme} {text : List Char}
    (spaced : Spaced number pieces text) (isMark : ∀ next ∈ pieces.head?, next.isScalar = false) :
    Text.HeadNot Numeral.goesOn text := by
  cases spaced with
  | @ending gap blank =>
    have ends := headNot_blank blank (Text.headNot_nil Numeral.goesOn)
    rwa [List.append_nil] at ends
  | piece blank isPiece _ =>
    have first := isMark _ rfl
    refine headNot_blank blank ?_
    cases isPiece with
    | mark => exact headNot_text first _
    | _ => cases first

theorem Spaced.lex?_eq {pieces : List Lexeme} {text : List Char}
    (spaced : Spaced number pieces text) (chain : pieces.IsChain Apart) :
    lex? number text = some pieces := by
  induction spaced with
  | ending blank => exact lex?_blank blank
  | piece blank isPiece spaced ih =>
    obtain ⟨apart, chain⟩ := List.isChain_cons.mp chain
    have ends := fun isScalar => spaced.headNot fun next first => apart next first isScalar
    rw [lex?_of_lexeme? blank (isPiece.lexeme?_eq ends), ih chain]
    rfl

theorem spaced_of_lex? {pieces : List Lexeme} {text : List Char}
    (read : lex? number text = some pieces) (has : .scalar .unrepresentable ∉ pieces) :
    Spaced number pieces text := by
  fun_induction lex? number text generalizing pieces
  case case1 text start blank =>
    cases read
    exact .ending (List.dropWhile_eq_nil_iff.mp (List.isEmpty_iff.mp blank))
  case case2 text start some piece after found ih =>
    obtain ⟨others, joins, rfl⟩ := Option.map_eq_some_iff.mp read
    rw [List.mem_cons, not_or] at has
    obtain ⟨head, split, isPiece⟩ := pieceText_of_lexeme? found (Ne.symm has.1)
    have whole : text.takeWhile isSpace ++ (head ++ after) = text := by
      rw [← split, List.takeWhile_append_dropWhile]
    rw [← whole]
    exact .piece (fun c => List.mem_takeWhile_imp) isPiece (ih joins has.2)
  case case3 => cases read

theorem PieceText.representable {piece : Lexeme} {text : List Char}
    (isPiece : PieceText number piece text) : piece ≠ .scalar .unrepresentable := by
  cases isPiece with
  | mark isMark =>
    rintro rfl
    cases isMark
  | number _ has => simpa using has
  | _ => nofun

theorem Spaced.representable {pieces : List Lexeme} {text : List Char}
    (spaced : Spaced number pieces text) : .scalar .unrepresentable ∉ pieces := by
  induction spaced with
  | ending => exact List.not_mem_nil
  | piece _ isPiece _ ih => exact List.not_mem_cons_of_ne_of_not_mem isPiece.representable.symm ih

/-- The reader takes strict JSON and nothing else for a representable value. -/
theorem strict_iff {text : String} {v : Json} :
    Strict number text v ↔ readWith? number text = some v ∧ v.isRepresentable = true := by
  constructor
  · intro spaced
    have chain : v.lexemes.IsChain Apart := isChain_spell v [] (by simp) List.isChain_nil
    rw [readWith?, spaced.lex?_eq chain]
    exact ⟨ofLexemes?_lexemes v, isRepresentable_iff.mpr spaced.representable⟩
  · rintro ⟨read, has⟩
    rw [readWith?, Option.bind_eq_some_iff] at read
    obtain ⟨pieces, lexed, read⟩ := read
    obtain rfl := (ofLexemes?_eq_some_iff has).mp read
    exact spaced_of_lex? lexed (isRepresentable_iff.mp has)

end FilterLang.Json
