import FilterLang.Proofs.Token.Munch

namespace FilterLang

namespace Token

def limit (token : Token) : Nat := token.position + token.text.length

def Covers (token : Token) (i : Nat) : Prop := token.position ≤ i ∧ i < token.limit

def layOver (token : Token) (under : List Char) : List Char :=
  under.take token.position ++ (token.text.toList ++ under.drop token.limit)

theorem limit_ofList (kind : Kind) (lexeme : List Char) (position : Nat) :
    limit ⟨kind, String.ofList lexeme, position⟩ = position + lexeme.length := by
  simp [limit]

theorem layOver_append (kind : Kind) {under lexeme : List Char} (before after : List Char)
    (fits : under.length = lexeme.length) :
    layOver ⟨kind, String.ofList lexeme, before.length⟩ (before ++ (under ++ after)) =
      before ++ (lexeme ++ after) := by
  simp [layOver, limit_ofList, List.drop_append, ← fits]

end Token

namespace Scan

def limit (scan : Scan) (text : List Char) : Nat :=
  match scan.error with
  | none => text.length
  | some error => error.position

/-- From `start` on, the tokens are pieces of the text at their positions, one behind the other,
    and between them the text is blank as far as it is read. -/
structure LiesIn (scan : Scan) (text : List Char) (start : Nat) : Prop where
  nonempty : ∀ token ∈ scan.tokens, token.text ≠ ""
  slice : ∀ token ∈ scan.tokens,
    (text.drop token.position).take token.text.length = token.text.toList
  behind : ∀ token ∈ scan.tokens, start ≤ token.position
  ordered : scan.tokens.Pairwise fun first second =>
    first.position < second.position ∧ first.limit ≤ second.position
  blank : ∀ i, start ≤ i → i < scan.limit text → (∀ token ∈ scan.tokens, ¬ token.Covers i) →
    ∃ c, text[i]? = some c ∧ Text.isBlank c = true
  fault : ∀ error, scan.error = some error → text[error.position]? = some error.character
  laid : scan.error = none → ∃ blanks, (∀ c ∈ blanks, Text.isBlank c = true) ∧
    start + blanks.length = text.length ∧
    scan.tokens.foldl (fun under token => token.layOver under) (text.take start ++ blanks) = text

theorem LiesIn.position_lt {scan : Scan} {text : List Char} {start : Nat}
    (lies : scan.LiesIn text start) : ∀ token ∈ scan.tokens, token.position < text.length := by
  intro token member
  by_contra beyond
  have slice := lies.slice token member
  rw [List.drop_eq_nil_of_le (Nat.le_of_not_lt beyond), List.take_nil] at slice
  exact lies.nonempty token member (String.toList_eq_nil_iff.mp slice.symm)

theorem exists_of_run {before blanks : List Char} (after : List Char) {i : Nat}
    (start : before.length ≤ i) (stop : i < before.length + blanks.length) :
    ∃ c ∈ blanks, (before ++ (blanks ++ after))[i]? = some c := by
  have inside : i - before.length < blanks.length := by omega
  refine ⟨blanks[i - before.length], List.getElem_mem inside, ?_⟩
  rw [List.getElem?_append_right start, List.getElem?_append_left inside,
    List.getElem?_eq_getElem inside]

variable {before blanks after : List Char}

theorem liesIn_ending (blank : ∀ c ∈ blanks, Text.isBlank c = true) :
    LiesIn ⟨[], none⟩ (before ++ blanks) before.length := by
  refine ⟨nofun, nofun, nofun, .nil, fun i start stop _ => ?_, nofun, fun _ => ?_⟩
  · have stop : i < (before ++ blanks).length := stop
    rw [List.length_append] at stop
    obtain ⟨c, member, found⟩ := exists_of_run [] start stop
    rw [List.append_nil] at found
    exact ⟨c, found, blank c member⟩
  · exact ⟨blanks, blank, by simp, by simp⟩

theorem liesIn_fault (cause : LexError.Cause) (c : Char)
    (blank : ∀ c ∈ blanks, Text.isBlank c = true) :
    LiesIn ⟨[], some ⟨cause, c, before.length + blanks.length⟩⟩ (before ++ (blanks ++ c :: after))
      before.length := by
  refine ⟨nofun, nofun, nofun, .nil, fun i start stop _ => ?_, fun error same => ?_, nofun⟩
  · obtain ⟨d, member, found⟩ := exists_of_run (c :: after) start stop
    exact ⟨d, found, blank d member⟩
  · cases same
    simp

/-- A lexeme behind blanks, and in front of the text where the other tokens lie. -/
theorem liesIn_cons {lexeme : List Char} {scan : Scan} (kind : Token.Kind)
    (blank : ∀ c ∈ blanks, Text.isBlank c = true) (nonempty : lexeme ≠ [])
    (lies : scan.LiesIn ((before ++ (blanks ++ lexeme)) ++ after)
      (before ++ (blanks ++ lexeme)).length) :
    (scan.cons ⟨kind, String.ofList lexeme, before.length + blanks.length⟩).LiesIn
      (before ++ (blanks ++ (lexeme ++ after))) before.length := by
  have pos := List.length_pos_iff.mpr nonempty
  have width : (before ++ (blanks ++ lexeme)).length =
      before.length + blanks.length + lexeme.length := by
    simp [Nat.add_assoc]
  rw [width] at lies
  simp only [List.append_assoc] at lies
  have last := Token.limit_ofList kind lexeme (before.length + blanks.length)
  generalize taken : (⟨kind, String.ofList lexeme, before.length + blanks.length⟩ : Token) = token
    at last
  have text : token.text = String.ofList lexeme := by rw [← taken]
  have place : token.position = before.length + blanks.length := by rw [← taken]
  constructor
  case nonempty =>
    refine List.forall_mem_cons.mpr ⟨?_, lies.nonempty⟩
    simpa [text] using nonempty
  case slice =>
    refine List.forall_mem_cons.mpr ⟨?_, lies.slice⟩
    rw [text, place, ← List.append_assoc, ← List.length_append]
    simp
  case behind =>
    refine List.forall_mem_cons.mpr ⟨by omega, fun next member => ?_⟩
    have := lies.behind next member
    omega
  case ordered =>
    refine List.pairwise_cons.mpr ⟨fun next member => ?_, lies.ordered⟩
    have := lies.behind next member
    omega
  case blank =>
    intro i start stop uncovered
    obtain ⟨free, uncovered⟩ := List.forall_mem_cons.mp uncovered
    by_cases early : i < before.length + blanks.length
    · obtain ⟨c, member, found⟩ := exists_of_run (lexeme ++ after) start early
      exact ⟨c, found, blank c member⟩
    · apply lies.blank i ?_ stop uncovered
      by_contra inside
      exact free ⟨by omega, by omega⟩
  case fault => exact lies.fault
  case laid =>
    intro fine
    obtain ⟨others, blankOthers, fits, laid⟩ := lies.laid fine
    have whole : before ++ (blanks ++ (lexeme ++ after)) =
        (before ++ (blanks ++ lexeme)) ++ after := by
      simp
    have start : (before ++ (blanks ++ (lexeme ++ after))).take
        (before.length + blanks.length + lexeme.length) = before ++ (blanks ++ lexeme) := by
      rw [whole, ← width, List.take_left]
    rw [start] at laid
    refine ⟨blanks ++ (List.replicate lexeme.length ' ' ++ others), ?_, ?_, ?_⟩
    · simp only [List.forall_mem_append]
      refine ⟨blank, fun c member => ?_, blankOthers⟩
      rw [List.eq_of_mem_replicate member]
      rfl
    · simp only [List.length_append, List.length_replicate] at fits ⊢
      omega
    · have replaced := Token.layOver_append kind (before ++ blanks) others
        (List.length_replicate (n := lexeme.length) (a := ' '))
      rw [List.length_append, taken] at replaced
      simp only [List.append_assoc] at replaced laid
      rw [List.take_left, cons, List.foldl_cons, replaced, laid]

end Scan

theorem Munches.liesIn {text : List Char} {offset : Nat} {scan : Scan}
    (munches : Munches text offset scan) (before : List Char) (start : before.length = offset) :
    scan.LiesIn (before ++ text) before.length := by
  induction munches generalizing before with
  | ending blank => exact Scan.liesIn_ending blank
  | token blank lexeme _ ih =>
    subst start
    exact Scan.liesIn_cons _ blank lexeme.nonempty (ih _ (by simp [Nat.add_assoc]))
  | unterminated blank =>
    subst start
    exact Scan.liesIn_fault _ _ blank
  | unexpected blank =>
    subst start
    exact Scan.liesIn_fault _ _ blank

/-- Tokenizing loses, doubles and moves nothing. -/
theorem liesIn_ofText (text : String) : (Scan.ofText text).LiesIn text.toList 0 :=
  (Lexer.munches_scan text.toList 0).liesIn [] rfl

end FilterLang
