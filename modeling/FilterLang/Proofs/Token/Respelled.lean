import FilterLang.Proofs.Token.Gap
import Mathlib

namespace FilterLang

namespace Text

theorem isDigit_eq_false_of_isAlpha {c : Char} (alpha : c.isAlpha = true) : c.isDigit = false := by
  have range : (65 ≤ c.toNat ∧ c.toNat ≤ 90) ∨ (97 ≤ c.toNat ∧ c.toNat ≤ 122) := by
    simpa [Char.isAlpha, Char.isUpper, Char.isLower, Char.le_def, UInt32.le_iff_toNat_le]
      using alpha
  change (decide (48 ≤ c.toNat) && decide (c.toNat ≤ 57)) = false
  simp only [Bool.and_eq_false_iff, decide_eq_false_iff_not]
  omega

/-- The letter case of a character does not matter to its classes. -/
theorem classes_toLower (c : Char) :
    isWord c.toLower = isWord c ∧ c.toLower.isDigit = c.isDigit := by
  by_cases upper : c.isUpper = true
  · have alpha : c.isAlpha = true := by simp [Char.isAlpha, upper]
    have alpha' : c.toLower.isAlpha = true := by rw [Char.isAlpha_toLower_eq_isAlpha, alpha]
    rw [isDigit_eq_false_of_isAlpha alpha, isDigit_eq_false_of_isAlpha alpha']
    simp [isWord, Char.isAlphanum, alpha, alpha']
  · rw [Char.toLower_eq_of_not_isUpper upper]
    exact ⟨rfl, rfl⟩

theorem all_isWord_of_lower {word other : List Char} (same : lower other = lower word)
    (inside : ∀ c ∈ word, isWord c = true) : ∀ c ∈ other, isWord c = true := by
  intro c member
  have lowered : c.toLower ∈ lower word := same ▸ List.mem_map_of_mem member
  obtain ⟨d, found, twin⟩ := List.mem_map.mp lowered
  rw [← (classes_toLower c).1, ← twin, (classes_toLower d).1]
  exact inside d found

end Text

namespace Token

theorem IsWord.of_lower {word other : List Char} (isWord : IsWord word)
    (same : Text.lower other = Text.lower word) : IsWord other := by
  refine ⟨?_, Text.all_isWord_of_lower same isWord.inside, fun c first => ?_⟩
  · rintro rfl
    exact isWord.nonempty (List.map_eq_nil_iff.mp same.symm)
  · have heads : (Text.lower other).head? = (Text.lower word).head? := congrArg List.head? same
    rw [Text.lower, Text.lower, List.head?_map, List.head?_map, Option.mem_def.mp first] at heads
    obtain ⟨d, found, twin⟩ := Option.map_eq_some_iff.mp heads.symm
    rw [← (Text.classes_toLower c).2, ← twin, (Text.classes_toLower d).2]
    exact isWord.start d found

theorem isWord_of_lower {word letters : List Char} (same : Text.lower word = letters)
    (member : String.ofList letters ∈ operatorWords ++ ["not"]) : IsWord word := by
  have all : ∀ name ∈ operatorWords ++ ["not"], name.toList ≠ [] ∧
      name.toList.all Text.isWord = true ∧ name.toList.head?.any Char.isDigit = false ∧
      Text.lower name.toList = name.toList := by decide
  obtain ⟨nonempty, inside, start, low⟩ := all _ member
  rw [String.toList_ofList] at nonempty inside start low
  have isWord : IsWord letters := by
    refine ⟨nonempty, List.all_eq_true.mp inside, fun c first => ?_⟩
    simpa [Option.mem_def.mp first] using start
  exact isWord.of_lower (same.trans low.symm)

/-- Behind blanks, a lexeme that is no `in` is nothing for a `not` to take. -/
theorem inSuffix?_of_lexeme {kind : Kind} {blanks word after : List Char}
    (blank : ∀ c ∈ blanks, Text.isBlank c = true) (lexeme : Lexeme kind word after)
    (other : kind ≠ .isIn) : inSuffix? (blanks ++ (word ++ after)) = none := by
  rw [inSuffix?_eq_none_iff]
  rintro suffix rest same ⟨⟨blanks', word', rfl, -, blank', -, isIn⟩, ends⟩
  have isWord : IsWord word' := isWord_of_lower isIn (by decide)
  have found : Lexeme .isIn word' rest := by
    refine .keyword isWord ends (.inl ?_)
    rw [isIn]
    decide
  have dropped := congrArg (List.dropWhile Text.isBlank) same
  rw [List.append_assoc, Text.dropWhile_run blank (lexeme.headNot_isBlank after),
    Text.dropWhile_run blank' (found.headNot_isBlank rest)] at dropped
  exact other (found.unique lexeme dropped.symm).1

/-- Behind blanks, a text that goes on with no word is nothing for a `not` to take. -/
theorem inSuffix?_behind_blanks {blanks after : List Char}
    (blank : ∀ c ∈ blanks, Text.isBlank c = true) (visible : Text.HeadNot Text.isBlank after)
    (noWord : Text.HeadNot Text.isWord after) : inSuffix? (blanks ++ after) = none := by
  unfold inSuffix?
  rw [Text.takeWhile_run blank visible, Text.dropWhile_run blank visible,
    noWord.takeWhile_eq_nil]
  simp [Text.lower]

theorem inSuffix?_of_blanks {blanks : List Char} (blank : ∀ c ∈ blanks, Text.isBlank c = true) :
    inSuffix? blanks = none := by
  have alone := inSuffix?_behind_blanks blank (Text.headNot_nil _) (Text.headNot_nil _)
  rwa [List.append_nil] at alone

def Kind.isOperatorWord : Kind → Bool
  | and | or | contains | has | isIn | notIn => true
  | _ => false

structure Alike (token other : Token) : Prop where
  kind : other.kind = token.kind
  text : token.kind.isOperatorWord = false → other.text = token.text

/-- How a token may be written: an operator word in any letter case, a `not in` with any blanks
    inside, and all else as it is. -/
def Respells (token : Token) (word : List Char) : Prop :=
  match token.kind with
  | .and | .or | .contains | .has | .isIn => Text.lower word = Text.lower token.text.toList
  | .notIn => ∃ first blanks second, word = first ++ (blanks ++ second) ∧
      Text.lower first = ['n', 'o', 't'] ∧ blanks ≠ [] ∧
      (∀ c ∈ blanks, Text.isBlank c = true) ∧ Text.lower second = ['i', 'n']
  | _ => word = token.text.toList

theorem Lexeme.respell {kind : Kind} {text word after next : List Char}
    (lexeme : Lexeme kind text after) (isOperator : kind ∈ [.and, .or, .contains, .has, .isIn])
    (same : Text.lower word = Text.lower text) (ends : Text.HeadNot Text.isWord next) :
    Lexeme kind word next := by
  cases lexeme with
  | keyword isWord _ found =>
    refine .keyword (isWord.of_lower same) ends (.inl ?_)
    rcases found with operator | constant
    · rwa [same]
    · simp only [List.mem_cons, Prod.mk.injEq, List.not_mem_nil, or_false] at constant
      rcases constant with ⟨-, rfl⟩ | ⟨-, rfl⟩ | ⟨-, rfl⟩ <;> simp at isOperator
  | mark member =>
    simp only [marks, List.mem_cons, Prod.mk.injEq, List.not_mem_nil, or_false] at member
    rcases member with ⟨-, rfl⟩ | ⟨-, rfl⟩ | ⟨-, rfl⟩ | ⟨-, rfl⟩ | ⟨-, rfl⟩ | ⟨-, rfl⟩ <;>
      simp at isOperator
  | _ => simp at isOperator

theorem Respells.lexeme {token : Token} {word after next : List Char}
    (respells : token.Respells word) (lexeme : Lexeme token.kind token.text.toList after)
    (blank : Text.HeadBlank next)
    (noIn : token.kind = .identifier → Text.lower token.text.toList = ['n', 'o', 't'] →
      inSuffix? next = none) : Lexeme token.kind word next := by
  unfold Respells at respells
  split at respells
  case h_6 kind =>
    obtain ⟨first, blanks, second, rfl, isNot, nonempty, blanks', isIn⟩ := respells
    have isWord : IsWord first := isWord_of_lower isNot (by decide)
    have isWord' : IsWord second := isWord_of_lower isIn (by decide)
    rw [kind]
    exact .notIn isWord isNot
      ⟨⟨blanks, second, rfl, nonempty, blanks', isWord'.inside, isIn⟩, blank.headNot_isWord⟩
  case h_7 =>
    subst respells
    exact lexeme.transfer (blank.breaks.endsAs after) noIn
  all_goals
    next kind => exact lexeme.respell (by simp [kind]) respells blank.headNot_isWord

theorem Respells.text {token : Token} {word : List Char} (respells : token.Respells word)
    (other : token.kind.isOperatorWord = false) : String.ofList word = token.text := by
  unfold Respells at respells
  split at respells
  case h_7 =>
    rw [respells, String.ofList_toList]
  all_goals
    next kind =>
      rw [kind] at other
      cases other

end Token

/-- Tokens written again, in any layout: blanks between all tokens, and blanks or nothing before the
    first and behind the last one. -/
inductive Relaid : (first : Bool) → List Token → List Char → Prop where
  | ending {first : Bool} {blanks : List Char} :
      (∀ c ∈ blanks, Text.isBlank c = true) → Relaid first [] blanks
  | token {first : Bool} {token : Token} {tokens : List Token} {gap word rest : List Char} :
      (∀ c ∈ gap, Text.isBlank c = true) → (first = false → gap ≠ []) → token.Respells word →
      Relaid false tokens rest → Relaid first (token :: tokens) (gap ++ (word ++ rest))

namespace Relaid

variable {first : Bool} {tokens : List Token} {text : List Char}

theorem headBlank (relaid : Relaid false tokens text) : Text.HeadBlank text := by
  cases relaid with
  | ending blank => exact Text.headBlank_of_blanks blank
  | token blank nonempty => exact Text.headBlank_append blank (nonempty rfl) _

/-- Tokens that come from a text, written again, are read again. -/
theorem munches (relaid : Relaid first tokens text) (scanned : Scanned tokens) (offset : Nat) :
    ∃ tokens', Munches text offset ⟨tokens', none⟩ ∧ List.Forall₂ Token.Alike tokens tokens' ∧
      ((∀ token ∈ tokens.head?, token.kind ≠ .isIn) → Token.inSuffix? text = none) := by
  -- A `not` must know that no `in` comes next, which the tokens alone tell.
  induction relaid generalizing offset with
  | ending blank => exact ⟨[], .ending blank, .nil, fun _ => Token.inSuffix?_of_blanks blank⟩
  | @token first token tokens gap word rest blank _ respells relaid ih =>
    obtain ⟨tokens', munches, alike, noIn⟩ := ih scanned.tail (offset + gap.length + word.length)
    obtain ⟨after, lexeme⟩ := scanned.lexemes token (by simp)
    have longest : Token.Lexeme token.kind word rest := by
      refine respells.lexeme lexeme relaid.headBlank fun kind isNot => noIn fun next found => ?_
      exact (List.isChain_cons.mp scanned.apart).1 next found kind isNot
    refine ⟨_, .token blank longest munches, .cons ⟨rfl, respells.text⟩ alike, fun other => ?_⟩
    exact Token.inSuffix?_of_lexeme blank longest (other token rfl)

end Relaid

end FilterLang
