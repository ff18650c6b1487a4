import FilterLang.Token.Recognition
import Mathlib.Data.List.TakeWhile

namespace FilterLang

namespace Text

def HeadNot (p : Char → Bool) (text : List Char) : Prop := ∀ c ∈ text.head?, p c = false

theorem headNot_nil (p : Char → Bool) : HeadNot p [] := by
  intro c first
  cases first

theorem headNot_cons {p : Char → Bool} {c : Char} {text : List Char} :
    HeadNot p (c :: text) ↔ p c = false := by
  simp [HeadNot]

theorem headNot_dropWhile (p : Char → Bool) (text : List Char) : HeadNot p (text.dropWhile p) := by
  intro c first
  have stopped := List.head?_dropWhile_not p text
  rw [Option.mem_def.mp first] at stopped
  exact stopped

variable {p : Char → Bool} {run after : List Char}

theorem HeadNot.append (start : HeadNot p run) (nonempty : run ≠ []) :
    HeadNot p (run ++ after) := by
  cases run with
  | nil => contradiction
  | cons c run => exact start

theorem HeadNot.takeWhile_eq_nil (ends : HeadNot p after) : after.takeWhile p = [] := by
  cases after with
  | nil => rfl
  | cons c after => simp [headNot_cons.mp ends]

theorem HeadNot.dropWhile_eq_self (ends : HeadNot p after) : after.dropWhile p = after := by
  cases after with
  | nil => rfl
  | cons c after => simp [headNot_cons.mp ends]

/-- A run of a class in front of a text that does not go on with the class. -/
theorem takeWhile_run (inside : ∀ c ∈ run, p c = true) (ends : HeadNot p after) :
    (run ++ after).takeWhile p = run := by
  rw [List.takeWhile_append_of_pos inside, ends.takeWhile_eq_nil, List.append_nil]

theorem dropWhile_run (inside : ∀ c ∈ run, p c = true) (ends : HeadNot p after) :
    (run ++ after).dropWhile p = after := by
  rw [List.dropWhile_append_of_pos inside, ends.dropWhile_eq_self]

theorem isWord_bounds {c : Char} (word : isWord c = true) : 48 ≤ c.toNat ∧ c.toNat ≤ 122 := by
  change (((decide (65 ≤ c.toNat ∧ c.toNat ≤ 90) ||
    (decide (97 ≤ c.toNat) && decide (c.toNat ≤ 122))) ||
    (decide (48 ≤ c.toNat) && decide (c.toNat ≤ 57))) || c == '_') = true at word
  simp only [Bool.or_eq_true, Bool.and_eq_true, decide_eq_true_eq, beq_iff_eq] at word
  rcases word with ((upper | lower) | digit) | rfl
  · omega
  · omega
  · omega
  · decide

theorem isBlank_eq_false_of_isWord {c : Char} (word : isWord c = true) : isBlank c = false := by
  have bounds := isWord_bounds word
  simp only [isBlank, Bool.or_eq_false_iff, Bool.and_eq_false_iff, decide_eq_false_iff_not,
    beq_eq_false_iff_ne]
  omega

theorem isWord_of_isDigit {c : Char} (digit : c.isDigit = true) : isWord c = true := by
  simp [isWord, Char.isAlphanum, digit]

theorem HeadNot.isDigit {text : List Char} (noWord : HeadNot isWord text) :
    HeadNot Char.isDigit text := by
  intro c first
  cases digit : c.isDigit with
  | false => rfl
  | true =>
    have outside := noWord c first
    rw [isWord_of_isDigit digit] at outside
    cases outside

end Text

namespace Token

def marks : List (Char × Kind) :=
  [(',', .comma), ('.', .dot), ('(', .openParenthesis), (')', .closedParenthesis),
    ('[', .openBracket), (']', .closedBracket)]

structure IsWord (word : List Char) : Prop where
  nonempty : word ≠ []
  inside : ∀ c ∈ word, Text.isWord c = true
  start : Text.HeadNot Char.isDigit word

def operatorWords : List String := ["and", "or", "contains", "has", "in"]

def constantWords : List String := ["true", "false", "null"]

/-- The kinds of the words that are keywords: operators in any letter case, constants in lower case
    only. -/
def IsKeyword (word : List Char) (kind : Kind) : Prop :=
  (String.ofList (Text.lower word), kind) ∈
      [("and", .and), ("or", .or), ("contains", .contains), ("has", .has), ("in", .isIn)] ∨
    (String.ofList word, kind) ∈
      [("true", .boolean true), ("false", .boolean false), ("null", .null)]

structure IsName (name : String) : Prop where
  word : IsWord name.toList
  noOperator : String.ofList (Text.lower name.toList) ∉ operatorWords
  noConstant : name ∉ constantWords

structure IsDigits (digits : List Char) : Prop where
  nonempty : digits ≠ []
  inside : ∀ c ∈ digits, c.isDigit = true

/-- A text goes on with blanks, at least one, and the whole word `in`; `suffix` is both. -/
structure IsInSuffix (suffix after : List Char) : Prop where
  parts : ∃ blanks word, suffix = blanks ++ word ∧ blanks ≠ [] ∧
    (∀ c ∈ blanks, Text.isBlank c = true) ∧ (∀ c ∈ word, Text.isWord c = true) ∧
    Text.lower word = ['i', 'n']
  ends : Text.HeadNot Text.isWord after

/-- The longest lexeme at the start of a text, its kind and the text after it. -/
inductive Lexeme : Kind → List Char → List Char → Prop where
  | mark {c : Char} {kind : Kind} {after : List Char} :
      (c, kind) ∈ marks → Lexeme kind [c] after
  | equality {c : Char} {after : List Char} :
      c = '=' ∨ c = '!' → Lexeme .equality [c, '='] after
  | not {after : List Char} :
      after.head? ≠ some '=' → Lexeme .not ['!'] after
  | inclusive {c : Char} {after : List Char} :
      c = '<' ∨ c = '>' → Lexeme .relational [c, '='] after
  | strict {c : Char} {after : List Char} :
      c = '<' ∨ c = '>' → after.head? ≠ some '=' → Lexeme .relational [c] after
  | string {quote : Char} {body after : List Char} :
      quote = '"' ∨ quote = '\'' → quote ∉ body →
      Lexeme .string (quote :: (body ++ [quote])) after
  | whole {digits after : List Char} :
      IsDigits digits → Text.HeadNot Char.isDigit after →
      (∀ rest, after = '.' :: rest → Text.HeadNot Char.isDigit rest) →
      Lexeme .number digits after
  | fraction {digits places after : List Char} :
      IsDigits digits → IsDigits places → Text.HeadNot Char.isDigit after →
      Lexeme .number (digits ++ '.' :: places) after
  | keyword {word after : List Char} {kind : Kind} :
      IsWord word → Text.HeadNot Text.isWord after → IsKeyword word kind →
      Lexeme kind word after
  | identifier {word after : List Char} :
      IsWord word → Text.HeadNot Text.isWord after → (∀ kind, ¬ IsKeyword word kind) →
      (Text.lower word = ['n', 'o', 't'] → ∀ suffix rest, after = suffix ++ rest →
        ¬ IsInSuffix suffix rest) →
      Lexeme .identifier word after
  | notIn {word suffix after : List Char} :
      IsWord word → Text.lower word = ['n', 'o', 't'] → IsInSuffix suffix after →
      Lexeme .notIn (word ++ suffix) after

end Token

end FilterLang
