import FilterLang.Proofs.Token.LongestMatch
import FilterLang.Token.Scan

namespace FilterLang

namespace Token

theorem Lexeme.nonempty {kind : Kind} {text after : List Char} (lexeme : Lexeme kind text after) :
    text ≠ [] := by
  cases lexeme with
  | whole digits | fraction digits => simp [digits.nonempty]
  | keyword word | identifier word | notIn word => simp [word.nonempty]
  | _ => simp

theorem Lexeme.headNot_isBlank {kind : Kind} {text after : List Char}
    (lexeme : Lexeme kind text after) (more : List Char) :
    Text.HeadNot Text.isBlank (text ++ more) := by
  have ofWord : ∀ {word : List Char}, (∀ c ∈ word, Text.isWord c = true) → word ≠ [] →
      ∀ more, Text.HeadNot Text.isBlank (word ++ more) := by
    intro word inside nonempty more
    cases word with
    | nil => exact absurd rfl nonempty
    | cons c word =>
      exact Text.headNot_cons.mpr (Text.isBlank_eq_false_of_isWord (inside c (by simp)))
  cases lexeme with
  | mark member =>
    simp only [marks, List.mem_cons, Prod.mk.injEq, List.not_mem_nil, or_false] at member
    rcases member with ⟨rfl, -⟩ | ⟨rfl, -⟩ | ⟨rfl, -⟩ | ⟨rfl, -⟩ | ⟨rfl, -⟩ | ⟨rfl, -⟩ <;>
      exact Text.headNot_cons.mpr (by decide)
  | equality sign | inclusive sign | strict sign | string sign =>
    rcases sign with rfl | rfl <;> exact Text.headNot_cons.mpr (by decide)
  | not => exact Text.headNot_cons.mpr (by decide)
  | whole digits =>
    exact ofWord (fun c member => Text.isWord_of_isDigit (digits.inside c member)) digits.nonempty _
  | fraction digits =>
    rw [List.append_assoc]
    exact ofWord (fun c member => Text.isWord_of_isDigit (digits.inside c member)) digits.nonempty _
  | keyword word | identifier word => exact ofWord word.inside word.nonempty _
  | notIn word =>
    rw [List.append_assoc]
    exact ofWord word.inside word.nonempty _

end Token

namespace Scan

def prepend (tokens : List Token) (scan : Scan) : Scan := ⟨tokens ++ scan.tokens, scan.error⟩

theorem prepend_prepend (first second : List Token) (scan : Scan) :
    (scan.prepend second).prepend first = scan.prepend (first ++ second) := by
  simp [prepend]

end Scan

namespace Lexer

theorem next_of_blank {c : Char} (blank : Text.isBlank c = true) (rest : List Char)
    (offset : Nat) : next ⟨c :: rest, offset⟩ = next ⟨rest, offset + 1⟩ := by
  have same : skipBlanks ⟨c :: rest, offset⟩ = skipBlanks ⟨rest, offset + 1⟩ := by
    simp only [skipBlanks, List.dropWhile_cons_of_pos blank, List.takeWhile_cons_of_pos blank,
      List.length_cons]
    congr 1
    omega
  unfold next
  rw [same]

theorem skipBlanks_of_headNot {text : List Char} (offset : Nat)
    (noBlank : Text.HeadNot Text.isBlank text) : skipBlanks ⟨text, offset⟩ = ⟨text, offset⟩ := by
  simp [skipBlanks, noBlank.takeWhile_eq_nil, noBlank.dropWhile_eq_self]

theorem next_of_lexeme {kind : Token.Kind} {text after : List Char} (offset : Nat)
    (lexeme : Token.Lexeme kind text after) :
    next ⟨text ++ after, offset⟩ =
      (.ok (some ⟨kind, String.ofList text, offset⟩), ⟨after, offset + text.length⟩) := by
  unfold next
  rw [skipBlanks_of_headNot offset (lexeme.headNot_isBlank after)]
  cases text with
  | nil => exact absurd rfl lexeme.nonempty
  | cons head tail =>
    simp only [List.cons_append, Token.recognize_of_lexeme lexeme]
    simp [Nat.add_assoc]

theorem scan_of_token {lexer after : Lexer} {token : Token}
    (read : lexer.next = (.ok (some token), after)) : lexer.scan = after.scan.prepend [token] := by
  rw [scan]
  split <;> simp_all [Scan.cons, Scan.prepend]

theorem scan_of_end {lexer after : Lexer} (read : lexer.next = (.ok none, after)) :
    lexer.scan = ⟨[], none⟩ := by
  rw [scan]
  split <;> simp_all

theorem scan_of_error {lexer after : Lexer} {error : LexError}
    (read : lexer.next = (.error error, after)) : lexer.scan = ⟨[], some error⟩ := by
  rw [scan]
  split <;> simp_all

theorem scan_eq_of_next_eq {first second : Lexer} (same : first.next = second.next) :
    first.scan = second.scan := by
  cases read : second.next with
  | mk result after =>
    rw [read] at same
    cases result with
    | error error => rw [scan_of_error same, scan_of_error read]
    | ok found =>
      cases found with
      | none => rw [scan_of_end same, scan_of_end read]
      | some token => rw [scan_of_token same, scan_of_token read]

theorem scan_of_blank {c : Char} (blank : Text.isBlank c = true) (rest : List Char)
    (offset : Nat) : scan ⟨c :: rest, offset⟩ = scan ⟨rest, offset + 1⟩ :=
  scan_eq_of_next_eq (next_of_blank blank rest offset)

theorem scan_of_lexeme {kind : Token.Kind} {text after : List Char} (offset : Nat)
    (lexeme : Token.Lexeme kind text after) :
    scan ⟨text ++ after, offset⟩ =
      (scan ⟨after, offset + text.length⟩).prepend [⟨kind, String.ofList text, offset⟩] :=
  scan_of_token (next_of_lexeme offset lexeme)

theorem scan_of_blanks {blanks : List Char} (blank : ∀ c ∈ blanks, Text.isBlank c = true)
    (rest : List Char) (offset : Nat) :
    scan ⟨blanks ++ rest, offset⟩ = scan ⟨rest, offset + blanks.length⟩ := by
  induction blanks generalizing offset with
  | nil => rfl
  | cons c blanks ih =>
    have inside : ∀ d ∈ blanks, Text.isBlank d = true :=
      fun d member => blank d (List.mem_cons_of_mem _ member)
    rw [List.cons_append, scan_of_blank (blank c (by simp)), ih inside, List.length_cons,
      Nat.add_assoc, Nat.add_comm 1]

end Lexer

end FilterLang
