import FilterLang.Proofs.Token.Scanning

namespace FilterLang

def Scans (text after : List Char) (P : List Token → Prop) : Prop :=
  ∀ offset, ∃ tokens, P tokens ∧
    Lexer.scan ⟨text ++ after, offset⟩ =
      (Lexer.scan ⟨after, offset + text.length⟩).prepend tokens

namespace Scans

variable {text first second after : List Char} {P Q R : List Token → Prop}

theorem mono (scans : Scans text after P) (weaker : ∀ tokens, P tokens → Q tokens) :
    Scans text after Q := by
  intro offset
  obtain ⟨tokens, holds, same⟩ := scans offset
  exact ⟨tokens, weaker tokens holds, same⟩

theorem append (former : Scans first (second ++ after) P) (latter : Scans second after Q)
    (joined : ∀ ls rs, P ls → Q rs → R (ls ++ rs)) : Scans (first ++ second) after R := by
  intro offset
  obtain ⟨ls, holdsLeft, left⟩ := former offset
  obtain ⟨rs, holdsRight, right⟩ := latter (offset + first.length)
  refine ⟨ls ++ rs, joined ls rs holdsLeft holdsRight, ?_⟩
  rw [List.append_assoc, left, right, Scan.prepend_prepend, List.length_append, Nat.add_assoc]

theorem lexeme {kind : Token.Kind} (lexeme : Token.Lexeme kind text after)
    (holds : ∀ token : Token, token.kind = kind → token.text.toList = text → P [token]) :
    Scans text after P := by
  intro offset
  exact ⟨_, holds _ rfl String.toList_ofList, Lexer.scan_of_lexeme offset lexeme⟩

theorem cons {kind : Token.Kind} (longest : Token.Lexeme kind first (second ++ after))
    (latter : Scans second after Q)
    (joined : ∀ (token : Token) (rs : List Token), token.kind = kind →
      token.text.toList = first → Q rs → R (token :: rs)) : Scans (first ++ second) after R := by
  have former : Scans first (second ++ after) fun tokens =>
      ∃ token : Token, tokens = [token] ∧ token.kind = kind ∧ token.text.toList = first :=
    lexeme longest fun token kind text => ⟨token, rfl, kind, text⟩
  apply former.append latter
  rintro _ rs ⟨token, rfl, same, spelled⟩ holds
  exact joined token rs same spelled holds

theorem space (scans : Scans text after P) : Scans (' ' :: text) after P := by
  intro offset
  obtain ⟨tokens, holds, same⟩ := scans (offset + 1)
  refine ⟨tokens, holds, ?_⟩
  rw [List.cons_append, Lexer.scan_of_blank (by decide), same, List.length_cons, Nat.add_assoc,
    Nat.add_comm 1]

theorem enclosed {opening closing : Char} {openingKind closingKind : Token.Kind}
    (isOpening : (opening, openingKind) ∈ Token.marks)
    (isClosing : (closing, closingKind) ∈ Token.marks) (inside : Scans text (closing :: after) P)
    (joined : ∀ (left right : Token) (tokens : List Token), left.kind = openingKind →
      right.kind = closingKind → P tokens → Q (left :: (tokens ++ [right]))) :
    Scans (opening :: (text ++ [closing])) after Q := by
  have closed : Scans (text ++ [closing]) after fun tokens =>
      ∃ ts token, tokens = ts ++ [token] ∧ token.kind = closingKind ∧ P ts := by
    refine inside.append (lexeme (.mark isClosing) fun token kind _ => ?_)
      fun ts rs holds (last : ∃ token, rs = [token] ∧ token.kind = closingKind) => ?_
    · exact ⟨token, rfl, kind⟩
    · obtain ⟨token, rfl, kind⟩ := last
      exact ⟨ts, token, rfl, kind, holds⟩
  apply closed.cons (.mark isOpening)
  rintro left _ leftKind - ⟨ts, right, rfl, rightKind, holds⟩
  exact joined left right ts leftKind rightKind holds

end Scans

end FilterLang
