import FilterLang.Token.Lexer

namespace FilterLang

structure Scan where
  tokens : List Token
  error : Option LexError
  deriving DecidableEq, Repr

namespace Scan

def cons (token : Token) (scan : Scan) : Scan := ⟨token :: scan.tokens, scan.error⟩

def toExcept (scan : Scan) : Except LexError (List Token) :=
  match scan.error with
  | none => .ok scan.tokens
  | some error => .error error

theorem toExcept_eq_ok_iff {scan : Scan} {tokens : List Token} :
    scan.toExcept = .ok tokens ↔ scan.error = none ∧ scan.tokens = tokens := by
  unfold toExcept
  cases scan.error <;> simp

theorem toExcept_eq_error_iff {scan : Scan} {error : LexError} :
    scan.toExcept = .error error ↔ scan.error = some error := by
  unfold toExcept
  cases scan.error <;> simp

end Scan

namespace Lexer

def scan (lexer : Lexer) : Scan :=
  match _ : lexer.next with
  | (.ok none, _) => ⟨[], none⟩
  | (.ok (some token), after) => after.scan.cons token
  | (.error error, _) => ⟨[], some error⟩
termination_by lexer.rest.length
decreasing_by exact next_shorter (by assumption)

end Lexer

def Scan.ofText (text : String) : Scan := (Lexer.ofText text).scan

def tokenize (text : String) : Except LexError (List Token) := (Scan.ofText text).toExcept

end FilterLang
