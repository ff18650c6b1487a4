import FilterLang.Token.Recognition

namespace FilterLang

structure Lexer where
  rest : List Char
  offset : Nat
  deriving DecidableEq, Repr

namespace Lexer

def ofText (text : String) : Lexer := ⟨text.toList, 0⟩

/-- Blanks at the end count. -/
def hasMore (lexer : Lexer) : Bool := !lexer.rest.isEmpty

def skipBlanks (lexer : Lexer) : Lexer :=
  ⟨lexer.rest.dropWhile Text.isBlank,
    lexer.offset + (lexer.rest.takeWhile Text.isBlank).length⟩

def exhausted (lexer : Lexer) : Lexer := ⟨[], lexer.offset + lexer.rest.length⟩

/-- Reads a token; `none` is the end. The lexer stays at an unexpected character, so that the same
    error comes again, but an unterminated string takes the whole rest. -/
def next (lexer : Lexer) : Except LexError (Option Token) × Lexer :=
  let start := lexer.skipBlanks
  match start.rest with
  | [] => (.ok none, start)
  | head :: rest =>
    match Token.recognize head rest with
    | .ok (kind, length) =>
      let text := String.ofList (head :: rest.take length)
      (.ok (some ⟨kind, text, start.offset⟩), ⟨rest.drop length, start.offset + length + 1⟩)
    | .error cause =>
      let error : LexError := ⟨cause, head, start.offset⟩
      match cause with
      | .unexpectedCharacter => (.error error, start)
      | .unterminatedString => (.error error, start.exhausted)

/-- Reads a token as a step through a finite stream: after an error there is nothing more. -/
def step (lexer : Lexer) : Option (Except LexError Token) × Lexer :=
  match lexer.next with
  | (.ok none, after) => (none, after)
  | (.ok (some token), after) => (some (.ok token), after)
  | (.error error, after) => (some (.error error), after.exhausted)

theorem length_skipBlanks_le (lexer : Lexer) : lexer.skipBlanks.rest.length ≤ lexer.rest.length :=
  (List.dropWhile_suffix _).length_le

/-- Every token takes at least one character. -/
theorem next_shorter {lexer after : Lexer} {token : Token}
    (read : lexer.next = (.ok (some token), after)) : after.rest.length < lexer.rest.length := by
  have blanks := lexer.length_skipBlanks_le
  unfold next at read
  dsimp only at read
  split at read
  · simp at read
  · next head rest start =>
    rw [start, List.length_cons] at blanks
    split at read
    · simp only [Prod.mk.injEq] at read
      rw [← read.2, List.length_drop]
      omega
    · split at read <;> simp at read

theorem rest_ne_nil_of_error {lexer after : Lexer} {error : LexError}
    (read : lexer.next = (.error error, after)) : lexer.rest ≠ [] := by
  intro empty
  simp [next, skipBlanks, empty] at read

/-- Every step but the last goes forward. -/
theorem step_shorter {lexer after : Lexer} {item : Except LexError Token}
    (read : lexer.step = (some item, after)) : after.rest.length < lexer.rest.length := by
  unfold step at read
  split at read
  · simp at read
  · next token _ found =>
    cases read
    exact next_shorter found
  · next error _ found =>
    cases read
    exact List.length_pos_iff.mpr (rest_ne_nil_of_error found)

def drain (lexer : Lexer) : List (Except LexError Token) × Lexer :=
  match _ : lexer.step with
  | (none, after) => ([], after)
  | (some item, after) =>
    let (items, last) := after.drain
    (item :: items, last)
termination_by lexer.rest.length
decreasing_by exact step_shorter (by assumption)

end Lexer

end FilterLang
