import FilterLang.Json.Number

namespace FilterLang.Json

inductive StringPart where
  | char (c : Char)
  | unit (value : Nat)
  deriving DecidableEq, Repr

def hexDigit? (c : Char) : Option Nat :=
  if c.isDigit then some (c.toNat - '0'.toNat)
  else if 'a' ≤ c && c ≤ 'f' then some (c.toNat - 'a'.toNat + 10)
  else if 'A' ≤ c && c ≤ 'F' then some (c.toNat - 'A'.toNat + 10)
  else none

def hex4? (a b c d : Char) : Option Nat := do
  return (((← hexDigit? a) * 16 + (← hexDigit? b)) * 16 + (← hexDigit? c)) * 16 + (← hexDigit? d)

def escaped? : Char → Option Char
  | '"' => some '"'
  | '\\' => some '\\'
  | '/' => some '/'
  | 'b' => some '\x08'
  | 'f' => some '\x0c'
  | 'n' => some '\n'
  | 'r' => some '\r'
  | 't' => some '\t'
  | _ => none

def scanString? : List Char → Option (List StringPart × List Char)
  | [] => none
  | '"' :: rest => some ([], rest)
  | '\\' :: 'u' :: a :: b :: c :: d :: rest => do
    let value ← hex4? a b c d
    let (parts, after) ← scanString? rest
    return (.unit value :: parts, after)
  | '\\' :: c :: rest => do
    let character ← escaped? c
    let (parts, after) ← scanString? rest
    return (.char character :: parts, after)
  | c :: rest =>
    if c.toNat < 0x20 then none
    else do
      let (parts, after) ← scanString? rest
      return (.char c :: parts, after)

def isHighSurrogate (unit : Nat) : Bool := 0xD800 ≤ unit && unit < 0xDC00

def isLowSurrogate (unit : Nat) : Bool := 0xDC00 ≤ unit && unit < 0xE000

def joinUnits? : List StringPart → Option (List Char)
  | [] => some []
  | .char c :: rest => (joinUnits? rest).map (c :: ·)
  | .unit first :: rest =>
    if isLowSurrogate first then none
    else if isHighSurrogate first then
      match rest with
      | .unit second :: rest =>
        if isLowSurrogate second then
          (joinUnits? rest).map
            (Char.ofNat (0x10000 + (first - 0xD800) * 0x400 + (second - 0xDC00)) :: ·)
        else none
      | _ => none
    else (joinUnits? rest).map (Char.ofNat first :: ·)

def Scalar.ofParts (parts : List StringPart) : Scalar :=
  match joinUnits? parts with
  | some characters => .string (String.ofList characters)
  | none => .unrepresentable

def isSpace (c : Char) : Bool := c == ' ' || c == '\t' || c == '\n' || c == '\r'

def stripWord? : (word text : List Char) → Option (List Char)
  | [], text => some text
  | c :: word, d :: text => if c == d then stripWord? word text else none
  | _ :: _, [] => none

/-- Reads the piece at the start of a text, numbers as `number` does. A number has no zeros before
    its other digits. -/
def lexeme? (number : Numeral → Binary64) (text : List Char) : Option (Lexeme × List Char) :=
  match text with
  | [] => none
  | head :: rest =>
    match head with
    | '\x7b' => some (.openBrace, rest)
    | '\x7d' => some (.closeBrace, rest)
    | '[' => some (.openBracket, rest)
    | ']' => some (.closeBracket, rest)
    | ':' => some (.colon, rest)
    | ',' => some (.comma, rest)
    | '"' => (scanString? rest).map fun (parts, after) => (.scalar (.ofParts parts), after)
    | 'n' => (stripWord? ['u', 'l', 'l'] rest).map (.scalar .null, ·)
    | 't' => (stripWord? ['r', 'u', 'e'] rest).map (.scalar (.boolean true), ·)
    | 'f' => (stripWord? ['a', 'l', 's', 'e'] rest).map (.scalar (.boolean false), ·)
    | _ =>
      match Numeral.scan? text with
      | some (numeral, after) =>
        if numeral.whole.head? == some '0' && numeral.whole.length != 1 then none
        else some (.scalar (.ofNumeral number numeral), after)
      | none => none

theorem scanString?_shorter {text after : List Char} {parts : List StringPart}
    (read : scanString? text = some (parts, after)) : after.length < text.length := by
  fun_induction scanString? text generalizing parts after with
  | case1 => simp at read
  | case2 rest =>
    simp only [Option.some.injEq, Prod.mk.injEq] at read
    simp [← read.2]
  | case3 a b c d rest ih =>
    simp only [Option.bind_eq_bind, Option.bind_eq_some_iff, Option.pure_def, Option.some.injEq,
      Prod.mk.injEq] at read
    obtain ⟨_, _, ⟨_, _⟩, inner, _, rfl⟩ := read
    have := ih inner
    simp only [List.length_cons]
    omega
  | case4 c rest _ ih =>
    simp only [Option.bind_eq_bind, Option.bind_eq_some_iff, Option.pure_def, Option.some.injEq,
      Prod.mk.injEq] at read
    obtain ⟨_, _, ⟨_, _⟩, inner, _, rfl⟩ := read
    have := ih inner
    simp only [List.length_cons]
    omega
  | case5 => simp at read
  | case6 c rest _ _ _ _ ih =>
    simp only [Option.bind_eq_bind, Option.bind_eq_some_iff, Option.pure_def, Option.some.injEq,
      Prod.mk.injEq] at read
    obtain ⟨⟨_, _⟩, inner, _, rfl⟩ := read
    have := ih inner
    simp only [List.length_cons]
    omega

theorem stripWord?_length_le {word text after : List Char}
    (read : stripWord? word text = some after) : after.length ≤ text.length := by
  fun_induction stripWord? word text with
  | case1 => simp_all
  | case2 c word d text _ ih =>
    have := ih read
    simp only [List.length_cons]
    omega
  | case3 => simp at read
  | case4 => simp at read

/-- Every piece takes at least one character. -/
theorem lexeme?_shorter {number : Numeral → Binary64} {text after : List Char} {piece : Lexeme}
    (read : lexeme? number text = some (piece, after)) : after.length < text.length := by
  unfold lexeme? at read
  split at read
  · simp at read
  · next head rest =>
    split at read
    case h_7 =>
      obtain ⟨⟨parts, _⟩, inner, same⟩ := Option.map_eq_some_iff.mp read
      cases same
      exact Nat.lt_succ_of_lt (scanString?_shorter inner)
    case h_8 | h_9 | h_10 =>
      obtain ⟨_, inner, same⟩ := Option.map_eq_some_iff.mp read
      cases same
      exact Nat.lt_succ_of_le (stripWord?_length_le inner)
    case h_11 =>
      split at read
      · next inner =>
        split at read
        · simp at read
        · cases read
          exact Numeral.scan?_shorter inner
      · simp at read
    all_goals
      cases read
      exact Nat.lt_succ_self _

def lex? (number : Numeral → Binary64) (text : List Char) : Option (List Lexeme) :=
  let start := text.dropWhile isSpace
  if start.isEmpty then some []
  else
    match _ : lexeme? number start with
    | some (piece, after) => (lex? number after).map (piece :: ·)
    | none => none
termination_by text.length
decreasing_by
  exact Nat.lt_of_lt_of_le (lexeme?_shorter (by assumption)) (List.dropWhile_suffix _).length_le

end FilterLang.Json
