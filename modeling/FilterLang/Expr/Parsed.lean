import FilterLang.Expr.Error

namespace FilterLang

structure Failure where
  error : ParseError
  unread : List Token
  deriving DecidableEq, Repr

/-- A value read from the start of a token list, and what follows it. The first token of `rest`
    has been read already, to see where the value ends. -/
structure Parsed (α : Type) (bound : Nat) where
  value : α
  rest : List Token
  shorter : rest.length < bound

abbrev Parser (α : Type) := (tokens : List Token) → Except Failure (Parsed α tokens.length)

/-- Reads on after a value, perhaps taking no token. -/
abbrev Continuation (α : Type) :=
  (tokens : List Token) → Except Failure (Parsed α (tokens.length + 1))

namespace Parsed

variable {α β : Type} {m n : Nat}

def map (f : α → β) (parsed : Parsed α n) : Parsed β n :=
  ⟨f parsed.value, parsed.rest, parsed.shorter⟩

def widen (parsed : Parsed α m) (le : m ≤ n) : Parsed α n :=
  ⟨parsed.value, parsed.rest, Nat.lt_of_lt_of_le parsed.shorter le⟩

def stay (value : α) (tokens : List Token) : Parsed α (tokens.length + 1) :=
  ⟨value, tokens, Nat.lt_succ_self _⟩

def andThen (first : Parsed α n) (second : α → Parser β) : Except Failure (Parsed β n) :=
  (second first.value first.rest).map (·.widen (Nat.le_of_lt first.shorter))

def continued (first : Parsed α n) (more : α → Continuation β) : Except Failure (Parsed β n) :=
  (more first.value first.rest).map (·.widen first.shorter)

end Parsed

namespace Parser

/-- Takes the token before `rest` off and reads the next one. A source that ends in an error
    (`fault`) gives it when the reading gets there. -/
def take (fault : Option LexError) (token : Token) (rest : List Token) :
    Except Failure (Parsed Token (rest.length + 1)) :=
  match fault, rest with
  | some error, [] => .error ⟨.lexical error, []⟩
  | _, rest => .ok (.stay token rest)

def expect (fault : Option LexError) (kind : Token.Kind) : Parser Token
  | [] => .error ⟨.unexpectedEnd (.kind kind), []⟩
  | token :: rest =>
    if token.kind = kind then take fault token rest
    else .error ⟨.unexpectedToken (.kind kind) token, rest⟩

end Parser

end FilterLang
