import FilterLang.Json.Fields
import FilterLang.Token.Basic

namespace FilterLang.Token

def toJson (token : Token) : Json :=
  .object
    [("kind", .string token.kind.name), ("text", .string token.text),
      ("position", .scalar (.natural token.position))]

def listJson (tokens : List Token) : Json := .array (tokens.map toJson)

/-- Reads a token back. Its members may come in any order but once only; other members count for
    nothing. Positions have 64 bits. -/
def ofJson? : Json → Option Token
  | .object members => do
    let kind ← Kind.ofName? (← (← Json.field? "kind" members).string?)
    let text ← (← Json.field? "text" members).string?
    let position ← (← Json.field? "position" members).natural?
    if position < UInt64.size then some ⟨kind, text, position⟩ else none
  | _ => none

def ofJsonList? : Json → Option (List Token)
  | .array elements => elements.mapM ofJson?
  | _ => none

end FilterLang.Token
