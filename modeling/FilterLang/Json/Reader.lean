import FilterLang.Json.Lexeme

namespace FilterLang.Json

/-- Members read so far, the last one first. A key without characters is unrepresentable. -/
abbrev Members := List (Option String × Json)

/-- What surrounds the value that is being read, the parts before it last one first. -/
inductive Frame where
  | array (before : List Json)
  | object (before : Members) (key : Option String)

inductive Progress where
  | value (outer : List Frame)
  | elements (outer : List Frame)
  | members (outer : List Frame)
  | key (before : Members) (outer : List Frame)
  | colon (before : Members) (key : Option String) (outer : List Frame)
  | done (value : Json) (outer : List Frame)

def ofMembers (reversed : Members) : Json :=
  match reversed.reverse.mapM fun (key, value) => key.map (·, value) with
  | some members => object members
  | none => scalar .unrepresentable

namespace Progress

def opened? (piece : Lexeme) (outer : List Frame) : Option Progress :=
  match piece with
  | .scalar v => some (done (Json.scalar v) outer)
  | .openBracket => some (elements outer)
  | .openBrace => some (members outer)
  | _ => none

def keyed? (piece : Lexeme) (before : Members) (outer : List Frame) : Option Progress :=
  match piece with
  | .scalar (.string name) => some (colon before (some name) outer)
  | .scalar .unrepresentable => some (colon before none outer)
  | _ => none

def closed? (piece : Lexeme) (v : Json) (outer : List Frame) : Option Progress :=
  match outer, piece with
  | .array before :: outer, .comma => some (value (.array (v :: before) :: outer))
  | .array before :: outer, .closeBracket => some (done (array (v :: before).reverse) outer)
  | .object before k :: outer, .comma => some (key ((k, v) :: before) outer)
  | .object before k :: outer, .closeBrace => some (done (ofMembers ((k, v) :: before)) outer)
  | _, _ => none

def step? (progress : Progress) (piece : Lexeme) : Option Progress :=
  match progress with
  | value outer => opened? piece outer
  | elements outer =>
    if piece == .closeBracket then some (done (array []) outer)
    else opened? piece (.array [] :: outer)
  | members outer =>
    if piece == .closeBrace then some (done (object []) outer) else keyed? piece [] outer
  | key before outer => keyed? piece before outer
  | colon before k outer =>
    if piece == .colon then some (value (.object before k :: outer)) else none
  | done v outer => closed? piece v outer

def result? : Progress → Option Json
  | done v [] => some v
  | _ => none

end Progress

def ofLexemes? (pieces : List Lexeme) : Option Json :=
  (pieces.foldlM Progress.step? (.value [])).bind Progress.result?

def readWith? (number : Numeral → Binary64) (text : String) : Option Json :=
  (lex? number text.toList).bind ofLexemes?

def read? (text : String) : Option Json := readWith? approximate text

end FilterLang.Json
