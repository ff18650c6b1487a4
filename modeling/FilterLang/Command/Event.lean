import FilterLang.Command.Basic

namespace FilterLang

inductive Severity where
  | trace
  | debug
  | info
  deriving DecidableEq, Repr

inductive Event where
  | token (token : Token)
  | parsed (kind : Expr.Kind)
  | failed (error : ParseError)
  | checked (kind : Expr.Kind)
  | listed (count : Nat)
  deriving DecidableEq, Repr

def Severity.name : Severity → String
  | trace => "TRACE"
  | debug => "DEBUG"
  | info => "INFO"

namespace Event

def severity : Event → Severity
  | token _ => .trace
  | parsed _ | failed _ => .debug
  | checked _ | listed _ => .info

def message : Event → String
  | token _ => "token"
  | parsed _ => "parsed expression"
  | failed _ => "parse failed"
  | checked _ => "expression parsed"
  | listed _ => "expression tokenized"

def ofTokenizing (text : String) : List Event := (Scan.ofText text).tokens.map token

def ofParsing (text : String) : List Event :=
  (Scan.ofText text).consulted.map token ++
    match parse text with
    | .ok expr => [parsed expr.kind]
    | .error error => [failed error]

def ofChecking (expression : String) : List Event :=
  let text := Text.trimLineEnds expression
  ofParsing text ++
    match parse text with
    | .ok expr => [checked expr.kind]
    | .error _ => []

def ofListing (expression : String) : List Event :=
  let text := Text.trimLineEnds expression
  ofTokenizing text ++
    match tokenize text with
    | .ok tokens => [listed tokens.length]
    | .error _ => []

end Event

end FilterLang
