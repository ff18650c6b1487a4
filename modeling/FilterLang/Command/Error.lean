import FilterLang.Expr.Error

namespace FilterLang

inductive CommandError where
  | parse (error : ParseError)
  | lexical (error : LexError)
  | undecodable
  | noInput
  | unknownCategory (name : String)
  deriving DecidableEq, Repr

def CommandError.message : CommandError → String
  | parse error => "Parse error: " ++ error.message
  | lexical error => "Lexical error: " ++ error.message
  | undecodable => "IO error: stream did not contain valid UTF-8"
  | noInput => "No expression provided. Pass one as an argument or pipe it to stdin."
  | unknownCategory name =>
    "Unknown category: '" ++ name ++ "'\nRun 'sieve docs' to see available categories."

end FilterLang
