import FilterLang.Command.Error
import FilterLang.Expr.Json
import FilterLang.Expr.Parser
import FilterLang.Expr.Source
import FilterLang.Json.Writer
import FilterLang.Manual
import FilterLang.Token.Json

namespace FilterLang

inductive OutputFormat where
  | json
  | source
  deriving DecidableEq, Repr

structure CheckOptions where
  pretty : Bool := false
  syntaxOnly : Bool := false
  format : OutputFormat := .json
  deriving DecidableEq, Repr

inductive CheckResult where
  | valid
  | rendered (text : String)
  deriving DecidableEq, Repr

def CheckOptions.render (options : CheckOptions) (expr : Expr) : CheckResult :=
  if options.syntaxOnly then .valid
  else
    match options.format with
    | .source => .rendered expr.source
    | .json => .rendered (expr.toJson.write options.pretty)

def check (options : CheckOptions) (expression : String) : Except CommandError CheckResult :=
  match parse (Text.trimLineEnds expression) with
  | .ok expr => .ok (options.render expr)
  | .error error => .error (.parse error)

def listTokens (pretty : Bool) (expression : String) : Except CommandError String :=
  match tokenize (Text.trimLineEnds expression) with
  | .ok tokens => .ok ((Token.listJson tokens).write pretty)
  | .error error => .error (.lexical error)

def document (name : String) : Except CommandError String :=
  match Manual.Category.ofName? name with
  | some category => .ok category.text
  | none => .error (.unknownCategory name)

end FilterLang
