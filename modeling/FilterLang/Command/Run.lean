import FilterLang.Command.Arguments

namespace FilterLang

inductive Input where
  | terminal
  | bytes (content : ByteArray)

structure Outcome where
  code : Nat
  stdout : String
  stderr : String
  deriving DecidableEq, Repr

def Input.text : Input → Except CommandError String
  | terminal => .error .noInput
  | bytes content =>
    match String.fromUTF8? content with
    | some text => .ok text
    | none => .error .undecodable

namespace Request

def expression (input : Input) : Option String → Except CommandError String
  | some text => .ok text
  | none => input.text

def readsInput : Request → Bool
  | check _ none | tokens _ none => true
  | _ => false

def output (request : Request) (input : Input) : Except CommandError String :=
  match request with
  | version => .ok "sieve 0.1.0\n"
  | check options text => do
    match ← FilterLang.check options (← expression input text) with
    | .valid => return "Syntax is valid\n"
    | .rendered rendering => return rendering ++ "\n"
  | tokens pretty text => do
    return (← listTokens pretty (← expression input text)) ++ "\n"
  | docs => .ok Manual.overview
  | doc category => document category

end Request

/-- The program: prints and ends with 0, fails with 1, or refuses its arguments with 2. -/
def run (arguments : List String) (input : Input) : Outcome :=
  match Request.ofArguments? arguments with
  | none => ⟨2, "", "Usage: sieve [--log-level LEVEL] check|tokens|docs|doc ...\n"⟩
  | some request =>
    match request.output input with
    | .ok text => ⟨0, text, ""⟩
    | .error error => ⟨1, "", error.message ++ "\n"⟩

end FilterLang
