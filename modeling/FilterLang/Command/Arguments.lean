import FilterLang.Command.Basic

namespace FilterLang

structure Switch where
  long : String
  short : Option Char := none
  takesValue : Bool := false
  deriving DecidableEq, Repr

inductive Argument where
  | flag (name : String)
  | setting (name value : String)
  | operand (text : String)
  deriving DecidableEq, Repr

/-- What the program is asked to do. Without an expression, it reads one from its input. -/
inductive Request where
  | version
  | check (options : CheckOptions) (expression : Option String)
  | tokens (pretty : Bool) (expression : Option String)
  | docs
  | doc (category : String)
  deriving DecidableEq, Repr

namespace Switch

def logLevel : Switch where
  long := "log-level"
  takesValue := true

def pretty : Switch where
  long := "pretty"
  short := some 'p'

def syntaxOnly : Switch where
  long := "syntax-only"

def format : Switch where
  long := "format"
  short := some 'f'
  takesValue := true

end Switch

namespace Argument

/-- Whether an argument cannot be the value of an option before it. A single `-` can. -/
def isDashed (text : String) : Bool :=
  match text.toList with
  | '-' :: _ :: _ => true
  | _ => false

/-- Short options behind one dash. The last of them may take the rest as its value, behind an
    optional `=`, and if there is no rest the next argument (`some switch`). -/
def cluster? (switches : List Switch) : List Char → Option (List Argument × Option Switch)
  | [] => some ([], none)
  | letter :: rest => do
    let switch ← switches.find? (·.short == some letter)
    if switch.takesValue then
      match rest with
      | [] => return ([], some switch)
      | '=' :: value => return ([setting switch.long (String.ofList value)], none)
      | value => return ([setting switch.long (String.ofList value)], none)
    else
      let (others, pending) ← cluster? switches rest
      return (flag switch.long :: others, pending)

def long? (switches : List Switch) (text : List Char) : Option (List Argument × Option Switch) := do
  let name := text.takeWhile (· != '=')
  let switch ← switches.find? (·.long.toList == name)
  match text.drop name.length with
  | [] =>
    if switch.takesValue then return ([], some switch) else return ([flag switch.long], none)
  | _ :: value =>
    if switch.takesValue then return ([setting switch.long (String.ofList value)], none) else none

def options? (switches : List Switch) (text : String) :
    Option (Option (List Argument × Option Switch)) :=
  match text.toList with
  | '-' :: '-' :: name => some (long? switches name)
  | '-' :: letter :: letters => some (cluster? switches (letter :: letters))
  | _ => none

/-- Sorts arguments into options and operands. After `--` all are operands. -/
def sort? (switches : List Switch) : List String → Option (List Argument)
  | [] => some []
  | text :: rest =>
    if text = "--" then some (rest.map operand)
    else
      match options? switches text with
      | none => (sort? switches rest).map (operand text :: ·)
      | some none => none
      | some (some (found, none)) => (sort? switches rest).map (found ++ ·)
      | some (some (found, some switch)) =>
        match rest with
        | value :: rest =>
          if isDashed value then none
          else (sort? switches rest).map (found ++ setting switch.long value :: ·)
        | [] => none

def name? : Argument → Option String
  | flag name | setting name _ => some name
  | operand _ => none

def operand? : Argument → Option String
  | operand text => some text
  | _ => none

def value? (switch : Switch) : Argument → Option String
  | setting name value => if name = switch.long then some value else none
  | _ => none

end Argument

namespace Request

def arguments? (switches : List Switch) (texts : List String) :
    Option (List Argument × List String) := do
  let arguments ← Argument.sort? (.logLevel :: switches) texts
  if (arguments.filterMap Argument.name?).Nodup then
    some (arguments, arguments.filterMap Argument.operand?)
  else none

def format? (arguments : List Argument) : Option OutputFormat :=
  match arguments.findSome? (Argument.value? .format) with
  | none | some "json" => some .json
  | some "source" => some .source
  | some _ => none

def atMostOne? : List String → Option (Option String)
  | [] => some none
  | [text] => some (some text)
  | _ => none

def ofCommand? (command : String) (texts : List String) : Option Request :=
  match command with
  | "check" => do
    let (arguments, operands) ← arguments? [.pretty, .syntaxOnly, .format] texts
    let options : CheckOptions :=
      { pretty := arguments.contains (.flag "pretty")
        syntaxOnly := arguments.contains (.flag "syntax-only")
        format := ← format? arguments }
    return check options (← atMostOne? operands)
  | "tokens" => do
    let (arguments, operands) ← arguments? [.pretty] texts
    return tokens (arguments.contains (.flag "pretty")) (← atMostOne? operands)
  | "docs" => do
    let (_, operands) ← arguments? [] texts
    if operands.isEmpty then some docs else none
  | "doc" => do
    let (_, operands) ← arguments? [] texts
    match operands with
    | [category] => return doc category
    | _ => none
  | _ => none

/-- The request that the arguments of the program make. Before a command there may be one log
    level; asking for the version ends the reading. -/
def ofArguments? (texts : List String) : Option Request :=
  let afterLevel : List String → Option Request
    | [] => none
    | text :: rest => if asksVersion text then some version else ofCommand? text rest
  match texts with
  | [] => none
  | text :: rest =>
    match Argument.options? [.logLevel] text with
    | some (some (_, none)) => afterLevel rest
    | some (some (_, some _)) =>
      match rest with
      | value :: rest => if Argument.isDashed value then none else afterLevel rest
      | [] => none
    | _ => afterLevel texts
where
  asksVersion (text : String) : Bool :=
    text = "--version" || text.toList.take 2 == ['-', 'V']

end Request

end FilterLang
