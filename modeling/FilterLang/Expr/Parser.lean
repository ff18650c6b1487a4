import FilterLang.Expr.Parsed
import FilterLang.Token.Scan

namespace FilterLang

def Token.unquoted (token : Token) : String :=
  String.ofList (token.text.toList.drop 1).dropLast

def Token.literal? (token : Token) : Option Literal :=
  match token.kind with
  | .number =>
    ((Decimal.ofNumeral? token.text.toList).map (Binary64.ofDecimal false)).bind fun value =>
      if value.isFinite then some (.number value) else none
  | .string => some (.string token.unquoted)
  | .boolean value => some (.boolean value)
  | .null => some .null
  | _ => none

namespace Expr

def isScalar : Expr → Bool
  | array .. => false
  | _ => true

/-- An array literal is an array, and a name may stand for one. -/
def mayBeArray : Expr → Bool
  | array .. | identifier .. => true
  | _ => false

end Expr

def Operator.operandError? (operator : Operator) (left right : Expr) : Option ParseError :=
  match operator with
  | .contains =>
    if !left.isScalar then some (.invalidScalar left.kind)
    else if !right.isScalar then some (.invalidScalar right.kind)
    else none
  | .has =>
    if !left.mayBeArray then some (.invalidArray left.kind)
    else if !right.isScalar then some (.invalidScalar right.kind)
    else none
  | .isIn | .notIn =>
    if !left.isScalar then some (.invalidScalar left.kind)
    else if !right.mayBeArray then some (.invalidArray right.kind)
    else none
  | _ => none

namespace Parser

variable (fault : Option LexError)

def operatorAt? (level : Level) (token : Token) : Option Operator :=
  token.operator?.filter (·.level == level)

def identifier : Parser Expr := fun tokens => do
  let name ← expect fault .identifier tokens
  return name.map fun token => .identifier token.text false

/-- Takes a literal token. Its text is looked at only after the next token is there. -/
def literal (token : Token) (rest : List Token) :
    Except Failure (Parsed Expr (rest.length + 1)) := do
  let taken ← take fault token rest
  match token.literal? with
  | some value => return taken.map fun _ => .literal value false
  | none => .error ⟨.invalidNumber token, taken.rest.tail⟩

def chainFrom (level : Level) (operand : Parser Expr) (left : Expr) : Continuation Expr
  | [] => .ok (.stay left [])
  | token :: rest =>
    match operatorAt? level token with
    | none => .ok (.stay left (token :: rest))
    | some operator => do
      let right ← (← take fault token rest).andThen fun _ => operand
      let all ← chainFrom level operand (.binary operator left right.value false) right.rest
      return all.widen (Nat.le_succ_of_le right.shorter)
termination_by tokens => tokens.length
decreasing_by exact right.shorter

def chain (level : Level) (operand : Parser Expr) : Parser Expr := fun tokens => do
  (← operand tokens).continued (chainFrom fault level operand)

def single (level : Level) (operand : Parser Expr) (left : Expr) : Continuation Expr
  | [] => .ok (.stay left [])
  | token :: rest =>
    match operatorAt? level token with
    | none => .ok (.stay left (token :: rest))
    | some operator => do
      let right ← (← take fault token rest).andThen fun _ => operand
      match operator.operandError? left right.value with
      | some error => .error ⟨error, right.rest.tail⟩
      | none => return (right.map fun e => .binary operator left e false).widen (Nat.le_succ _)

section

variable (nested : Nat → Parser Expr)

/-- The accessors after an object. `nested` reads a key; it is given the position of the bracket
    that opens it. -/
def accessors (object : Expr) : Continuation Expr
  | [] => .ok (.stay object [])
  | token :: rest =>
    match token.kind with
    | .dot =>
      if object.isLiteral then .error ⟨.scalarMemberAccess object.kind, rest⟩
      else do
        let name ← (← take fault token rest).andThen fun _ => identifier fault
        let all ← accessors (.member object name.value false false) name.rest
        return all.widen (Nat.le_succ_of_le name.shorter)
    | .openBracket => do
      let key ← (← take fault token rest).andThen fun bracket => nested bracket.position
      let closing ← key.andThen fun _ => expect fault .closedBracket
      let all ← accessors (.member object key.value true false) closing.rest
      return all.widen (Nat.le_succ_of_le closing.shorter)
    | _ => .ok (.stay object (token :: rest))
termination_by tokens => tokens.length
decreasing_by
  · exact name.shorter
  · exact closing.shorter

def element : Parser Expr
  | [] => .error ⟨.unexpectedEnd .arrayElement, []⟩
  | token :: rest =>
    if token.kind.isLiteral then literal fault token rest
    else if token.kind = .identifier then do
      (← take fault token rest).continued fun name =>
        accessors fault nested (.identifier name.text false)
    else .error ⟨.invalidArrayElement token, rest⟩

def moreElements : Continuation (List Expr)
  | [] => .ok (.stay [] [])
  | token :: rest =>
    if token.kind = .comma then do
      let next ← (← take fault token rest).andThen fun _ => element fault nested
      let all ← moreElements next.rest
      return (all.map (next.value :: ·)).widen (Nat.le_succ_of_le next.shorter)
    else .ok (.stay [] (token :: rest))
termination_by tokens => tokens.length
decreasing_by exact next.shorter

def someElements : Parser (List Expr) := fun tokens => do
  let first ← element fault nested tokens
  let others ← first.continued fun _ => moreElements fault nested
  return others.map (first.value :: ·)

def elements : Continuation (List Expr) := fun tokens =>
  if tokens.head?.any (·.kind = .closedBracket) then .ok (.stay [] tokens)
  else (someElements fault nested tokens).map (·.widen (Nat.le_succ _))

def primary : Parser Expr
  | [] => .error ⟨.unexpectedEnd .expression, []⟩
  | token :: rest =>
    match token.kind with
    | .openBracket => do
      let inside ← (← take fault token rest).continued fun _ => elements fault nested
      let closing ← inside.andThen fun _ => expect fault .closedBracket
      return closing.map fun _ => .array inside.value false
    | .openParenthesis => do
      let inside ← (← take fault token rest).andThen fun bracket => nested bracket.position
      let closing ← inside.andThen fun _ => expect fault .closedParenthesis
      return closing.map fun _ => inside.value.parenthesized
    | .identifier => identifier fault (token :: rest)
    | kind =>
      if kind.isLiteral then literal fault token rest
      else .error ⟨.unexpectedToken .expression token, rest⟩

def member : Parser Expr := fun tokens => do
  (← primary fault nested tokens).continued (accessors fault nested)

/-- Membership: one `has`, then one `in` or `not in` applied to the result. -/
def inclusion : Parser Expr := fun tokens => do
  let left ← member fault nested tokens
  let joined ← left.continued (single fault .has (member fault nested))
  joined.continued (single fault .inclusion (member fault nested))

def containment : Parser Expr := fun tokens => do
  (← inclusion fault nested tokens).continued (single fault .contains (member fault nested))

def levels : Parser Expr :=
  chain fault .or <| chain fault .and <| chain fault .equality <| chain fault .relational <|
    containment fault nested

end

/-- An expression inside which at most `spare` further groups may be open at once. -/
def expression : (spare : Nat) → Parser Expr
  | 0 => levels fault fun position tokens => .error ⟨.nestingTooDeep position, tokens.tail⟩
  | spare + 1 => levels fault fun _ => expression spare

end Parser

namespace Scan

def parse (scan : Scan) : Except Failure Expr :=
  match scan.tokens, scan.error with
  | [], some error => .error ⟨.lexical error, []⟩
  | tokens, fault => do
    let whole ← Parser.expression fault maxNesting tokens
    match whole.rest with
    | [] => return whole.value
    | token :: unread => .error ⟨.trailingInput token, unread⟩

/-- The tokens that a parse reads, one ahead of those it takes. -/
def consulted (scan : Scan) : List Token :=
  match scan.parse with
  | .ok _ => scan.tokens
  | .error failure => scan.tokens.take (scan.tokens.length - failure.unread.length)

end Scan

def parse (text : String) : Except ParseError Expr :=
  (Scan.ofText text).parse.mapError (·.error)

end FilterLang
