import FilterLang.Proofs.Grammar.Acceptance
import FilterLang.Proofs.Grammar.Failure
import Mathlib

namespace FilterLang

namespace Descent

inductive Group where
  | parentheses
  | key (object : Expr)

/-- A function of the parser that waits for a value, with what it has read so far. -/
inductive Frame where
  | left (level : Level)
  | right (operator : Operator) (left : Expr)
  | object
  | element (before : List Expr)
  | expression (group : Option Group)

/-- The function that has the turn. `onward` is the loop after a value of a level, where a
    `member` goes on with accessors; `opened` is the entry into a group whose bracket is taken. -/
inductive Control where
  | start
  | level (level : Level)
  | primary
  | array
  | element
  | endArray (elements : List Expr)
  | onward (level : Level) (left : Expr)
  | property (object : Expr)
  | opened (group : Group) (bracket : Token)
  | close (group : Group) (inside : Expr)
  | give (value : Expr)
  | fail (failure : Failure)
  | stop (result : Except Failure Expr)

def Group.closing : Group → Token.Kind
  | parentheses => .closedParenthesis
  | key _ => .closedBracket

def Group.finish (inside : Expr) : Group → Control
  | parentheses => .give inside.parenthesized
  | key object => .onward .member (.member object inside true false)

def Frame.isGroup : Frame → Bool
  | expression (some _) => true
  | _ => false

def Frame.isExpression : Frame → Bool
  | expression _ => true
  | _ => false

end Descent

/-- A parse at one moment, with its calls laid open: the function that has the turn, those that wait
    for it, innermost first, the counter of open groups, and the tokens that are not taken yet. -/
structure Descent where
  control : Descent.Control
  frames : List Descent.Frame
  depth : Nat
  tokens : List Token

namespace Descent

def begin (tokens : List Token) : Descent := ⟨.start, [], 0, tokens⟩

def openGroups (d : Descent) : Nat := d.frames.countP Frame.isGroup

def activations (d : Descent) : Nat := d.frames.countP Frame.isExpression

def goOn (d : Descent) (control : Control) : Descent := { d with control := control }

def call (d : Descent) (frame : Frame) (control : Control) : Descent :=
  { d with control := control, frames := frame :: d.frames }

def failWith (d : Descent) (error : ParseError) (unread : List Token) : Descent :=
  d.goOn (.fail ⟨error, unread⟩)

variable (fault : Option LexError)

def take (d : Descent) (rest : List Token) (next : Descent → Descent) : Descent :=
  match arrive fault rest with
  | .ok () => next { d with tokens := rest }
  | .error failure => d.goOn (.fail failure)

def expect (d : Descent) (kind : Token.Kind) (next : Token → Control) : Descent :=
  match d.tokens with
  | [] => d.failWith (.unexpectedEnd (.kind kind)) []
  | token :: rest =>
    if token.kind = kind then d.take fault rest (·.goOn (next token))
    else d.failWith (.unexpectedToken (.kind kind) token) rest

def constant (d : Descent) (token : Token) (rest : List Token) : Descent :=
  d.take fault rest fun d =>
    match token.literal? with
    | some value => d.goOn (.give (.literal value false))
    | none => d.failWith (.invalidNumber token) rest.tail

def primary (d : Descent) : Descent :=
  match d.tokens with
  | [] => d.failWith (.unexpectedEnd .expression) []
  | token :: rest =>
    match token.kind with
    | .openBracket => d.take fault rest (·.goOn .array)
    | .openParenthesis => d.take fault rest (·.goOn (.opened .parentheses token))
    | .identifier => d.take fault rest (·.goOn (.give (.identifier token.text false)))
    | kind =>
      if kind.isLiteral then d.constant fault token rest
      else d.failWith (.unexpectedToken .expression token) rest

def array (d : Descent) : Descent :=
  if d.tokens.head?.any (·.kind = .closedBracket) then d.goOn (.endArray [])
  else d.call (.element []) .element

def element (d : Descent) : Descent :=
  match d.tokens with
  | [] => d.failWith (.unexpectedEnd .arrayElement) []
  | token :: rest =>
    if token.kind.isLiteral then d.constant fault token rest
    else if token.kind = .identifier then
      d.take fault rest (·.goOn (.onward .member (.identifier token.text false)))
    else d.failWith (.invalidArrayElement token) rest

def accessor (d : Descent) (object : Expr) : Descent :=
  match d.tokens with
  | [] => d.goOn (.give object)
  | token :: rest =>
    match token.kind with
    | .dot =>
      if object.isLiteral then d.failWith (.scalarMemberAccess object.kind) rest
      else d.take fault rest (·.goOn (.property object))
    | .openBracket => d.take fault rest (·.goOn (.opened (.key object) token))
    | _ => d.goOn (.give object)

def operator (d : Descent) (level : Level) (left : Expr) : Descent :=
  match d.tokens with
  | [] => d.goOn (.give left)
  | token :: rest =>
    match Parser.operatorAt? level token with
    | none => d.goOn (.give left)
    | some operator =>
      d.take fault rest (·.call (.right operator left) (.level operator.level.rightOperand))

/-- Enters a group, unless too many are open. This is the only place that counts one more. -/
def enter (d : Descent) (group : Group) (bracket : Token) : Descent :=
  if d.depth < maxNesting then
    { d.call (.expression (some group)) (.level .or) with depth := d.depth + 1 }
  else d.failWith (.nestingTooDeep bracket.position) d.tokens.tail

def receive (d : Descent) (value : Expr) : Frame → Descent
  | .left level => d.goOn (.onward level value)
  | .right operator left =>
    match operator.operandError? left value with
    | some error => d.failWith error d.tokens.tail
    | none =>
      let joined := .binary operator left value false
      d.goOn (if operator.level.folds then .onward operator.level joined else .give joined)
  | .object => d.goOn (.onward .member value)
  | .element before =>
    match d.tokens with
    | [] => d.goOn (.endArray (before ++ [value]))
    | token :: rest =>
      if token.kind = .comma then
        d.take fault rest (·.call (.element (before ++ [value])) .element)
      else d.goOn (.endArray (before ++ [value]))
  | .expression (some group) => { d.goOn (.close group value) with depth := d.depth - 1 }
  | .expression none => d.goOn (.stop ((wholly (value, d.tokens)).map Prod.fst))

def leave (d : Descent) (frame : Frame) : Descent :=
  { d with depth := if frame.isGroup then d.depth - 1 else d.depth }

def step (d : Descent) : Option Descent :=
  match d.control, d.frames with
  | .start, [] => some (d.take fault d.tokens (·.call (.expression none) (.level .or)))
  | .level .member, _ => some (d.call .object .primary)
  | .level level, _ => some (d.call (.left level) (.level level.tighter))
  | .primary, _ => some (d.primary fault)
  | .array, _ => some d.array
  | .element, _ => some (d.element fault)
  | .endArray elements, _ =>
    some (d.expect fault .closedBracket fun _ => .give (.array elements false))
  | .onward .member object, _ => some (d.accessor fault object)
  | .onward level left, _ => some (d.operator fault level left)
  | .property object, _ =>
    some (d.expect fault .identifier fun name =>
      .onward .member (.member object (.identifier name.text false) false false))
  | .opened group bracket, _ => some (d.enter group bracket)
  | .close group inside, _ => some (d.expect fault group.closing fun _ => group.finish inside)
  | .give value, frame :: frames => some ({ d with frames := frames }.receive fault value frame)
  | .fail _, frame :: frames => some ({ d with frames := frames }.leave frame)
  | .fail failure, [] => some (d.goOn (.stop (.error failure)))
  | .start, _ :: _ | .give _, [] | .stop _, _ => none

theorem step_level {level : Level} (notMember : level ≠ .member) (frames : List Frame)
    (depth : Nat) (tokens : List Token) :
    step fault ⟨.level level, frames, depth, tokens⟩ =
      some ⟨.level level.tighter, .left level :: frames, depth, tokens⟩ := by
  cases level <;> first | rfl | contradiction

theorem step_onward {level : Level} (notMember : level ≠ .member) (left : Expr)
    (frames : List Frame) (depth : Nat) (tokens : List Token) :
    step fault ⟨.onward level left, frames, depth, tokens⟩ =
      some (operator fault ⟨.onward level left, frames, depth, tokens⟩ level left) := by
  cases level <;> first | rfl | contradiction

inductive Move : Descent → Descent → Prop where
  | start {depth : Nat} {tokens : List Token} :
      Move ⟨.start, [], depth, tokens⟩
        (take fault ⟨.start, [], depth, tokens⟩ tokens (·.call (.expression none) (.level .or)))
  | member {frames : List Frame} {depth : Nat} {tokens : List Token} :
      Move ⟨.level .member, frames, depth, tokens⟩ ⟨.primary, .object :: frames, depth, tokens⟩
  | level {level : Level} {frames : List Frame} {depth : Nat} {tokens : List Token} :
      level ≠ .member →
      Move ⟨.level level, frames, depth, tokens⟩
        ⟨.level level.tighter, .left level :: frames, depth, tokens⟩
  | primary {frames : List Frame} {depth : Nat} {tokens : List Token} :
      Move ⟨.primary, frames, depth, tokens⟩ (primary fault ⟨.primary, frames, depth, tokens⟩)
  | array {frames : List Frame} {depth : Nat} {tokens : List Token} :
      Move ⟨.array, frames, depth, tokens⟩ (array ⟨.array, frames, depth, tokens⟩)
  | element {frames : List Frame} {depth : Nat} {tokens : List Token} :
      Move ⟨.element, frames, depth, tokens⟩ (element fault ⟨.element, frames, depth, tokens⟩)
  | endArray {elements : List Expr} {frames : List Frame} {depth : Nat} {tokens : List Token} :
      Move ⟨.endArray elements, frames, depth, tokens⟩
        (expect fault ⟨.endArray elements, frames, depth, tokens⟩ .closedBracket fun _ =>
          .give (.array elements false))
  | accessor {object : Expr} {frames : List Frame} {depth : Nat} {tokens : List Token} :
      Move ⟨.onward .member object, frames, depth, tokens⟩
        (accessor fault ⟨.onward .member object, frames, depth, tokens⟩ object)
  | operator {level : Level} {left : Expr} {frames : List Frame} {depth : Nat}
      {tokens : List Token} :
      level ≠ .member →
      Move ⟨.onward level left, frames, depth, tokens⟩
        (operator fault ⟨.onward level left, frames, depth, tokens⟩ level left)
  | property {object : Expr} {frames : List Frame} {depth : Nat} {tokens : List Token} :
      Move ⟨.property object, frames, depth, tokens⟩
        (expect fault ⟨.property object, frames, depth, tokens⟩ .identifier fun name =>
          .onward .member (.member object (.identifier name.text false) false false))
  | enter {group : Group} {bracket : Token} {frames : List Frame} {depth : Nat}
      {tokens : List Token} :
      Move ⟨.opened group bracket, frames, depth, tokens⟩
        (enter ⟨.opened group bracket, frames, depth, tokens⟩ group bracket)
  | close {group : Group} {inside : Expr} {frames : List Frame} {depth : Nat}
      {tokens : List Token} :
      Move ⟨.close group inside, frames, depth, tokens⟩
        (expect fault ⟨.close group inside, frames, depth, tokens⟩ group.closing fun _ =>
          group.finish inside)
  | receive {value : Expr} {frame : Frame} {frames : List Frame} {depth : Nat}
      {tokens : List Token} :
      Move ⟨.give value, frame :: frames, depth, tokens⟩
        (receive fault ⟨.give value, frames, depth, tokens⟩ value frame)
  | leave {failure : Failure} {frame : Frame} {frames : List Frame} {depth : Nat}
      {tokens : List Token} :
      Move ⟨.fail failure, frame :: frames, depth, tokens⟩
        (leave ⟨.fail failure, frames, depth, tokens⟩ frame)
  | stop {failure : Failure} {depth : Nat} {tokens : List Token} :
      Move ⟨.fail failure, [], depth, tokens⟩ ⟨.stop (.error failure), [], depth, tokens⟩

theorem step_eq_some_iff {d e : Descent} : d.step fault = some e ↔ Move fault d e := by
  constructor
  · intro stepped
    obtain ⟨control, frames, depth, tokens⟩ := d
    cases control with
    | start =>
      cases frames <;> cases stepped
      exact .start
    | level level =>
      by_cases member : level = .member
      · subst member
        cases stepped
        exact .member
      · rw [step_level fault member] at stepped
        cases stepped
        exact .level member
    | onward level left =>
      by_cases member : level = .member
      · subst member
        cases stepped
        exact .accessor
      · rw [step_onward fault member] at stepped
        cases stepped
        exact .operator member
    | give value =>
      cases frames <;> cases stepped
      exact .receive
    | fail failure =>
      cases frames <;> cases stepped
      · exact .stop
      · exact .leave
    | stop => cases stepped
    | _ =>
      cases stepped
      constructor
  · intro move
    cases move with
    | level notMember => exact step_level fault notMember _ _ _
    | operator notMember => exact step_onward fault notMember _ _ _ _
    | _ => rfl

abbrev Reaches : Descent → Descent → Prop := StateTransition.Reaches (step fault)

end Descent

end FilterLang
