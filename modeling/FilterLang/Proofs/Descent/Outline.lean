import FilterLang.Proofs.Descent.Counter

namespace FilterLang

inductive Bracket where
  | group
  | array
  deriving DecidableEq

/-- What some tokens leave open, innermost first, and whether the last of them ends an operand. -/
structure Outline where
  brackets : List Bracket
  operand : Bool

def Token.Kind.endsOperand : Token.Kind → Bool
  | identifier | closedParenthesis | closedBracket => true
  | kind => kind.isLiteral

def Token.Kind.isBracket : Token.Kind → Bool
  | openParenthesis | closedParenthesis | openBracket | closedBracket => true
  | _ => false

namespace Outline

/-- A square bracket right behind an operand is an accessor, and else opens an array literal. -/
def opens (outline : Outline) (token : Token) : Option Bracket :=
  match token.kind with
  | .openParenthesis => some .group
  | .openBracket => some (if outline.operand then .group else .array)
  | _ => none

def next (outline : Outline) (token : Token) : Outline where
  brackets :=
    match token.kind with
    | .closedParenthesis | .closedBracket => outline.brackets.tail
    | _ => (outline.opens token).toList ++ outline.brackets
  operand := token.kind.endsOperand

def groups (outline : Outline) : Nat := outline.brackets.count .group

theorem brackets_next_of_not_isBracket (outline : Outline) {token : Token}
    (noBracket : token.kind.isBracket = false) :
    (outline.next token).brackets = outline.brackets := by
  unfold next opens
  cases kind : token.kind <;> simp_all [Token.Kind.isBracket]

theorem brackets_next_of_opens {outline : Outline} {token : Token} {bracket : Bracket}
    (opening : outline.opens token = some bracket) :
    (outline.next token).brackets = bracket :: outline.brackets := by
  unfold next
  split
  · next kind => simp [opens, kind] at opening
  · next kind => simp [opens, kind] at opening
  · rw [opening]
    rfl

end Outline

def outline (tokens : List Token) : Outline := tokens.foldl Outline.next ⟨[], false⟩

theorem outline_concat (tokens : List Token) (token : Token) :
    outline (tokens ++ [token]) = (outline tokens).next token :=
  List.foldl_concat Outline.next _ _ _

theorem operand_concat (tokens : List Token) (token : Token) :
    (outline (tokens ++ [token])).operand = token.kind.endsOperand :=
  congrArg Outline.operand (outline_concat tokens token)

def OpensTooDeep (tokens : List Token) (position : Nat) : Prop :=
  ∃ before bracket after, tokens = before ++ bracket :: after ∧ bracket.position = position ∧
    (outline before).opens bracket = some .group ∧ (outline before).groups = maxNesting

theorem OpensTooDeep.crowded {tokens : List Token} {position : Nat}
    (tooDeep : OpensTooDeep tokens position) :
    ∃ before, before <+: tokens ∧ maxNesting < (outline before).brackets.length := by
  obtain ⟨before, bracket, after, rfl, -, opens, full⟩ := tooDeep
  refine ⟨before ++ [bracket], ⟨after, by simp⟩, ?_⟩
  have groups : (outline before).groups ≤ (outline before).brackets.length := List.count_le_length
  rw [outline_concat, Outline.brackets_next_of_opens opens, List.length_cons]
  omega

def ParseError.tooDeep? : ParseError → Option Nat
  | nestingTooDeep position => some position
  | _ => none

namespace Descent

def Frame.brackets : Frame → List Bracket
  | expression (some _) => [.group]
  | element _ => [.array]
  | _ => []

def Control.brackets : Control → List Bracket
  | opened _ _ | close _ _ => [.group]
  | array | endArray _ => [.array]
  | _ => []

def Control.Fits (before : List Token) : Control → Prop
  | start | level _ | primary => (outline before).operand = false
  | onward _ _ | give _ => (outline before).operand = true
  | opened _ bracket =>
    ∃ earlier, before = earlier ++ [bracket] ∧ (outline earlier).opens bracket = some .group
  | fail _ | stop (.error _) => False
  | _ => True

def Control.error? : Control → Option ParseError
  | fail failure | stop (.error failure) => some failure.error
  | _ => none

def brackets (d : Descent) : List Bracket := d.control.brackets ++ d.frames.flatMap Frame.brackets

/-- The functions at work are those that the tokens `before` leave open. -/
structure Placed (all before : List Token) (d : Descent) : Prop where
  tokens : before ++ d.tokens = all
  brackets : (outline before).brackets = d.brackets
  fits : d.control.Fits before

inductive Traced (all : List Token) (d : Descent) : Prop where
  | going (before : List Token) : Placed all before d → Traced all d
  | failed (error : ParseError) : d.control.error? = some error →
      (∀ position ∈ error.tooDeep?, OpensTooDeep all position) → Traced all d

variable {fault : Option LexError} {all before tokens : List Token} {control : Control}
  {frames : List Frame} {depth : Nat}

theorem count_group_brackets (frames : List Frame) :
    (frames.flatMap Frame.brackets).count .group = frames.countP Frame.isGroup := by
  induction frames with
  | nil => rfl
  | cons frame frames ih =>
    rw [List.flatMap_cons, List.count_append, ih, List.countP_cons, Nat.add_comm]
    congr 1
    cases frame with
    | expression group => cases group <;> rfl
    | _ => rfl

theorem traced_failWith (d : Descent) {error : ParseError} (unread : List Token)
    (other : error.tooDeep? = none) : Traced all (d.failWith error unread) :=
  .failed error rfl (by simp [other])

theorem traced_take (d : Descent) {rest : List Token} {next : Descent → Descent}
    (more : Traced all (next { d with tokens := rest })) : Traced all (d.take fault rest next) := by
  unfold take
  cases arrived : arrive fault rest with
  | ok => exact more
  | error failure =>
    have lexical : failure.error.tooDeep? = none := by
      cases fault <;> cases rest <;> cases arrived
      rfl
    exact .failed failure.error rfl (by simp [lexical])

/-- Another function has the turn, with the same tokens before it. -/
theorem Placed.turn {d e : Descent} (placed : Placed all before d) (same : e.tokens = d.tokens)
    (brackets : e.brackets = d.brackets) (fits : e.control.Fits before) : Placed all before e where
  tokens := by rw [same, placed.tokens]
  brackets := by rw [brackets, placed.brackets]
  fits := fits

theorem Placed.after {token : Token} {rest : List Token} {e : Descent}
    (placed : Placed all before ⟨control, frames, depth, token :: rest⟩) (taken : e.tokens = rest)
    (brackets : ((outline before).next token).brackets = e.brackets)
    (fits : e.control.Fits (before ++ [token])) : Placed all (before ++ [token]) e where
  tokens := by rw [taken, List.append_assoc, List.singleton_append, placed.tokens]
  brackets := by rw [outline_concat, brackets]
  fits := fits

theorem traced_expect {d : Descent} {kind : Token.Kind} {next : Token → Control}
    (before : List Token) (more : ∀ token rest, d.tokens = token :: rest → token.kind = kind →
      Placed all (before ++ [token]) ⟨next token, d.frames, d.depth, rest⟩) :
    Traced all (d.expect fault kind next) := by
  unfold expect
  split
  · exact traced_failWith d _ rfl
  · next token rest tokens =>
    split
    · next same => exact traced_take d (.going _ (more token rest tokens same))
    · exact traced_failWith d _ rfl

theorem Placed.pass {token : Token} {rest : List Token}
    (placed : Placed all before ⟨control, frames, depth, token :: rest⟩)
    (noBracket : token.kind.isBracket = false) {next : Control}
    (same : next.brackets = control.brackets) (fits : next.Fits (before ++ [token])) :
    Placed all (before ++ [token]) ⟨next, frames, depth, rest⟩ := by
  refine placed.after rfl ?_ fits
  rw [Outline.brackets_next_of_not_isBracket _ noBracket, placed.brackets]
  simp only [Descent.brackets, same]

theorem Placed.opening {token : Token} {rest : List Token}
    (placed : Placed all before ⟨control, frames, depth, token :: rest⟩) {bracket : Bracket}
    (opens : (outline before).opens token = some bracket) {next : Control}
    (own : next.brackets = bracket :: control.brackets) (fits : next.Fits (before ++ [token])) :
    Placed all (before ++ [token]) ⟨next, frames, depth, rest⟩ := by
  refine placed.after rfl ?_ fits
  rw [Outline.brackets_next_of_opens opens, placed.brackets]
  simp only [Descent.brackets, own, List.cons_append]

theorem Placed.closing {token : Token} {rest : List Token}
    (placed : Placed all before ⟨control, frames, depth, token :: rest⟩)
    (closes : token.kind = .closedParenthesis ∨ token.kind = .closedBracket) {next : Control}
    (own : next.brackets = control.brackets.tail) (taken : control.brackets ≠ [])
    (fits : (outline (before ++ [token])).operand = true → next.Fits (before ++ [token])) :
    Placed all (before ++ [token]) ⟨next, frames, depth, rest⟩ := by
  refine placed.after rfl ?_ (fits ?_)
  · have closed : ((outline before).next token).brackets = (outline before).brackets.tail := by
      rcases closes with kind | kind <;> simp [Outline.next, kind]
    rw [closed, placed.brackets]
    simp only [Descent.brackets, own, List.tail_append_of_ne_nil taken]
  · rw [operand_concat]
    rcases closes with kind | kind <;> rw [kind] <;> rfl

theorem traced_constant {token : Token} {rest : List Token}
    (placed : Placed all before ⟨control, frames, depth, token :: rest⟩)
    (quiet : control.brackets = []) (literal : token.kind.isLiteral = true) :
    Traced all (constant fault ⟨control, frames, depth, token :: rest⟩ token rest) := by
  apply traced_take
  cases token.literal? with
  | some value =>
    have noBracket : token.kind.isBracket = false := by
      cases kind : token.kind <;> simp_all [Token.Kind.isLiteral, Token.Kind.isBracket]
    refine .going _ (placed.pass noBracket quiet.symm ?_)
    simp only [Control.Fits, operand_concat]
    cases kind : token.kind <;> simp_all [Token.Kind.isLiteral, Token.Kind.endsOperand]
  | none => exact traced_failWith _ _ rfl

theorem Placed.name {token : Token} {rest : List Token}
    (placed : Placed all before ⟨control, frames, depth, token :: rest⟩)
    (kind : token.kind = .identifier) {next : Control} (same : next.brackets = control.brackets)
    (fits : (outline (before ++ [token])).operand = true → next.Fits (before ++ [token])) :
    Placed all (before ++ [token]) ⟨next, frames, depth, rest⟩ := by
  refine placed.pass (by rw [kind]; rfl) same (fits ?_)
  rw [operand_concat, kind]
  rfl

theorem traced_primary (placed : Placed all before ⟨.primary, frames, depth, tokens⟩) :
    Traced all (primary fault ⟨.primary, frames, depth, tokens⟩) := by
  have noOperand : (outline before).operand = false := placed.fits
  unfold primary
  split
  · exact traced_failWith _ _ rfl
  · next token rest head =>
    cases head
    split
    · next kind =>
      have opens : (outline before).opens token = some .array := by
        simp [Outline.opens, kind, noOperand]
      exact traced_take _ (.going _ (placed.opening opens rfl trivial))
    · next kind =>
      have opens : (outline before).opens token = some .group := by simp [Outline.opens, kind]
      exact traced_take _ (.going _ (placed.opening opens rfl ⟨before, rfl, opens⟩))
    · next kind => exact traced_take _ (.going _ (placed.name kind rfl id))
    · split
      · next literal => exact traced_constant placed rfl literal
      · exact traced_failWith _ _ rfl

theorem traced_array (placed : Placed all before ⟨.array, frames, depth, tokens⟩) :
    Traced all (array ⟨.array, frames, depth, tokens⟩) := by
  unfold array
  split <;> exact .going before (placed.turn rfl rfl trivial)

theorem traced_element (placed : Placed all before ⟨.element, frames, depth, tokens⟩) :
    Traced all (element fault ⟨.element, frames, depth, tokens⟩) := by
  unfold element
  split
  · exact traced_failWith _ _ rfl
  · next token rest head =>
    cases head
    split
    · next literal => exact traced_constant placed rfl literal
    · split
      · next kind => exact traced_take _ (.going _ (placed.name kind rfl id))
      · exact traced_failWith _ _ rfl

theorem traced_accessor {object : Expr}
    (placed : Placed all before ⟨.onward .member object, frames, depth, tokens⟩) :
    Traced all (accessor fault ⟨.onward .member object, frames, depth, tokens⟩ object) := by
  have operand : (outline before).operand = true := placed.fits
  have gives : Traced all ⟨.give object, frames, depth, tokens⟩ :=
    .going before (placed.turn rfl rfl operand)
  unfold accessor
  split
  · exact gives
  · next token rest head =>
    cases head
    split
    · next kind =>
      split
      · exact traced_failWith _ _ rfl
      · have noBracket : token.kind.isBracket = false := by rw [kind]; rfl
        exact traced_take _ (.going _ (placed.pass noBracket rfl trivial))
    · next kind =>
      have opens : (outline before).opens token = some .group := by
        simp [Outline.opens, kind, operand]
      exact traced_take _ (.going _ (placed.opening opens rfl ⟨before, rfl, opens⟩))
    · exact gives

theorem traced_operator {level : Level} {left : Expr}
    (placed : Placed all before ⟨.onward level left, frames, depth, tokens⟩) :
    Traced all (operator fault ⟨.onward level left, frames, depth, tokens⟩ level left) := by
  have gives : Traced all ⟨.give left, frames, depth, tokens⟩ :=
    .going before (placed.turn rfl rfl placed.fits)
  unfold operator
  split
  · exact gives
  · next token rest head =>
    cases head
    split
    · exact gives
    · next operator found =>
      have kind : token.kind = operator.tokenKind := (Parser.operatorAt?_eq_some_iff.mp found).1.1
      have noBracket : token.kind.isBracket = false := by rw [kind]; cases operator <;> rfl
      refine traced_take _ (.going _ (placed.after rfl ?_ ?_))
      · rw [Outline.brackets_next_of_not_isBracket _ noBracket, placed.brackets]
        rfl
      · simp only [call, Control.Fits, operand_concat, kind]
        cases operator <;> rfl

/-- The only failure that counts brackets, where the counter says how many groups are open. -/
theorem traced_enter {group : Group} {bracket : Token} (counted : Counted (frames, depth))
    (placed : Placed all before ⟨.opened group bracket, frames, depth, tokens⟩) :
    Traced all (enter ⟨.opened group bracket, frames, depth, tokens⟩ group bracket) := by
  obtain ⟨earlier, rfl, opens⟩ := placed.fits
  unfold enter
  split
  · refine .going _ (placed.turn rfl rfl ?_)
    simp only [call, Control.Fits, operand_concat]
    unfold Outline.opens at opens
    split at opens
    · next kind => rw [kind]; rfl
    · next kind => rw [kind]; rfl
    · cases opens
  · next full =>
    refine .failed _ rfl fun position same => ?_
    cases same
    refine ⟨earlier, bracket, tokens, ?_, rfl, opens, ?_⟩
    · rw [← placed.tokens, List.append_assoc, List.singleton_append]
    · -- Below the bracket just taken are those of the calls at work, and the counter counts them.
      have inside := placed.brackets
      rw [outline_concat, Outline.brackets_next_of_opens opens] at inside
      have earlierBrackets : (outline earlier).brackets = frames.flatMap Frame.brackets :=
        (List.cons.inj inside).2
      have counts := counted.depth
      have limit := counted.limit
      dsimp only at counts limit full
      rw [Outline.groups, earlierBrackets, count_group_brackets]
      omega

theorem traced_receive {value : Expr} {frame : Frame}
    (placed : Placed all before ⟨.give value, frame :: frames, depth, tokens⟩) :
    Traced all (receive fault ⟨.give value, frames, depth, tokens⟩ value frame) := by
  have operand : (outline before).operand = true := placed.fits
  cases frame with
  | left level => exact .going before (placed.turn rfl rfl operand)
  | object => exact .going before (placed.turn rfl rfl operand)
  | right operator left =>
    simp only [receive]
    split
    · next error found =>
      refine traced_failWith _ _ ?_
      rcases Parser.operandError?_cases found with rfl | ⟨kind, rfl, -⟩ <;> rfl
    · split <;> exact .going before (placed.turn rfl rfl operand)
  | element others =>
    have ends : Traced all ⟨.endArray (others ++ [value]), frames, depth, tokens⟩ :=
      .going before (placed.turn rfl rfl trivial)
    cases tokens with
    | nil => exact ends
    | cons token rest =>
      simp only [receive]
      split
      · next kind =>
        refine traced_take _ (.going _ (placed.after rfl ?_ trivial))
        rw [Outline.brackets_next_of_not_isBracket _ (by rw [kind]; rfl), placed.brackets]
        rfl
      · exact ends
  | expression group =>
    cases group with
    | some group => exact .going before (placed.turn rfl rfl trivial)
    | none =>
      cases tokens with
      | nil => exact .going before (placed.turn rfl rfl trivial)
      | cons token rest =>
        exact .failed (.trailingInput token) rfl (by simp [ParseError.tooDeep?])

theorem traced_of_move {d e : Descent} (counted : Counted d.counts) (move : Move fault d e)
    (traced : Traced all d) : Traced all e := by
  cases traced with
  | failed error failed deep =>
    cases move with
    | leave | stop => exact .failed error failed deep
    | _ => cases failed
  | going before placed =>
    cases move with
    | start => exact traced_take _ (.going before (placed.turn rfl rfl placed.fits))
    | member | level => exact .going before (placed.turn rfl rfl placed.fits)
    | primary => exact traced_primary placed
    | array => exact traced_array placed
    | element => exact traced_element placed
    | endArray =>
      refine traced_expect before fun token rest head kind => ?_
      cases head
      exact placed.closing (.inr kind) rfl (List.cons_ne_nil _ _) id
    | accessor => exact traced_accessor placed
    | operator => exact traced_operator placed
    | property =>
      refine traced_expect before fun token rest head kind => ?_
      cases head
      exact placed.name kind rfl id
    | enter => exact traced_enter counted placed
    | @close group =>
      refine traced_expect before fun token rest head kind => ?_
      cases head
      cases group with
      | parentheses => exact placed.closing (.inl kind) rfl (List.cons_ne_nil _ _) id
      | key object => exact placed.closing (.inr kind) rfl (List.cons_ne_nil _ _) id
    | receive => exact traced_receive placed
    | leave | stop => exact placed.fits.elim

/-- At each moment of a parse the functions at work are those that the tokens leave open. -/
theorem traced_of_reaches {d : Descent} (reaches : Reaches fault (begin all) d) : Traced all d := by
  induction reaches with
  | refl => exact .going [] ⟨rfl, rfl, rfl⟩
  | tail before stepped ih =>
    exact traced_of_move (counted_of_reaches before) ((step_eq_some_iff fault).mp stepped) ih

end Descent

end FilterLang
