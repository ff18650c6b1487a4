import FilterLang.Proofs.Grammar.Phrase

namespace FilterLang

def outcome {α : Type} {n : Nat} (result : Except Failure (Parsed α n)) :
    Except Failure (α × List Token) :=
  result.map fun parsed => (parsed.value, parsed.rest)

/-- Looks at the first token of `rest`. A source with a fault fails at its end. -/
def arrive (fault : Option LexError) (rest : List Token) : Except Failure Unit :=
  match fault, rest with
  | some error, [] => .error ⟨.lexical error, []⟩
  | _, _ => .ok ()

def Ready (fault : Option LexError) (rest : List Token) : Prop := fault = none ∨ rest ≠ []

theorem arrive_eq_ok_iff {fault : Option LexError} {rest : List Token} :
    arrive fault rest = .ok () ↔ Ready fault rest := by
  cases fault <;> cases rest <;> simp [arrive, Ready]

theorem Ready.append {fault : Option LexError} {rest : List Token} (ready : Ready fault rest)
    (before : List Token) : Ready fault (before ++ rest) := by
  rcases ready with fine | more
  · exact .inl fine
  · exact .inr (by simp [more])

theorem ready_cons (fault : Option LexError) (token : Token) (rest : List Token) :
    Ready fault (token :: rest) := .inr (by simp)

theorem bind_eq_ok_iff {α β : Type} {first : Except Failure α} {next : α → Except Failure β}
    {result : β} :
    first >>= next = .ok result ↔ ∃ found, first = .ok found ∧ next found = .ok result := by
  cases first with
  | error failure =>
    constructor
    · intro read
      cases read
    · rintro ⟨_, read, _⟩
      cases read
  | ok found =>
    constructor
    · exact fun read => ⟨found, rfl, read⟩
    · rintro ⟨_, same, read⟩
      cases same
      exact read

section

variable {α β : Type} {n m : Nat}

@[simp] theorem outcome_ok (parsed : Parsed α n) :
    outcome (.ok parsed) = .ok (parsed.value, parsed.rest) := rfl

@[simp] theorem outcome_stay (value : α) (tokens : List Token) :
    outcome (.ok (.stay value tokens)) = .ok (value, tokens) := rfl

@[simp] theorem outcome_error (failure : Failure) :
    outcome (.error failure : Except Failure (Parsed α n)) = .error failure := rfl

/-- Readings in sequence: only the value and what follows it goes from one to the next. -/
theorem outcome_bind {first : Except Failure (Parsed α n)}
    {second : Parsed α n → Except Failure (Parsed β m)}
    {found : Except Failure (α × List Token)}
    {next : α × List Token → Except Failure (β × List Token)} (start : outcome first = found)
    (same : ∀ parsed, outcome (second parsed) = next (parsed.value, parsed.rest)) :
    outcome (first >>= second) = found >>= next := by
  subst found
  cases first with
  | error failure => rfl
  | ok parsed => exact same parsed

theorem outcome_bind_widen (result : Except Failure (Parsed α n)) (le : Parsed α n → n ≤ m) :
    outcome (result >>= fun parsed => pure (parsed.widen (le parsed))) = outcome result := by
  cases result <;> rfl

@[simp] theorem outcome_widen (result : Except Failure (Parsed α n)) (le : n ≤ m) :
    outcome (result.map (·.widen le)) = outcome result := by
  cases result <;> rfl

@[simp] theorem outcome_andThen (first : Parsed α n) (second : α → Parser β) :
    outcome (first.andThen second) = outcome (second first.value first.rest) :=
  outcome_widen ..

@[simp] theorem outcome_continued (first : Parsed α n) (more : α → Continuation β) :
    outcome (first.continued more) = outcome (more first.value first.rest) :=
  outcome_widen ..

end

namespace Parser

variable {β : Type} {m : Nat} (fault : Option LexError)

theorem outcome_take (token : Token) (rest : List Token)
    (next : Parsed Token (rest.length + 1) → Except Failure (Parsed β m)) :
    outcome (take fault token rest >>= next) =
      arrive fault rest >>= fun _ => outcome (next (.stay token rest)) := by
  cases fault <;> cases rest <;> rfl

theorem outcome_chain (level : Level) (operand : Parser Expr) (tokens : List Token) :
    outcome (chain fault level operand tokens) =
      outcome (operand tokens) >>= fun left =>
        outcome (chainFrom fault level operand left.1 left.2) := by
  apply outcome_bind rfl
  intro left
  rw [outcome_continued]

theorem outcome_chainFrom_cons (level : Level) (operand : Parser Expr) (left : Expr) (token : Token)
    (rest : List Token) :
    outcome (chainFrom fault level operand left (token :: rest)) =
      match operatorAt? level token with
      | none => .ok (left, token :: rest)
      | some operator =>
        arrive fault rest >>= fun _ => outcome (operand rest) >>= fun right =>
          outcome (chainFrom fault level operand (.binary operator left right.1 false) right.2) := by
  rw [chainFrom]
  cases operatorAt? level token with
  | none => rfl
  | some operator =>
    rw [outcome_take]
    refine congrArg _ (funext fun _ => outcome_bind (outcome_andThen ..) fun right => ?_)
    exact outcome_bind_widen ..

theorem outcome_single_cons (level : Level) (operand : Parser Expr) (left : Expr) (token : Token)
    (rest : List Token) :
    outcome (single fault level operand left (token :: rest)) =
      match operatorAt? level token with
      | none => .ok (left, token :: rest)
      | some operator =>
        arrive fault rest >>= fun _ => outcome (operand rest) >>= fun right =>
          match operator.operandError? left right.1 with
          | some error => .error ⟨error, right.2.tail⟩
          | none => .ok (.binary operator left right.1 false, right.2) := by
  rw [single]
  cases operatorAt? level token with
  | none => rfl
  | some operator =>
    rw [outcome_take]
    refine congrArg _ (funext fun _ => outcome_bind (outcome_andThen ..) fun right => ?_)
    dsimp only
    cases operator.operandError? left right.value <;> rfl

section

variable (nested : Nat → Parser Expr)

theorem outcome_expect (kind : Token.Kind) (token : Token) (rest : List Token)
    (same : token.kind = kind) :
    outcome (expect fault kind (token :: rest)) =
      arrive fault rest >>= fun _ => .ok (token, rest) := by
  simp only [expect, if_pos same]
  cases fault <;> cases rest <;> rfl

theorem outcome_identifier (tokens : List Token) :
    outcome (identifier fault tokens) =
      outcome (expect fault .identifier tokens) >>= fun name =>
        .ok (.identifier name.1.text false, name.2) :=
  outcome_bind rfl fun _ => rfl

theorem outcome_literal (token : Token) (rest : List Token) :
    outcome (literal fault token rest) =
      arrive fault rest >>= fun _ =>
        match token.literal? with
        | some value => .ok (.literal value false, rest)
        | none => .error ⟨.invalidNumber token, rest.tail⟩ := by
  rw [literal, outcome_take]
  cases token.literal? <;> rfl

theorem outcome_accessors_dot (object : Expr) {token : Token} (rest : List Token)
    (dot : token.kind = .dot) :
    outcome (accessors fault nested object (token :: rest)) =
      if object.isLiteral then .error ⟨.scalarMemberAccess object.kind, rest⟩
      else
        arrive fault rest >>= fun _ => outcome (identifier fault rest) >>= fun name =>
          outcome (accessors fault nested (.member object name.1 false false) name.2) := by
  rw [accessors]
  simp only [dot]
  split
  · rfl
  · rw [outcome_take]
    refine congrArg _ (funext fun _ => outcome_bind (outcome_andThen ..) fun name => ?_)
    exact outcome_bind_widen ..

theorem outcome_accessors_openBracket (object : Expr) {token : Token} (rest : List Token)
    (bracket : token.kind = .openBracket) :
    outcome (accessors fault nested object (token :: rest)) =
      arrive fault rest >>= fun _ => outcome (nested token.position rest) >>= fun key =>
        outcome (expect fault .closedBracket key.2) >>= fun closing =>
          outcome (accessors fault nested (.member object key.1 true false) closing.2) := by
  rw [accessors]
  simp only [bracket]
  rw [outcome_take]
  refine congrArg _ (funext fun _ => outcome_bind (outcome_andThen ..) fun key => ?_)
  apply outcome_bind (outcome_andThen ..)
  intro closing
  exact outcome_bind_widen ..

theorem outcome_accessors_end (object : Expr) (tokens : List Token)
    (none : ∀ token ∈ tokens.head?, token.kind ≠ .dot ∧ token.kind ≠ .openBracket) :
    outcome (accessors fault nested object tokens) = .ok (object, tokens) := by
  cases tokens with
  | nil => rw [accessors]; rfl
  | cons token rest =>
    obtain ⟨noDot, noBracket⟩ := none token rfl
    rw [accessors]
    split
    · contradiction
    · contradiction
    · rfl

theorem outcome_element_literal {token : Token} (rest : List Token)
    (literal : token.kind.isLiteral = true) :
    outcome (element fault nested (token :: rest)) = outcome (Parser.literal fault token rest) := by
  simp only [element, if_pos literal]

theorem outcome_element_identifier {token : Token} (rest : List Token)
    (name : token.kind = .identifier) :
    outcome (element fault nested (token :: rest)) =
      arrive fault rest >>= fun _ =>
        outcome (accessors fault nested (.identifier token.text false) rest) := by
  simp only [element, name, Token.Kind.isLiteral, Bool.false_eq_true, if_false, if_true]
  rw [outcome_take]
  simp only [outcome_continued, Parsed.stay]

theorem outcome_moreElements_cons (token : Token) (rest : List Token) :
    outcome (moreElements fault nested (token :: rest)) =
      if token.kind = .comma then
        arrive fault rest >>= fun _ => outcome (element fault nested rest) >>= fun next =>
          outcome (moreElements fault nested next.2) >>= fun all =>
            .ok (next.1 :: all.1, all.2)
      else .ok ([], token :: rest) := by
  rw [moreElements]
  split
  · rw [outcome_take]
    refine congrArg _ (funext fun _ => outcome_bind (outcome_andThen ..) fun next => ?_)
    exact outcome_bind rfl fun _ => rfl
  · rfl

theorem outcome_someElements (tokens : List Token) :
    outcome (someElements fault nested tokens) =
      outcome (element fault nested tokens) >>= fun first =>
        outcome (moreElements fault nested first.2) >>= fun others =>
          .ok (first.1 :: others.1, others.2) := by
  apply outcome_bind rfl
  intro first
  exact outcome_bind (outcome_continued ..) fun _ => rfl

theorem outcome_moreElements_comma {token : Token} (rest : List Token)
    (comma : token.kind = .comma) :
    outcome (moreElements fault nested (token :: rest)) =
      arrive fault rest >>= fun _ => outcome (someElements fault nested rest) := by
  rw [outcome_moreElements_cons, if_pos comma, outcome_someElements]

theorem outcome_elements (tokens : List Token) :
    outcome (elements fault nested tokens) =
      if tokens.head?.any (·.kind = .closedBracket) then .ok ([], tokens)
      else outcome (someElements fault nested tokens) := by
  unfold elements
  split
  · rfl
  · exact outcome_widen ..

theorem outcome_primary_openBracket {token : Token} (rest : List Token)
    (bracket : token.kind = .openBracket) :
    outcome (primary fault nested (token :: rest)) =
      arrive fault rest >>= fun _ => outcome (elements fault nested rest) >>= fun inside =>
        outcome (expect fault .closedBracket inside.2) >>= fun closing =>
          .ok (.array inside.1 false, closing.2) := by
  simp only [primary, bracket]
  rw [outcome_take]
  refine congrArg _ (funext fun _ => outcome_bind (outcome_continued ..) fun inside => ?_)
  exact outcome_bind (outcome_andThen ..) fun _ => rfl

theorem outcome_primary_openParenthesis {token : Token} (rest : List Token)
    (parenthesis : token.kind = .openParenthesis) :
    outcome (primary fault nested (token :: rest)) =
      arrive fault rest >>= fun _ => outcome (nested token.position rest) >>= fun inside =>
        outcome (expect fault .closedParenthesis inside.2) >>= fun closing =>
          .ok (inside.1.parenthesized, closing.2) := by
  simp only [primary, parenthesis]
  rw [outcome_take]
  refine congrArg _ (funext fun _ => outcome_bind (outcome_andThen ..) fun inside => ?_)
  exact outcome_bind (outcome_andThen ..) fun _ => rfl

theorem outcome_primary_identifier {token : Token} (rest : List Token)
    (name : token.kind = .identifier) :
    outcome (primary fault nested (token :: rest)) =
      outcome (identifier fault (token :: rest)) := by
  simp only [primary, name]

theorem outcome_primary_literal {token : Token} (rest : List Token)
    (literal : token.kind.isLiteral = true) :
    outcome (primary fault nested (token :: rest)) = outcome (Parser.literal fault token rest) := by
  revert literal
  cases kind : token.kind <;> intro literal <;>
    first | contradiction | simp [primary, kind, Token.Kind.isLiteral]

theorem outcome_member (tokens : List Token) :
    outcome (member fault nested tokens) =
      outcome (primary fault nested tokens) >>= fun object =>
        outcome (accessors fault nested object.1 object.2) := by
  apply outcome_bind rfl
  intro object
  rw [outcome_continued]

end

def inner : (spare : Nat) → Nat → Parser Expr
  | 0 => fun position tokens => .error ⟨.nestingTooDeep position, tokens.tail⟩
  | spare + 1 => fun _ => expression fault spare

@[simp] theorem inner_succ (spare position : Nat) :
    inner fault (spare + 1) position = expression fault spare := rfl

def atLevel (nested : Nat → Parser Expr) : Level → Parser Expr
  | .or => levels fault nested
  | .and =>
    chain fault .and <| chain fault .equality <| chain fault .relational <|
      containment fault nested
  | .equality => chain fault .equality <| chain fault .relational <| containment fault nested
  | .relational => chain fault .relational <| containment fault nested
  | .contains => containment fault nested
  | .inclusion => inclusion fault nested
  | .has => fun tokens => do
    (← member fault nested tokens).continued (single fault .has (member fault nested))
  | .member => member fault nested

theorem expression_eq_atLevel (spare : Nat) :
    expression fault spare = atLevel fault (inner fault spare) .or := by
  cases spare <;> rfl

variable (nested : Nat → Parser Expr)

theorem outcome_atLevel_of_folds {level : Level} (folds : level.folds = true)
    (tokens : List Token) :
    outcome (atLevel fault nested level tokens) =
      outcome (atLevel fault nested level.tighter tokens) >>= fun left =>
        outcome (chainFrom fault level (atLevel fault nested level.tighter) left.1 left.2) := by
  cases level
  case or | and | equality | relational => exact outcome_chain ..
  all_goals contradiction

theorem outcome_atLevel_of_not_folds {level : Level} (folds : level.folds = false)
    (notMember : level ≠ .member) (tokens : List Token) :
    outcome (atLevel fault nested level tokens) =
      outcome (atLevel fault nested level.tighter tokens) >>= fun left =>
        outcome (single fault level (member fault nested) left.1 left.2) := by
  cases level
  case contains | has =>
    apply outcome_bind rfl
    intro left
    rw [outcome_continued]
  case inclusion =>
    have first : outcome (atLevel fault nested .has tokens) =
        outcome (member fault nested tokens) >>= fun left =>
          outcome (single fault .has (member fault nested) left.1 left.2) := by
      apply outcome_bind rfl
      intro left
      rw [outcome_continued]
    simp only [Level.tighter]
    rw [first, bind_assoc]
    apply outcome_bind rfl
    intro left
    apply outcome_bind (outcome_continued ..)
    intro joined
    rw [outcome_continued]
  all_goals contradiction

end Parser

end FilterLang
