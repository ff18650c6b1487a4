import FilterLang.Proofs.Descent.Basic

namespace FilterLang

namespace Descent

/-- A parse that is in a function with the result `result`: it comes back to those that wait,
    `frames`, with the value or with the failure, and with the counter as it was. -/
def Returns (fault : Option LexError) (give : Expr → Control) (start : Descent)
    (frames : List Frame) (depth : Nat) : Except Failure (Expr × List Token) → Prop
  | .ok found => Reaches fault start ⟨give found.1, frames, depth, found.2⟩
  | .error failure => ∃ rest, Reaches fault start ⟨.fail failure, frames, depth, rest⟩

variable {fault : Option LexError} {give : Expr → Control} {start next : Descent}
  {frames : List Frame} {depth : Nat} {result : Except Failure (Expr × List Token)}

namespace Returns

theorem ok (value : Expr) (rest : List Token) :
    Returns fault give ⟨give value, frames, depth, rest⟩ frames depth (.ok (value, rest)) :=
  .refl

theorem error (failure : Failure) (rest : List Token) :
    Returns fault give ⟨.fail failure, frames, depth, rest⟩ frames depth (.error failure) :=
  ⟨rest, .refl⟩

theorem after (returns : Returns fault give next frames depth result)
    (steps : Reaches fault start next) : Returns fault give start frames depth result := by
  cases result with
  | ok found => exact steps.trans returns
  | error failure =>
    obtain ⟨rest, returns⟩ := returns
    exact ⟨rest, steps.trans returns⟩

theorem head (stepped : start.step fault = some next)
    (returns : Returns fault give next frames depth result) :
    Returns fault give start frames depth result :=
  returns.after (.single stepped)

/-- A call inside a function: its failure goes through the frame that waits for its value. -/
theorem bind (frame : Frame) {second : Expr × List Token → Except Failure (Expr × List Token)}
    (noGroup : frame.isGroup = false)
    (first : Returns fault .give start (frame :: frames) depth result)
    (more : ∀ value rest, result = .ok (value, rest) →
      Returns fault give (receive fault ⟨.give value, frames, depth, rest⟩ value frame) frames depth
        (second (value, rest))) :
    Returns fault give start frames depth (result >>= second) := by
  cases result with
  | ok found =>
    obtain ⟨value, rest⟩ := found
    exact ((more value rest rfl).head rfl).after first
  | error failure =>
    obtain ⟨rest, failed⟩ := first
    have left : step fault ⟨.fail failure, frame :: frames, depth, rest⟩ =
        some ⟨.fail failure, frames, depth, rest⟩ := by
      simp [step, leave, noGroup]
    exact ⟨rest, failed.tail left⟩

theorem take {control : Control} {tokens rest : List Token} {resume : Descent → Descent}
    (more : Returns fault give (resume ⟨control, frames, depth, rest⟩) frames depth result) :
    Returns fault give (Descent.take fault ⟨control, frames, depth, tokens⟩ rest resume) frames
      depth (arrive fault rest >>= fun _ => result) := by
  unfold Descent.take
  cases arrive fault rest with
  | ok => exact more
  | error failure => exact error failure tokens

theorem expect {control : Control} {tokens : List Token} (kind : Token.Kind)
    {resume : Token → Control} {second : Token × List Token → Except Failure (Expr × List Token)}
    (more : ∀ token rest, tokens = token :: rest →
      Returns fault give ⟨resume token, frames, depth, rest⟩ frames depth (second (token, rest))) :
    Returns fault give (Descent.expect fault ⟨control, frames, depth, tokens⟩ kind resume) frames
      depth (outcome (Parser.expect fault kind tokens) >>= second) := by
  cases tokens with
  | nil => exact error _ _
  | cons token rest =>
    by_cases same : token.kind = kind
    · rw [Parser.outcome_expect fault kind token rest same]
      simp only [Descent.expect, if_pos same, bind_assoc]
      exact take (more token rest rfl)
    · simp only [Descent.expect, Parser.expect, if_neg same]
      exact error _ _

theorem constant {control : Control} {tokens : List Token} (token : Token) (rest : List Token) :
    Returns fault .give (Descent.constant fault ⟨control, frames, depth, tokens⟩ token rest) frames
      depth (outcome (Parser.literal fault token rest)) := by
  rw [Parser.outcome_literal]
  apply take
  cases token.literal? with
  | some value => exact ok _ rest
  | none => exact error _ rest

end Returns

def Calls (fault : Option LexError) (depth : Nat) (control : Control)
    (reading : List Token → Except Failure (Expr × List Token)) : Prop :=
  ∀ frames tokens,
    Returns fault .give ⟨control, frames, depth, tokens⟩ frames depth (reading tokens)

def Opens (fault : Option LexError) (depth : Nat) (nested : Nat → Parser Expr) : Prop :=
  ∀ group bracket frames tokens,
    Returns fault (.close group) ⟨.opened group bracket, frames, depth, tokens⟩ frames depth
      (outcome (nested bracket.position tokens))

theorem calls_chainFrom {level : Level} (folds : level.folds = true) (notMember : level ≠ .member)
    {operand : Parser Expr}
    (calls : Calls fault depth (.level level.tighter) fun tokens => outcome (operand tokens))
    (left : Expr) :
    Calls fault depth (.onward level left) fun tokens =>
      outcome (Parser.chainFrom fault level operand left tokens) := by
  intro frames tokens
  induction size : tokens.length using Nat.strongRecOn generalizing tokens left with
  | ind length ih =>
  dsimp only
  refine .head (step_onward fault notMember left frames depth tokens) ?_
  cases tokens with
  | nil =>
    rw [Parser.chainFrom]
    exact .ok left []
  | cons token rest =>
    rw [Parser.outcome_chainFrom_cons]
    cases found : Parser.operatorAt? level token with
    | none =>
      simp only [operator, found]
      exact .ok left (token :: rest)
    | some operator =>
      obtain ⟨-, rfl⟩ := Parser.operatorAt?_eq_some_iff.mp found
      simp only [Descent.operator, found]
      refine .take (.bind (.right operator left) rfl ?_ fun right after read => ?_)
      · rw [Level.rightOperand_of_folds folds]
        exact calls _ rest
      · have fits := Operator.operandError?_eq_none_iff.mpr
          (Operator.accepts_of_folds folds left right)
        simp only [receive, fits, folds, if_true]
        have shorter := Parser.length_lt_of_outcome read
        rw [List.length_cons] at size
        exact ih after.length (by omega) _ after rfl

theorem calls_single {level : Level} (folds : level.folds = false) (notMember : level ≠ .member)
    {operand : Parser Expr}
    (calls : Calls fault depth (.level .member) fun tokens => outcome (operand tokens))
    (left : Expr) :
    Calls fault depth (.onward level left) fun tokens =>
      outcome (Parser.single fault level operand left tokens) := by
  intro frames tokens
  dsimp only
  refine .head (step_onward fault notMember left frames depth tokens) ?_
  cases tokens with
  | nil => exact .ok left []
  | cons token rest =>
    rw [Parser.outcome_single_cons]
    cases found : Parser.operatorAt? level token with
    | none =>
      simp only [operator, found]
      exact .ok left (token :: rest)
    | some operator =>
      obtain ⟨-, rfl⟩ := Parser.operatorAt?_eq_some_iff.mp found
      simp only [Descent.operator, found]
      refine .take (.bind (.right operator left) rfl ?_ fun right after read => ?_)
      · rw [Level.rightOperand_of_not_folds folds]
        exact calls _ rest
      · simp only [receive]
        cases operator.operandError? left right with
        | some error => exact .error _ after
        | none =>
          simp only [folds]
          exact .ok _ after

section

variable {nested : Nat → Parser Expr}

theorem calls_accessors (opens : Opens fault depth nested) (object : Expr) :
    Calls fault depth (.onward .member object) fun tokens =>
      outcome (Parser.accessors fault nested object tokens) := by
  intro frames tokens
  induction size : tokens.length using Nat.strongRecOn generalizing tokens object with
  | ind length ih =>
  dsimp only
  refine .head rfl ?_
  cases tokens with
  | nil =>
    rw [Parser.accessors]
    exact .ok object []
  | cons token rest =>
    rw [List.length_cons] at size
    by_cases dot : token.kind = .dot
    · rw [Parser.outcome_accessors_dot _ _ _ _ dot]
      simp only [accessor, dot]
      cases literal : object.isLiteral with
      | true => exact .error _ _
      | false =>
        simp only [Bool.false_eq_true, if_false]
        refine .take (.head rfl ?_)
        rw [Parser.outcome_identifier, bind_assoc]
        refine .expect .identifier fun name after split => ?_
        have split : rest = name :: after := split
        rw [split, List.length_cons] at size
        exact ih after.length (by omega) _ after rfl
    by_cases bracket : token.kind = .openBracket
    · rw [Parser.outcome_accessors_openBracket _ _ _ _ bracket]
      simp only [accessor, bracket]
      apply Returns.take
      have inside := opens (.key object) token frames rest
      cases read : outcome (nested token.position rest) with
      | error failure =>
        rw [read] at inside
        exact inside
      | ok found =>
        rw [read] at inside
        obtain ⟨key, next⟩ := found
        have shorter := Parser.length_lt_of_outcome read
        refine .after (.head rfl (.expect .closedBracket fun closing after split => ?_)) inside
        have split : next = closing :: after := split
        rw [split, List.length_cons] at shorter
        exact ih after.length (by omega) _ after rfl
    · rw [Parser.outcome_accessors_end _ _ _ _ (by simp [dot, bracket])]
      have ended : accessor fault ⟨.onward .member object, frames, depth, token :: rest⟩ object =
          ⟨.give object, frames, depth, token :: rest⟩ := by
        unfold accessor
        split
        · contradiction
        · next same =>
          cases same
          split <;> first | contradiction | rfl
      rw [ended]
      exact .ok object (token :: rest)

theorem calls_element (opens : Opens fault depth nested) :
    Calls fault depth .element fun tokens => outcome (Parser.element fault nested tokens) := by
  intro frames tokens
  dsimp only
  refine .head rfl ?_
  cases tokens with
  | nil => exact .error _ _
  | cons token rest =>
    by_cases literal : token.kind.isLiteral = true
    · rw [Parser.outcome_element_literal _ _ _ literal]
      simp only [Descent.element, if_pos literal]
      exact .constant token rest
    by_cases name : token.kind = .identifier
    · rw [Parser.outcome_element_identifier _ _ _ name]
      simp only [Descent.element, if_neg literal, if_pos name]
      exact .take (calls_accessors opens _ _ _)
    · simp only [Descent.element, Parser.element, if_neg literal, if_neg name]
      exact .error _ _

/-- The elements of an array from one on, where others are read before. -/
theorem calls_elements (opens : Opens fault depth nested) (before : List Expr) (frames : List Frame)
    (tokens : List Token) :
    Returns fault .give ⟨.element, .element before :: frames, depth, tokens⟩ frames depth
      (outcome (Parser.someElements fault nested tokens) >>= fun inside =>
        outcome (Parser.expect fault .closedBracket inside.2) >>= fun closing =>
          .ok (.array (before ++ inside.1) false, closing.2)) := by
  obtain ⟨length, size⟩ : ∃ length, tokens.length = length := ⟨_, rfl⟩
  induction length using Nat.strongRecOn generalizing tokens before with
  | ind length ih =>
  rw [Parser.outcome_someElements, bind_assoc]
  refine .bind (.element before) rfl (calls_element opens _ tokens) fun first rest read => ?_
  have shorter := Parser.length_lt_of_outcome read
  have last : ∀ rest, Returns fault .give ⟨.endArray (before ++ [first]), frames, depth, rest⟩
      frames depth (outcome (Parser.expect fault .closedBracket rest) >>= fun closing =>
        .ok (.array (before ++ [first]) false, closing.2)) :=
    fun rest => .head rfl (.expect .closedBracket fun _ after _ => .ok _ after)
  cases rest with
  | nil =>
    rw [Parser.moreElements, bind_assoc]
    exact last []
  | cons token rest =>
    by_cases comma : token.kind = .comma
    · rw [Parser.outcome_moreElements_comma _ _ _ comma]
      simp only [receive, if_pos comma, bind_assoc]
      rw [List.length_cons] at shorter
      have others := ih rest.length (by omega) (before ++ [first]) rest rfl
      simp only [List.append_assoc, List.singleton_append] at others
      exact .take others
    · rw [Parser.outcome_moreElements_cons, if_neg comma]
      simp only [receive, if_neg comma]
      exact last (token :: rest)

theorem calls_array (opens : Opens fault depth nested) :
    Calls fault depth .array fun tokens =>
      outcome (Parser.elements fault nested tokens) >>= fun inside =>
        outcome (Parser.expect fault .closedBracket inside.2) >>= fun closing =>
          .ok (.array inside.1 false, closing.2) := by
  intro frames tokens
  dsimp only
  refine .head rfl ?_
  simp only [Parser.outcome_elements, Descent.array]
  split
  · refine .head rfl (.expect .closedBracket fun _ after _ => ?_)
    exact .ok _ after
  · exact calls_elements opens [] frames tokens

theorem calls_primary (opens : Opens fault depth nested) :
    Calls fault depth .primary fun tokens => outcome (Parser.primary fault nested tokens) := by
  intro frames tokens
  dsimp only
  refine .head rfl ?_
  cases tokens with
  | nil => exact .error _ _
  | cons token rest =>
    by_cases bracket : token.kind = .openBracket
    · rw [Parser.outcome_primary_openBracket _ _ _ bracket]
      simp only [Descent.primary, bracket]
      exact .take (calls_array opens _ _)
    by_cases parenthesis : token.kind = .openParenthesis
    · rw [Parser.outcome_primary_openParenthesis _ _ _ parenthesis]
      simp only [Descent.primary, parenthesis]
      apply Returns.take
      have inside := opens .parentheses token frames rest
      cases read : outcome (nested token.position rest) with
      | error failure =>
        rw [read] at inside
        exact inside
      | ok found =>
        rw [read] at inside
        refine Returns.after (.head rfl (.expect .closedParenthesis fun _ after _ => ?_)) inside
        exact .ok _ after
    by_cases name : token.kind = .identifier
    · rw [Parser.outcome_primary_identifier _ _ _ name, Parser.outcome_identifier,
        Parser.outcome_expect _ _ _ _ name, bind_assoc]
      simp only [Descent.primary, name]
      exact .take (.ok _ rest)
    by_cases literal : token.kind.isLiteral = true
    · rw [Parser.outcome_primary_literal _ _ _ literal]
      have read : Descent.primary fault ⟨.primary, frames, depth, token :: rest⟩ =
          constant fault ⟨.primary, frames, depth, token :: rest⟩ token rest := by
        simp only [Descent.primary]
        split <;> first | contradiction | rfl
      rw [read]
      exact .constant token rest
    · have wrong : Descent.primary fault ⟨.primary, frames, depth, token :: rest⟩ =
          failWith ⟨.primary, frames, depth, token :: rest⟩
            (.unexpectedToken .expression token) rest := by
        simp only [Descent.primary]
        split <;> first | contradiction | rfl
      simp only [wrong, Parser.primary, literal, if_false, Bool.false_eq_true]
      exact .error _ _

theorem calls_level (opens : Opens fault depth nested) (level : Level) :
    Calls fault depth (.level level) fun tokens =>
      outcome (Parser.atLevel fault nested level tokens) := by
  have member : Calls fault depth (.level .member) fun tokens =>
      outcome (Parser.atLevel fault nested .member tokens) := by
    intro frames tokens
    simp only [Parser.atLevel, Parser.outcome_member]
    refine .head rfl (.bind .object rfl (calls_primary opens _ tokens) ?_)
    exact fun object rest _ => calls_accessors opens object frames rest
  induction level using Level.descend with
  | member => exact member
  | looser level notMember tighter =>
    intro frames tokens
    dsimp only
    refine .head (step_level fault notMember frames depth tokens) ?_
    cases folds : level.folds with
    | true =>
      rw [Parser.outcome_atLevel_of_folds _ _ folds]
      refine .bind (.left level) rfl (tighter _ tokens) fun left rest _ => ?_
      exact calls_chainFrom folds notMember tighter left frames rest
    | false =>
      rw [Parser.outcome_atLevel_of_not_folds _ _ folds notMember]
      refine .bind (.left level) rfl (tighter _ tokens) fun left rest _ => ?_
      exact calls_single folds notMember member left frames rest

end

theorem calls_expression {spare : Nat} (opens : Opens fault depth (Parser.inner fault spare))
    (frames : List Frame) (tokens : List Token) :
    Returns fault .give ⟨.level .or, frames, depth, tokens⟩ frames depth
      (outcome (Parser.expression fault spare tokens)) := by
  have called := calls_level opens .or frames tokens
  rwa [← Parser.expression_eq_atLevel] at called

theorem opens_inner {spare : Nat} (room : depth + spare = maxNesting) :
    Opens fault depth (Parser.inner fault spare) := by
  induction spare generalizing depth with
  | zero =>
    intro group bracket frames tokens
    have full : ¬ depth < maxNesting := by omega
    refine .head rfl ?_
    simp only [enter, if_neg full]
    exact .error _ tokens
  | succ spare ih =>
    intro group bracket frames tokens
    have free : depth < maxNesting := by omega
    have deeper : depth + 1 + spare = maxNesting := by omega
    have inside := calls_expression (ih deeper) (.expression (some group) :: frames) tokens
    refine .head rfl ?_
    simp only [enter, if_pos free, Parser.inner_succ]
    -- The value and the failure both go through the frame of the group, which counts down.
    cases read : outcome (Parser.expression fault spare tokens) with
    | ok found =>
      rw [read] at inside
      exact inside.tail rfl
    | error failure =>
      rw [read] at inside
      obtain ⟨rest, failed⟩ := inside
      exact ⟨rest, failed.tail rfl⟩

/-- With its calls laid open, a parse ends as it does without, and with the counter at zero. -/
theorem reaches_stop (scan : Scan) :
    ∃ rest, Reaches scan.error (begin scan.tokens) ⟨.stop scan.parse, [], 0, rest⟩ := by
  obtain ⟨tokens, fault⟩ := scan
  have stepped : step fault (begin tokens) =
      some (take fault (begin tokens) tokens (·.call (.expression none) (.level .or))) := rfl
  cases arrived : arrive fault tokens with
  | error failure =>
    have parsed : Scan.parse ⟨tokens, fault⟩ = .error failure := by
      cases fault <;> cases tokens <;> cases arrived
      rfl
    simp only [take, arrived] at stepped
    rw [parsed]
    exact ⟨tokens, .head stepped (.single rfl)⟩
  | ok =>
    simp only [take, arrived] at stepped
    have ready : Ready fault tokens := arrive_eq_ok_iff.mp arrived
    have opens : Opens fault 0 (Parser.inner fault maxNesting) := opens_inner (Nat.zero_add _)
    have whole := calls_expression opens [.expression none] tokens
    rw [Scan.parse_eq_map _ ready]
    cases read : outcome (Parser.expression fault maxNesting tokens) with
    | ok found =>
      rw [read] at whole
      exact ⟨found.2, .head stepped (whole.tail rfl)⟩
    | error failure =>
      rw [read] at whole
      obtain ⟨rest, failed⟩ := whole
      exact ⟨rest, .head stepped ((failed.tail rfl).tail rfl)⟩

theorem eq_of_stops {start d e : Descent} {first second : Except Failure Expr}
    (one : Reaches fault start d) (stops : d.control = .stop first)
    (other : Reaches fault start e) (stops' : e.control = .stop second) : d = e := by
  have final : ∀ {d : Descent} {result}, d.control = .stop result → step fault d = none := by
    rintro ⟨control, frames, depth, tokens⟩ result rfl
    rfl
  exact Part.mem_unique (StateTransition.mem_eval.mpr ⟨one, final stops⟩)
    (StateTransition.mem_eval.mpr ⟨other, final stops'⟩)

theorem result_of_stop {scan : Scan} {d : Descent} {result : Except Failure Expr}
    (reaches : Reaches scan.error (begin scan.tokens) d) (stops : d.control = .stop result) :
    result = scan.parse ∧ d.depth = 0 := by
  obtain ⟨rest, whole⟩ := reaches_stop scan
  have same := eq_of_stops reaches stops whole rfl
  subst same
  cases stops
  exact ⟨rfl, rfl⟩

end Descent

end FilterLang
