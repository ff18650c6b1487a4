import FilterLang.Proofs.Grammar.Acceptance
import FilterLang.Proofs.Grammar.Failure

namespace FilterLang

def Narrows {α : Type} (roomy narrow : Except Failure α) : Prop :=
  narrow = roomy ∨ ∃ position unread, narrow = .error ⟨.nestingTooDeep position, unread⟩

theorem Narrows.same {α : Type} (result : Except Failure α) : Narrows result result := .inl rfl

/-- The readings that go on behind a value are compared only for a value that both have. -/
theorem Narrows.bind {α β : Type} {roomy narrow : Except Failure α}
    {next next' : α → Except Failure β} (start : Narrows roomy narrow)
    (more : ∀ found, roomy = .ok found → Narrows (next found) (next' found)) :
    Narrows (roomy >>= next) (narrow >>= next') := by
  rcases start with rfl | ⟨position, unread, rfl⟩
  · cases narrow with
    | error failure => exact .same _
    | ok found => exact more found rfl
  · exact .inr ⟨position, unread, rfl⟩

namespace Parser

variable {fault : Option LexError}

def NarrowsTo {α : Type} (roomy narrow : List Token → Except Failure (α × List Token)) : Prop :=
  ∀ tokens, Narrows (roomy tokens) (narrow tokens)

def NestsNarrower (nested nested' : Nat → Parser Expr) : Prop :=
  ∀ position, NarrowsTo (fun tokens => outcome (nested position tokens))
    fun tokens => outcome (nested' position tokens)

section

variable {operand operand' : Parser Expr}

theorem chainFrom_narrows (level : Level)
    (narrows : NarrowsTo (fun tokens => outcome (operand tokens))
      fun tokens => outcome (operand' tokens)) (left : Expr) :
    NarrowsTo (fun tokens => outcome (chainFrom fault level operand left tokens))
      fun tokens => outcome (chainFrom fault level operand' left tokens) := by
  intro tokens
  induction size : tokens.length using Nat.strongRecOn generalizing tokens left with
  | ind length ih =>
  cases tokens with
  | nil =>
    simp only [chainFrom]
    exact .same _
  | cons token rest =>
    simp only [outcome_chainFrom_cons]
    rw [List.length_cons] at size
    cases operatorAt? level token with
    | none => exact .same _
    | some operator =>
      refine (Narrows.same _).bind fun _ _ => (narrows rest).bind fun right read => ?_
      have shorter := length_lt_of_outcome read
      exact ih right.2.length (by omega) _ _ rfl

theorem single_narrows (level : Level)
    (narrows : NarrowsTo (fun tokens => outcome (operand tokens))
      fun tokens => outcome (operand' tokens)) (left : Expr) :
    NarrowsTo (fun tokens => outcome (single fault level operand left tokens))
      fun tokens => outcome (single fault level operand' left tokens) := by
  intro tokens
  cases tokens with
  | nil => exact .same _
  | cons token rest =>
    simp only [outcome_single_cons]
    cases operatorAt? level token with
    | none => exact .same _
    | some operator =>
      exact (Narrows.same _).bind fun _ _ => (narrows rest).bind fun right _ => .same _

end

section

variable {nested nested' : Nat → Parser Expr}

theorem accessors_narrows (inside : NestsNarrower nested nested') (object : Expr) :
    NarrowsTo (fun tokens => outcome (accessors fault nested object tokens))
      fun tokens => outcome (accessors fault nested' object tokens) := by
  intro tokens
  induction size : tokens.length using Nat.strongRecOn generalizing tokens object with
  | ind length ih =>
  cases tokens with
  | nil =>
    simp only [accessors]
    exact .same _
  | cons token rest =>
    rw [List.length_cons] at size
    by_cases dot : token.kind = .dot
    · simp only [outcome_accessors_dot _ _ _ _ dot]
      split
      · exact .same _
      · refine (Narrows.same _).bind fun _ _ => (Narrows.same _).bind fun name read => ?_
        have shorter := length_lt_of_outcome read
        exact ih name.2.length (by omega) _ _ rfl
    by_cases bracket : token.kind = .openBracket
    · simp only [outcome_accessors_openBracket _ _ _ _ bracket]
      refine (Narrows.same _).bind fun _ _ => (inside _ rest).bind fun key readKey => ?_
      refine (Narrows.same _).bind fun closing readClosing => ?_
      have shorterKey := length_lt_of_outcome readKey
      have shorterClosing := length_lt_of_outcome readClosing
      exact ih closing.2.length (by omega) _ _ rfl
    · simp only [outcome_accessors_end _ _ _ (token :: rest) (by simp [dot, bracket])]
      exact .same _

theorem element_narrows (inside : NestsNarrower nested nested') :
    NarrowsTo (fun tokens => outcome (element fault nested tokens))
      fun tokens => outcome (element fault nested' tokens) := by
  intro tokens
  cases tokens with
  | nil => exact .same _
  | cons token rest =>
    by_cases literal : token.kind.isLiteral = true
    · simp only [outcome_element_literal _ _ _ literal]
      exact .same _
    by_cases name : token.kind = .identifier
    · simp only [outcome_element_identifier _ _ _ name]
      exact (Narrows.same _).bind fun _ _ => accessors_narrows inside _ rest
    · simp only [element, literal, name, if_false, Bool.false_eq_true]
      exact .same _

theorem moreElements_narrows (inside : NestsNarrower nested nested') :
    NarrowsTo (fun tokens => outcome (moreElements fault nested tokens))
      fun tokens => outcome (moreElements fault nested' tokens) := by
  intro tokens
  induction size : tokens.length using Nat.strongRecOn generalizing tokens with
  | ind length ih =>
  cases tokens with
  | nil =>
    simp only [moreElements]
    exact .same _
  | cons token rest =>
    simp only [outcome_moreElements_cons]
    rw [List.length_cons] at size
    split
    · refine (Narrows.same _).bind fun _ _ => (element_narrows inside rest).bind fun next read => ?_
      have shorter := length_lt_of_outcome read
      exact (ih next.2.length (by omega) _ rfl).bind fun all _ => .same _
    · exact .same _

theorem elements_narrows (inside : NestsNarrower nested nested') :
    NarrowsTo (fun tokens => outcome (elements fault nested tokens))
      fun tokens => outcome (elements fault nested' tokens) := by
  intro tokens
  simp only [outcome_elements]
  split
  · exact .same _
  · simp only [outcome_someElements]
    refine (element_narrows inside tokens).bind fun first _ => ?_
    exact (moreElements_narrows inside first.2).bind fun others _ => .same _

theorem primary_narrows (inside : NestsNarrower nested nested') :
    NarrowsTo (fun tokens => outcome (primary fault nested tokens))
      fun tokens => outcome (primary fault nested' tokens) := by
  intro tokens
  cases tokens with
  | nil => exact .same _
  | cons token rest =>
    by_cases bracket : token.kind = .openBracket
    · simp only [outcome_primary_openBracket _ _ _ bracket]
      refine (Narrows.same _).bind fun _ _ => ?_
      exact (elements_narrows inside rest).bind fun es _ => .same _
    by_cases parenthesis : token.kind = .openParenthesis
    · simp only [outcome_primary_openParenthesis _ _ _ parenthesis]
      exact (Narrows.same _).bind fun _ _ => (inside _ rest).bind fun e _ => .same _
    by_cases name : token.kind = .identifier
    · simp only [outcome_primary_identifier _ _ _ name]
      exact .same _
    by_cases literal : token.kind.isLiteral = true
    · simp only [outcome_primary_literal _ _ _ literal]
      exact .same _
    · simp only [primary, literal, if_false, Bool.false_eq_true]
      exact .same _

theorem member_narrows (inside : NestsNarrower nested nested') :
    NarrowsTo (fun tokens => outcome (member fault nested tokens))
      fun tokens => outcome (member fault nested' tokens) := by
  intro tokens
  simp only [outcome_member]
  exact (primary_narrows inside tokens).bind fun object _ => accessors_narrows inside _ _

theorem atLevel_narrows_of_tighter
    (inside : NestsNarrower nested nested') (level : Level)
    (notMember : level ≠ .member)
    (tighter : NarrowsTo (fun tokens => outcome (atLevel fault nested level.tighter tokens))
      fun tokens => outcome (atLevel fault nested' level.tighter tokens)) :
    NarrowsTo (fun tokens => outcome (atLevel fault nested level tokens))
      fun tokens => outcome (atLevel fault nested' level tokens) := by
  intro tokens
  cases folds : level.folds with
  | true =>
    simp only [outcome_atLevel_of_folds _ _ folds]
    exact (tighter tokens).bind fun left _ => chainFrom_narrows level tighter _ _
  | false =>
    simp only [outcome_atLevel_of_not_folds _ _ folds notMember]
    exact (tighter tokens).bind fun left _ => single_narrows level (member_narrows inside) _ _

theorem atLevel_narrows (inside : NestsNarrower nested nested')
    (level : Level) : NarrowsTo (fun tokens => outcome (atLevel fault nested level tokens))
      fun tokens => outcome (atLevel fault nested' level tokens) := by
  induction level using Level.descend with
  | member => exact member_narrows inside
  | looser level notMember tighter =>
    exact atLevel_narrows_of_tighter inside level notMember tighter

end

theorem inner_narrows (spare : Nat) :
    NestsNarrower (inner fault (spare + 1)) (inner fault spare) := by
  induction spare with
  | zero => exact fun position tokens => .inr ⟨position, tokens.tail, rfl⟩
  | succ spare ih =>
    intro position tokens
    simp only [inner_succ, expression_eq_atLevel]
    exact atLevel_narrows ih .or tokens

/-- Room for one group less changes nothing, or is missed. -/
theorem expression_narrows (spare : Nat) :
    NarrowsTo (fun tokens => outcome (expression fault (spare + 1) tokens))
      fun tokens => outcome (expression fault spare tokens) := by
  simp only [expression_eq_atLevel]
  exact atLevel_narrows (inner_narrows spare) .or

end Parser

/-- Tokens that derive an expression only with room for one group more than there may be fail to
    parse, and fail for their nesting. -/
theorem Scan.parse_tooDeep {tokens : List Token} {e : Expr}
    (derives : Derives (maxNesting + 1) (.level .or) tokens e)
    (crowded : ¬ Derives maxNesting (.level .or) tokens e) :
    ∃ position unread, Scan.parse ⟨tokens, none⟩ = .error ⟨.nestingTooDeep position, unread⟩ := by
  have ready : Ready none tokens := .inl rfl
  have read := derives.accepted.whole (.inl rfl) (stops_nil .or)
  rw [List.append_nil, ← Parser.expression_eq_atLevel] at read
  have narrows : Narrows (outcome (Parser.expression none (maxNesting + 1) tokens))
      (outcome (Parser.expression none maxNesting tokens)) :=
    Parser.expression_narrows maxNesting tokens
  rw [read] at narrows
  rcases narrows with same | ⟨position, unread, failed⟩
  · have parsed : Scan.parse ⟨tokens, none⟩ = .ok e := parse_eq_ok_iff.mpr ⟨ready, same⟩
    exact absurd (parse_iff_derives.mp parsed).2 crowded
  · refine ⟨position, unread, ?_⟩
    rw [parse_eq_map ⟨tokens, none⟩ ready, failed]
    rfl

end FilterLang
