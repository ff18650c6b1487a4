import FilterLang.Proofs.Grammar.Reading

namespace FilterLang

def Expectation.common : List Expectation :=
  [.expression, .kind .identifier, .kind .closedParenthesis, .kind .closedBracket]

/-- A failure tells what was read: the token that it names is the last one read, or one of those
    before, and the end or the fault of the source is named only where all tokens are read. -/
structure Failure.Faithful (fault : Option LexError) (tokens : List Token) (failure : Failure) :
    Prop where
  unread : failure.unread <:+ tokens
  named : match failure.error with
    | .lexical error => fault = some error ∧ failure.unread = []
    | .unexpectedEnd expected =>
      fault = none ∧ failure.unread = [] ∧ expected ∈ .arrayElement :: Expectation.common
    | .unexpectedToken expected found =>
      found :: failure.unread <:+ tokens ∧ expected ∈ Expectation.common
    | .trailingInput found | .invalidArrayElement found => found :: failure.unread <:+ tokens
    | .invalidNumber found => found ∈ tokens ∧ found.kind = .number
    | .nestingTooDeep position => ∃ bracket ∈ tokens, bracket.position = position ∧
      bracket.kind ∈ [.openParenthesis, .openBracket]
    | .invalidScalar kind => kind = .array
    | .invalidArray kind => kind ≠ .array ∧ kind ≠ .identifier
    | .scalarMemberAccess kind => kind ∈ [.number, .string, .boolean, .null]

/-- A run over tokens behind which the source may have a fault, and the run over the same tokens
    without fault. They differ only where the fault is met. -/
structure Follows {α : Type} (fault : Option LexError) (tokens : List Token)
    (run fine : Except Failure (α × List Token)) : Prop where
  same : (∃ error, fault = some error ∧ run = .error ⟨.lexical error, []⟩) ∨ run = fine
  rest : ∀ value rest, run = .ok (value, rest) → rest <:+ tokens ∧ Ready fault rest
  failure : ∀ failure, run = .error failure → failure.Faithful fault tokens

theorem Failure.Faithful.mono {fault : Option LexError} {tokens more : List Token}
    {failure : Failure} (faithful : failure.Faithful fault tokens) (suffix : tokens <:+ more) :
    failure.Faithful fault more := by
  obtain ⟨unread, named⟩ := faithful
  refine ⟨unread.trans suffix, ?_⟩
  obtain ⟨error, rest⟩ := failure
  cases error with
  | unexpectedToken => exact ⟨named.1.trans suffix, named.2⟩
  | trailingInput | invalidArrayElement => exact named.trans suffix
  | invalidNumber => exact ⟨suffix.subset named.1, named.2⟩
  | nestingTooDeep =>
    obtain ⟨bracket, member, found⟩ := named
    exact ⟨bracket, suffix.subset member, found⟩
  | _ => exact named

namespace Follows

variable {α β : Type} {fault : Option LexError} {tokens more rest : List Token}

theorem ok (value : α) (suffix : rest <:+ tokens) (ready : Ready fault rest) :
    Follows fault tokens (.ok (value, rest)) (.ok (value, rest)) := by
  refine ⟨.inr rfl, fun _ _ same => ?_, nofun⟩
  cases same
  exact ⟨suffix, ready⟩

theorem error {failure : Failure} (faithful : failure.Faithful fault tokens) :
    Follows fault tokens (.error failure : Except Failure (α × List Token)) (.error failure) := by
  refine ⟨.inr rfl, nofun, fun _ same => ?_⟩
  cases same
  exact faithful

theorem mono {run fine : Except Failure (α × List Token)} (follows : Follows fault tokens run fine)
    (suffix : tokens <:+ more) : Follows fault more run fine := by
  refine ⟨follows.same, fun value rest read => ?_, fun failure failed => ?_⟩
  · obtain ⟨inside, ready⟩ := follows.rest value rest read
    exact ⟨inside.trans suffix, ready⟩
  · exact (follows.failure failure failed).mono suffix

theorem bind {first fineFirst : Except Failure (α × List Token)}
    {second fineSecond : α × List Token → Except Failure (β × List Token)}
    (start : Follows fault tokens first fineFirst)
    (next : ∀ value rest, first = .ok (value, rest) → rest <:+ tokens → Ready fault rest →
      Follows fault tokens (second (value, rest)) (fineSecond (value, rest))) :
    Follows fault tokens (first >>= second) (fineFirst >>= fineSecond) := by
  cases first with
  | error failure =>
    refine ⟨?_, nofun, fun other same => ?_⟩
    · rcases start.same with ⟨error, faulty, failed⟩ | same
      · cases failed
        exact .inl ⟨error, faulty, rfl⟩
      · rw [← same]
        exact .inr rfl
    · cases same
      exact start.failure failure rfl
  | ok found =>
    obtain ⟨value, rest⟩ := found
    obtain ⟨suffix, ready⟩ := start.rest value rest rfl
    rcases start.same with ⟨_, _, failed⟩ | same
    · cases failed
    · rw [← same]
      exact next value rest rfl suffix ready

/-- Looking at the next token: only here can the fault be met. -/
theorem arrive {second fineSecond : Except Failure (β × List Token)}
    (next : Ready fault rest → Follows fault tokens second fineSecond) :
    Follows fault tokens (FilterLang.arrive fault rest >>= fun _ => second)
      (FilterLang.arrive none rest >>= fun _ => fineSecond) := by
  cases fault with
  | none => exact next (.inl rfl)
  | some error =>
    cases rest with
    | cons token rest => exact next (ready_cons ..)
    | nil =>
      refine ⟨.inl ⟨error, rfl, rfl⟩, nofun, fun failure same => ?_⟩
      cases same
      exact ⟨List.nil_suffix, rfl, rfl⟩

end Follows

namespace Parser

variable {α : Type} {fault : Option LexError}

theorem length_lt_of_outcome {n : Nat} {result : Except Failure (Parsed α n)} {value : α}
    {rest : List Token} (read : outcome result = .ok (value, rest)) : rest.length < n := by
  cases result with
  | error failure => cases read
  | ok parsed =>
    cases read
    exact parsed.shorter

def ReadsFaithfully (fault : Option LexError)
    (reading : Option LexError → List Token → Except Failure (α × List Token)) : Prop :=
  ∀ ⦃tokens : List Token⦄, Ready fault tokens →
    Follows fault tokens (reading fault tokens) (reading none tokens)

theorem expect_faithful {kind : Token.Kind} (common : .kind kind ∈ Expectation.common) :
    ReadsFaithfully fault fun fault tokens => outcome (expect fault kind tokens) := by
  intro tokens ready
  cases tokens with
  | nil =>
    have fine : fault = none := ready.resolve_right (by simp)
    refine .error ⟨List.nil_suffix, fine, rfl, List.mem_cons_of_mem _ common⟩
  | cons token rest =>
    by_cases same : token.kind = kind
    · simp only [outcome_expect _ kind token rest same]
      exact .arrive fun ready => .ok token (List.suffix_cons ..) ready
    · simp only [expect, if_neg same, outcome_error]
      exact .error ⟨List.suffix_cons .., List.suffix_rfl, common⟩

theorem identifier_faithful :
    ReadsFaithfully fault fun fault tokens => outcome (identifier fault tokens) := by
  intro tokens ready
  simp only [outcome_identifier]
  exact (expect_faithful (by decide) ready).bind fun name rest _ suffix ready => .ok _ suffix ready

theorem literal_faithful {token : Token} (isLiteral : token.kind.isLiteral = true)
    (rest : List Token) :
    Follows fault (token :: rest) (outcome (literal fault token rest))
      (outcome (literal none token rest)) := by
  simp only [outcome_literal]
  apply Follows.arrive
  intro ready
  cases found : token.literal? with
  | some value => exact .ok _ (List.suffix_cons ..) ready
  | none =>
    -- Of the literals only digits can be without value, where they are too large.
    have kind : token.kind = .number := by
      unfold Token.literal? at found
      split at found
      · assumption
      · cases found
      · cases found
      · cases found
      · cases kind : token.kind <;> simp_all [Token.Kind.isLiteral]
    exact .error ⟨(List.tail_suffix rest).trans (List.suffix_cons ..), List.mem_cons_self, kind⟩

theorem chainFrom_faithful (level : Level) {operand : Option LexError → Parser Expr}
    (faithful : ReadsFaithfully fault fun fault tokens => outcome (operand fault tokens))
    (left : Expr) :
    ReadsFaithfully fault fun fault tokens =>
      outcome (chainFrom fault level (operand fault) left tokens) := by
  intro tokens ready
  induction size : tokens.length using Nat.strongRecOn generalizing tokens left with
  | ind length ih =>
  cases tokens with
  | nil =>
    simp only [chainFrom, outcome_stay]
    exact .ok left List.suffix_rfl ready
  | cons token rest =>
    simp only [outcome_chainFrom_cons]
    rw [List.length_cons] at size
    cases operatorAt? level token with
    | none => exact .ok left List.suffix_rfl ready
    | some operator =>
      -- The operator and its operand take tokens, so that the induction goes on with fewer.
      refine Follows.mono (Follows.arrive fun ready => ?_) (List.suffix_cons token rest)
      refine (faithful ready).bind fun right next read suffix ready => ?_
      have shorter := length_lt_of_outcome read
      exact (ih next.length (by omega) _ ready rfl).mono suffix

theorem eq_of_check_operands {wrongLeft wrongRight : Bool} {left right error : ParseError}
    (found : (if wrongLeft then some left else if wrongRight then some right else none) =
      some error) :
    wrongLeft = true ∧ left = error ∨ wrongRight = true ∧ right = error := by
  cases wrongLeft <;> cases wrongRight <;> simp_all

theorem operandError?_cases {operator : Operator} {left right : Expr} {error : ParseError}
    (found : operator.operandError? left right = some error) :
    error = .invalidScalar .array ∨
      ∃ kind, error = .invalidArray kind ∧ kind ≠ .array ∧ kind ≠ .identifier := by
  have scalar : ∀ e : Expr, (!e.isScalar) = true → ParseError.invalidScalar e.kind = error →
      error = .invalidScalar .array := by
    intro e notScalar same
    cases e <;> first | exact same.symm | cases notScalar
  have array : ∀ e : Expr, (!e.mayBeArray) = true → ParseError.invalidArray e.kind = error →
      ∃ kind, error = .invalidArray kind ∧ kind ≠ .array ∧ kind ≠ .identifier := by
    intro e notArray same
    refine ⟨e.kind, same.symm, ?_⟩
    cases e with
    | literal value => cases value <;> exact ⟨nofun, nofun⟩
    | member | binary => exact ⟨nofun, nofun⟩
    | identifier | array => cases notArray
  cases operator
  case contains =>
    rcases eq_of_check_operands found with ⟨wrong, same⟩ | ⟨wrong, same⟩
    · exact .inl (scalar left wrong same)
    · exact .inl (scalar right wrong same)
  case has =>
    rcases eq_of_check_operands found with ⟨wrong, same⟩ | ⟨wrong, same⟩
    · exact .inr (array left wrong same)
    · exact .inl (scalar right wrong same)
  case isIn | notIn =>
    rcases eq_of_check_operands found with ⟨wrong, same⟩ | ⟨wrong, same⟩
    · exact .inl (scalar left wrong same)
    · exact .inr (array right wrong same)
  all_goals cases found

theorem operandError?_faithful {operator : Operator} {left right : Expr} {error : ParseError}
    (found : operator.operandError? left right = some error) {tokens unread : List Token}
    (suffix : unread <:+ tokens) : Failure.Faithful fault tokens ⟨error, unread⟩ := by
  rcases operandError?_cases found with rfl | ⟨kind, rfl, notArray⟩
  · exact ⟨suffix, rfl⟩
  · exact ⟨suffix, notArray⟩

theorem single_faithful (level : Level) {operand : Option LexError → Parser Expr}
    (faithful : ReadsFaithfully fault fun fault tokens => outcome (operand fault tokens))
    (left : Expr) :
    ReadsFaithfully fault fun fault tokens =>
      outcome (single fault level (operand fault) left tokens) := by
  intro tokens ready
  cases tokens with
  | nil =>
    simp only [single, outcome_stay]
    exact .ok left List.suffix_rfl ready
  | cons token rest =>
    simp only [outcome_single_cons]
    cases operatorAt? level token with
    | none => exact .ok left List.suffix_rfl ready
    | some operator =>
      refine Follows.mono (Follows.arrive fun ready => ?_) (List.suffix_cons token rest)
      refine (faithful ready).bind fun right next _ suffix ready => ?_
      cases found : operator.operandError? left right with
      | none =>
        exact .ok _ suffix ready
      | some error =>
        exact .error (operandError?_faithful found ((List.tail_suffix next).trans suffix))

section

variable {nested : Option LexError → Nat → Parser Expr}

def NestsFaithfully (fault : Option LexError) (nested : Option LexError → Nat → Parser Expr) :
    Prop :=
  ∀ ⦃bracket : Token⦄ ⦃tokens : List Token⦄, bracket.kind ∈ [.openParenthesis, .openBracket] →
    Ready fault tokens →
    Follows fault (bracket :: tokens) (outcome (nested fault bracket.position tokens))
      (outcome (nested none bracket.position tokens))

theorem accessors_faithful (inside : NestsFaithfully fault nested) (object : Expr) :
    ReadsFaithfully fault fun fault tokens =>
      outcome (accessors fault (nested fault) object tokens) := by
  intro tokens ready
  induction size : tokens.length using Nat.strongRecOn generalizing tokens object with
  | ind length ih =>
  cases tokens with
  | nil =>
    simp only [accessors, outcome_stay]
    exact .ok object List.suffix_rfl ready
  | cons token rest =>
    rw [List.length_cons] at size
    by_cases dot : token.kind = .dot
    · simp only [outcome_accessors_dot _ _ _ _ dot]
      split
      · next literal =>
        have kind : object.kind ∈ [.number, .string, .boolean, .null] := by
          cases object with
          | literal value => cases value <;> simp [Expr.kind, Literal.kind]
          | _ => cases literal
        exact .error ⟨List.suffix_cons .., kind⟩
      · refine Follows.mono (Follows.arrive fun ready => ?_) (List.suffix_cons token rest)
        refine (identifier_faithful ready).bind fun name next read suffix ready => ?_
        have shorter := length_lt_of_outcome read
        exact (ih next.length (by omega) _ ready rfl).mono suffix
    by_cases bracket : token.kind = .openBracket
    · simp only [outcome_accessors_openBracket _ _ _ _ bracket]
      apply Follows.arrive
      intro ready
      refine (inside (by simp [bracket]) ready).bind fun key next readKey suffix ready => ?_
      refine Follows.mono ?_ suffix
      refine (expect_faithful (by decide) ready).bind fun closing last readClose suffix ready => ?_
      have shorterKey := length_lt_of_outcome readKey
      have shorterClosing := length_lt_of_outcome readClose
      exact (ih last.length (by omega) _ ready rfl).mono suffix
    · simp only [outcome_accessors_end _ _ _ (token :: rest) (by simp [dot, bracket])]
      exact .ok object List.suffix_rfl ready

theorem element_faithful (inside : NestsFaithfully fault nested) :
    ReadsFaithfully fault fun fault tokens => outcome (element fault (nested fault) tokens) := by
  intro tokens ready
  cases tokens with
  | nil =>
    have fine : fault = none := ready.resolve_right (by simp)
    exact .error ⟨List.nil_suffix, fine, rfl, List.mem_cons_self⟩
  | cons token rest =>
    by_cases literal : token.kind.isLiteral = true
    · simp only [outcome_element_literal _ _ _ literal]
      exact literal_faithful literal rest
    by_cases name : token.kind = .identifier
    · simp only [outcome_element_identifier _ _ _ name]
      refine Follows.mono (Follows.arrive fun ready => ?_) (List.suffix_cons token rest)
      exact accessors_faithful inside _ ready
    · simp only [element, literal, name, if_false, Bool.false_eq_true, outcome_error]
      exact .error ⟨List.suffix_cons .., List.suffix_rfl⟩

theorem moreElements_faithful (inside : NestsFaithfully fault nested) :
    ReadsFaithfully fault fun fault tokens =>
      outcome (moreElements fault (nested fault) tokens) := by
  intro tokens ready
  induction size : tokens.length using Nat.strongRecOn generalizing tokens with
  | ind length ih =>
  cases tokens with
  | nil =>
    simp only [moreElements, outcome_stay]
    exact .ok [] List.suffix_rfl ready
  | cons token rest =>
    simp only [outcome_moreElements_cons]
    rw [List.length_cons] at size
    split
    · refine Follows.mono (Follows.arrive fun ready => ?_) (List.suffix_cons token rest)
      refine (element_faithful inside ready).bind fun first next read suffix ready => ?_
      have shorter := length_lt_of_outcome read
      refine Follows.mono ?_ suffix
      refine (ih next.length (by omega) ready rfl).bind fun others last _ suffix ready => ?_
      exact .ok _ suffix ready
    · exact .ok [] List.suffix_rfl ready

theorem elements_faithful (inside : NestsFaithfully fault nested) :
    ReadsFaithfully fault fun fault tokens =>
      outcome (elements fault (nested fault) tokens) := by
  intro tokens ready
  simp only [outcome_elements]
  split
  · exact .ok [] List.suffix_rfl ready
  · simp only [outcome_someElements]
    refine (element_faithful inside ready).bind fun first next _ suffix ready => ?_
    refine Follows.mono ?_ suffix
    refine (moreElements_faithful inside ready).bind fun others last _ suffix ready => ?_
    exact .ok _ suffix ready

theorem primary_faithful (inside : NestsFaithfully fault nested) :
    ReadsFaithfully fault fun fault tokens => outcome (primary fault (nested fault) tokens) := by
  intro tokens ready
  cases tokens with
  | nil =>
    have fine : fault = none := ready.resolve_right (by simp)
    exact .error ⟨List.nil_suffix, fine, rfl, by decide⟩
  | cons token rest =>
    by_cases bracket : token.kind = .openBracket
    · simp only [outcome_primary_openBracket _ _ _ bracket]
      refine Follows.mono (Follows.arrive fun ready => ?_) (List.suffix_cons token rest)
      refine (elements_faithful inside ready).bind fun es next _ suffix ready => ?_
      refine Follows.mono ?_ suffix
      refine (expect_faithful (by decide) ready).bind fun closing last _ suffix ready => ?_
      exact .ok _ suffix ready
    by_cases parenthesis : token.kind = .openParenthesis
    · simp only [outcome_primary_openParenthesis _ _ _ parenthesis]
      apply Follows.arrive
      intro ready
      refine (inside (by simp [parenthesis]) ready).bind fun e next _ suffix ready => ?_
      refine Follows.mono ?_ suffix
      refine (expect_faithful (by decide) ready).bind fun closing last _ suffix ready => ?_
      exact .ok _ suffix ready
    by_cases name : token.kind = .identifier
    · simp only [outcome_primary_identifier _ _ _ name]
      exact identifier_faithful ready
    by_cases literal : token.kind.isLiteral = true
    · simp only [outcome_primary_literal _ _ _ literal]
      exact literal_faithful literal rest
    · simp only [primary, literal, if_false, Bool.false_eq_true, outcome_error]
      exact .error ⟨List.suffix_cons .., List.suffix_rfl, by decide⟩

theorem member_faithful (inside : NestsFaithfully fault nested) :
    ReadsFaithfully fault fun fault tokens => outcome (member fault (nested fault) tokens) := by
  intro tokens ready
  simp only [outcome_member]
  refine (primary_faithful inside ready).bind fun object next _ suffix ready => ?_
  exact (accessors_faithful inside object ready).mono suffix

theorem atLevel_faithful_of_tighter (inside : NestsFaithfully fault nested) (level : Level)
    (notMember : level ≠ .member)
    (tighter : ReadsFaithfully fault fun fault tokens =>
      outcome (atLevel fault (nested fault) level.tighter tokens)) :
    ReadsFaithfully fault fun fault tokens =>
      outcome (atLevel fault (nested fault) level tokens) := by
  intro tokens ready
  cases folds : level.folds with
  | true =>
    simp only [outcome_atLevel_of_folds _ _ folds]
    refine (tighter ready).bind fun left next _ suffix ready => ?_
    exact (chainFrom_faithful level tighter left ready).mono suffix
  | false =>
    simp only [outcome_atLevel_of_not_folds _ _ folds notMember]
    refine (tighter ready).bind fun left next _ suffix ready => ?_
    exact (single_faithful level (member_faithful inside) left ready).mono suffix

theorem atLevel_faithful (inside : NestsFaithfully fault nested) (level : Level) :
    ReadsFaithfully fault fun fault tokens =>
      outcome (atLevel fault (nested fault) level tokens) := by
  induction level using Level.descend with
  | member => exact member_faithful inside
  | looser level notMember tighter =>
    exact atLevel_faithful_of_tighter inside level notMember tighter

end

theorem inner_faithful (spare : Nat) : NestsFaithfully fault (inner · spare) := by
  induction spare with
  | zero =>
    intro bracket tokens opens _
    -- No room is left, and the bracket that was just taken is named.
    refine .error ⟨(List.tail_suffix tokens).trans (List.suffix_cons ..), ?_⟩
    exact ⟨bracket, List.mem_cons_self, rfl, opens⟩
  | succ spare ih =>
    intro bracket tokens _ ready
    simp only [inner_succ, expression_eq_atLevel]
    exact (atLevel_faithful ih .or ready).mono (List.suffix_cons bracket tokens)

/-- A fault behind the tokens is met or changes nothing, at any depth. -/
theorem expression_faithful (spare : Nat) :
    ReadsFaithfully fault fun fault tokens => outcome (expression fault spare tokens) := by
  simp only [expression_eq_atLevel]
  exact atLevel_faithful (inner_faithful spare) .or

end Parser
end FilterLang
