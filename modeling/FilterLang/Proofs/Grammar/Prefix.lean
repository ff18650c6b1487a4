import FilterLang.Proofs.Grammar.Truncated

namespace FilterLang

namespace Parser

theorem chainFrom_truncates (level : Level) {operand : Parser Expr}
    (truncates : Truncates Always fun tokens => outcome (operand tokens)) (left : Expr) :
    Truncates Always fun tokens => outcome (chainFrom none level operand left tokens) := by
  intro tokens more full read
  induction size : tokens.length using Nat.strongRecOn generalizing tokens left with
  | ind length ih =>
  cases tokens with
  | nil =>
    simp only [chainFrom, outcome_stay]
    exact .part trivial
  | cons token rest =>
    simp only [List.cons_append, outcome_chainFrom_cons] at read ⊢
    rw [List.length_cons] at size
    cases found : operatorAt? level token with
    | none =>
      rw [found] at read
      cases read
      exact .same rfl List.suffix_rfl
    | some operator =>
      simp only [found, arrive_none, ok_bind, bind_eq_ok_iff] at read ⊢
      obtain ⟨right, readRight, readMore⟩ := read
      refine Truncated.mono ?_ (List.suffix_cons token rest) id
      refine (truncates readRight).bind (fun next found suffix => ?_) fun value _ _ => ?_
      · rw [found] at readMore
        have shorter := suffix.length_le
        exact (ih next.length (by omega) _ readMore rfl).mono suffix id
      · simp only [chainFrom, outcome_stay]
        exact .part trivial

/-- A right operand that does not fit where a longer one, which is no array, does. -/
theorem operandError?_of_cut {operator : Operator} {left whole cut : Expr} {error : ParseError}
    (fits : operator.operandError? left whole = none) (notArray : whole.mayBeArray = false)
    (wrong : operator.operandError? left cut = some error) :
    error = .invalidScalar .array ∧ operator.tokenKind ∈ [.contains, .has] ∧
      ∃ elements g, cut = .array elements g := by
  have accepts := Operator.operandError?_eq_none_iff.mp fits
  cases operator
  case contains | has =>
    simp only [Operator.operandError?, accepts.1, Bool.not_true, Bool.false_eq_true,
      if_false] at wrong
    cases cut with
    | array elements g =>
      cases wrong
      exact ⟨rfl, by simp [Operator.tokenKind], elements, g, rfl⟩
    | _ => cases wrong
  case isIn | notIn => exact absurd accepts.2 (by simp [notArray])
  all_goals cases wrong

theorem single_truncates (level : Level) {n : Nat} {operand : Parser Expr}
    (reads : Reads none (Derives n (.level .member)) operand)
    (truncates : Truncates InChain fun tokens => outcome (operand tokens)) (left : Expr) :
    Truncates Always fun tokens => outcome (single none level operand left tokens) := by
  intro tokens more full read
  cases tokens with
  | nil =>
    simp only [single, outcome_stay]
    exact .part trivial
  | cons token rest =>
    simp only [List.cons_append, outcome_single_cons] at read ⊢
    cases found : operatorAt? level token with
    | none =>
      rw [found] at read
      cases read
      exact .same rfl List.suffix_rfl
    | some operator =>
      simp only [found, arrive_none, ok_bind, bind_eq_ok_iff] at read ⊢
      obtain ⟨right, readRight, check⟩ := read
      cases fits : operator.operandError? left right.1 with
      | some error => simp [fits] at check
      | none =>
      rw [fits] at check
      cases check
      have right := (truncates readRight).mono (List.suffix_cons token rest) id
      refine right.bind (fun next split suffix => ?_) fun value inChain readCut => ?_
      · rw [fits]
        exact .same split suffix
      · obtain ⟨goesOn, notArray⟩ := inChain
        obtain ⟨-, taken, split, spelled⟩ := reads readCut
        cases wrong : operator.operandError? left value with
        | none => exact .part trivial
        | some error =>
          -- Only what the cut left of the operand is an array.
          obtain ⟨rfl, kind, elements, g, rfl⟩ := operandError?_of_cut fits notArray wrong
          rw [List.append_nil] at split
          subst split
          rw [← (operatorAt?_eq_some_iff.mp found).1.1] at kind
          exact .failed ⟨rfl, goesOn, [], token, rest, rfl, kind, n, elements, g, spelled⟩

section

variable {nested : Nat → Parser Expr}

/-- Nothing is read, or an accessor. -/
theorem accessors_cases {object : Expr} {tokens : List Token} {full : Expr × List Token}
    (read : outcome (accessors none nested object tokens) = .ok full) :
    full = (object, tokens) ∨ GoesOn tokens ∧ full.1.mayBeArray = false := by
  induction size : tokens.length using Nat.strongRecOn generalizing tokens object with
  | ind length ih =>
  cases tokens with
  | nil =>
    rw [accessors, outcome_stay] at read
    cases read
    exact .inl rfl
  | cons token rest =>
    rw [List.length_cons] at size
    by_cases dot : token.kind = .dot
    · rw [outcome_accessors_dot _ _ _ _ dot] at read
      split at read
      · cases read
      · simp only [bind_eq_ok_iff] at read
        obtain ⟨_, _, name, readName, readMore⟩ := read
        have shorter := length_lt_of_outcome readName
        refine .inr ⟨⟨token, rfl, by simp [dot]⟩, ?_⟩
        obtain rfl | ⟨-, notArray⟩ := ih name.2.length (by omega) readMore rfl
        · rfl
        · exact notArray
    by_cases bracket : token.kind = .openBracket
    · simp only [outcome_accessors_openBracket _ _ _ _ bracket, bind_eq_ok_iff] at read
      obtain ⟨_, _, key, readKey, closing, readClosing, readMore⟩ := read
      have shorterKey := length_lt_of_outcome readKey
      have shorterClosing := length_lt_of_outcome readClosing
      refine .inr ⟨⟨token, rfl, by simp [bracket]⟩, ?_⟩
      obtain rfl | ⟨-, notArray⟩ := ih closing.2.length (by omega) readMore rfl
      · rfl
      · exact notArray
    · rw [outcome_accessors_end _ _ _ _ (by simp [dot, bracket])] at read
      cases read
      exact .inl rfl

def NestsTruncated (nested : Nat → Parser Expr) : Prop :=
  ∀ position, Truncates Always fun tokens => outcome (nested position tokens)

theorem accessors_truncates (inside : NestsTruncated nested) (object : Expr) :
    Truncates InChain fun tokens => outcome (accessors none nested object tokens) := by
  intro tokens more full read
  induction size : tokens.length using Nat.strongRecOn generalizing tokens object with
  | ind length ih =>
  cases tokens with
  | nil =>
    simp only [accessors, outcome_stay]
    obtain rfl | inChain := accessors_cases read
    · exact .same rfl List.suffix_rfl
    · exact .part inChain
  | cons token rest =>
    rw [List.length_cons] at size
    rw [List.cons_append] at read
    by_cases dot : token.kind = .dot
    · simp only [outcome_accessors_dot _ _ _ _ dot] at read ⊢
      split at read
      · cases read
      · next notLiteral =>
        rw [if_neg notLiteral]
        simp only [arrive_none, ok_bind, bind_eq_ok_iff] at read ⊢
        obtain ⟨name, readName, readMore⟩ := read
        refine Truncated.mono ?_ (List.suffix_cons token rest) id
        refine (identifier_truncates readName).bind (fun left split suffix => ?_)
          fun _ never => never.elim
        rw [split] at readMore
        have shorter := suffix.length_le
        exact (ih left.length (by omega) _ readMore rfl).mono suffix id
    by_cases bracket : token.kind = .openBracket
    · simp only [outcome_accessors_openBracket _ _ _ _ bracket, arrive_none, ok_bind,
        bind_eq_ok_iff] at read ⊢
      obtain ⟨key, readKey, closing, readClosing, readMore⟩ := read
      refine Truncated.mono ?_ (List.suffix_cons token rest) id
      refine (inside _ readKey).closed readClosing (fun key closing =>
        outcome (accessors none nested (.member object key true false) closing.2))
        fun last split suffix => ?_
      rw [split] at readMore
      have shorter := suffix.length_le
      exact (ih last.length (by omega) _ readMore rfl).mono suffix id
    · have noAccessor : ∀ more : List Token, ∀ next ∈ (token :: more).head?,
          next.kind ≠ .dot ∧ next.kind ≠ .openBracket := by simp [dot, bracket]
      simp only [outcome_accessors_end _ _ _ _ (noAccessor _)] at read ⊢
      cases read
      exact .same rfl List.suffix_rfl

theorem element_truncates (inside : NestsTruncated nested) :
    Truncates Always fun tokens => outcome (element none nested tokens) := by
  intro tokens more full read
  cases tokens with
  | nil => exact .ends
  | cons token rest =>
    rw [List.cons_append] at read
    by_cases literal : token.kind.isLiteral = true
    · simp only [outcome_element_literal _ _ _ literal] at read ⊢
      exact (literal_truncates read).mono List.suffix_rfl False.elim
    by_cases name : token.kind = .identifier
    · simp only [outcome_element_identifier _ _ _ name, arrive_none, ok_bind] at read ⊢
      exact ((accessors_truncates inside _).always read).mono (List.suffix_cons ..) id
    · simp [element, literal, name] at read

theorem someElements_truncates (inside : NestsTruncated nested) :
    Truncates Always fun tokens => outcome (someElements none nested tokens) := by
  intro tokens more full read
  induction size : tokens.length using Nat.strongRecOn generalizing tokens full with
  | ind length ih =>
  simp only [outcome_someElements, bind_eq_ok_iff] at read ⊢
  obtain ⟨first, readFirst, others, readOthers, read⟩ := read
  cases read
  refine (element_truncates inside readFirst).bind (fun left split suffix => ?_) fun _ _ _ => ?_
  · rw [split] at readOthers
    cases left with
    | nil =>
      simp only [moreElements, outcome_stay, ok_bind]
      exact .part trivial
    | cons token rest =>
      rw [List.cons_append, outcome_moreElements_cons] at readOthers
      split at readOthers
      · next comma =>
        have shorter := suffix.length_le
        have behind : outcome (someElements none nested (rest ++ more)) = .ok others := by
          rwa [outcome_someElements]
        simp only [outcome_moreElements_comma _ _ _ comma, arrive_none, ok_bind]
        have following := (ih rest.length (by simp at shorter; omega) behind rfl).mono
          ((List.suffix_cons token rest).trans suffix) id
        exact following.bind (fun last split suffix => .same split suffix)
          fun _ _ _ => .part trivial
      · next noComma =>
        cases readOthers
        simp only [outcome_moreElements_cons, if_neg noComma, ok_bind]
        exact .same rfl suffix
  · simp only [moreElements, outcome_stay, ok_bind]
    exact .part trivial

theorem elements_truncates (inside : NestsTruncated nested) :
    Truncates Always fun tokens => outcome (elements none nested tokens) := by
  intro tokens more full read
  cases tokens with
  | nil => exact .ends
  | cons token rest =>
    simp only [List.cons_append, outcome_elements] at read ⊢
    by_cases closing : token.kind = .closedBracket
    · rw [if_pos (by simpa using closing)] at read ⊢
      cases read
      exact .same rfl List.suffix_rfl
    · rw [if_neg (by simpa using closing)] at read ⊢
      exact someElements_truncates inside read

theorem primary_truncates (inside : NestsTruncated nested) :
    Truncates Never fun tokens => outcome (primary none nested tokens) := by
  intro tokens more full read
  cases tokens with
  | nil => exact .ends
  | cons token rest =>
    rw [List.cons_append] at read
    by_cases bracket : token.kind = .openBracket
    · simp only [outcome_primary_openBracket _ _ _ bracket, arrive_none, ok_bind,
        bind_eq_ok_iff] at read ⊢
      obtain ⟨es, readElements, closing, readClosing, read⟩ := read
      cases read
      refine Truncated.mono ?_ (List.suffix_cons token rest) id
      exact (elements_truncates inside readElements).closed readClosing
        (fun es closing => .ok (Expr.array es false, closing.2))
        fun _ split suffix => .same split suffix
    by_cases parenthesis : token.kind = .openParenthesis
    · simp only [outcome_primary_openParenthesis _ _ _ parenthesis, arrive_none, ok_bind,
        bind_eq_ok_iff] at read ⊢
      obtain ⟨e, readInside, closing, readClosing, read⟩ := read
      cases read
      refine Truncated.mono ?_ (List.suffix_cons token rest) id
      exact (inside _ readInside).closed readClosing
        (fun e closing => .ok (e.parenthesized, closing.2)) fun _ split suffix => .same split suffix
    by_cases name : token.kind = .identifier
    · simp only [outcome_primary_identifier _ _ _ name] at read ⊢
      exact identifier_truncates read
    by_cases literal : token.kind.isLiteral = true
    · simp only [outcome_primary_literal _ _ _ literal] at read ⊢
      exact literal_truncates read
    · simp [primary, literal] at read

theorem member_truncates (inside : NestsTruncated nested) :
    Truncates InChain fun tokens => outcome (member none nested tokens) := by
  intro tokens more full read
  simp only [outcome_member, bind_eq_ok_iff] at read ⊢
  obtain ⟨object, readObject, readMore⟩ := read
  refine (primary_truncates inside readObject).bind (fun left split suffix => ?_)
    fun _ never => never.elim
  rw [split] at readMore
  exact (accessors_truncates inside object.1 readMore).mono suffix id

variable {n : Nat}

theorem atLevel_truncates_of_tighter (inside : NestsTruncated nested)
    (reads : ReadsInside none n nested) (level : Level) (notMember : level ≠ .member)
    (tighter : Truncates Always fun tokens => outcome (atLevel none nested level.tighter tokens)) :
    Truncates Always fun tokens => outcome (atLevel none nested level tokens) := by
  intro tokens more full read
  cases folds : level.folds with
  | true =>
    simp only [outcome_atLevel_of_folds _ _ folds, bind_eq_ok_iff] at read ⊢
    obtain ⟨left, readLeft, readMore⟩ := read
    refine (tighter readLeft).bind (fun next split suffix => ?_) fun value _ _ => ?_
    · rw [split] at readMore
      exact (chainFrom_truncates level tighter left.1 readMore).mono suffix id
    · simp only [chainFrom, outcome_stay]
      exact .part trivial
  | false =>
    simp only [outcome_atLevel_of_not_folds _ _ folds notMember, bind_eq_ok_iff] at read ⊢
    obtain ⟨left, readLeft, readMore⟩ := read
    refine (tighter readLeft).bind (fun next split suffix => ?_) fun value _ _ => ?_
    · rw [split] at readMore
      have member := member_truncates inside
      exact (single_truncates level (member_reads reads) member left.1 readMore).mono suffix id
    · simp only [single, outcome_stay]
      exact .part trivial

theorem atLevel_truncates (inside : NestsTruncated nested) (reads : ReadsInside none n nested)
    (level : Level) :
    Truncates Always fun tokens => outcome (atLevel none nested level tokens) := by
  induction level using Level.descend with
  | member => exact (member_truncates inside).always
  | looser level notMember tighter =>
    exact atLevel_truncates_of_tighter inside reads level notMember tighter

end

theorem inner_truncates (spare : Nat) : NestsTruncated (inner none spare) := by
  induction spare with
  | zero =>
    intro position tokens more full read
    cases read
  | succ spare ih =>
    intro position
    simp only [inner_succ, expression_eq_atLevel]
    exact atLevel_truncates ih (inner_reads spare) .or

theorem expression_truncates (spare : Nat) :
    Truncates Always fun tokens => outcome (expression none spare tokens) := by
  simp only [expression_eq_atLevel]
  exact atLevel_truncates (inner_truncates spare) (inner_reads spare) .or

end Parser

/-- Tokens at the start of an expression are an expression, or they end too early. -/
theorem Scan.parse_of_append {tokens more : List Token} {e : Expr}
    (parsed : Scan.parse ⟨tokens ++ more, none⟩ = .ok e) :
    (∃ shorter, Scan.parse ⟨tokens, none⟩ = .ok shorter) ∨
      ∃ failure, Scan.parse ⟨tokens, none⟩ = .error failure ∧
        failure.error.IsTruncation tokens more := by
  obtain ⟨-, read⟩ := Scan.parse_eq_ok_iff.mp parsed
  rw [parse_eq_map ⟨tokens, none⟩ (.inl rfl)]
  have truncated := Parser.expression_truncates maxNesting read
  dsimp only at truncated ⊢
  generalize outcome (Parser.expression none maxNesting tokens) = run at truncated
  cases truncated with
  | same split =>
    obtain ⟨rfl, -⟩ := List.append_eq_nil_iff.mp split.symm
    exact .inl ⟨e, rfl⟩
  | part => exact .inl ⟨_, rfl⟩
  | failed truncation => exact .inr ⟨_, rfl, truncation⟩

/-- A valid expression that is cut off where one of its tokens ends is valid, or it ends too early,
    or the array right of a last `contains` or `has` has lost its accessor. -/
theorem parse_take_of_parse {text : String} {e : Expr} (parsed : parse text = .ok e) {length : Nat}
    (ends : (Scan.ofText text).EndsAt length) :
    let start := String.ofList (text.toList.take length)
    ∃ taken more, tokenize text = .ok (taken ++ more) ∧ tokenize start = .ok taken ∧
      ((∃ shorter, parse start = .ok shorter) ∨
        (∃ expected, parse start = .error (.unexpectedEnd expected)) ∨
        (parse start = .error (.invalidScalar .array) ∧ CutsArray taken more)) := by
  intro start
  obtain ⟨fine, derives⟩ := parse_eq_ok_iff.mp parsed
  obtain ⟨taken, ⟨more, split⟩, cut⟩ := Scan.ofText_take_of_endsAt ends
  refine ⟨taken, more, ?_, by rw [tokenize, cut]; rfl, ?_⟩
  · rw [split]
    exact Scan.toExcept_eq_ok_iff.mpr ⟨fine, rfl⟩
  · rw [← split] at derives
    have whole : Scan.parse ⟨taken ++ more, none⟩ = .ok e :=
      Scan.parse_iff_derives.mpr ⟨rfl, derives⟩
    rw [parse, cut]
    obtain ⟨shorter, read⟩ | ⟨⟨error, unread⟩, failed, truncation⟩ := Scan.parse_of_append whole
    · exact .inl ⟨shorter, by rw [read]; rfl⟩
    · rw [failed]
      cases error with
      | unexpectedEnd expected => exact .inr (.inl ⟨expected, rfl⟩)
      | invalidScalar kind =>
        obtain ⟨rfl, cuts⟩ := truncation
        exact .inr (.inr ⟨rfl, cuts⟩)
      | _ => exact truncation.elim

/-- The array right of `contains` is cut off in front of its key. -/
theorem parse_take_of_parse_array :
    let e : Expr := .binary .contains (.identifier "a" false)
      (.member (.array [.identifier "b" false] false) (.identifier "c" false) true false) false
    parse "a contains [b][c]" = .ok e ∧ (Scan.ofText "a contains [b][c]").EndsAt 14 ∧
      parse "a contains [b]" = .error (.invalidScalar .array) ∧
      ∃ taken more, tokenize "a contains [b]" = .ok taken ∧ CutsArray taken more := by
  intro e
  have parsed : parse "a contains [b][c]" = .ok (.binary .contains (.identifier "a" false)
      (.member (.array [.identifier "b" false] false) (.identifier "c" false) true false)
      false) := by cbv
  have fifth : (Scan.ofText "a contains [b][c]").tokens[4]? = some ⟨.closedBracket, "]", 13⟩ := by
    cbv
  have ends : (Scan.ofText "a contains [b][c]").EndsAt 14 :=
    .inr ⟨_, List.mem_of_getElem? fifth, rfl⟩
  have start : String.ofList ("a contains [b][c]".toList.take 14) = "a contains [b]" := by cbv
  have failed : parse "a contains [b]" = .error (.invalidScalar .array) := by cbv
  obtain ⟨taken, more, -, tokens, valid | early | ⟨-, cuts⟩⟩ := parse_take_of_parse parsed ends
  all_goals rw [start] at *
  · obtain ⟨shorter, valid⟩ := valid
    cases failed.symm.trans valid
  · obtain ⟨expected, early⟩ := early
    cases failed.symm.trans early
  · exact ⟨parsed, ends, failed, taken, more, tokens, cuts⟩

end FilterLang
