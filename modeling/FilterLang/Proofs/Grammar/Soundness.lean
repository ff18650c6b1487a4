import FilterLang.Proofs.Grammar.Reading

namespace FilterLang

namespace Parser

variable {fault : Option LexError} {α : Type}

theorem operatorAt?_eq_some_iff {level : Level} {token : Token} {operator : Operator} :
    operatorAt? level token = some operator ↔ token.Spells operator ∧ operator.level = level := by
  simp [operatorAt?, Option.filter_eq_some_iff, Token.operator?_eq_some_iff]

/-- What a parser reads is spelled by the tokens it takes, and the next token has been seen. -/
def Reads (fault : Option LexError) (spells : List Token → α → Prop) (parser : Parser α) : Prop :=
  ∀ ⦃tokens rest : List Token⦄ ⦃value : α⦄, outcome (parser tokens) = .ok (value, rest) →
    Ready fault rest ∧ ∃ taken, tokens = taken ++ rest ∧ spells taken value

def Extends (fault : Option LexError) (spells : List Token → α → Prop) (more : Continuation α) :
    Prop :=
  ∀ ⦃tokens rest : List Token⦄ ⦃value : α⦄, Ready fault tokens →
    outcome (more tokens) = .ok (value, rest) →
    Ready fault rest ∧ ∃ taken, tokens = taken ++ rest ∧ spells taken value

theorem expect_reads (kind : Token.Kind) :
    Reads fault (fun tokens token => tokens = [token] ∧ token.kind = kind) (expect fault kind) := by
  intro tokens rest value read
  cases tokens with
  | nil => cases read
  | cons token after =>
    by_cases same : token.kind = kind
    · rw [outcome_expect fault kind token after same, bind_eq_ok_iff] at read
      obtain ⟨_, arrived, read⟩ := read
      cases read
      exact ⟨arrive_eq_ok_iff.mp arrived, [value], rfl, rfl, same⟩
    · simp [expect, same] at read

theorem identifier_reads :
    Reads fault (fun tokens e => ∃ name : Token, tokens = [name] ∧ name.kind = .identifier ∧
      e = .identifier name.text false) (identifier fault) := by
  intro tokens rest value read
  rw [outcome_identifier, bind_eq_ok_iff] at read
  obtain ⟨⟨name, after⟩, taken, read⟩ := read
  cases read
  obtain ⟨ready, _, split, rfl, kind⟩ := expect_reads _ taken
  exact ⟨ready, [name], split, name, rfl, kind, rfl⟩

theorem literal_reads {token : Token} {after rest : List Token} {e : Expr}
    (read : outcome (literal fault token after) = .ok (e, rest)) :
    Ready fault rest ∧ after = rest ∧ ∃ value, token.literal? = some value ∧
      e = .literal value false := by
  rw [outcome_literal, bind_eq_ok_iff] at read
  obtain ⟨_, arrived, read⟩ := read
  cases found : token.literal? with
  | none => simp [found] at read
  | some value =>
    rw [found] at read
    cases read
    exact ⟨arrive_eq_ok_iff.mp arrived, rfl, value, rfl, rfl⟩

section

variable {n : Nat} {operand : Parser Expr}

theorem chainFrom_extends {level : Level} (folds : level.folds = true)
    (reads : Reads fault (Derives n (.level level.tighter)) operand) {left : Expr}
    {before : List Token} (spelled : Derives n (.level level) before left) :
    Extends fault (fun taken e => Derives n (.level level) (before ++ taken) e)
      (chainFrom fault level operand left) := by
  intro tokens rest value ready read
  induction size : tokens.length using Nat.strongRecOn generalizing tokens before left with
  | ind length ih =>
  cases tokens with
  | nil =>
    rw [chainFrom, outcome_stay] at read
    cases read
    exact ⟨ready, [], rfl, by simpa using spelled⟩
  | cons token after =>
    rw [outcome_chainFrom_cons] at read
    cases found : operatorAt? level token with
    | none =>
      rw [found] at read
      cases read
      exact ⟨ready, [], rfl, by simpa using spelled⟩
    | some operator =>
      simp only [found, bind_eq_ok_iff] at read
      obtain ⟨_, arrived, ⟨right, next⟩, readRight, readMore⟩ := read
      obtain ⟨spells, rfl⟩ := operatorAt?_eq_some_iff.mp found
      obtain ⟨readyNext, taken, rfl, spelledRight⟩ := reads readRight
      have joined : Derives n (.level operator.level) (before ++ token :: taken)
          (.binary operator left right false) := by
        refine .join ?_ spells ?_ (Operator.accepts_of_folds folds ..)
        · rwa [Level.leftOperand_of_folds folds]
        · rwa [Level.rightOperand_of_folds folds]
      obtain ⟨readyRest, more, rfl, whole⟩ :=
        ih next.length (by simp at size; omega) joined readyNext readMore rfl
      exact ⟨readyRest, token :: taken ++ more, by simp, by simpa using whole⟩

theorem single_extends {level : Level} (folds : level.folds = false)
    (reads : Reads fault (Derives n (.level .member)) operand) {left : Expr} {before : List Token}
    (spelled : Derives n (.level level.tighter) before left) :
    Extends fault (fun taken e => Derives n (.level level) (before ++ taken) e)
      (single fault level operand left) := by
  intro tokens rest value ready read
  cases tokens with
  | nil =>
    rw [single, outcome_stay] at read
    cases read
    exact ⟨ready, [], rfl, by simpa using spelled.tighter⟩
  | cons token after =>
    rw [outcome_single_cons] at read
    cases found : operatorAt? level token with
    | none =>
      rw [found] at read
      cases read
      exact ⟨ready, [], rfl, by simpa using spelled.tighter⟩
    | some operator =>
      simp only [found, bind_eq_ok_iff] at read
      obtain ⟨_, arrived, ⟨right, next⟩, readRight, readMore⟩ := read
      obtain ⟨spells, rfl⟩ := operatorAt?_eq_some_iff.mp found
      obtain ⟨readyNext, taken, rfl, spelledRight⟩ := reads readRight
      cases fits : operator.operandError? left right with
      | some error => simp [fits] at readMore
      | none =>
        simp only [fits] at readMore
        cases readMore
        refine ⟨readyNext, token :: taken, by simp, ?_⟩
        refine .join ?_ spells ?_ (Operator.operandError?_eq_none_iff.mp fits)
        · rwa [Level.leftOperand_of_not_folds folds]
        · rwa [Level.rightOperand_of_not_folds folds]

end

section

variable {n : Nat} {nested : Nat → Parser Expr}

def ReadsInside (fault : Option LexError) (n : Nat) (nested : Nat → Parser Expr) : Prop :=
  ∀ position, Reads fault (fun tokens e => ∃ m, n = m + 1 ∧ Derives m (.level .or) tokens e)
    (nested position)

theorem accessors_extends (inside : ReadsInside fault n nested) {base : Phrase}
    (accessed : base.isAccessed = true) {object : Expr} {before : List Token}
    (spelled : Derives n base before object) :
    Extends fault (fun taken e => Derives n base (before ++ taken) e)
      (accessors fault nested object) := by
  intro tokens rest value ready read
  induction size : tokens.length using Nat.strongRecOn generalizing tokens before object with
  | ind length ih =>
  cases tokens with
  | nil =>
    rw [accessors, outcome_stay] at read
    cases read
    exact ⟨ready, [], rfl, by simpa using spelled⟩
  | cons token after =>
    by_cases dot : token.kind = .dot
    · rw [outcome_accessors_dot _ _ _ _ dot] at read
      cases literal : object.isLiteral with
      | true => simp [literal] at read
      | false =>
        simp only [literal, Bool.false_eq_true, if_false, bind_eq_ok_iff] at read
        obtain ⟨_, arrived, ⟨property, next⟩, readName, readMore⟩ := read
        obtain ⟨readyNext, _, rfl, name, rfl, kind, rfl⟩ := identifier_reads readName
        have accessed := Derives.property accessed spelled literal dot kind
        obtain ⟨readyRest, more, rfl, whole⟩ :=
          ih next.length (by simp at size; omega) accessed readyNext readMore rfl
        exact ⟨readyRest, token :: name :: more, by simp, by simpa using whole⟩
    by_cases bracket : token.kind = .openBracket
    · rw [outcome_accessors_openBracket _ _ _ _ bracket] at read
      simp only [bind_eq_ok_iff] at read
      obtain ⟨_, arrived, ⟨key, next⟩, readKey, ⟨closing, last⟩, readClosing, readMore⟩ := read
      obtain ⟨readyNext, keyTokens, rfl, m, rfl, spelledKey⟩ := inside _ readKey
      obtain ⟨readyLast, _, rfl, rfl, kind⟩ := expect_reads _ readClosing
      have accessed := Derives.key accessed spelled bracket spelledKey kind
      obtain ⟨readyRest, more, rfl, whole⟩ :=
        ih last.length (by simp at size; omega) accessed readyLast readMore rfl
      exact ⟨readyRest, token :: keyTokens ++ closing :: more, by simp, by simpa using whole⟩
    · rw [outcome_accessors_end _ _ _ _ (by simp [dot, bracket])] at read
      cases read
      exact ⟨ready, [], rfl, by simpa using spelled⟩

theorem element_reads (inside : ReadsInside fault n nested) :
    Reads fault (Derives n .element) (element fault nested) := by
  intro tokens rest value read
  cases tokens with
  | nil => cases read
  | cons token after =>
    by_cases literal : token.kind.isLiteral = true
    · rw [outcome_element_literal _ _ _ literal] at read
      obtain ⟨ready, rfl, value, found, rfl⟩ := literal_reads read
      exact ⟨ready, [token], rfl, .constantElement found⟩
    by_cases name : token.kind = .identifier
    · rw [outcome_element_identifier _ _ _ name, bind_eq_ok_iff] at read
      obtain ⟨_, arrived, read⟩ := read
      obtain ⟨ready, taken, rfl, spelled⟩ :=
        accessors_extends inside rfl (.start name) (arrive_eq_ok_iff.mp arrived) read
      exact ⟨ready, token :: taken, rfl, .pathElement spelled⟩
    · simp [element, literal, name] at read

theorem moreElements_extends (inside : ReadsInside fault n nested) {first : Expr}
    {before : List Token} (spelled : Derives n .element before first) :
    Extends fault (fun taken es => Derives n .elements (before ++ taken) (.array (first :: es) false))
      (moreElements fault nested) := by
  intro tokens rest value ready read
  induction size : tokens.length using Nat.strongRecOn
    generalizing tokens before first value with
  | ind length ih =>
  cases tokens with
  | nil =>
    rw [moreElements, outcome_stay] at read
    cases read
    exact ⟨ready, [], rfl, by simpa using spelled.lastElement⟩
  | cons token after =>
    rw [outcome_moreElements_cons] at read
    by_cases comma : token.kind = .comma
    · simp only [comma, if_true, bind_eq_ok_iff] at read
      obtain ⟨_, arrived, ⟨next, afterNext⟩, readNext, ⟨others, last⟩, readOthers, read⟩ := read
      cases read
      obtain ⟨readyNext, taken, rfl, spelledNext⟩ := element_reads inside readNext
      obtain ⟨readyRest, more, rfl, whole⟩ :=
        ih afterNext.length (by simp at size; omega) spelledNext readyNext readOthers rfl
      refine ⟨readyRest, token :: taken ++ more, by simp, ?_⟩
      simpa using Derives.nextElement spelled comma whole
    · rw [if_neg comma] at read
      cases read
      exact ⟨ready, [], rfl, by simpa using spelled.lastElement⟩

theorem someElements_reads (inside : ReadsInside fault n nested) :
    Reads fault (fun tokens es => Derives n .elements tokens (.array es false))
      (someElements fault nested) := by
  intro tokens rest value read
  simp only [outcome_someElements, bind_eq_ok_iff] at read
  obtain ⟨⟨first, next⟩, readFirst, ⟨others, last⟩, readOthers, read⟩ := read
  cases read
  obtain ⟨readyNext, taken, rfl, spelled⟩ := element_reads inside readFirst
  obtain ⟨ready, more, rfl, whole⟩ := moreElements_extends inside spelled readyNext readOthers
  exact ⟨ready, taken ++ more, by simp, whole⟩

theorem primary_reads (inside : ReadsInside fault n nested) :
    Reads fault (Derives n .primary) (primary fault nested) := by
  intro tokens rest value read
  cases tokens with
  | nil => cases read
  | cons token after =>
    by_cases bracket : token.kind = .openBracket
    · simp only [outcome_primary_openBracket _ _ _ bracket, bind_eq_ok_iff] at read
      obtain ⟨_, arrived, ⟨es, next⟩, readInside, ⟨closing, last⟩, readClosing, read⟩ := read
      cases read
      obtain ⟨ready, _, rfl, rfl, kind⟩ := expect_reads _ readClosing
      rw [outcome_elements] at readInside
      split at readInside
      · cases readInside
        exact ⟨ready, [token, closing], rfl, .emptyArray bracket kind⟩
      · obtain ⟨_, taken, rfl, spelled⟩ := someElements_reads inside readInside
        exact ⟨ready, token :: (taken ++ [closing]), by simp, .array bracket spelled kind⟩
    by_cases parenthesis : token.kind = .openParenthesis
    · simp only [outcome_primary_openParenthesis _ _ _ parenthesis, bind_eq_ok_iff] at read
      obtain ⟨_, arrived, ⟨e, next⟩, readInside, ⟨closing, last⟩, readClosing, read⟩ := read
      cases read
      obtain ⟨_, taken, rfl, m, rfl, spelled⟩ := inside _ readInside
      obtain ⟨ready, _, rfl, rfl, kind⟩ := expect_reads _ readClosing
      exact ⟨ready, token :: (taken ++ [closing]), by simp, .group parenthesis spelled kind⟩
    by_cases name : token.kind = .identifier
    · rw [outcome_primary_identifier _ _ _ name] at read
      obtain ⟨ready, _, split, found, rfl, kind, rfl⟩ := identifier_reads read
      exact ⟨ready, [found], split, .name kind⟩
    by_cases literal : token.kind.isLiteral = true
    · rw [outcome_primary_literal _ _ _ literal] at read
      obtain ⟨ready, rfl, value, found, rfl⟩ := literal_reads read
      exact ⟨ready, [token], rfl, .constant found⟩
    · simp [primary, literal] at read

theorem member_reads (inside : ReadsInside fault n nested) :
    Reads fault (Derives n (.level .member)) (member fault nested) := by
  intro tokens rest value read
  rw [outcome_member, bind_eq_ok_iff] at read
  obtain ⟨⟨object, next⟩, readObject, readMore⟩ := read
  obtain ⟨readyNext, taken, rfl, spelled⟩ := primary_reads inside readObject
  obtain ⟨ready, more, rfl, whole⟩ :=
    accessors_extends inside rfl (.root spelled) readyNext readMore
  exact ⟨ready, taken ++ more, by simp, whole⟩

theorem atLevel_reads_of_tighter (inside : ReadsInside fault n nested) (level : Level)
    (notMember : level ≠ .member)
    (reads : Reads fault (Derives n (.level level.tighter)) (atLevel fault nested level.tighter)) :
    Reads fault (Derives n (.level level)) (atLevel fault nested level) := by
  intro tokens rest value read
  cases folds : level.folds with
  | true =>
    rw [outcome_atLevel_of_folds _ _ folds, bind_eq_ok_iff] at read
    obtain ⟨⟨left, next⟩, readLeft, readMore⟩ := read
    obtain ⟨readyNext, taken, rfl, spelled⟩ := reads readLeft
    obtain ⟨ready, more, rfl, whole⟩ :=
      chainFrom_extends folds reads spelled.tighter readyNext readMore
    exact ⟨ready, taken ++ more, by simp, whole⟩
  | false =>
    rw [outcome_atLevel_of_not_folds _ _ folds notMember, bind_eq_ok_iff] at read
    obtain ⟨⟨left, next⟩, readLeft, readMore⟩ := read
    obtain ⟨readyNext, taken, rfl, spelled⟩ := reads readLeft
    obtain ⟨ready, more, rfl, whole⟩ :=
      single_extends folds (member_reads inside) spelled readyNext readMore
    exact ⟨ready, taken ++ more, by simp, whole⟩

theorem atLevel_reads (inside : ReadsInside fault n nested) (level : Level) :
    Reads fault (Derives n (.level level)) (atLevel fault nested level) := by
  induction level using Level.descend with
  | member => exact member_reads inside
  | looser level notMember reads => exact atLevel_reads_of_tighter inside level notMember reads

end

theorem inner_reads (n : Nat) : ReadsInside fault n (inner fault n) := by
  induction n with
  | zero =>
    intro position tokens rest value read
    cases read
  | succ n ih =>
    intro position tokens rest value read
    rw [inner_succ, expression_eq_atLevel] at read
    obtain ⟨ready, taken, split, spelled⟩ := atLevel_reads ih .or read
    exact ⟨ready, taken, split, n, rfl, spelled⟩

/-- With room for `n` groups, an expression is read as the grammar with `n` groups derives it. -/
theorem expression_reads (n : Nat) :
    Reads fault (Derives n (.level .or)) (expression fault n) := by
  rw [expression_eq_atLevel]
  exact atLevel_reads (inner_reads n) .or

end Parser

end FilterLang
