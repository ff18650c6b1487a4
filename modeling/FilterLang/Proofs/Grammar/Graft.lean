import FilterLang.Proofs.Descent.Lockstep
import FilterLang.Proofs.Expr.Derived
import FilterLang.Proofs.Source.Spelled
import FilterLang.Proofs.Token.Seam

namespace FilterLang

/-- An operand joined to the front of another one: where that is a chain of operators of the same
    level, the chain starts with it. -/
def Expr.graft (left : Expr) (operator : Operator) : Expr → Expr
  | .binary next first last false =>
    if next.level = operator.level then .binary next (left.graft operator first) last false
    else .binary operator left (.binary next first last false) false
  | right => .binary operator left right false

theorem Expr.graft_of_tighter {left right : Expr} {operator : Operator}
    (tighter : operator.level.rank < right.level.rank) :
    left.graft operator right = .binary operator left right false := by
  cases right with
  | binary next first last grouped =>
    cases grouped with
    | true => rfl
    | false =>
      have other : next.level ≠ operator.level := by
        intro same
        exact Nat.lt_irrefl _ (same ▸ tighter)
      rw [graft, if_neg other]
  | _ => rfl

theorem Level.eq_member_of_isAccessed {level : Level}
    (accessed : (Phrase.level level).isAccessed = true) : level = .member := by
  cases level <;> first | rfl | cases accessed

namespace Derives

variable {n : Nat} {phrase : Phrase} {ls rs tokens : List Token} {left right e : Expr}

/-- An expression is derived at its own level wherever it is derived. -/
theorem own (derives : Derives n phrase tokens e) :
    ∀ level, phrase = .level level → Derives n (.level e.level) tokens e := by
  induction derives with
  | tighter _ ih => exact fun _ _ => ih _ rfl
  | join first spells second accepts _ _ => exact fun _ _ => .join first spells second accepts
  | @root _ _ e primary _ =>
    intro level same
    have level : e.level = .member := primary.fits
    rw [level]
    exact .root primary
  | property accessed object noLiteral dot name _ =>
    rintro level rfl
    cases Level.eq_member_of_isAccessed accessed
    exact .property accessed object noLiteral dot name
  | key accessed object bracket inside closing _ _ =>
    rintro level rfl
    cases Level.eq_member_of_isAccessed accessed
    exact .key accessed object bracket inside closing
  | _ => nofun

/-- Two operands of a level with an operator of it between them, where the second may be a chain. -/
theorem graft {operator : Operator} {token : Token} (folds : operator.level.folds = true)
    (first : Derives n (.level operator.level) ls left) (spells : token.Spells operator)
    (second : Derives n (.level operator.level) rs right) :
    Derives n (.level operator.level) (ls ++ token :: rs) (left.graft operator right) := by
  have start : operator.level.leftOperand = operator.level := Level.leftOperand_of_folds folds
  have last : operator.level.rightOperand = operator.level.tighter :=
    Level.rightOperand_of_folds folds
  generalize place : Phrase.level operator.level = phrase at second
  -- The second operand grows to the left, so the induction goes down to its first operand.
  induction second with
  | @tighter _ level tokens e derives _ =>
    cases place
    have loose : operator.level.rank < e.level.rank :=
      Nat.lt_of_lt_of_le (Level.rank_tighter operator.level_ne_member) derives.fits
    rw [Expr.graft_of_tighter loose]
    rw [← start] at first
    rw [← last] at derives
    exact .join first spells derives (Operator.accepts_of_folds folds _ _)
  | @join _ next token' ls' rs' left' right' first' spells' second' accepts ih _ =>
    have same : next.level = operator.level := (Phrase.level.inj place).symm
    have joined := ih first (by rw [same, start])
    have regrouped :
        ls ++ token :: (ls' ++ token' :: rs') = (ls ++ token :: ls') ++ token' :: rs' := by
      rw [List.append_assoc, List.cons_append]
    have folds' : next.level.folds = true := by rw [same, folds]
    rw [Expr.graft, if_pos same, regrouped]
    exact .join joined spells' second' (Operator.accepts_of_folds folds' _ _)
  | root => exact absurd (Phrase.level.inj place) operator.level_ne_member
  | property accessed | key accessed =>
    subst place
    exact absurd (Level.eq_member_of_isAccessed accessed) operator.level_ne_member
  | _ => cases place

/-- What tokens derive does not depend on their positions, or on the letter case of operators. -/
theorem alike {others : List Token} (derives : Derives maxNesting (.level .or) tokens e)
    (alike : List.Forall₂ Token.Alike tokens others) :
    Derives maxNesting (.level .or) others e := by
  have parsed : Scan.parse ⟨tokens, none⟩ = .ok e := Scan.parse_iff_derives.mpr ⟨rfl, derives⟩
  have results := Scan.parse_alike alike none
  rw [parsed] at results
  generalize again : Scan.parse ⟨others, none⟩ = result at results
  cases results
  exact (Scan.parse_iff_derives.mp again).2

end Derives

variable {text other : String} {left right : Expr} {operator : Operator}

theorem Operator.ne_isIn_of_folds (folds : operator.level.folds = true) : operator ≠ .isIn := by
  rintro rfl
  cases folds

/-- Two texts with the symbol of an operator between them are read one after the other. -/
theorem scan_joined (text other : String) (folds : operator.level.folds = true)
    (fine : (Scan.ofText text).error = none) :
    ∃ token distance, token.Spells operator ∧
      Scan.ofText (text ++ " " ++ operator.symbol ++ " " ++ other) =
        ((Scan.ofText other).shift distance).prepend ((Scan.ofText text).tokens ++ [token]) := by
  let more := ' ' :: (operator.symbol.toList ++ ' ' :: other.toList)
  have joined : (text ++ " " ++ operator.symbol ++ " " ++ other).toList = text.toList ++ more := by
    simp [more]
  have blank : Text.HeadBlank more := by
    intro c first
    cases first
    decide
  have noIn := operator.inSuffix?_symbol (Operator.ne_isIn_of_folds folds) other.toList
  have munches := Lexer.munches_scan text.toList 0
  have before := munches.scan_append fine blank.breaks fun _ _ _ _ => noIn
  let start := 0 + text.toList.length + 1
  let token : Token := ⟨operator.tokenKind, String.ofList operator.symbol.toList, start⟩
  let distance := start + operator.symbol.toList.length + 1
  have behind : Lexer.scan ⟨more, 0 + text.toList.length⟩ =
      ((Scan.ofText other).shift distance).prepend [token] := by
    have shifted := Lexer.scan_shift other.toList 0 distance
    rw [Nat.zero_add] at shifted
    rw [Lexer.scan_of_blank (by decide), Lexer.scan_of_lexeme _ (operator.lexeme_symbol _),
      Lexer.scan_of_blank (by decide), shifted]
    rfl
  refine ⟨token, distance, Operator.spells_of_symbol rfl String.toList_ofList, ?_⟩
  rw [Scan.ofText, Lexer.ofText, joined, before, behind, Scan.prepend_prepend]
  rfl

/-- Operators of the chaining levels bind by level and to the left, whatever their operands are. -/
theorem parse_joined (parsed : parse text = .ok left) (parsed' : parse other = .ok right) :
    (∀ operator : Operator, operator.level.folds = true →
      operator.level.rank ≤ left.level.rank → operator.level.rank ≤ right.level.rank →
      parse (text ++ " " ++ operator.symbol ++ " " ++ other) = .ok (left.graft operator right)) ∧
    parse (text ++ " or " ++ other) = .ok (left.graft .or right) := by
  have joins : ∀ operator : Operator, operator.level.folds = true →
      operator.level.rank ≤ left.level.rank → operator.level.rank ≤ right.level.rank →
      parse (text ++ " " ++ operator.symbol ++ " " ++ other) = .ok (left.graft operator right) := by
    intro operator folds tight tight'
    obtain ⟨fine, derives⟩ := parse_eq_ok_iff.mp parsed
    obtain ⟨fine', derives'⟩ := parse_eq_ok_iff.mp parsed'
    obtain ⟨token, distance, spells, scanned⟩ := scan_joined text other folds fine
    have first := (derives.own _ rfl).loosen tight
    have shifted := derives'.alike (Token.alike_shift distance _)
    have second := (shifted.own _ rfl).loosen tight'
    rw [parse_eq_ok_iff, scanned]
    refine ⟨?_, ?_⟩
    · simp [Scan.prepend, Scan.shift, fine']
    · have whole : Derives maxNesting (.level .or) _ (left.graft operator right) :=
        (first.graft folds spells second).loosen (Nat.zero_le _)
      simpa [Scan.prepend, Scan.shift] using whole
  have spaced : text ++ " or " ++ other = text ++ " " ++ Operator.or.symbol ++ " " ++ other := by
    apply String.toList_inj.mp
    simp [Operator.symbol]
  refine ⟨joins, ?_⟩
  rw [spaced]
  exact joins .or rfl (Nat.zero_le _) (Nat.zero_le _)

theorem parse_joined_equalities :
    let name (x : String) : Expr := .identifier x false
    let left : Expr := .binary .or (name "a") (name "b") true
    let right : Expr := .binary .notEqual (name "c") (name "d") false
    parse "(a or b)" = .ok left ∧ parse "c != d" = .ok right ∧
      parse ("(a or b)" ++ " " ++ Operator.equal.symbol ++ " " ++ "c != d") =
        .ok (.binary .notEqual (.binary .equal left (name "c") false) (name "d") false) ∧
      parse ("(a or b)" ++ " or " ++ "c != d") = .ok (.binary .or left right false) := by
  intro name left right
  have parsed : parse "(a or b)" =
      .ok (.binary .or (.identifier "a" false) (.identifier "b" false) true) := by cbv
  have parsed' : parse "c != d" =
      .ok (.binary .notEqual (.identifier "c" false) (.identifier "d" false) false) := by cbv
  obtain ⟨joins, disjoins⟩ := parse_joined parsed parsed'
  exact ⟨parsed, parsed', joins .equal rfl (by decide) (by decide), disjoins⟩

end FilterLang
