import FilterLang.Expr.Parser

namespace FilterLang

namespace Level

def tighter : Level → Level
  | or => and
  | and => equality
  | equality => relational
  | relational => contains
  | contains => inclusion
  | inclusion => has
  | has | member => member

/-- The operators of these levels may follow each other, and then the tree grows to the left. -/
def folds : Level → Bool
  | or | and | equality | relational => true
  | contains | inclusion | has | member => false

def leftOperand : Level → Level
  | or => or
  | and => and
  | equality => equality
  | relational => relational
  | contains => inclusion
  | inclusion => has
  | has | member => member

def rightOperand : Level → Level
  | or => and
  | and => equality
  | equality => relational
  | relational => contains
  | contains | inclusion | has | member => member

/-- What holds at the tightest level, and at each level if at the next tighter one, holds at all. -/
@[elab_as_elim]
theorem descend {P : Level → Prop} (member : P .member)
    (looser : ∀ level, level ≠ .member → P level.tighter → P level) (level : Level) : P level := by
  have has := looser .has (by decide) member
  have inclusion := looser .inclusion (by decide) has
  have contains := looser .contains (by decide) inclusion
  have relational := looser .relational (by decide) contains
  have equality := looser .equality (by decide) relational
  have and := looser .and (by decide) equality
  have or := looser .or (by decide) and
  cases level <;> assumption

theorem rank_tighter {level : Level} (notMember : level ≠ .member) :
    level.rank < level.tighter.rank := by
  cases level <;> first | decide | contradiction

theorem rank_le_member (level : Level) : level.rank ≤ Level.member.rank := by
  cases level <;> decide

theorem rank_tighter_of_lt {level stronger : Level} (looser : level.rank < stronger.rank) :
    level.tighter.rank = level.rank + 1 := by
  cases level with
  | member => exact absurd looser (Nat.not_lt.mpr stronger.rank_le_member)
  | _ => rfl

theorem rank_injective {first second : Level} (same : first.rank = second.rank) :
    first = second := by
  cases first <;> cases second <;> first | rfl | cases same

theorem rank_le_tighter (level : Level) : level.rank ≤ level.tighter.rank := by
  cases level <;> decide

theorem eq_member_of_rank {level : Level} (tight : Level.member.rank ≤ level.rank) :
    level = .member := by
  cases level <;> first | rfl | exact absurd tight (by decide)

theorem leftOperand_of_folds {level : Level} (folds : level.folds = true) :
    level.leftOperand = level := by
  cases level <;> first | rfl | contradiction

theorem rightOperand_of_folds {level : Level} (folds : level.folds = true) :
    level.rightOperand = level.tighter := by
  cases level <;> first | rfl | contradiction

theorem leftOperand_of_not_folds {level : Level} (folds : level.folds = false) :
    level.leftOperand = level.tighter := by
  cases level <;> first | rfl | contradiction

theorem rightOperand_of_not_folds {level : Level} (folds : level.folds = false) :
    level.rightOperand = .member := by
  cases level <;> first | rfl | contradiction

end Level

namespace Operator

def tokenKind : Operator → Token.Kind
  | or => .or
  | and => .and
  | equal | notEqual => .equality
  | less | greater | lessEqual | greaterEqual => .relational
  | contains => .contains
  | has => .has
  | isIn => .isIn
  | notIn => .notIn

def Accepts (operator : Operator) (left right : Expr) : Prop :=
  match operator with
  | contains => left.isScalar = true ∧ right.isScalar = true
  | has => left.mayBeArray = true ∧ right.isScalar = true
  | isIn | notIn => left.isScalar = true ∧ right.mayBeArray = true
  | _ => True

theorem level_ne_member (operator : Operator) : operator.level ≠ .member := by
  cases operator <;> decide

theorem accepts_of_folds {operator : Operator} (folds : operator.level.folds = true)
    (left right : Expr) : operator.Accepts left right := by
  cases operator <;> first | exact True.intro | contradiction

theorem operandError?_eq_none_iff {operator : Operator} {left right : Expr} :
    operator.operandError? left right = none ↔ operator.Accepts left right := by
  cases operator <;> simp only [operandError?, Accepts]
  all_goals
    split
    · simp_all
    · split <;> simp_all

theorem ofSymbol?_eq_some_iff {text : String} {operator : Operator} :
    ofSymbol? text = some operator ↔ text = operator.symbol := by
  constructor
  · intro found
    have same := List.find?_some found
    exact (beq_iff_eq.mp same).symm
  · rintro rfl
    cases operator <;> rfl

end Operator

def Token.Spells (token : Token) (operator : Operator) : Prop :=
  token.kind = operator.tokenKind ∧ (operator.family = .comparison → token.text = operator.symbol)

theorem Token.operator?_eq_some_iff {token : Token} {operator : Operator} :
    token.operator? = some operator ↔ token.Spells operator := by
  unfold Token.operator? Token.Spells
  cases kind : token.kind
  case equality | relational =>
    simp only [Option.filter_eq_some_iff, Operator.ofSymbol?_eq_some_iff]
    cases operator <;> simp [Operator.level, Operator.tokenKind, Operator.family]
  all_goals cases operator <;> simp [Operator.tokenKind, Operator.family]

/-- The syntactic classes of the grammar. A `path` is a name with accessors, and `elements` are
    what stands between the brackets of an array. -/
inductive Phrase where
  | level (level : Level)
  | primary
  | path
  | element
  | elements
  deriving DecidableEq, Repr

def Phrase.isAccessed : Phrase → Bool
  | level .member | path => true
  | _ => false

/-- The grammar: `Derives n phrase tokens e` when the tokens spell `e` as a phrase with at most `n`
    groups inside each other, a group being a pair of parentheses or the brackets of a key. The
    elements of an array are derived as the array that they make. -/
inductive Derives : Nat → Phrase → List Token → Expr → Prop where
  | tighter {n : Nat} {level : Level} {tokens : List Token} {e : Expr} :
      Derives n (.level level.tighter) tokens e → Derives n (.level level) tokens e
  | join {n : Nat} {operator : Operator} {token : Token} {ls rs : List Token} {left right : Expr} :
      Derives n (.level operator.level.leftOperand) ls left → token.Spells operator →
      Derives n (.level operator.level.rightOperand) rs right → operator.Accepts left right →
      Derives n (.level operator.level) (ls ++ token :: rs) (.binary operator left right false)
  | root {n : Nat} {tokens : List Token} {e : Expr} :
      Derives n .primary tokens e → Derives n (.level .member) tokens e
  | start {n : Nat} {name : Token} :
      name.kind = .identifier → Derives n .path [name] (.identifier name.text false)
  | property {n : Nat} {base : Phrase} {tokens : List Token} {object : Expr} {point name : Token} :
      base.isAccessed = true → Derives n base tokens object → object.isLiteral = false →
      point.kind = .dot → name.kind = .identifier →
      Derives n base (tokens ++ [point, name])
        (.member object (.identifier name.text false) false false)
  | key {n : Nat} {base : Phrase} {tokens inside : List Token} {object key : Expr}
      {opening closing : Token} :
      base.isAccessed = true → Derives (n + 1) base tokens object →
      opening.kind = .openBracket → Derives n (.level .or) inside key →
      closing.kind = .closedBracket →
      Derives (n + 1) base (tokens ++ opening :: (inside ++ [closing]))
        (.member object key true false)
  | name {n : Nat} {name : Token} :
      name.kind = .identifier → Derives n .primary [name] (.identifier name.text false)
  | constant {n : Nat} {token : Token} {value : Literal} :
      token.literal? = some value → Derives n .primary [token] (.literal value false)
  | group {n : Nat} {inside : List Token} {e : Expr} {opening closing : Token} :
      opening.kind = .openParenthesis → Derives n (.level .or) inside e →
      closing.kind = .closedParenthesis →
      Derives (n + 1) .primary (opening :: (inside ++ [closing])) e.parenthesized
  | emptyArray {n : Nat} {opening closing : Token} :
      opening.kind = .openBracket → closing.kind = .closedBracket →
      Derives n .primary [opening, closing] (.array [] false)
  | array {n : Nat} {inside : List Token} {e : Expr} {opening closing : Token} :
      opening.kind = .openBracket → Derives n .elements inside e →
      closing.kind = .closedBracket → Derives n .primary (opening :: (inside ++ [closing])) e
  | constantElement {n : Nat} {token : Token} {value : Literal} :
      token.literal? = some value → Derives n .element [token] (.literal value false)
  | pathElement {n : Nat} {tokens : List Token} {e : Expr} :
      Derives n .path tokens e → Derives n .element tokens e
  | lastElement {n : Nat} {tokens : List Token} {e : Expr} :
      Derives n .element tokens e → Derives n .elements tokens (.array [e] false)
  | nextElement {n : Nat} {tokens others : List Token} {e : Expr} {es : List Expr} {comma : Token} :
      Derives n .element tokens e → comma.kind = .comma →
      Derives n .elements others (.array es false) →
      Derives n .elements (tokens ++ comma :: others) (.array (e :: es) false)

end FilterLang
