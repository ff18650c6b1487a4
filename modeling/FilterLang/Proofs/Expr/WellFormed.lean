import FilterLang.Proofs.Expr.Nodes
import FilterLang.Proofs.Grammar.Phrase
import FilterLang.Proofs.Token.Lexeme

namespace FilterLang

def Binary64.isNegative : Binary64 → Bool
  | .nan => false
  | .infinity negative | .finite negative _ _ => negative

def Literal.Spellable : Literal → Prop
  | number value => value.isFinite = true ∧ value.isNegative = false
  | string value => ¬ ('"' ∈ value.toList ∧ '\'' ∈ value.toList)
  | boolean _ | null => True

theorem Token.unquoted_of_quoted {token : Token} {quote : Char} {body : List Char}
    (text : token.text.toList = quote :: (body ++ [quote])) :
    token.unquoted.toList = body := by
  simp [Token.unquoted, text]

namespace Expr

def isBareName : Expr → Bool
  | identifier _ false => true
  | _ => false

/-- A chain of accessors that starts with a name, without parentheses around any of it. -/
def isPath : Expr → Bool
  | identifier _ false => true
  | member object _ _ false => object.isPath
  | _ => false

def isElement : Expr → Bool
  | literal _ false => true
  | e => e.isPath

def Invariant : Expr → Prop
  | identifier name _ => Token.IsName name
  | literal value _ => value.Spellable
  | array elements _ => ∀ e ∈ elements, e.isElement = true ∧ e.isScalar = true
  | member object property computed _ =>
    computed = false → object.isLiteral = false ∧ property.isBareName = true
  | binary operator left right _ => operator.Accepts left right

/-- The last token is the name `not`, in any letter case. -/
def endsInNot : Expr → Bool
  | identifier name false => Text.lower name.toList == ['n', 'o', 't']
  | member _ property false false => property.endsInNot
  | binary _ _ right false => right.endsInNot
  | _ => false

/-- The parts of a node bind as tightly as their places ask, and no `not` stands in front of an
    `in` where the two would be one operator. -/
def Placed : Expr → Prop
  | member object _ _ _ => object.level = .member
  | binary operator left right _ =>
    operator.level.leftOperand.rank ≤ left.level.rank ∧
      operator.level.rightOperand.rank ≤ right.level.rank ∧
      (operator = .isIn → left.endsInNot = false)
  | _ => True

structure InOrder (node : Expr) : Prop where
  invariant : node.Invariant
  placed : node.Placed

/-- The trees that their source text gives back. -/
structure WellFormed (e : Expr) : Prop where
  nodes : e.Throughout InOrder
  nesting : e.nesting ≤ maxNesting

theorem isScalar_of_isElement {e : Expr} (element : e.isElement = true) : e.isScalar = true := by
  cases e <;> first | rfl | contradiction

theorem exists_of_isBareName {e : Expr} (bare : e.isBareName = true) :
    ∃ name, e = identifier name false := by
  cases e with
  | identifier name g =>
    cases g with
    | false => exact ⟨name, rfl⟩
    | true => cases bare
  | _ => cases bare

theorem isPath_parenthesized (e : Expr) : e.parenthesized.isPath = false := by
  cases e <;> rfl

theorem isElement_parenthesized (e : Expr) : e.parenthesized.isElement = false := by
  cases e <;> rfl

theorem inOrder_parenthesized (e : Expr) : e.parenthesized.InOrder ↔ e.InOrder := by
  cases e
  all_goals
    constructor
    all_goals
      intro own
      exact ⟨own.invariant, own.placed⟩

end Expr

end FilterLang
