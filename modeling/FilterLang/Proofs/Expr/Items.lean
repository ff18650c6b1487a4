import FilterLang.Proofs.Expr.Nodes
import FilterLang.Proofs.Grammar.Acceptance
import Mathlib

namespace FilterLang

inductive Item where
  | name (name : String)
  | constant (value : Literal)
  | operator (operator : Operator)
  deriving DecidableEq

namespace Token

def Kind.isPunctuation : Kind → Bool
  | comma | dot | openParenthesis | closedParenthesis | openBracket | closedBracket => true
  | _ => false

def item? (token : Token) : Option Item :=
  match token.kind with
  | .identifier => some (.name token.text)
  | .number =>
    (Decimal.ofNumeral? token.text.toList).map fun d => .constant (.number (.ofDecimal false d))
  | .string => some (.constant (.string token.unquoted))
  | .boolean value => some (.constant (.boolean value))
  | .null => some (.constant .null)
  | _ => token.operator?.map .operator

def items (tokens : List Token) : List (Option Item) :=
  (tokens.filter fun token => !token.kind.isPunctuation).map item?

theorem items_append (first second : List Token) :
    items (first ++ second) = items first ++ items second := by
  simp [items]

theorem items_cons {token : Token} (rest : List Token)
    (content : token.kind.isPunctuation = false) :
    items (token :: rest) = token.item? :: items rest := by
  simp [items, content]

theorem items_punctuation {token : Token} (rest : List Token)
    (punctuation : token.kind.isPunctuation = true) : items (token :: rest) = items rest := by
  simp [items, punctuation]

theorem items_singleton {token : Token} {item : Item} (found : token.item? = some item)
    (content : token.kind.isPunctuation = false) : items [token] = [some item] := by
  rw [items_cons [] content, found]
  rfl

theorem items_enclosed {opening closing : Token} (inside : List Token)
    (opens : opening.kind.isPunctuation = true) (closes : closing.kind.isPunctuation = true) :
    items (opening :: (inside ++ [closing])) = items inside := by
  rw [items_punctuation _ opens, items_append, items_punctuation [] closes]
  exact List.append_nil _

theorem item?_identifier {token : Token} (kind : token.kind = .identifier) :
    token.item? = some (.name token.text) := by
  simp [item?, kind]

theorem item?_of_spells {token : Token} {operator : Operator} (spells : token.Spells operator) :
    token.item? = some (.operator operator) ∧ token.kind.isPunctuation = false := by
  have found := operator?_eq_some_iff.mpr spells
  have kind := spells.1
  cases operator <;> simp_all [item?, Operator.tokenKind, Kind.isPunctuation]

theorem item?_of_literal? {token : Token} {value : Literal} (found : token.literal? = some value) :
    token.item? = some (.constant value) ∧ token.kind.isPunctuation = false := by
  unfold literal? at found
  split at found
  · next kind =>
    obtain ⟨x, read, finite⟩ := Option.bind_eq_some_iff.mp found
    obtain ⟨d, numeral, rfl⟩ := Option.map_eq_some_iff.mp read
    split at finite
    · cases finite
      simp [item?, kind, numeral, Kind.isPunctuation]
    · cases finite
  · next kind =>
    cases found
    simp [item?, kind, Kind.isPunctuation]
  · next kind =>
    cases found
    simp [item?, kind, Kind.isPunctuation]
  · next kind =>
    cases found
    simp [item?, kind, Kind.isPunctuation]
  · cases found

end Token

namespace Expr

mutual

/-- Names, constants and operators in the order of a walk from left to right. -/
def items : Expr → List Item
  | identifier name _ => [.name name]
  | literal value _ => [.constant value]
  | array elements _ => elementsItems elements
  | member object property _ _ => object.items ++ property.items
  | binary operator left right _ => left.items ++ .operator operator :: right.items

def elementsItems : List Expr → List Item
  | [] => []
  | element :: elements => element.items ++ elementsItems elements

end

def isNamedMember : Expr → Bool
  | member _ _ false _ => true
  | _ => false

theorem items_parenthesized (e : Expr) : e.parenthesized.items = e.items := by
  cases e <;> simp [parenthesized, items]

theorem countP_isNamedMember_parenthesized (e : Expr) :
    e.parenthesized.nodes.countP isNamedMember = e.nodes.countP isNamedMember := by
  cases e with
  | member object property computed g =>
    cases computed <;> simp [parenthesized, nodes, isNamedMember, List.countP_cons]
  | _ => simp [parenthesized, nodes, isNamedMember]

end Expr

namespace Derives

variable {n : Nat} {phrase : Phrase} {tokens : List Token} {e : Expr}

/-- The tokens of a phrase say what its tree says, in the same order. -/
theorem items_eq (derives : Derives n phrase tokens e) :
    Token.items tokens = e.items.map some := by
  induction derives with
  | tighter _ ih | root _ ih | pathElement _ ih => exact ih
  | @join _ operator token ls rs left right _ spells _ _ ihLeft ihRight =>
    obtain ⟨found, content⟩ := Token.item?_of_spells spells
    rw [Token.items_append, Token.items_cons rs content, ihLeft, ihRight, found]
    simp [Expr.items]
  | start kind | name kind =>
    have content := congrArg Token.Kind.isPunctuation kind
    exact Token.items_singleton (Token.item?_identifier kind) content
  | constant found | constantElement found =>
    obtain ⟨item, content⟩ := Token.item?_of_literal? found
    exact Token.items_singleton item content
  | @property _ _ _ object point name _ _ _ dot kind ih =>
    have content := congrArg Token.Kind.isPunctuation kind
    have named := Token.items_singleton (Token.item?_identifier kind) content
    have punctuation := congrArg Token.Kind.isPunctuation dot
    rw [Token.items_append, Token.items_punctuation [name] punctuation, ih, named]
    simp [Expr.items]
  | @key _ _ _ inside object key opening closing _ _ bracket _ closed ihObject ihKey =>
    have opens := congrArg Token.Kind.isPunctuation bracket
    have closes := congrArg Token.Kind.isPunctuation closed
    rw [Token.items_append, Token.items_enclosed inside opens closes, ihObject, ihKey]
    simp [Expr.items]
  | @group _ inside e opening closing parenthesis _ closed ih =>
    have opens := congrArg Token.Kind.isPunctuation parenthesis
    have closes := congrArg Token.Kind.isPunctuation closed
    rw [Token.items_enclosed inside opens closes, ih, e.items_parenthesized]
  | @emptyArray _ opening closing bracket closed =>
    have opens := congrArg Token.Kind.isPunctuation bracket
    have closes := congrArg Token.Kind.isPunctuation closed
    exact Token.items_enclosed [] opens closes
  | @array _ inside e opening closing bracket _ closed ih =>
    have opens := congrArg Token.Kind.isPunctuation bracket
    have closes := congrArg Token.Kind.isPunctuation closed
    rw [Token.items_enclosed inside opens closes, ih]
  | lastElement _ ih => simpa [Expr.items, Expr.elementsItems] using ih
  | @nextElement _ tokens others e es comma _ kind _ ih ihOthers =>
    have punctuation := congrArg Token.Kind.isPunctuation kind
    rw [Token.items_append, Token.items_punctuation others punctuation, ih, ihOthers]
    simp [Expr.items, Expr.elementsItems]

/-- Every point makes a member, and no other token does. -/
theorem countP_dot_eq (derives : Derives n phrase tokens e) :
    tokens.countP (·.kind = .dot) = e.nodes.countP Expr.isNamedMember := by
  induction derives with
  | tighter _ ih | root _ ih | pathElement _ ih => exact ih
  | @join _ operator token ls rs left right _ spells _ _ ihLeft ihRight =>
    have noDot : token.kind ≠ .dot := by
      rw [spells.1]
      cases operator <;> decide
    simp [noDot, ihLeft, ihRight, Expr.nodes, Expr.isNamedMember]
  | start kind | name kind => simp [kind, Expr.nodes, Expr.isNamedMember]
  | @constant _ token _ found | @constantElement _ token _ found =>
    have noDot : token.kind ≠ .dot := by
      intro dot
      simp [Token.literal?, dot] at found
    simp [noDot, Expr.nodes, Expr.isNamedMember]
  | property _ _ _ dot kind ih =>
    simp [List.countP_cons, dot, kind, ih, Expr.nodes, Expr.isNamedMember]
  | key _ _ bracket _ closed ihObject ihKey =>
    simp [bracket, closed, ihObject, ihKey, Expr.nodes, Expr.isNamedMember]
  | @group _ _ e _ _ parenthesis _ closed ih =>
    simp [parenthesis, closed, ih, e.countP_isNamedMember_parenthesized]
  | emptyArray bracket closed =>
    simp [bracket, closed, Expr.nodes, Expr.elementsNodes, Expr.isNamedMember]
  | array bracket _ closed ih => simp [bracket, closed, ih]
  | lastElement _ ih => simp [ih, Expr.nodes, Expr.elementsNodes, Expr.isNamedMember]
  | nextElement _ kind _ ih ihOthers =>
    simp only [Expr.nodes, Expr.elementsNodes, List.countP_cons, List.countP_append] at ihOthers ⊢
    simp [kind, ih, ihOthers, Expr.isNamedMember]

end Derives

/-- Parsing keeps every name, constant and operator of a text, once and in order, and every point
    becomes a member. -/
theorem items_of_parse {text : String} {e : Expr} (parsed : parse text = .ok e) :
    ∃ tokens, tokenize text = .ok tokens ∧ Token.items tokens = e.items.map some ∧
      tokens.countP (·.kind = .dot) = e.nodes.countP Expr.isNamedMember := by
  obtain ⟨fine, derives⟩ := parse_eq_ok_iff.mp parsed
  exact ⟨_, Scan.toExcept_eq_ok_iff.mpr ⟨fine, rfl⟩, derives.items_eq, derives.countP_dot_eq⟩

theorem items_of_parse_array :
    let e : Expr := .binary .isIn
      (.member (.identifier "a" false) (.identifier "b" false) false false)
      (.array [.literal (.string "x") false, .identifier "c" false] false) true
    parse "(a.b IN ['x', c])" = .ok e ∧
      e.items.map some =
        [some (.name "a"), some (.name "b"), some (.operator .isIn),
          some (.constant (.string "x")), some (.name "c")] ∧
      ∃ tokens, tokenize "(a.b IN ['x', c])" = .ok tokens ∧
        Token.items tokens = e.items.map some ∧
        tokens.countP (·.kind = .dot) = e.nodes.countP Expr.isNamedMember :=
  have parsed : parse "(a.b IN ['x', c])" = .ok (.binary .isIn
      (.member (.identifier "a" false) (.identifier "b" false) false false)
      (.array [.literal (.string "x") false, .identifier "c" false] false) true) := by cbv
  ⟨parsed, rfl, items_of_parse parsed⟩

end FilterLang
