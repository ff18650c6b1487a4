import FilterLang.Expr.Basic

namespace FilterLang.Expr

/-- Induction over expressions, with the hypothesis for all elements of an array at once. -/
@[elab_as_elim]
theorem induction {motive : Expr → Prop}
    (identifier : ∀ name g, motive (.identifier name g))
    (literal : ∀ value g, motive (.literal value g))
    (array : ∀ elements g, (∀ e ∈ elements, motive e) → motive (.array elements g))
    (member : ∀ object property computed g, motive object → motive property →
      motive (.member object property computed g))
    (binary : ∀ operator left right g, motive left → motive right →
      motive (.binary operator left right g)) (e : Expr) : motive e :=
  match e with
  | .identifier name g => identifier name g
  | .literal value g => literal value g
  | .array elements g => array elements g fun e inside =>
    have := List.sizeOf_lt_of_mem inside
    induction identifier literal array member binary e
  | .member object property computed g =>
    member object property computed g (induction identifier literal array member binary object)
      (induction identifier literal array member binary property)
  | .binary operator left right g =>
    binary operator left right g (induction identifier literal array member binary left)
      (induction identifier literal array member binary right)
termination_by sizeOf e
decreasing_by
  all_goals
    simp only [Expr.array.sizeOf_spec, Expr.member.sizeOf_spec, Expr.binary.sizeOf_spec]
    omega

/-- Induction where parentheses are a step of their own. -/
@[elab_as_elim]
theorem bareInduction {motive : Expr → Prop}
    (identifier : ∀ name, motive (.identifier name false))
    (literal : ∀ value, motive (.literal value false))
    (array : ∀ elements, (∀ e ∈ elements, motive e) → motive (.array elements false))
    (member : ∀ object property computed, motive object → motive property →
      motive (.member object property computed false))
    (binary : ∀ operator left right, motive left → motive right →
      motive (.binary operator left right false))
    (parenthesized : ∀ e : Expr, e.grouped = false → motive e → motive e.parenthesized)
    (e : Expr) : motive e := by
  induction e using Expr.induction with
  | identifier name g =>
    cases g with
    | false => exact identifier name
    | true => exact parenthesized _ rfl (identifier name)
  | literal value g =>
    cases g with
    | false => exact literal value
    | true => exact parenthesized _ rfl (literal value)
  | array elements g ih =>
    cases g with
    | false => exact array elements ih
    | true => exact parenthesized _ rfl (array elements ih)
  | member object property computed g ihObject ihProperty =>
    have bare := member object property computed ihObject ihProperty
    cases g with
    | false => exact bare
    | true => exact parenthesized _ rfl bare
  | binary operator left right g ihLeft ihRight =>
    have bare := binary operator left right ihLeft ihRight
    cases g with
    | false => exact bare
    | true => exact parenthesized _ rfl bare

mutual

def nodes : Expr → List Expr
  | identifier name g => [identifier name g]
  | literal value g => [literal value g]
  | array elements g => array elements g :: elementsNodes elements
  | member object property computed g =>
    member object property computed g :: (object.nodes ++ property.nodes)
  | binary operator left right g => binary operator left right g :: (left.nodes ++ right.nodes)

def elementsNodes : List Expr → List Expr
  | [] => []
  | element :: elements => element.nodes ++ elementsNodes elements

end

mutual

/-- How many groups are open at once at the deepest place: parentheses, and brackets of keys. -/
def nesting : Expr → Nat
  | identifier _ g => g.toNat
  | literal _ g => g.toNat
  | array elements g => elementsNesting elements + g.toNat
  | member object property computed g =>
    max object.nesting (property.nesting + computed.toNat) + g.toNat
  | binary _ left right g => max left.nesting right.nesting + g.toNat

def elementsNesting : List Expr → Nat
  | [] => 0
  | element :: elements => max element.nesting (elementsNesting elements)

end

def level : Expr → Level
  | binary operator _ _ false => operator.level
  | _ => .member

theorem mem_elementsNodes {node : Expr} {elements : List Expr} :
    node ∈ elementsNodes elements ↔ ∃ e ∈ elements, node ∈ e.nodes := by
  induction elements with
  | nil => simp [elementsNodes]
  | cons e elements ih => simp [elementsNodes, ih]

theorem elementsNesting_le_iff {elements : List Expr} {n : Nat} :
    elementsNesting elements ≤ n ↔ ∀ e ∈ elements, e.nesting ≤ n := by
  induction elements with
  | nil => simp [elementsNesting]
  | cons e elements ih => simp only [elementsNesting, Nat.max_le, ih, List.forall_mem_cons]

def Throughout (P : Expr → Prop) (e : Expr) : Prop := ∀ node ∈ e.nodes, P node

section

variable {P : Expr → Prop}

theorem throughout_identifier {name : String} {g : Bool} :
    Throughout P (identifier name g) ↔ P (identifier name g) := by
  simp [Throughout, nodes]

theorem throughout_literal {value : Literal} {g : Bool} :
    Throughout P (literal value g) ↔ P (literal value g) := by
  simp [Throughout, nodes]

theorem throughout_array {elements : List Expr} {g : Bool} :
    Throughout P (array elements g) ↔
      P (array elements g) ∧ ∀ e ∈ elements, Throughout P e := by
  simp only [Throughout, nodes, List.forall_mem_cons, mem_elementsNodes]
  constructor
  · rintro ⟨own, all⟩
    exact ⟨own, fun e element node inside => all node ⟨e, element, inside⟩⟩
  · rintro ⟨own, all⟩
    exact ⟨own, fun node ⟨e, element, inside⟩ => all e element node inside⟩

theorem throughout_member {object property : Expr} {computed g : Bool} :
    Throughout P (member object property computed g) ↔
      P (member object property computed g) ∧ Throughout P object ∧ Throughout P property := by
  simp [Throughout, nodes, or_imp, forall_and]

theorem throughout_binary {operator : Operator} {left right : Expr} {g : Bool} :
    Throughout P (binary operator left right g) ↔
      P (binary operator left right g) ∧ Throughout P left ∧ Throughout P right := by
  simp [Throughout, nodes, or_imp, forall_and]

theorem throughout_parenthesized (blind : ∀ e : Expr, P e.parenthesized ↔ P e) {e : Expr} :
    Throughout P e.parenthesized ↔ Throughout P e := by
  cases e with
  | identifier name g =>
    simp only [parenthesized, throughout_identifier]
    exact blind (.identifier name g)
  | literal value g =>
    simp only [parenthesized, throughout_literal]
    exact blind (.literal value g)
  | array elements g =>
    simp only [parenthesized, throughout_array]
    exact and_congr_left' (blind (.array elements g))
  | member object property computed g =>
    simp only [parenthesized, throughout_member]
    exact and_congr_left' (blind (.member object property computed g))
  | binary operator left right g =>
    simp only [parenthesized, throughout_binary]
    exact and_congr_left' (blind (.binary operator left right g))

end

theorem level_parenthesized (e : Expr) : e.parenthesized.level = .member := by
  cases e <;> rfl

theorem nesting_parenthesized (e : Expr) :
    e.parenthesized.nesting + e.grouped.toNat = e.nesting + 1 := by
  cases e <;> simp [parenthesized, nesting, grouped]
  all_goals omega

end FilterLang.Expr
