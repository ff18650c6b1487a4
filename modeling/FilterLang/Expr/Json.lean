import FilterLang.Expr.Basic
import FilterLang.Json.Fields

namespace FilterLang.Expr

def Kind.all : List Kind :=
  [identifier, number, string, boolean, null, family .logical, family .comparison, member, array,
    family .scalar, family .array]

def Kind.ofName? (text : String) : Option Kind := all.find? (·.name == text)

def nodeJson (kind : Kind) (parts : List (String × Json)) (grouped : Bool) : Json :=
  .object (("type", .string kind.name) :: parts ++
    if grouped then [("parenthesized", .boolean true)] else [])

def literalParts : Literal → List (String × Json)
  | .number value => [("value", .scalar (.real value))]
  | .string value => [("value", .string value)]
  | .boolean value => [("value", .boolean value)]
  | .null => []

mutual

def toJson : Expr → Json
  | identifier name g => nodeJson .identifier [("name", .string name)] g
  | literal value g => nodeJson value.kind (literalParts value) g
  | array elements g => nodeJson .array [("elements", .array (elementsJson elements))] g
  | member object property computed g =>
    nodeJson .member
      [("object", object.toJson), ("property", property.toJson), ("computed", .boolean computed)] g
  | binary operator left right g =>
    nodeJson (.family operator.family)
      [("operator", .string operator.symbol), ("left", left.toJson), ("right", right.toJson)] g

def elementsJson : List Expr → List Json
  | [] => []
  | element :: elements => element.toJson :: elementsJson elements

end

/-- The value of a member with what it is as a node and as a list of nodes. -/
structure Field where
  json : Json
  node? : Option Expr
  nodes? : Option (List Expr)

def operatorIn? (family : Family) (text : String) : Option Operator :=
  (Operator.ofSymbol? text).filter (·.family == family)

def ofParts? (kind : Kind) (grouped : Bool) (fields : List (String × Field)) : Option Expr :=
  match kind with
  | .identifier => do return identifier (← (← Json.field? "name" fields).json.string?) grouped
  | .number => do return literal (.number (← (← Json.field? "value" fields).json.number?)) grouped
  | .string => do return literal (.string (← (← Json.field? "value" fields).json.string?)) grouped
  | .boolean => do
    return literal (.boolean (← (← Json.field? "value" fields).json.boolean?)) grouped
  | .null => some (literal .null grouped)
  | .array => do return array (← (← Json.field? "elements" fields).nodes?) grouped
  | .member => do
    let object ← (← Json.field? "object" fields).node?
    let property ← (← Json.field? "property" fields).node?
    return member object property (← (← Json.field? "computed" fields).json.boolean?) grouped
  | .family family => do
    let operator ← operatorIn? family (← (← Json.field? "operator" fields).json.string?)
    let left ← (← Json.field? "left" fields).node?
    let right ← (← Json.field? "right" fields).node?
    return binary operator left right grouped

/-- The node that the members of an object describe, in any order. `type` and every part of its
    kind must occur once, `parenthesized` at most once; other members count for nothing. -/
def ofFields? (fields : List (String × Field)) : Option Expr := do
  let kind ← Kind.ofName? (← (← Json.field? "type" fields).json.string?)
  let grouped ← Json.optionalField? "parenthesized" false (·.json.boolean?) fields
  ofParts? kind grouped fields

mutual

def node? : Json → Option Expr
  | .object members => ofFields? (fields members)
  | _ => none

def nodes? : List Json → Option (List Expr)
  | [] => some []
  | element :: elements => do return (← node? element) :: (← nodes? elements)

def fields : List (String × Json) → List (String × Field)
  | [] => []
  | (name, .array elements) :: members =>
    (name, ⟨.array elements, none, nodes? elements⟩) :: fields members
  | (name, value) :: members => (name, ⟨value, node? value, none⟩) :: fields members

end

/-- Reads a tree back. All of the value must be representable, ignored members included. -/
def ofJson? (value : Json) : Option Expr := if value.isRepresentable then node? value else none

end FilterLang.Expr
