import FilterLang.Expr.Json
import FilterLang.Proofs.Expr.Nodes
import FilterLang.Proofs.Json.Fields
import FilterLang.Proofs.Json.Reading

namespace FilterLang

def Binary64.reread? (number : Numeral → Binary64) (x : Binary64) : Option Binary64 :=
  (Json.scalar ((Json.Scalar.real x).reread number)).number?

namespace Expr

mutual

def reread? (number : Numeral → Binary64) : Expr → Option Expr
  | identifier name g => some (identifier name g)
  | literal (.number x) g => do return literal (.number (← x.reread? number)) g
  | literal value g => some (literal value g)
  | array elements g => do return array (← rereadElements? number elements) g
  | member object property computed g => do
    return member (← object.reread? number) (← property.reread? number) computed g
  | binary operator left right g => do
    return binary operator (← left.reread? number) (← right.reread? number) g

def rereadElements? (number : Numeral → Binary64) : List Expr → Option (List Expr)
  | [] => some []
  | element :: elements => do
    return (← element.reread? number) :: (← rereadElements? number elements)

end

theorem Kind.ofName?_name (kind : Kind) : ofName? kind.name = some kind := by
  cases kind with
  | family family => cases family <;> rfl
  | _ => rfl

theorem operatorIn?_symbol (operator : Operator) :
    operatorIn? operator.family operator.symbol = some operator := by
  cases operator <;> rfl

def field (value : Json) : Field := ⟨value, node? value, none⟩

def nodeFields (kind : Kind) (parts : List (String × Field)) (grouped : Bool) :
    List (String × Field) :=
  ("type", field (.string kind.name)) :: parts ++
    if grouped then [("parenthesized", field (.boolean true))] else []

section

variable {kind : Kind} {parts : List (String × Field)} {g : Bool}

theorem field?_type (others : ∀ part ∈ parts, part.1 ≠ "type") :
    Json.field? "type" (nodeFields kind parts g) = some (field (.string kind.name)) := by
  have none : parts.filter (·.1 == "type") = [] := by simpa using others
  cases g <;> simp [Json.field?, nodeFields, none]

theorem optionalField?_parenthesized (others : ∀ part ∈ parts, part.1 ≠ "parenthesized") :
    Json.optionalField? "parenthesized" false (·.json.boolean?) (nodeFields kind parts g) =
      some g := by
  have none : parts.filter (·.1 == "parenthesized") = [] := by simpa using others
  cases g <;> simp [Json.optionalField?, nodeFields, none, field, Json.boolean, Json.boolean?]

theorem field?_part {name : String} (noType : name ≠ "type") (noGroup : name ≠ "parenthesized") :
    Json.field? name (nodeFields kind parts g) = Json.field? name parts := by
  cases g <;> simp [Json.field?, nodeFields, noType.symm, noGroup.symm]

theorem ofFields?_nodeFields (noType : ∀ part ∈ parts, part.1 ≠ "type")
    (noGroup : ∀ part ∈ parts, part.1 ≠ "parenthesized") :
    ofFields? (nodeFields kind parts g) = ofParts? kind g (nodeFields kind parts g) := by
  rw [ofFields?, field?_type noType, optionalField?_parenthesized noGroup]
  simp [field, Json.string, Json.string?, Kind.ofName?_name]

end

variable {number : Numeral → Binary64}

def nodesOf? : Json → Option (List Expr)
  | .array elements => nodes? elements
  | _ => none

def fieldOf (v : Json) : Field := ⟨v, node? v, nodesOf? v⟩

theorem fields_eq_map (members : List (String × Json)) :
    fields members = members.map fun member => (member.1, fieldOf member.2) := by
  induction members with
  | nil => rfl
  | cons member members ih =>
    obtain ⟨name, v⟩ := member
    cases v <;> simp [fields, ih, fieldOf, nodesOf?, node?]

theorem fields_cons {name : String} {value : Json} {members : List (String × Json)}
    (noArray : ∀ elements, value ≠ .array elements) :
    fields ((name, value) :: members) = (name, field value) :: fields members := by
  cases value with
  | array elements => exact absurd rfl (noArray elements)
  | _ => rfl

theorem exists_object (e : Expr) : ∃ members, e.toJson.reread number = .object members := by
  cases e <;> exact ⟨_, rfl⟩

theorem fields_child {name : String} {members : List (String × Json)} (e : Expr) :
    fields ((name, e.toJson.reread number) :: members) =
      (name, field (e.toJson.reread number)) :: fields members := by
  obtain ⟨inside, same⟩ := exists_object e
  rw [same]
  exact fields_cons nofun

theorem rereadMembers_append (first second : List (String × Json)) :
    Json.rereadMembers number (first ++ second) =
      Json.rereadMembers number first ++ Json.rereadMembers number second := by
  induction first with
  | nil => rfl
  | cons member first ih =>
    rw [List.cons_append, Json.rereadMembers, ih]
    rfl

theorem fields_append (first second : List (String × Json)) :
    fields (first ++ second) = fields first ++ fields second := by
  simp only [fields_eq_map, List.map_append]

theorem node?_nodeJson (kind : Kind) (parts : List (String × Json)) (g : Bool) :
    node? ((nodeJson kind parts g).reread number) =
      ofFields? (nodeFields kind (fields (Json.rereadMembers number parts)) g) := by
  rw [nodeJson, Json.reread, rereadMembers_append, node?, fields_append]
  cases g <;> rfl

theorem node?_of_fields {kind : Kind} {parts : List (String × Json)} {read : List (String × Field)}
    (same : fields (Json.rereadMembers number parts) = read)
    (noType : ∀ part ∈ read, part.1 ≠ "type") (noGroup : ∀ part ∈ read, part.1 ≠ "parenthesized")
    (g : Bool) :
    node? ((nodeJson kind parts g).reread number) = ofParts? kind g (nodeFields kind read g) := by
  subst same
  rw [node?_nodeJson, ofFields?_nodeFields noType noGroup]

theorem node?_identifier (name : String) (g : Bool) :
    node? ((identifier name g).toJson.reread number) = some (identifier name g) := by
  have same : fields (Json.rereadMembers number [("name", .string name)]) =
      [("name", field (.string name))] := rfl
  rw [toJson, node?_of_fields same (by simp) (by simp)]
  simp [ofParts?, field?_part, Json.field?_cons_self, field, Json.string, Json.string?]

theorem node?_literal (value : Literal) (g : Bool) :
    node? ((literal value g).toJson.reread number) = (literal value g).reread? number := by
  cases value with
  | number x =>
    have same : fields (Json.rereadMembers number [("value", .scalar (.real x))]) =
        [("value", field (.scalar ((Json.Scalar.real x).reread number)))] := rfl
    rw [toJson, Literal.kind, literalParts, node?_of_fields same (by simp) (by simp)]
    simp [ofParts?, field?_part, Json.field?_cons_self, field, reread?, Binary64.reread?]
  | string value =>
    have same : fields (Json.rereadMembers number [("value", .string value)]) =
        [("value", field (.string value))] := rfl
    rw [toJson, Literal.kind, literalParts, node?_of_fields same (by simp) (by simp)]
    simp [ofParts?, field?_part, Json.field?_cons_self, field, Json.string, Json.string?, reread?]
  | boolean value =>
    have same : fields (Json.rereadMembers number [("value", .boolean value)]) =
        [("value", field (.boolean value))] := rfl
    rw [toJson, Literal.kind, literalParts, node?_of_fields same (by simp) (by simp)]
    simp [ofParts?, field?_part, Json.field?_cons_self, field, Json.boolean, Json.boolean?, reread?]
  | null =>
    have same : fields (Json.rereadMembers number []) = [] := rfl
    rw [toJson, Literal.kind, literalParts, node?_of_fields same (by simp) (by simp)]
    rfl

theorem nodes?_reread {elements : List Expr}
    (each : ∀ e ∈ elements, node? (e.toJson.reread number) = e.reread? number) :
    nodes? (Json.rereadElements number (elementsJson elements)) =
      rereadElements? number elements := by
  induction elements with
  | nil => rfl
  | cons e elements ih =>
    rw [elementsJson, Json.rereadElements, nodes?, rereadElements?, each e List.mem_cons_self,
      ih fun e inside => each e (List.mem_cons_of_mem _ inside)]

theorem node?_reread (e : Expr) : node? (e.toJson.reread number) = e.reread? number := by
  induction e using Expr.induction with
  | identifier name g => exact node?_identifier name g
  | literal value g => exact node?_literal value g
  | array elements g ih =>
    have same : fields (Json.rereadMembers number [("elements", .array (elementsJson elements))]) =
        [("elements", ⟨.array (Json.rereadElements number (elementsJson elements)), none,
          nodes? (Json.rereadElements number (elementsJson elements))⟩)] := rfl
    rw [toJson, node?_of_fields same (by simp) (by simp)]
    simp [ofParts?, field?_part, Json.field?_cons_self, reread?, nodes?_reread ih]
  | member object property computed g ihObject ihProperty =>
    have same : fields (Json.rereadMembers number
          [("object", object.toJson), ("property", property.toJson),
            ("computed", .boolean computed)]) =
        [("object", field (object.toJson.reread number)),
          ("property", field (property.toJson.reread number)),
          ("computed", field (.boolean computed))] := by
      simp only [Json.rereadMembers, fields_child]
      rfl
    rw [toJson, node?_of_fields same (by simp) (by simp)]
    simp [ofParts?, field?_part, Json.field?_cons_self, Json.field?_cons_of_ne, field, Json.boolean,
      Json.boolean?, reread?, ihObject, ihProperty]
  | binary operator left right g ihLeft ihRight =>
    have same : fields (Json.rereadMembers number
          [("operator", .string operator.symbol), ("left", left.toJson),
            ("right", right.toJson)]) =
        [("operator", field (.string operator.symbol)),
          ("left", field (left.toJson.reread number)),
          ("right", field (right.toJson.reread number))] := by
      refine (fields_cons fun _ same => by cases same).trans ?_
      simp only [Json.rereadMembers, fields_child]
      rfl
    rw [toJson, node?_of_fields same (by simp) (by simp)]
    simp [ofParts?, field?_part, Json.field?_cons_self, Json.field?_cons_of_ne, field, Json.string,
      Json.string?, operatorIn?_symbol, reread?, ihLeft, ihRight]

theorem membersRepresentable_append (first second : List (String × Json)) :
    Json.membersRepresentable (first ++ second) =
      (Json.membersRepresentable first && Json.membersRepresentable second) := by
  induction first with
  | nil => rfl
  | cons member first ih =>
    rw [List.cons_append, Json.membersRepresentable, Json.membersRepresentable, ih, Bool.and_assoc]

theorem isRepresentable_nodeJson (kind : Kind) (parts : List (String × Json)) (g : Bool) :
    ((nodeJson kind parts g).reread number).isRepresentable =
      Json.membersRepresentable (Json.rereadMembers number parts) := by
  rw [nodeJson, Json.reread, rereadMembers_append, Json.isRepresentable,
    membersRepresentable_append]
  cases g
  · exact Bool.and_true _
  · exact Bool.and_true _

theorem isRepresentable_of_number? {value : Json.Scalar} {x : Binary64}
    (found : (Json.scalar value).number? = some x) :
    (Json.scalar value).isRepresentable = true := by
  cases value with
  | natural | real => rfl
  | _ => cases found

theorem exists_reread? {elements read : List Expr}
    (same : rereadElements? number elements = some read) :
    ∀ e ∈ elements, ∃ read, e.reread? number = some read := by
  induction elements generalizing read with
  | nil => exact nofun
  | cons e elements ih =>
    simp only [rereadElements?, Option.bind_eq_bind, Option.bind_eq_some_iff] at same
    obtain ⟨first, found, others, foundOthers, _⟩ := same
    exact List.forall_mem_cons.mpr ⟨⟨first, found⟩, ih foundOthers⟩

theorem elementsRepresentable_reread {elements : List Expr}
    (each : ∀ e ∈ elements, (e.toJson.reread number).isRepresentable = true) :
    Json.elementsRepresentable (Json.rereadElements number (elementsJson elements)) = true := by
  induction elements with
  | nil => rfl
  | cons e elements ih =>
    obtain ⟨own, rest⟩ := List.forall_mem_cons.mp each
    simp [elementsJson, Json.rereadElements, Json.elementsRepresentable, own, ih rest]

theorem isRepresentable_of_reread? {e read : Expr} (same : e.reread? number = some read) :
    (e.toJson.reread number).isRepresentable = true := by
  induction e using Expr.induction generalizing read with
  | identifier name g =>
    rw [toJson, isRepresentable_nodeJson]
    rfl
  | literal value g =>
    rw [toJson, isRepresentable_nodeJson]
    cases value with
    | number x =>
      simp only [reread?, Option.bind_eq_bind, Option.bind_eq_some_iff] at same
      obtain ⟨y, found, _⟩ := same
      have own := isRepresentable_of_number? found
      simpa [literalParts, Json.rereadMembers, Json.membersRepresentable, Json.reread] using own
    | _ => rfl
  | array elements g ih =>
    rw [toJson, isRepresentable_nodeJson]
    simp only [reread?, Option.bind_eq_bind, Option.bind_eq_some_iff] at same
    obtain ⟨_, found, _⟩ := same
    have inside := elementsRepresentable_reread fun e member => by
      obtain ⟨_, read⟩ := exists_reread? found e member
      exact ih e member read
    simpa [Json.rereadMembers, Json.membersRepresentable, Json.reread, Json.isRepresentable]
      using inside
  | member object property computed g ihObject ihProperty =>
    rw [toJson, isRepresentable_nodeJson]
    simp only [reread?, Option.bind_eq_bind, Option.bind_eq_some_iff] at same
    obtain ⟨_, foundObject, _, foundProperty, _⟩ := same
    simp only [Json.rereadMembers, Json.membersRepresentable, ihObject foundObject,
      ihProperty foundProperty]
    rfl
  | binary operator left right g ihLeft ihRight =>
    rw [toJson, isRepresentable_nodeJson]
    simp only [reread?, Option.bind_eq_bind, Option.bind_eq_some_iff] at same
    obtain ⟨_, foundLeft, _, foundRight, _⟩ := same
    simp only [Json.rereadMembers, Json.membersRepresentable, ihLeft foundLeft, ihRight foundRight]
    rfl

/-- What a written tree is read back as. -/
theorem ofJson?_reread (e : Expr) : ofJson? (e.toJson.reread number) = e.reread? number := by
  rw [ofJson?, node?_reread]
  cases same : e.reread? number with
  | none => exact ite_self none
  | some read => rw [if_pos (isRepresentable_of_reread? same)]

end Expr

end FilterLang
