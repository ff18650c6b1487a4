import FilterLang.Proofs.Expr.Decoding
import FilterLang.Proofs.Grammar.Phrase
import FilterLang.Proofs.Json.Fields

namespace FilterLang

namespace Expr

theorem Kind.ofName?_eq_some_iff {text : String} {kind : Kind} :
    ofName? text = some kind ↔ text = kind.name := by
  constructor
  · intro found
    have same := List.find?_some found
    exact (beq_iff_eq.mp same).symm
  · rintro rfl
    exact ofName?_name kind

theorem operatorIn?_eq_some_iff {family : Family} {text : String} {operator : Operator} :
    operatorIn? family text = some operator ↔
      text = operator.symbol ∧ operator.family = family := by
  rw [operatorIn?, Option.filter_eq_some_iff, Operator.ofSymbol?_eq_some_iff, beq_iff_eq]

theorem field?_fields_eq_some_iff {name : String} {members : List (String × Json)} {part : Field} :
    Json.field? name (fields members) = some part ↔
      ∃ v, Json.Once name v members ∧ fieldOf v = part := by
  rw [fields_eq_map, Json.field?_map, Option.map_eq_some_iff]
  simp only [Json.field?_eq_some_iff]

structure Heads (members : List (String × Json)) (kind : Kind) (g : Bool) : Prop where
  type : Json.Once "type" (.string kind.name) members
  grouped : Json.Once "parenthesized" (.boolean g) members ∨
    (∀ member ∈ members, member.1 ≠ "parenthesized") ∧ g = false

/-- The format of a tree: each node is an object that has its `type` and each of its parts once,
    and `parenthesized` at most once. Nothing is said about other members. -/
inductive Encodes : Json → Expr → Prop where
  | identifier {members : List (String × Json)} {name : String} {g : Bool} :
      Heads members .identifier g → Json.Once "name" (.string name) members →
      Encodes (.object members) (.identifier name g)
  | number {members : List (String × Json)} {value : Json} {x : Binary64} {g : Bool} :
      Heads members .number g → Json.Once "value" value members → value.number? = some x →
      Encodes (.object members) (.literal (.number x) g)
  | string {members : List (String × Json)} {value : String} {g : Bool} :
      Heads members .string g → Json.Once "value" (.string value) members →
      Encodes (.object members) (.literal (.string value) g)
  | boolean {members : List (String × Json)} {value : Bool} {g : Bool} :
      Heads members .boolean g → Json.Once "value" (.boolean value) members →
      Encodes (.object members) (.literal (.boolean value) g)
  | null {members : List (String × Json)} {g : Bool} :
      Heads members .null g → Encodes (.object members) (.literal .null g)
  | array {members : List (String × Json)} {values : List Json} {elements : List Expr} {g : Bool} :
      Heads members .array g → Json.Once "elements" (.array values) members →
      List.Forall₂ Encodes values elements → Encodes (.object members) (.array elements g)
  | member {members : List (String × Json)} {first second : Json} {object property : Expr}
      {computed g : Bool} :
      Heads members .member g → Json.Once "object" first members → Encodes first object →
      Json.Once "property" second members → Encodes second property →
      Json.Once "computed" (.boolean computed) members →
      Encodes (.object members) (.member object property computed g)
  | binary {members : List (String × Json)} {operator : Operator} {first second : Json}
      {left right : Expr} {g : Bool} :
      Heads members (.family operator.family) g →
      Json.Once "operator" (.string operator.symbol) members →
      Json.Once "left" first members → Encodes first left →
      Json.Once "right" second members → Encodes second right →
      Encodes (.object members) (.binary operator left right g)

theorem ofFields?_eq_some_iff {members : List (String × Json)} {e : Expr} :
    ofFields? (fields members) = some e ↔
      ∃ kind g, Heads members kind g ∧ ofParts? kind g (fields members) = some e := by
  have grouped (g : Bool) :
      Json.optionalField? "parenthesized" false (·.json.boolean?) (fields members) = some g ↔
        Json.Once "parenthesized" (.boolean g) members ∨
          (∀ member ∈ members, member.1 ≠ "parenthesized") ∧ g = false := by
    rw [fields_eq_map, Json.optionalField?_map, Json.optionalField?_eq_some_iff]
    simp only [fieldOf, Json.boolean?_eq_some_iff, exists_eq_right]
  simp only [ofFields?, Option.bind_eq_bind, Option.bind_eq_some_iff, field?_fields_eq_some_iff,
    Json.string?_eq_some_iff, Kind.ofName?_eq_some_iff, grouped]
  constructor
  · rintro ⟨_, ⟨v, once, rfl⟩, _, rfl, kind, rfl, g, groups, read⟩
    exact ⟨kind, g, ⟨once, groups⟩, read⟩
  · rintro ⟨kind, g, ⟨once, groups⟩, read⟩
    exact ⟨_, ⟨_, once, rfl⟩, _, rfl, kind, rfl, g, groups, read⟩

def ReadsBack (v : Json) : Prop :=
  (∀ e, node? v = some e ↔ Encodes v e) ∧
    ∀ es, nodesOf? v = some es ↔ ∃ values, v = .array values ∧ List.Forall₂ Encodes values es

section

variable {members : List (String × Json)} {e : Expr} {kind : Kind} {g : Bool}

theorem encodes_of_ofParts? (each : ∀ member ∈ members, ReadsBack member.2)
    (heads : Heads members kind g) (read : ofParts? kind g (fields members) = some e) :
    Encodes (.object members) e := by
  cases kind
  all_goals
    simp only [ofParts?, Option.bind_eq_bind, Option.bind_eq_some_iff, Option.pure_def,
      Option.some.injEq, field?_fields_eq_some_iff,
      Json.string?_eq_some_iff, Json.boolean?_eq_some_iff, operatorIn?_eq_some_iff] at read
  case identifier =>
    obtain ⟨_, ⟨_, once, rfl⟩, name, rfl, rfl⟩ := read
    exact .identifier heads once
  case number =>
    obtain ⟨_, ⟨_, once, rfl⟩, x, number, rfl⟩ := read
    exact .number heads once number
  case string =>
    obtain ⟨_, ⟨_, once, rfl⟩, value, rfl, rfl⟩ := read
    exact .string heads once
  case boolean =>
    obtain ⟨_, ⟨_, once, rfl⟩, value, rfl, rfl⟩ := read
    exact .boolean heads once
  case null =>
    subst read
    exact .null heads
  case array =>
    obtain ⟨_, ⟨_, once, rfl⟩, elements, nodes, rfl⟩ := read
    obtain ⟨values, rfl, encodes⟩ := ((each _ once.mem).2 elements).mp nodes
    exact .array heads once encodes
  case member =>
    obtain ⟨_, ⟨_, first, rfl⟩, object, node, _, ⟨_, second, rfl⟩, property, node', _,
      ⟨_, once, rfl⟩, computed, rfl, rfl⟩ := read
    exact .member heads first (((each _ first.mem).1 object).mp node) second
      (((each _ second.mem).1 property).mp node') once
  case family =>
    obtain ⟨_, ⟨_, once, rfl⟩, _, rfl, operator, ⟨rfl, rfl⟩, _, ⟨_, first, rfl⟩, left, node, _,
      ⟨_, second, rfl⟩, right, node', rfl⟩ := read
    exact .binary heads once first (((each _ first.mem).1 left).mp node) second
      (((each _ second.mem).1 right).mp node')

theorem ofParts?_of_encodes (each : ∀ member ∈ members, ReadsBack member.2)
    (encodes : Encodes (.object members) e) :
    ∃ kind g, Heads members kind g ∧ ofParts? kind g (fields members) = some e := by
  have part {name : String} {v : Json} (once : Json.Once name v members) :
      Json.field? name (fields members) = some (fieldOf v) :=
    field?_fields_eq_some_iff.mpr ⟨v, once, rfl⟩
  cases encodes with
  | identifier heads once =>
    exact ⟨_, _, heads, by rw [ofParts?, part once]; rfl⟩
  | number heads once number =>
    refine ⟨_, _, heads, ?_⟩
    rw [ofParts?, part once]
    simp [fieldOf, number]
  | string heads once =>
    exact ⟨_, _, heads, by rw [ofParts?, part once]; rfl⟩
  | boolean heads once =>
    exact ⟨_, _, heads, by rw [ofParts?, part once]; rfl⟩
  | null heads => exact ⟨_, _, heads, rfl⟩
  | array heads once encodes =>
    have nodes := ((each _ once.mem).2 _).mpr ⟨_, rfl, encodes⟩
    refine ⟨_, _, heads, ?_⟩
    rw [ofParts?, part once]
    simp [fieldOf, nodes]
  | member heads first object second property once =>
    have node := ((each _ first.mem).1 _).mpr object
    have node' := ((each _ second.mem).1 _).mpr property
    refine ⟨_, _, heads, ?_⟩
    simp [ofParts?, part first, part second, part once, fieldOf, node, node', Json.boolean,
      Json.boolean?]
  | binary heads once first left second right =>
    have node := ((each _ first.mem).1 _).mpr left
    have node' := ((each _ second.mem).1 _).mpr right
    refine ⟨_, _, heads, ?_⟩
    simp [ofParts?, part first, part second, part once, fieldOf, node, node', Json.string,
      Json.string?, operatorIn?_symbol]

end

theorem nodes?_eq_some_iff {values : List Json} {es : List Expr}
    (each : ∀ v ∈ values, ∀ e, node? v = some e ↔ Encodes v e) :
    nodes? values = some es ↔ List.Forall₂ Encodes values es := by
  induction values generalizing es with
  | nil => simp [nodes?, eq_comm]
  | cons v values ih =>
    have rest := fun es => @ih es fun v inside => each v (List.mem_cons_of_mem _ inside)
    simp only [nodes?, Option.bind_eq_bind, Option.bind_eq_some_iff, Option.pure_def,
      Option.some.injEq, each v List.mem_cons_self, rest, List.forall₂_cons_left_iff]
    constructor
    · rintro ⟨e, own, es, others, rfl⟩
      exact ⟨e, es, own, others, rfl⟩
    · rintro ⟨e, es, own, others, rfl⟩
      exact ⟨e, own, es, others, rfl⟩

theorem readsBack (v : Json) : ReadsBack v := by
  induction v using Json.induction with
  | scalar v =>
    refine ⟨fun e => iff_of_false ?_ ?_, fun es => iff_of_false ?_ ?_⟩
    · rintro ⟨⟩
    · rintro ⟨⟩
    · rintro ⟨⟩
    · rintro ⟨values, ⟨⟩, _⟩
  | array elements ih =>
    refine ⟨fun e => iff_of_false ?_ ?_, fun es => ?_⟩
    · rintro ⟨⟩
    · rintro ⟨⟩
    · rw [nodesOf?, nodes?_eq_some_iff fun v inside => (ih v inside).1]
      simp
  | object members ih =>
    refine ⟨fun e => ?_, fun es => iff_of_false (by rintro ⟨⟩) (by rintro ⟨values, ⟨⟩, _⟩)⟩
    rw [node?, ofFields?_eq_some_iff]
    constructor
    · rintro ⟨kind, g, heads, read⟩
      exact encodes_of_ofParts? ih heads read
    · exact ofParts?_of_encodes ih

end Expr

end FilterLang
