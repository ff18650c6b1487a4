import FilterLang.Proofs.Expr.Format
import FilterLang.Proofs.Json.Strict
import Mathlib

namespace FilterLang

namespace Expr

def Kind.partNames : Kind → List String
  | identifier => ["name"]
  | number | string | boolean => ["value"]
  | null => []
  | array => ["elements"]
  | member => ["object", "property", "computed"]
  | family _ => ["operator", "left", "right"]

/-- The name counts for nothing among these members. It may belong to nodes of another `type`. -/
structure Ignored (name : String) (members : List (String × Json)) : Prop where
  noType : name ≠ "type"
  noGroup : name ≠ "parenthesized"
  noPart : ∀ kind : Kind, Json.Once "type" (.string kind.name) members → name ∉ kind.partNames

/-- Values that differ in what the format leaves open, at any depth. -/
inductive Varies : Json → Json → Prop where
  | refl (v : Json) : Varies v v
  | symm {v w : Json} : Varies v w → Varies w v
  | trans {u v w : Json} : Varies u v → Varies v w → Varies u w
  | reorder {members others : List (String × Json)} :
      members.Perm others → Varies (.object members) (.object others)
  | ignored {members : List (String × Json)} {name : String} (v : Json) :
      Ignored name members → Varies (.object members) (.object ((name, v) :: members))
  | bare {members : List (String × Json)} :
      (∀ member ∈ members, member.1 ≠ "parenthesized") →
      Varies (.object members) (.object (("parenthesized", .boolean false) :: members))
  | member {v w : Json} (before after : List (String × Json)) (name : String) :
      Varies v w → Varies (.object (before ++ (name, v) :: after))
        (.object (before ++ (name, w) :: after))
  | element {v w : Json} (before after : List Json) :
      Varies v w → Varies (.array (before ++ v :: after)) (.array (before ++ w :: after))

structure Alike (v w : Json) : Prop where
  string : v.string? = w.string?
  boolean : v.boolean? = w.boolean?
  number : v.number? = w.number?
  node : node? v = node? w
  nodes : nodesOf? v = nodesOf? w

def Agree (name : String) (members others : List (String × Json)) : Prop :=
  Option.Rel Alike (Json.field? name members) (Json.field? name others)

theorem Alike.refl (v : Json) : Alike v v := ⟨rfl, rfl, rfl, rfl, rfl⟩

section

variable {name : String} {members others : List (String × Json)}

theorem Agree.bind {α : Type} (agree : Agree name members others) (read : Field → Option α)
    (same : ∀ v w, Alike v w → read (fieldOf v) = read (fieldOf w)) :
    (Json.field? name (fields members)).bind read =
      (Json.field? name (fields others)).bind read := by
  rw [fields_eq_map, fields_eq_map, Json.field?_map, Json.field?_map]
  unfold Agree at agree
  generalize Json.field? name members = found at *
  generalize Json.field? name others = found' at *
  cases agree with
  | some alike => exact same _ _ alike
  | none => rfl

theorem Agree.string (agree : Agree name members others) :
    (Json.field? name (fields members)).bind (·.json.string?) =
      (Json.field? name (fields others)).bind (·.json.string?) :=
  agree.bind (·.json.string?) fun _ _ alike => alike.string

theorem Agree.boolean (agree : Agree name members others) :
    (Json.field? name (fields members)).bind (·.json.boolean?) =
      (Json.field? name (fields others)).bind (·.json.boolean?) :=
  agree.bind (·.json.boolean?) fun _ _ alike => alike.boolean

theorem Agree.node (agree : Agree name members others) :
    (Json.field? name (fields members)).bind (·.node?) =
      (Json.field? name (fields others)).bind (·.node?) :=
  agree.bind (·.node?) fun _ _ alike => alike.node

theorem ofParts?_eq {kind : Kind} (g : Bool)
    (agree : ∀ name ∈ kind.partNames, Agree name members others) :
    ofParts? kind g (fields members) = ofParts? kind g (fields others) := by
  cases kind with
  | identifier =>
    have name := (agree "name" (by simp [Kind.partNames])).string
    simp only [ofParts?, Option.bind_eq_bind, ← Option.bind_assoc, name]
  | number =>
    have value := (agree "value" (by simp [Kind.partNames])).bind (·.json.number?)
      fun _ _ alike => alike.number
    simp only [ofParts?, Option.bind_eq_bind, ← Option.bind_assoc, value]
  | string =>
    have value := (agree "value" (by simp [Kind.partNames])).string
    simp only [ofParts?, Option.bind_eq_bind, ← Option.bind_assoc, value]
  | boolean =>
    have value := (agree "value" (by simp [Kind.partNames])).boolean
    simp only [ofParts?, Option.bind_eq_bind, ← Option.bind_assoc, value]
  | null => rfl
  | array =>
    have elements := (agree "elements" (by simp [Kind.partNames])).bind (·.nodes?)
      fun _ _ alike => alike.nodes
    simp only [ofParts?, Option.bind_eq_bind, ← Option.bind_assoc, elements]
  | member =>
    have object := (agree "object" (by simp [Kind.partNames])).node
    have property := (agree "property" (by simp [Kind.partNames])).node
    have computed := (agree "computed" (by simp [Kind.partNames])).boolean
    simp only [ofParts?, Option.bind_eq_bind, ← Option.bind_assoc, object, property, computed]
  | family family =>
    have operator := (agree "operator" (by simp [Kind.partNames])).string
    have left := (agree "left" (by simp [Kind.partNames])).node
    have right := (agree "right" (by simp [Kind.partNames])).node
    simp only [ofParts?, Option.bind_eq_bind, ← Option.bind_assoc, operator, left, right]

/-- Objects are read alike if what counts among their members is. -/
theorem node?_object_eq (type : Agree "type" members others)
    (grouped : Json.optionalField? "parenthesized" false Json.boolean? members =
      Json.optionalField? "parenthesized" false Json.boolean? others)
    (parts : ∀ kind : Kind, Json.Once "type" (.string kind.name) members →
      ∀ name ∈ kind.partNames, Agree name members others) :
    node? (.object members) = node? (.object others) := by
  have once {kind : Kind}
      (found : ((Json.field? "type" (fields members)).bind (·.json.string?)).bind Kind.ofName? =
        some kind) : Json.Once "type" (.string kind.name) members := by
    simp only [Option.bind_eq_some_iff, field?_fields_eq_some_iff, Json.string?_eq_some_iff,
      Kind.ofName?_eq_some_iff] at found
    obtain ⟨_, ⟨_, ⟨_, once, rfl⟩, rfl⟩, rfl⟩ := found
    exact once
  have grouped' (list : List (String × Json)) :
      Json.optionalField? "parenthesized" false (·.json.boolean?) (fields list) =
        Json.optionalField? "parenthesized" false Json.boolean? list := by
    rw [fields_eq_map, Json.optionalField?_map]
    rfl
  simp only [node?, ofFields?, Option.bind_eq_bind, ← Option.bind_assoc, ← type.string, grouped',
    ← grouped]
  refine Option.bind_congr fun kind found => Option.bind_congr fun g _ => ?_
  exact ofParts?_eq g (parts kind (once found))

theorem Agree.of_eq (same : Json.field? name members = Json.field? name others) :
    Agree name members others := by
  unfold Agree
  rw [same]
  cases Json.field? name others with
  | some v => exact .some (.refl v)
  | none => exact .none

theorem node?_reorder (perm : members.Perm others) :
    node? (.object members) = node? (.object others) :=
  node?_object_eq (.of_eq (Json.field?_perm perm)) (Json.optionalField?_perm perm)
    fun _ _ _ _ => .of_eq (Json.field?_perm perm)

theorem node?_ignored (v : Json) (ignored : Ignored name members) :
    node? (.object members) = node? (.object ((name, v) :: members)) := by
  have same {part : String} (ne : name ≠ part) : Agree part members ((name, v) :: members) :=
    .of_eq (Json.field?_cons_of_ne ne).symm
  refine node?_object_eq (same ignored.noType)
    (Json.optionalField?_cons_of_ne ignored.noGroup).symm fun kind once part inside => same ?_
  rintro rfl
  exact ignored.noPart kind once inside

theorem node?_bare (absent : ∀ member ∈ members, member.1 ≠ "parenthesized") :
    node? (.object members) = node? (.object (("parenthesized", .boolean false) :: members)) := by
  have same {part : String} (ne : "parenthesized" ≠ part) :
      Agree part members (("parenthesized", .boolean false) :: members) :=
    .of_eq (Json.field?_cons_of_ne ne).symm
  refine node?_object_eq (same (by decide)) ?_ fun kind _ part inside => same ?_
  · rw [Json.optionalField?_absent absent, Json.optionalField?_cons_self absent]
    rfl
  · rintro rfl
    cases kind <;> simp [Kind.partNames] at inside

theorem node?_cons {v w : Json} (alike : Alike v w) :
    node? (.object ((name, v) :: members)) = node? (.object ((name, w) :: members)) := by
  have agree (part : String) : Agree part ((name, v) :: members) ((name, w) :: members) := by
    by_cases ne : name ≠ part
    · refine .of_eq ?_
      rw [Json.field?_cons_of_ne ne, Json.field?_cons_of_ne ne]
    · obtain rfl := Decidable.not_not.mp ne
      by_cases once : ∀ other ∈ members, other.1 ≠ name
      · unfold Agree
        rw [Json.field?_cons_self once, Json.field?_cons_self once]
        exact .some alike
      · refine .of_eq ?_
        rw [Json.field?_cons_repeated once, Json.field?_cons_repeated once]
  refine node?_object_eq (agree _) ?_ fun _ _ part _ => agree part
  by_cases ne : name ≠ "parenthesized"
  · rw [Json.optionalField?_cons_of_ne ne, Json.optionalField?_cons_of_ne ne]
  · obtain rfl := Decidable.not_not.mp ne
    by_cases once : ∀ other ∈ members, other.1 ≠ "parenthesized"
    · rw [Json.optionalField?_cons_self once, Json.optionalField?_cons_self once, alike.boolean]
    · rw [Json.optionalField?_cons_repeated once, Json.optionalField?_cons_repeated once]

end

theorem nodes?_element {v w : Json} (same : node? v = node? w) (before after : List Json) :
    nodes? (before ++ v :: after) = nodes? (before ++ w :: after) := by
  induction before with
  | nil => simp only [List.nil_append, nodes?, same]
  | cons first before ih => simp only [List.cons_append, nodes?, ih]

theorem Varies.alike {v w : Json} (varies : Varies v w) : Alike v w := by
  induction varies with
  | refl v => exact Alike.refl v
  | symm _ ih =>
    exact ⟨ih.string.symm, ih.boolean.symm, ih.number.symm, ih.node.symm, ih.nodes.symm⟩
  | trans _ _ first second =>
    exact ⟨first.string.trans second.string, first.boolean.trans second.boolean,
      first.number.trans second.number, first.node.trans second.node,
      first.nodes.trans second.nodes⟩
  | reorder perm => exact ⟨rfl, rfl, rfl, node?_reorder perm, rfl⟩
  | ignored v ignored => exact ⟨rfl, rfl, rfl, node?_ignored v ignored, rfl⟩
  | bare absent => exact ⟨rfl, rfl, rfl, node?_bare absent, rfl⟩
  | member before after name _ ih =>
    refine ⟨rfl, rfl, rfl, ?_, rfl⟩
    rw [node?_reorder List.perm_middle, node?_reorder List.perm_middle, node?_cons ih]
  | element before after _ ih => exact ⟨rfl, rfl, rfl, rfl, nodes?_element ih.node before after⟩

/-- The reader of trees accepts exactly the format: a text is read as a tree when it is strict JSON
    for a value that encodes the tree. What the format leaves open changes nothing, nor does the
    layout, and no other text is read at all. -/
theorem ofJson?_readWith?_iff (number : Numeral → Binary64) (text : String) :
    (∀ e, (Json.readWith? number text).bind ofJson? = some e ↔
        ∃ v, Json.Strict number text v ∧ Encodes v e) ∧
      (∀ other v w, Json.Strict number text v → Json.Strict number other w → Varies v w →
        (Json.readWith? number text).bind ofJson? =
          (Json.readWith? number other).bind ofJson?) ∧
      ((∀ v, ¬ Json.Strict number text v) → (Json.readWith? number text).bind ofJson? = none) := by
  have decoded (text : String) (e : Expr) : (Json.readWith? number text).bind ofJson? = some e ↔
      ∃ v, Json.Strict number text v ∧ Encodes v e := by
    simp only [Option.bind_eq_some_iff, Json.strict_iff, ← (readsBack _).1, ofJson?]
    constructor
    · rintro ⟨v, read, node⟩
      split at node
      · next representable => exact ⟨v, ⟨read, representable⟩, node⟩
      · cases node
    · rintro ⟨v, ⟨read, representable⟩, node⟩
      exact ⟨v, read, by rwa [if_pos representable]⟩
  refine ⟨decoded text, fun other v w strict strict' varies => ?_, fun none => ?_⟩
  · obtain ⟨read, representable⟩ := Json.strict_iff.mp strict
    obtain ⟨read', representable'⟩ := Json.strict_iff.mp strict'
    rw [read, read', Option.bind_some, Option.bind_some, ofJson?, ofJson?, if_pos representable,
      if_pos representable', varies.alike.node]
  · refine Option.eq_none_iff_forall_ne_some.mpr fun e read => ?_
    obtain ⟨v, strict, _⟩ := (decoded text e).mp read
    exact none v strict

/-- One text has ignored members and spaces, and another has a comma too many. -/
theorem ofJson?_readWith?_iff_null :
    let dense := "\x7b\"type\":\"NullLiteral\"\x7d"
    let varied :=
      "\x7b \"x\": 1, \"type\": \"NullLiteral\",\n\"x\": [], \"parenthesized\": false \x7d"
    let unfinished := "\x7b\"type\":\"NullLiteral\",\x7d"
    (Json.read? dense).bind ofJson? = some (.literal .null false) ∧
      (Json.read? dense).bind ofJson? = (Json.read? varied).bind ofJson? ∧
      (∀ v, ¬ Json.Strict Json.approximate unfinished v) ∧
      (Json.read? unfinished).bind ofJson? = none := by
  intro dense varied unfinished
  let type : String × Json := ("type", .string "NullLiteral")
  let plain : String × Json := ("parenthesized", .boolean false)
  have strict : Json.Strict Json.approximate dense (.object [type]) :=
    Json.strict_iff.mpr ⟨by cbv, rfl⟩
  have strict' : Json.Strict Json.approximate varied
      (.object [("x", .scalar (.natural 1)), type, ("x", .array []), plain]) :=
    Json.strict_iff.mpr ⟨by cbv, rfl⟩
  have heads : Heads [type] .null false :=
    ⟨⟨[], [], rfl, by simp⟩, .inr ⟨by simp [type], rfl⟩⟩
  have ignored (members : List (String × Json)) : Ignored "x" members :=
    ⟨by decide, by decide, fun kind _ => by cases kind <;> simp [Kind.partNames]⟩
  have varies : Varies (.object [type])
      (.object [("x", .scalar (.natural 1)), type, ("x", .array []), plain]) := by
    refine (Varies.bare (by simp [type])).trans ?_
    refine (Varies.ignored (.array []) (ignored _)).trans ?_
    refine (Varies.ignored (.scalar (.natural 1)) (ignored _)).trans (.reorder ?_)
    exact .cons _ (@List.perm_middle _ type [("x", .array []), plain] [])
  have none (v : Json) : ¬ Json.Strict Json.approximate unfinished v := by
    intro strict
    have read : Json.read? "\x7b\"type\":\"NullLiteral\",\x7d" = none := by cbv
    cases read.symm.trans (Json.strict_iff.mp strict).1
  obtain ⟨decoded, invariant, -⟩ := ofJson?_readWith?_iff Json.approximate dense
  refine ⟨(decoded _).mpr ⟨_, strict, .null heads⟩, invariant _ _ _ strict strict' varies, none, ?_⟩
  exact (ofJson?_readWith?_iff Json.approximate unfinished).2.2 none

end Expr

end FilterLang
