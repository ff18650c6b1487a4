import FilterLang.Json.Fields

namespace FilterLang.Json

section

variable {α β γ : Type} {name : String} {members : List (String × α)}

def Once (name : String) (value : α) (members : List (String × α)) : Prop :=
  ∃ before after, members = before ++ (name, value) :: after ∧
    ∀ other ∈ before ++ after, other.1 ≠ name

theorem Once.mem {value : α} (once : Once name value members) : (name, value) ∈ members := by
  obtain ⟨before, after, rfl, -⟩ := once
  simp

theorem filter_eq_singleton_iff {value : α} :
    members.filter (·.1 == name) = [(name, value)] ↔ Once name value members := by
  constructor
  · intro found
    obtain ⟨before, after, rfl, others, -, none⟩ := List.filter_eq_cons_iff.mp found
    refine ⟨before, after, rfl, fun other member => ?_⟩
    rcases List.mem_append.mp member with member | member
    · simpa using others other member
    · simpa using List.filter_eq_nil_iff.mp none other member
  · rintro ⟨before, after, rfl, others⟩
    have none (part : List (String × α)) (inside : ∀ other ∈ part, other.1 ≠ name) :
        part.filter (·.1 == name) = [] := by simpa using inside
    rw [List.filter_append, none before fun other member => others other (by simp [member]),
      List.filter_cons, if_pos (beq_self_eq_true name),
      none after fun other member => others other (by simp [member]), List.nil_append]

theorem filter_eq_nil_iff :
    members.filter (·.1 == name) = [] ↔ ∀ member ∈ members, member.1 ≠ name := by
  simp [List.filter_eq_nil_iff]

/-- Those that have a name are none, one that has it once, or several. -/
theorem filter_cases (name : String) (members : List (String × α)) :
    members.filter (·.1 == name) = [] ∨
      (∃ value, members.filter (·.1 == name) = [(name, value)]) ∨
      ∃ first second others, members.filter (·.1 == name) = first :: second :: others := by
  cases found : members.filter (·.1 == name) with
  | nil => exact .inl rfl
  | cons first others =>
    cases others with
    | nil =>
      have named := (List.mem_filter.mp (found ▸ List.mem_cons_self)).2
      exact .inr (.inl ⟨first.2, by rw [← beq_iff_eq.mp named]⟩)
    | cons second others => exact .inr (.inr ⟨first, second, others, rfl⟩)

theorem field?_eq_some_iff {value : α} :
    field? name members = some value ↔ Once name value members := by
  rw [← filter_eq_singleton_iff, field?]
  obtain none | ⟨held, one⟩ | ⟨first, second, others, several⟩ := filter_cases name members
  · simp [none]
  · simp [one]
  · simp [several]

theorem optionalField?_eq_some_iff {absent : β} {read : α → Option β} {result : β} :
    optionalField? name absent read members = some result ↔
      (∃ value, Once name value members ∧ read value = some result) ∨
        (∀ member ∈ members, member.1 ≠ name) ∧ result = absent := by
  simp only [← filter_eq_singleton_iff, ← filter_eq_nil_iff, optionalField?]
  obtain none | ⟨held, one⟩ | ⟨first, second, others, several⟩ := filter_cases name members
  · simp [none, eq_comm]
  · simp [one]
  · simp [several]

theorem field?_map (f : α → β) :
    field? name (members.map fun member => (member.1, f member.2)) =
      (field? name members).map f := by
  have same : (members.map fun member => (member.1, f member.2)).filter (·.1 == name) =
      (members.filter (·.1 == name)).map fun member => (member.1, f member.2) := List.filter_map ..
  rw [field?, field?, same]
  obtain none | ⟨held, one⟩ | ⟨first, second, others, several⟩ := filter_cases name members
  · simp [none]
  · simp [one]
  · simp [several]

theorem optionalField?_map {absent : γ} (f : α → β) (read : β → Option γ) :
    optionalField? name absent read (members.map fun member => (member.1, f member.2)) =
      optionalField? name absent (fun value => read (f value)) members := by
  have same : (members.map fun member => (member.1, f member.2)).filter (·.1 == name) =
      (members.filter (·.1 == name)).map fun member => (member.1, f member.2) := List.filter_map ..
  rw [optionalField?, optionalField?, same]
  obtain none | ⟨held, one⟩ | ⟨first, second, others, several⟩ := filter_cases name members
  · simp [none]
  · simp [one]
  · simp [several]

section

variable {absent : β} {read : α → Option β} {value : α} {other : String}

theorem field?_cons_self (others : ∀ other ∈ members, other.1 ≠ name) :
    field? name ((name, value) :: members) = some value :=
  field?_eq_some_iff.mpr ⟨[], members, rfl, others⟩

theorem field?_cons_of_ne (ne : other ≠ name) :
    field? name ((other, value) :: members) = field? name members := by
  simp [field?, ne]

theorem field?_cons_repeated (again : ¬ ∀ other ∈ members, other.1 ≠ name) :
    field? name ((name, value) :: members) = none := by
  rw [← filter_eq_nil_iff] at again
  cases found : members.filter (·.1 == name) with
  | nil => exact absurd found again
  | cons => simp [field?, found]

theorem optionalField?_absent (none : ∀ other ∈ members, other.1 ≠ name) :
    optionalField? name absent read members = some absent :=
  optionalField?_eq_some_iff.mpr (.inr ⟨none, rfl⟩)

theorem optionalField?_cons_self (others : ∀ other ∈ members, other.1 ≠ name) :
    optionalField? name absent read ((name, value) :: members) = read value := by
  simp [optionalField?, filter_eq_nil_iff.mpr others]

theorem optionalField?_cons_of_ne (ne : other ≠ name) :
    optionalField? name absent read ((other, value) :: members) =
      optionalField? name absent read members := by
  simp [optionalField?, ne]

theorem optionalField?_cons_repeated (again : ¬ ∀ other ∈ members, other.1 ≠ name) :
    optionalField? name absent read ((name, value) :: members) = none := by
  rw [← filter_eq_nil_iff] at again
  cases found : members.filter (·.1 == name) with
  | nil => exact absurd found again
  | cons => simp [optionalField?, found]

end

/-- The order of the members does not matter. -/
theorem once_perm {others : List (String × α)} (perm : members.Perm others) {value : α} :
    Once name value members ↔ Once name value others := by
  have same := perm.filter (·.1 == name)
  rw [← filter_eq_singleton_iff, ← filter_eq_singleton_iff]
  constructor
  · intro one
    exact List.perm_singleton.mp (one ▸ same).symm
  · intro one
    exact List.perm_singleton.mp (one ▸ same)

theorem field?_perm {others : List (String × α)} (perm : members.Perm others) :
    field? name members = field? name others := by
  ext value
  simp only [field?_eq_some_iff, once_perm perm]

theorem optionalField?_perm {absent : β} {read : α → Option β} {others : List (String × α)}
    (perm : members.Perm others) :
    optionalField? name absent read members = optionalField? name absent read others := by
  ext value
  simp only [optionalField?_eq_some_iff, once_perm perm, perm.mem_iff]

theorem string?_eq_some_iff {v : Json} {value : String} :
    v.string? = some value ↔ v = .string value := by
  unfold string?
  split
  · simp [Json.string]
  · next other => exact ⟨nofun, fun same => absurd same (other value)⟩

theorem boolean?_eq_some_iff {v : Json} {value : Bool} :
    v.boolean? = some value ↔ v = .boolean value := by
  unfold boolean?
  split
  · simp [Json.boolean]
  · next other => exact ⟨nofun, fun same => absurd same (other value)⟩

end

end FilterLang.Json
