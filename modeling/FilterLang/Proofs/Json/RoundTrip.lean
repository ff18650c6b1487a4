import FilterLang.Proofs.Expr.Decoding
import FilterLang.Proofs.Expr.Invariants

namespace FilterLang

variable {number : Numeral → Binary64}

theorem Binary64.reread?_of_renders {numeral : Numeral} {x : Binary64}
    (renders : Json.Renders numeral x) :
    x.reread? number = if (number numeral).isFinite then some (number numeral) else none := by
  have alone := renders.spells.scan?_eq (Text.headNot_nil Numeral.goesOn)
  rw [List.append_nil] at alone
  rw [reread?, Json.Scalar.reread, alone]
  simp only [Json.Scalar.ofNumeral, renders.real, Bool.false_and, Bool.false_eq_true, if_false]
  cases (number numeral).isFinite <;> rfl

theorem Binary64.reread?_of_not_finite {x : Binary64} (infinite : ¬ x.isFinite = true) :
    x.reread? number = none := by
  cases x with
  | nan => rfl
  | infinity negative => cases negative <;> rfl
  | finite => exact absurd rfl infinite

/-- A reader that takes each numeral for the nearest number keeps the finite numbers. -/
theorem Binary64.reread?_of_nearest
    (nearest : ∀ numeral, number numeral = ofDecimal numeral.negative numeral.magnitude)
    {x : Binary64} (finite : x.isFinite = true) : x.reread? number = some x := by
  obtain ⟨numeral, renders⟩ := Json.exists_renders finite
  rw [reread?_of_renders renders, nearest, renders.value, if_pos finite]

namespace Expr

def HasFiniteNumber : Expr → Prop
  | literal (.number x) _ => x.isFinite = true
  | _ => True

def KeepsNumber (number : Numeral → Binary64) : Expr → Prop
  | literal (.number x) _ => x.reread? number = some x
  | _ => True

theorem rereadElements?_eq_some_self_iff {elements : List Expr}
    (each : ∀ e ∈ elements, e.reread? number = some e ↔ e.Throughout (KeepsNumber number)) :
    rereadElements? number elements = some elements ↔
      ∀ e ∈ elements, e.Throughout (KeepsNumber number) := by
  induction elements with
  | nil => simp [rereadElements?]
  | cons e elements ih =>
    have own := each e List.mem_cons_self
    have rest := ih fun e inside => each e (List.mem_cons_of_mem _ inside)
    simp [rereadElements?, Option.bind_eq_some_iff, own, rest]

theorem reread?_eq_some_self_iff {e : Expr} :
    e.reread? number = some e ↔ e.Throughout (KeepsNumber number) := by
  induction e using Expr.induction with
  | identifier name g => simp [reread?, throughout_identifier, KeepsNumber]
  | literal value g =>
    rw [throughout_literal]
    cases value with
    | number x => simp [reread?, KeepsNumber, Option.bind_eq_some_iff]
    | _ => simp [reread?, KeepsNumber]
  | array elements g ih =>
    have inside := rereadElements?_eq_some_self_iff ih
    simp [reread?, throughout_array, KeepsNumber, Option.bind_eq_some_iff, inside]
  | member object property computed g ihObject ihProperty =>
    simp [reread?, throughout_member, KeepsNumber, Option.bind_eq_some_iff, ihObject, ihProperty]
  | binary operator left right g ihLeft ihRight =>
    simp [reread?, throughout_binary, KeepsNumber, Option.bind_eq_some_iff, ihLeft, ihRight]

/-- A number that is not finite has no text to be read back. -/
theorem throughout_of_reread? {e read : Expr} (same : e.reread? number = some read) :
    e.Throughout HasFiniteNumber := by
  induction e using Expr.induction generalizing read with
  | identifier name g => exact throughout_identifier.mpr trivial
  | literal value g =>
    rw [throughout_literal]
    cases value with
    | number x =>
      simp only [reread?, Option.bind_eq_bind, Option.bind_eq_some_iff] at same
      obtain ⟨y, found, _⟩ := same
      by_contra infinite
      rw [Binary64.reread?_of_not_finite infinite] at found
      cases found
    | _ => trivial
  | array elements g ih =>
    simp only [reread?, Option.bind_eq_bind, Option.bind_eq_some_iff] at same
    obtain ⟨_, found, _⟩ := same
    refine throughout_array.mpr ⟨trivial, fun e member => ?_⟩
    obtain ⟨_, read⟩ := exists_reread? found e member
    exact ih e member read
  | member object property computed g ihObject ihProperty =>
    simp only [reread?, Option.bind_eq_bind, Option.bind_eq_some_iff] at same
    obtain ⟨_, foundObject, _, foundProperty, _⟩ := same
    exact throughout_member.mpr ⟨trivial, ihObject foundObject, ihProperty foundProperty⟩
  | binary operator left right g ihLeft ihRight =>
    simp only [reread?, Option.bind_eq_bind, Option.bind_eq_some_iff] at same
    obtain ⟨_, foundLeft, _, foundRight, _⟩ := same
    exact throughout_binary.mpr ⟨trivial, ihLeft foundLeft, ihRight foundRight⟩

theorem hasFiniteNumber_of_inOrder {node : Expr} (inOrder : node.InOrder) :
    node.HasFiniteNumber := by
  cases node with
  | literal value g =>
    cases value with
    | number x => exact inOrder.invariant.1
    | _ => trivial
  | _ => trivial

theorem keepsNumber_of_nearest
    (nearest : ∀ numeral, number numeral = .ofDecimal numeral.negative numeral.magnitude)
    {node : Expr} (finite : node.HasFiniteNumber) : node.KeepsNumber number := by
  cases node with
  | literal value g =>
    cases value with
    | number x => exact Binary64.reread?_of_nearest nearest finite
    | _ => trivial
  | _ => trivial

/-- What is read from the text of a tree, in either layout. -/
theorem ofJson?_readWith?_write (number : Numeral → Binary64) (indented : Bool) (e : Expr) :
    (Json.readWith? number (e.toJson.write indented)).bind ofJson? = e.reread? number := by
  rw [Json.readWith?_write, Option.bind_some, ofJson?_reread]

/-- The program's own reader gives a tree back exactly when it gives back each of its numbers. -/
theorem ofJson?_read?_eq_some_iff (e : Expr) :
    (Json.read? e.toJson.compact).bind ofJson? = some e ↔
      e.Throughout (KeepsNumber Json.approximate) := by
  rw [← reread?_eq_some_self_iff, ← ofJson?_readWith?_write Json.approximate false]
  rfl

-- It rounds twice, and so there are finite numbers that it does not give back.
example : Binary64.reread? Json.approximate (.ofDecimal false ⟨2, -24⟩) ≠
    some (.ofDecimal false ⟨2, -24⟩) := by
  decide +kernel

/-- With a reader that takes each numeral for the nearest number, a tree of finite numbers is read
    back from its text, and in particular one that was parsed. No other tree can be read at all. -/
theorem ofJson?_compact (number : Numeral → Binary64)
    (nearest : ∀ numeral, number numeral = .ofDecimal numeral.negative numeral.magnitude)
    (e : Expr) :
    (e.Throughout HasFiniteNumber →
        (Json.readWith? number e.toJson.compact).bind ofJson? = some e) ∧
      (¬ e.Throughout HasFiniteNumber →
        (Json.readWith? number e.toJson.compact).bind ofJson? = none) ∧
      ∀ text, parse text = .ok e →
        (Json.readWith? number e.toJson.compact).bind ofJson? = some e := by
  have read : (Json.readWith? number e.toJson.compact).bind ofJson? = e.reread? number :=
    ofJson?_readWith?_write number false e
  have kept (finite : e.Throughout HasFiniteNumber) : e.reread? number = some e :=
    reread?_eq_some_self_iff.mpr fun node inside =>
      keepsNumber_of_nearest nearest (finite node inside)
  rw [read]
  refine ⟨kept, fun infinite => ?_, fun text parsed => kept fun node inside => ?_⟩
  · cases same : e.reread? number with
    | none => rfl
    | some other => exact absurd (throughout_of_reread? same) infinite
  · exact hasFiniteNumber_of_inOrder ((wellFormed_of_parse parsed).nodes node inside)

theorem ofJson?_compact_signed_zero :
    let number : Numeral → Binary64 := fun numeral => .ofDecimal numeral.negative numeral.magnitude
    let signedZero : Expr := .binary .and
      (.binary .less (.identifier "a" true) (.literal (.number (.zero true)) false) false)
      (.binary .contains (.identifier "b" false) (.literal (.string "\"\n\x1f") false) false) true
    let notANumber : Expr := .array [.literal (.number .nan) false] false
    signedZero.Throughout HasFiniteNumber ∧
      (Json.readWith? number signedZero.toJson.compact).bind ofJson? = some signedZero ∧
      (Json.read? signedZero.toJson.compact).bind ofJson? = some signedZero ∧
      ¬ notANumber.Throughout HasFiniteNumber ∧
      (Json.readWith? number notANumber.toJson.compact).bind ofJson? = none ∧
      ∃ e, parse "a > 1.5" = .ok e ∧
        (Json.readWith? number e.toJson.compact).bind ofJson? = some e := by
  intro number signedZero notANumber
  have finite : signedZero.Throughout HasFiniteNumber := by
    simp [signedZero, throughout_binary, throughout_identifier, throughout_literal,
      HasFiniteNumber, Binary64.zero, Binary64.isFinite]
  have kept : Binary64.reread? Json.approximate (.zero true) = some (.zero true) := by
    decide +kernel
  have own : signedZero.Throughout (KeepsNumber Json.approximate) := by
    simp [signedZero, throughout_binary, throughout_identifier, throughout_literal,
      KeepsNumber, kept]
  have infinite : ¬ notANumber.Throughout HasFiniteNumber := by
    simp [notANumber, throughout_array, throughout_literal, HasFiniteNumber, Binary64.isFinite]
  have accepted : (parse "a > 1.5").toOption.isSome = true := by decide +kernel
  cases parsed : parse "a > 1.5" with
  | error failure => simp [parsed, Except.toOption] at accepted
  | ok e =>
    exact ⟨finite, (ofJson?_compact number (fun _ => rfl) signedZero).1 finite,
      (ofJson?_read?_eq_some_iff signedZero).mpr own, infinite,
      (ofJson?_compact number (fun _ => rfl) notANumber).2.1 infinite, e, rfl,
      (ofJson?_compact number (fun _ => rfl) e).2.2 _ parsed⟩

end Expr

end FilterLang
