import FilterLang.Proofs.Json.Lexemes
import Mathlib.Data.List.Chain

namespace FilterLang.Json

/-- Induction over values, with the hypothesis for all parts of a value at once. -/
@[elab_as_elim]
theorem induction {motive : Json → Prop} (scalar : ∀ value, motive (.scalar value))
    (array : ∀ elements, (∀ element ∈ elements, motive element) → motive (.array elements))
    (object : ∀ members, (∀ member ∈ members, motive member.2) → motive (.object members))
    (value : Json) : motive value :=
  match value with
  | .scalar value => scalar value
  | .array elements => array elements fun element inside =>
    have := List.sizeOf_lt_of_mem inside
    induction scalar array object element
  | .object members => object members fun (key, element) inside =>
    have := List.sizeOf_lt_of_mem inside
    induction scalar array object element
termination_by sizeOf value
decreasing_by
  · simp only [Json.array.sizeOf_spec]
    omega
  · simp only [Json.object.sizeOf_spec, Prod.mk.sizeOf_spec] at *
    omega

def Apart (first second : Lexeme) : Prop := first.isScalar = true → second.isScalar = false

section

variable {rest : List Lexeme}

theorem isChain_mark {mark : Lexeme} (isMark : mark.isScalar = false)
    (chain : rest.IsChain Apart) : (mark :: rest).IsChain Apart := by
  refine List.isChain_cons.mpr ⟨fun next _ isScalar => ?_, chain⟩
  rw [isMark] at isScalar
  cases isScalar

theorem isChain_scalar {value : Scalar} (ends : ∀ next ∈ rest.head?, next.isScalar = false)
    (chain : rest.IsChain Apart) : (.scalar value :: rest : List Lexeme).IsChain Apart :=
  List.isChain_cons.mpr ⟨fun next first _ => ends next first, chain⟩

theorem isChain_spellElements {elements : List Json}
    (each : ∀ element ∈ elements, ∀ rest : List Lexeme,
      (∀ next ∈ rest.head?, next.isScalar = false) → rest.IsChain Apart →
      (element.spell rest).IsChain Apart)
    (ends : ∀ next ∈ rest.head?, next.isScalar = false) (chain : rest.IsChain Apart) :
    (spellElements elements rest).IsChain Apart := by
  induction elements with
  | nil => exact chain
  | cons element elements ih =>
    cases elements with
    | nil => exact each element List.mem_cons_self rest ends chain
    | cons next elements =>
      refine each element List.mem_cons_self _ (by simp [Lexeme.isScalar]) (isChain_mark rfl ?_)
      exact ih fun element inside => each element (List.mem_cons_of_mem _ inside)

theorem isChain_spellMembers {members : List (String × Json)}
    (each : ∀ member ∈ members, ∀ rest : List Lexeme,
      (∀ next ∈ rest.head?, next.isScalar = false) → rest.IsChain Apart →
      (member.2.spell rest).IsChain Apart)
    (ends : ∀ next ∈ rest.head?, next.isScalar = false) (chain : rest.IsChain Apart) :
    (spellMembers members rest).IsChain Apart := by
  induction members with
  | nil => exact chain
  | cons member members ih =>
    have after := each member List.mem_cons_self
    cases members with
    | nil =>
      refine isChain_scalar (by simp [Lexeme.isScalar]) (isChain_mark rfl ?_)
      exact after rest ends chain
    | cons next members =>
      refine isChain_scalar (by simp [Lexeme.isScalar]) (isChain_mark rfl ?_)
      refine after _ (by simp [Lexeme.isScalar]) (isChain_mark rfl ?_)
      exact ih fun member inside => each member (List.mem_cons_of_mem _ inside)

/-- The pieces of a value keep its scalars apart, where no scalar follows the value. -/
theorem isChain_spell (value : Json) (rest : List Lexeme)
    (ends : ∀ next ∈ rest.head?, next.isScalar = false) (chain : rest.IsChain Apart) :
    (value.spell rest).IsChain Apart := by
  induction value using Json.induction generalizing rest with
  | scalar value => exact isChain_scalar ends chain
  | array elements ih =>
    refine isChain_mark rfl (isChain_spellElements ih ?_ (isChain_mark rfl chain))
    simp [Lexeme.isScalar]
  | object members ih =>
    refine isChain_mark rfl (isChain_spellMembers ih ?_ (isChain_mark rfl chain))
    simp [Lexeme.isScalar]

end

theorem headNot_text {mark : Lexeme} (isMark : mark.isScalar = false) (rest : List Char) :
    Text.HeadNot Numeral.goesOn (mark.text.toList ++ rest) := by
  cases mark with
  | scalar => cases isMark
  | _ => simp only [Lexeme.text]; exact Text.headNot_cons.mpr (by decide)

theorem headNot_blank {gap rest : List Char} (blank : ∀ c ∈ gap, isSpace c = true)
    (ends : Text.HeadNot Numeral.goesOn rest) : Text.HeadNot Numeral.goesOn (gap ++ rest) := by
  cases gap with
  | nil => exact ends
  | cons c gap =>
    have space := blank c List.mem_cons_self
    simp only [isSpace, Bool.or_eq_true, beq_iff_eq] at space
    rcases space with ((rfl | rfl) | rfl) | rfl <;> exact Text.headNot_cons.mpr rfl

/-- Layout consists of spaces and line ends. -/
theorem eq_of_mem_gap (depth : Nat) (before after : Lexeme) :
    ∀ c ∈ (gap depth before after).toList, c = ' ' ∨ c = '\n' := by
  have line (depth : Nat) : ∀ c ∈ (newline depth).toList, c = ' ' ∨ c = '\n' := by
    rw [newline, String.toList_ofList]
    refine List.forall_mem_cons.mpr ⟨.inr rfl, fun c member => .inl ?_⟩
    exact List.eq_of_mem_replicate member
  unfold gap
  split
  · simp
  · split
    · exact line depth
    · split
      · exact line (depth - 1)
      · split <;> simp

theorem isSpace_gap (depth : Nat) (before after : Lexeme) :
    ∀ c ∈ (gap depth before after).toList, isSpace c = true := by
  intro c member
  rcases eq_of_mem_gap depth before after c member with rfl | rfl <;> rfl

theorem laid_dense {pieces : List Lexeme} (chain : pieces.IsChain Apart) :
    Laid pieces (pieces.flatMap (·.text.toList)) := by
  induction pieces with
  | nil => exact .ending nofun
  | cons piece pieces ih =>
    obtain ⟨apart, chain⟩ := List.isChain_cons.mp chain
    refine @Laid.piece [] _ piece pieces nofun (fun isScalar => ?_) (ih chain)
    cases pieces with
    | nil => exact Text.headNot_nil _
    | cons next pieces => exact headNot_text (apart next rfl isScalar) _

theorem laid_layOut (depth : Nat) {before : Lexeme} {pieces : List Lexeme}
    (chain : (before :: pieces).IsChain Apart) :
    (before.isScalar = true →
        Text.HeadNot Numeral.goesOn ((layOut depth before pieces).flatMap String.toList)) ∧
      Laid pieces ((layOut depth before pieces).flatMap String.toList) := by
  induction pieces generalizing depth before with
  | nil => exact ⟨fun _ => Text.headNot_nil _, .ending nofun⟩
  | cons piece pieces ih =>
    obtain ⟨apart, chain⟩ := List.isChain_cons.mp chain
    obtain ⟨ends, laid⟩ := ih (depthAfter depth piece) chain
    have blank := isSpace_gap depth before piece
    exact ⟨fun isScalar => headNot_blank blank (headNot_text (apart piece rfl isScalar) _),
      .piece blank ends laid⟩

/-- Both layouts of a value hold its pieces. -/
theorem laid_write (indented : Bool) (value : Json) :
    Laid value.lexemes (value.write indented).toList := by
  have chain : value.lexemes.IsChain Apart := isChain_spell value [] (by simp) List.isChain_nil
  cases indented with
  | false =>
    have laid := laid_dense chain
    rwa [← List.flatMap_map, ← String.toList_join] at laid
  | true =>
    change Laid _ value.pretty.toList
    unfold pretty
    cases split : value.lexemes with
    | nil => exact .ending (by simp)
    | cons first rest =>
      rw [split] at chain
      obtain ⟨ends, laid⟩ := laid_layOut (depthAfter 0 first) chain
      dsimp only
      rw [String.toList_join, List.flatMap_cons]
      exact @Laid.piece [] _ first rest nofun ends laid

end FilterLang.Json
