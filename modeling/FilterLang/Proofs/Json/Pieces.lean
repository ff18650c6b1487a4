import FilterLang.Json.Fields
import FilterLang.Proofs.Json.Reading

namespace FilterLang.Json

section

theorem intercalate_concat {α : Type} (separator : List α) (before : List (List α))
    (last : List α) :
    separator.intercalate (before ++ [last]) = before.flatMap (· ++ separator) ++ last := by
  induction before with
  | nil => simp
  | cons first before ih =>
    rw [List.cons_append, List.intercalate_cons_of_ne_nil (by simp), ih, List.flatMap_cons]
    simp only [List.append_assoc]

theorem mem_intercalate {α : Type} {separator : List α} {x : α} (other : x ∉ separator)
    {parts : List (List α)} : x ∈ separator.intercalate parts ↔ ∃ part ∈ parts, x ∈ part := by
  induction parts with
  | nil => simp
  | cons first parts ih =>
    cases parts with
    | nil => simp
    | cons next parts =>
      rw [List.intercalate_cons_cons, List.mem_append, List.mem_append, ih]
      simp [other]

def memberPieces (member : String × Json) : List Lexeme :=
  .scalar (.string member.1) :: .colon :: member.2.lexemes

theorem spellElements_eq {elements : List Json}
    (each : ∀ v ∈ elements, ∀ rest : List Lexeme, v.spell rest = v.lexemes ++ rest)
    (rest : List Lexeme) :
    spellElements elements rest = [.comma].intercalate (elements.map lexemes) ++ rest := by
  induction elements with
  | nil => rfl
  | cons v elements ih =>
    have own := each v List.mem_cons_self
    cases elements with
    | nil => simpa [spellElements] using own rest
    | cons next elements =>
      rw [spellElements, own, ih fun v inside => each v (List.mem_cons_of_mem _ inside)]
      · simp
      · simp

theorem spellMembers_eq {members : List (String × Json)}
    (each : ∀ member ∈ members, ∀ rest : List Lexeme,
      member.2.spell rest = member.2.lexemes ++ rest) (rest : List Lexeme) :
    spellMembers members rest = [.comma].intercalate (members.map memberPieces) ++ rest := by
  induction members with
  | nil => rfl
  | cons member members ih =>
    have own := each member List.mem_cons_self
    cases members with
    | nil => simpa [spellMembers, memberPieces] using own rest
    | cons next members =>
      rw [spellMembers, own, ih fun v inside => each v (List.mem_cons_of_mem _ inside)]
      · simp [memberPieces]
      · simp

theorem spell_eq (v : Json) (rest : List Lexeme) : v.spell rest = v.lexemes ++ rest := by
  induction v using Json.induction generalizing rest with
  | scalar v => rfl
  | array elements ih => simp [lexemes, spell, spellElements_eq ih]
  | object members ih => simp [lexemes, spell, spellMembers_eq ih]

theorem lexemes_array (elements : List Json) :
    (array elements).lexemes =
      .openBracket :: ([.comma].intercalate (elements.map lexemes) ++ [.closeBracket]) := by
  rw [lexemes, spell, spellElements_eq fun v _ => spell_eq v]

theorem lexemes_object (members : List (String × Json)) :
    (object members).lexemes =
      .openBrace :: ([.comma].intercalate (members.map memberPieces) ++ [.closeBrace]) := by
  rw [lexemes, spell, spellMembers_eq fun member _ => spell_eq member.2]

theorem elementsRepresentable_iff {elements : List Json} :
    elementsRepresentable elements = true ↔ ∀ v ∈ elements, v.isRepresentable = true := by
  induction elements with
  | nil => simp [elementsRepresentable]
  | cons v elements ih => simp [elementsRepresentable, ih]

theorem membersRepresentable_iff {members : List (String × Json)} :
    membersRepresentable members = true ↔
      ∀ member ∈ members, member.2.isRepresentable = true := by
  induction members with
  | nil => simp [membersRepresentable]
  | cons member members ih => simp [membersRepresentable, ih]

theorem unrepresentable_mem_array {elements : List Json} :
    .scalar .unrepresentable ∈ (array elements).lexemes ↔
      ∃ v ∈ elements, .scalar .unrepresentable ∈ v.lexemes := by
  rw [lexemes_array, List.mem_cons, List.mem_append, mem_intercalate (by simp)]
  simp

theorem unrepresentable_mem_object {members : List (String × Json)} :
    .scalar .unrepresentable ∈ (object members).lexemes ↔
      ∃ member ∈ members, .scalar .unrepresentable ∈ member.2.lexemes := by
  rw [lexemes_object, List.mem_cons, List.mem_append, mem_intercalate (by simp)]
  simp [memberPieces]

/-- Values are representable when all of their pieces are. -/
theorem isRepresentable_iff {v : Json} :
    v.isRepresentable = true ↔ .scalar .unrepresentable ∉ v.lexemes := by
  induction v using Json.induction with
  | scalar v =>
    change (v != .unrepresentable) = true ↔ .scalar .unrepresentable ∉ [Lexeme.scalar v]
    rw [bne_iff_ne, List.mem_singleton, Lexeme.scalar.injEq]
    exact ne_comm
  | array elements ih =>
    rw [isRepresentable, elementsRepresentable_iff, unrepresentable_mem_array]
    simp only [not_exists, not_and]
    exact forall₂_congr ih
  | object members ih =>
    rw [isRepresentable, membersRepresentable_iff, unrepresentable_mem_object]
    simp only [not_exists, not_and]
    exact forall₂_congr ih

end

section

open Progress

def keyPiece : Option String → Lexeme
  | some name => .scalar (.string name)
  | none => .scalar .unrepresentable

def keyedPieces (member : Option String × Json) : List Lexeme :=
  keyPiece member.1 :: .colon :: member.2.lexemes

def membersBefore (before : Members) : List Lexeme :=
  before.reverse.flatMap (keyedPieces · ++ [.comma])

def framePieces : Frame → List Lexeme
  | .array before => .openBracket :: before.reverse.flatMap (·.lexemes ++ [.comma])
  | .object before name => .openBrace :: (membersBefore before ++ [keyPiece name, .colon])

def outerPieces : List Frame → List Lexeme
  | [] => []
  | frame :: outer => outerPieces outer ++ framePieces frame

def Progress.taken : Progress → List Lexeme
  | value outer => outerPieces outer
  | elements outer => outerPieces outer ++ [.openBracket]
  | members outer => outerPieces outer ++ [.openBrace]
  | key before outer => outerPieces outer ++ .openBrace :: membersBefore before
  | colon before name outer =>
    outerPieces outer ++ .openBrace :: (membersBefore before ++ [keyPiece name])
  | done v outer => outerPieces outer ++ v.lexemes

variable {outer : List Frame} {next : Progress} {piece : Lexeme}

theorem taken_of_opened (opened : opened? piece outer = some next) :
    next.taken = outerPieces outer ++ [piece] := by
  cases piece <;> cases opened <;> rfl

theorem taken_of_keyed {before : Members} (keyed : keyed? piece before outer = some next) :
    next.taken = outerPieces outer ++ .openBrace :: (membersBefore before ++ [piece]) := by
  unfold keyed? at keyed
  split at keyed <;> cases keyed <;> rfl

theorem lexemes_array_reverse (v : Json) (before : List Json) :
    (array (v :: before).reverse).lexemes =
      framePieces (.array before) ++ v.lexemes ++ [.closeBracket] := by
  rw [lexemes_array, List.reverse_cons, List.map_append, List.map_singleton, intercalate_concat,
    List.flatMap_map]
  rfl

theorem members_of_mapM {before : Members} {members : List (String × Json)}
    (named : before.mapM (fun (name, v) => name.map (·, v)) = some members) :
    before = members.map keyed := by
  induction before generalizing members with
  | nil =>
    cases named
    rfl
  | cons member before ih =>
    obtain ⟨name, v⟩ := member
    simp only [List.mapM_cons, Option.bind_eq_bind, Option.bind_eq_some_iff, Option.map_eq_some_iff,
      Option.pure_def, Option.some.injEq] at named
    obtain ⟨_, ⟨name, rfl, rfl⟩, others, named, rfl⟩ := named
    rw [ih named, List.map_cons]
    rfl

theorem lexemes_ofMembers {name : Option String} {v : Json} {before : Members}
    (has : .scalar .unrepresentable ∉ (ofMembers ((name, v) :: before)).lexemes) :
    (ofMembers ((name, v) :: before)).lexemes =
      framePieces (.object before name) ++ v.lexemes ++ [.closeBrace] := by
  unfold ofMembers at has ⊢
  split at has
  · next members named =>
    have same : members.map memberPieces = ((name, v) :: before).reverse.map keyedPieces := by
      rw [members_of_mapM named, List.map_map]
      rfl
    rw [lexemes_object, same, List.reverse_cons, List.map_append, List.map_singleton,
      intercalate_concat, List.flatMap_map]
    simp [framePieces, membersBefore, keyedPieces]
  · exact absurd List.mem_cons_self has

theorem taken_of_closed {v : Json} (closed : closed? piece v outer = some next)
    (has : .scalar .unrepresentable ∉ next.taken) :
    next.taken = outerPieces outer ++ v.lexemes ++ [piece] := by
  unfold closed? at closed
  split at closed
  · cases closed
    simp [Progress.taken, outerPieces, framePieces]
  · cases closed
    rw [Progress.taken, lexemes_array_reverse, outerPieces]
    simp only [List.append_assoc]
  · cases closed
    simp [Progress.taken, outerPieces, framePieces, membersBefore, keyedPieces]
  · cases closed
    rw [Progress.taken, List.mem_append, not_or] at has
    rw [Progress.taken, lexemes_ofMembers has.2, outerPieces]
    simp only [List.append_assoc]
  · cases closed

/-- A step takes its piece, and no piece is lost but in an unrepresentable value. -/
theorem taken_of_step {progress : Progress} (stepped : step? progress piece = some next)
    (has : .scalar .unrepresentable ∉ next.taken) : next.taken = progress.taken ++ [piece] := by
  cases progress with
  | value outer => exact taken_of_opened stepped
  | elements outer =>
    simp only [step?] at stepped
    split at stepped
    · next closes =>
      cases stepped
      simp [Progress.taken, beq_iff_eq.mp closes, lexemes_array]
    · rw [taken_of_opened stepped]
      simp [Progress.taken, outerPieces, framePieces]
  | members outer =>
    simp only [step?] at stepped
    split at stepped
    · next closes =>
      cases stepped
      simp [Progress.taken, beq_iff_eq.mp closes, lexemes_object]
    · rw [taken_of_keyed stepped]
      simp [Progress.taken, membersBefore]
  | key before outer =>
    rw [taken_of_keyed stepped]
    simp [Progress.taken]
  | colon before name outer =>
    simp only [step?] at stepped
    split at stepped
    · next isColon =>
      cases stepped
      simp [Progress.taken, beq_iff_eq.mp isColon, outerPieces, framePieces]
    · cases stepped
  | done v outer => exact taken_of_closed stepped has

theorem taken_of_advance {pieces : List Lexeme} {progress last : Progress}
    (advanced : advance pieces progress = some last)
    (has : .scalar .unrepresentable ∉ last.taken) : last.taken = progress.taken ++ pieces := by
  induction pieces generalizing progress with
  | nil =>
    cases advanced
    rw [List.append_nil]
  | cons piece pieces ih =>
    rw [advance, List.foldlM_cons, Option.bind_eq_bind, Option.bind_eq_some_iff] at advanced
    obtain ⟨next, stepped, advanced⟩ := advanced
    have rest := ih advanced
    have own : .scalar .unrepresentable ∉ next.taken := fun inside =>
      has (by rw [rest]; exact List.mem_append_left _ inside)
    rw [rest, taken_of_step stepped own, List.append_assoc, List.singleton_append]

/-- A representable value is read from its own pieces only. -/
theorem ofLexemes?_eq_some_iff {pieces : List Lexeme} {v : Json} (has : v.isRepresentable = true) :
    ofLexemes? pieces = some v ↔ pieces = v.lexemes := by
  constructor
  · intro read
    rw [ofLexemes?, Option.bind_eq_some_iff] at read
    obtain ⟨last, advanced, result⟩ := read
    have taken : last.taken = v.lexemes := by
      unfold result? at result
      split at result <;> cases result
      rfl
    have pieces := taken_of_advance advanced (by rwa [taken, ← isRepresentable_iff])
    rw [taken] at pieces
    exact pieces.symm
  · rintro rfl
    exact ofLexemes?_lexemes v

end

end FilterLang.Json
