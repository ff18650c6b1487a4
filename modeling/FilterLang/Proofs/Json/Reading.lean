import FilterLang.Json.Reader
import FilterLang.Proofs.Json.Layout

namespace FilterLang.Json

section

open Progress

variable {rest : List Lexeme} {outer : List Frame}

def advance (pieces : List Lexeme) (progress : Progress) : Option Progress :=
  pieces.foldlM step? progress

theorem advance_cons {piece : Lexeme} {progress next : Progress}
    (stepped : step? progress piece = some next) :
    advance (piece :: rest) progress = advance rest next := by
  rw [advance, List.foldlM_cons, stepped]
  rfl

def LeadsTo (v : Json) : Prop := ∀ (rest : List Lexeme) (outer : List Frame),
  advance (v.spell rest) (.value outer) = advance rest (.done v outer)

theorem advance_elements (v : Json) (rest : List Lexeme) (outer : List Frame) :
    advance (v.spell rest) (.elements outer) =
      advance (v.spell rest) (.value (.array [] :: outer)) := by
  cases v <;> rfl

theorem advance_spellElements {elements : List Json} (nonempty : elements ≠ [])
    (each : ∀ element ∈ elements, LeadsTo element) (before : List Json) :
    advance (spellElements elements (.closeBracket :: rest)) (.value (.array before :: outer)) =
      advance rest (.done (.array (before.reverse ++ elements)) outer) := by
  induction elements generalizing before with
  | nil => contradiction
  | cons element elements ih =>
    have first := each element List.mem_cons_self
    cases elements with
    | nil =>
      rw [spellElements, first]
      refine (advance_cons rfl).trans ?_
      rw [List.reverse_cons]
    | cons next elements =>
      have others := ih (List.cons_ne_nil _ _) fun e inside =>
        each e (List.mem_cons_of_mem _ inside)
      refine (first _ _).trans ((advance_cons rfl).trans ((others _).trans ?_))
      rw [List.reverse_cons, List.append_assoc, List.singleton_append]

def keyed (member : String × Json) : Option String × Json := (some member.1, member.2)

theorem ofMembers_keyed (members : List (String × Json)) :
    ofMembers (members.map keyed).reverse = .object members := by
  have all : (members.map keyed).mapM
      (fun (member : Option String × Json) => member.1.map (·, member.2)) = some members := by
    induction members with
    | nil => rfl
    | cons member members ih => simp [keyed] at ih ⊢; simp [ih]
  rw [ofMembers, List.reverse_reverse, all]

theorem advance_spellMembers {members : List (String × Json)} (nonempty : members ≠ [])
    (each : ∀ member ∈ members, LeadsTo member.2) (before : Members) :
    advance (spellMembers members (.closeBrace :: rest)) (.key before outer) =
      advance rest (.done (ofMembers ((members.map keyed).reverse ++ before)) outer) := by
  induction members generalizing before with
  | nil => contradiction
  | cons member members ih =>
    have first := each member List.mem_cons_self
    cases members with
    | nil =>
      refine (advance_cons rfl).trans ((advance_cons rfl).trans ((first _ _).trans ?_))
      exact advance_cons rfl
    | cons next members =>
      have others := ih (List.cons_ne_nil _ _) fun m inside =>
        each m (List.mem_cons_of_mem _ inside)
      refine (advance_cons rfl).trans ((advance_cons rfl).trans ((first _ _).trans ?_))
      refine (advance_cons rfl).trans ((others _).trans ?_)
      simp [keyed]

theorem leadsTo (v : Json) : LeadsTo v := by
  intro rest outer
  induction v using Json.induction generalizing rest outer with
  | scalar v => exact advance_cons rfl
  | array elements ih =>
    refine (advance_cons rfl).trans ?_
    cases elements with
    | nil => exact advance_cons rfl
    | cons element elements =>
      -- The first element cannot close the array, so it is read as any other.
      have start : advance (spellElements (element :: elements) (.closeBracket :: rest))
            (.elements outer) =
          advance (spellElements (element :: elements) (.closeBracket :: rest))
            (.value (.array [] :: outer)) := by
        cases elements <;> exact advance_elements element _ outer
      refine start.trans ((advance_spellElements (List.cons_ne_nil _ _) ih []).trans ?_)
      rw [List.reverse_nil, List.nil_append]
  | object members ih =>
    refine (advance_cons rfl).trans ?_
    cases members with
    | nil => exact advance_cons rfl
    | cons member members =>
      have start : advance (spellMembers (member :: members) (.closeBrace :: rest))
            (.members outer) =
          advance (spellMembers (member :: members) (.closeBrace :: rest)) (.key [] outer) := by
        cases members <;> rfl
      refine start.trans ((advance_spellMembers (List.cons_ne_nil _ _) ih []).trans ?_)
      rw [List.append_nil, ofMembers_keyed]

theorem ofLexemes?_lexemes (v : Json) : ofLexemes? v.lexemes = some v := by
  have run : v.lexemes.foldlM step? (.value []) = some (.done v []) := leadsTo v [] []
  rw [ofLexemes?, run]
  rfl

end

mutual

def reread (number : Numeral → Binary64) : Json → Json
  | scalar value => scalar (value.reread number)
  | array elements => array (rereadElements number elements)
  | object members => object (rereadMembers number members)

def rereadElements (number : Numeral → Binary64) : List Json → List Json
  | [] => []
  | element :: elements => element.reread number :: rereadElements number elements

def rereadMembers (number : Numeral → Binary64) : List (String × Json) → List (String × Json)
  | [] => []
  | (key, value) :: members => (key, value.reread number) :: rereadMembers number members

end

section

variable {number : Numeral → Binary64}

theorem spellElements_reread {elements : List Json}
    (each : ∀ element ∈ elements, ∀ rest : List Lexeme,
      (element.spell rest).map (·.reread number) =
        (element.reread number).spell (rest.map (·.reread number))) (rest : List Lexeme) :
    (spellElements elements rest).map (·.reread number) =
      spellElements (rereadElements number elements) (rest.map (·.reread number)) := by
  induction elements with
  | nil => rfl
  | cons element elements ih =>
    have first := each element List.mem_cons_self
    cases elements with
    | nil => exact first rest
    | cons next elements =>
      have others := ih fun e inside => each e (List.mem_cons_of_mem _ inside)
      refine (first _).trans (congrArg (Json.spell _) ?_)
      exact congrArg (Lexeme.comma :: ·) others

theorem spellMembers_reread {members : List (String × Json)}
    (each : ∀ member ∈ members, ∀ rest : List Lexeme,
      (member.2.spell rest).map (·.reread number) =
        (member.2.reread number).spell (rest.map (·.reread number))) (rest : List Lexeme) :
    (spellMembers members rest).map (·.reread number) =
      spellMembers (rereadMembers number members) (rest.map (·.reread number)) := by
  induction members with
  | nil => rfl
  | cons member members ih =>
    have first := each member List.mem_cons_self
    cases members with
    | nil => exact congrArg (Lexeme.scalar (.string member.1) :: .colon :: ·) (first rest)
    | cons next members =>
      have others := ih fun m inside => each m (List.mem_cons_of_mem _ inside)
      refine congrArg (Lexeme.scalar (.string member.1) :: .colon :: ·) ((first _).trans ?_)
      exact congrArg (fun pieces => Json.spell _ (.comma :: pieces)) others

theorem spell_reread (v : Json) (rest : List Lexeme) :
    (v.spell rest).map (·.reread number) =
      (v.reread number).spell (rest.map (·.reread number)) := by
  induction v using Json.induction generalizing rest with
  | scalar v => rfl
  | array elements ih =>
    exact congrArg (Lexeme.openBracket :: ·) (spellElements_reread ih (.closeBracket :: rest))
  | object members ih =>
    exact congrArg (Lexeme.openBrace :: ·) (spellMembers_reread ih (.closeBrace :: rest))

/-- Reading a written value, in either layout, gives the value but for what the reader makes of its
    numbers. -/
theorem readWith?_write (number : Numeral → Binary64) (indented : Bool) (v : Json) :
    readWith? number (v.write indented) = some (v.reread number) := by
  rw [readWith?, (laid_write indented v).lex?_eq, lexemes, spell_reread]
  exact ofLexemes?_lexemes (v.reread number)

end

end FilterLang.Json
