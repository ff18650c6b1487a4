import FilterLang.Proofs.Descent.Agreement
import FilterLang.Proofs.Grammar.LexicalErrors
import FilterLang.Proofs.Token.Respelled

namespace FilterLang

namespace Token.Alike

variable {token other : Token}

theorem operator?_eq (alike : token.Alike other) : other.operator? = token.operator? := by
  obtain ⟨kind, text⟩ := alike
  unfold operator?
  rw [kind]
  cases same : token.kind with
  | equality | relational =>
    rw [same] at text
    rw [text rfl]
  | _ => rfl

theorem literal?_eq (alike : token.Alike other) : other.literal? = token.literal? := by
  obtain ⟨kind, text⟩ := alike
  unfold literal? unquoted
  rw [kind]
  cases same : token.kind with
  | number | string =>
    rw [same] at text
    rw [text rfl]
  | _ => rfl

theorem operatorAt?_eq (alike : token.Alike other) (level : Level) :
    Parser.operatorAt? level other = Parser.operatorAt? level token := by
  unfold Parser.operatorAt?
  rw [alike.operator?_eq]

end Token.Alike

inductive ParseError.Corresponds (pairs : List (Token × Token)) :
    ParseError → ParseError → Prop where
  | lexical (error : LexError) : Corresponds pairs (.lexical error) (.lexical error)
  | unexpectedToken (expected : Expectation) {found other : Token} : (found, other) ∈ pairs →
      Corresponds pairs (.unexpectedToken expected found) (.unexpectedToken expected other)
  | unexpectedEnd (expected : Expectation) :
      Corresponds pairs (.unexpectedEnd expected) (.unexpectedEnd expected)
  | trailingInput {found other : Token} : (found, other) ∈ pairs →
      Corresponds pairs (.trailingInput found) (.trailingInput other)
  | invalidScalar (found : Expr.Kind) :
      Corresponds pairs (.invalidScalar found) (.invalidScalar found)
  | invalidArray (found : Expr.Kind) :
      Corresponds pairs (.invalidArray found) (.invalidArray found)
  | scalarMemberAccess (found : Expr.Kind) :
      Corresponds pairs (.scalarMemberAccess found) (.scalarMemberAccess found)
  | invalidArrayElement {found other : Token} : (found, other) ∈ pairs →
      Corresponds pairs (.invalidArrayElement found) (.invalidArrayElement other)
  | invalidNumber {found other : Token} : (found, other) ∈ pairs →
      Corresponds pairs (.invalidNumber found) (.invalidNumber other)
  | nestingTooDeep {bracket other : Token} : (bracket, other) ∈ pairs →
      Corresponds pairs (.nestingTooDeep bracket.position) (.nestingTooDeep other.position)

inductive ResultsCorrespond (pairs : List (Token × Token)) :
    Except Failure Expr → Except Failure Expr → Prop where
  | ok (e : Expr) : ResultsCorrespond pairs (.ok e) (.ok e)
  | error {failure other : Failure} : failure.error.Corresponds pairs other.error →
      ResultsCorrespond pairs (.error failure) (.error other)

namespace Descent

def Control.isPlain : Control → Bool
  | opened _ _ | fail _ | stop _ => false
  | _ => true

inductive Control.Paired (pairs : List (Token × Token)) : Control → Control → Prop where
  | plain {control : Control} : control.isPlain = true → Paired pairs control control
  | opened (group : Group) {bracket other : Token} : (bracket, other) ∈ pairs →
      Paired pairs (.opened group bracket) (.opened group other)
  | fail {failure other : Failure} : failure.error.Corresponds pairs other.error →
      Paired pairs (.fail failure) (.fail other)
  | stop {result other : Except Failure Expr} : ResultsCorrespond pairs result other →
      Paired pairs (.stop result) (.stop other)

inductive Paired (pairs : List (Token × Token)) : Descent → Descent → Prop where
  | intro {control other : Control} (frames : List Frame) (depth : Nat)
      {rest : List (Token × Token)} : control.Paired pairs other → rest <:+ pairs →
      Paired pairs ⟨control, frames, depth, rest.map Prod.fst⟩
        ⟨other, frames, depth, rest.map Prod.snd⟩

variable {fault : Option LexError} {pairs rest : List (Token × Token)} {control other : Control}
  {frames : List Frame} {depth : Nat}

theorem paired_plain {next : Control} (plain : next.isPlain = true) (left : rest <:+ pairs) :
    Paired pairs (goOn ⟨control, frames, depth, rest.map Prod.fst⟩ next)
      (goOn ⟨other, frames, depth, rest.map Prod.snd⟩ next) :=
  .intro frames depth (.plain plain) left

theorem paired_call {next : Control} (frame : Frame) (plain : next.isPlain = true)
    (left : rest <:+ pairs) :
    Paired pairs (call ⟨control, frames, depth, rest.map Prod.fst⟩ frame next)
      (call ⟨other, frames, depth, rest.map Prod.snd⟩ frame next) :=
  .intro (frame :: frames) depth (.plain plain) left

theorem paired_failWith {error error' : ParseError} (corresponds : error.Corresponds pairs error')
    (left : rest <:+ pairs) (unread unread' : List Token) :
    Paired pairs (failWith ⟨control, frames, depth, rest.map Prod.fst⟩ error unread)
      (failWith ⟨other, frames, depth, rest.map Prod.snd⟩ error' unread') :=
  .intro frames depth (.fail corresponds) left

theorem paired_look {whole : List (Token × Token)} (left : whole <:+ pairs)
    {next next' : Descent → Descent}
    (more : Paired pairs (next ⟨control, frames, depth, rest.map Prod.fst⟩)
      (next' ⟨other, frames, depth, rest.map Prod.snd⟩)) :
    Paired pairs
      (take fault ⟨control, frames, depth, whole.map Prod.fst⟩ (rest.map Prod.fst) next)
      (take fault ⟨other, frames, depth, whole.map Prod.snd⟩ (rest.map Prod.snd) next') := by
  cases fault with
  | none => cases rest <;> exact more
  | some error =>
    cases rest with
    | nil => exact .intro frames depth (.fail (.lexical error)) left
    | cons => exact more

theorem paired_take {pair : Token × Token} (left : pair :: rest <:+ pairs)
    {next next' : Descent → Descent}
    (more : rest <:+ pairs → Paired pairs (next ⟨control, frames, depth, rest.map Prod.fst⟩)
      (next' ⟨other, frames, depth, rest.map Prod.snd⟩)) :
    Paired pairs
      (take fault ⟨control, frames, depth, (pair :: rest).map Prod.fst⟩ (rest.map Prod.fst) next)
      (take fault ⟨other, frames, depth, (pair :: rest).map Prod.snd⟩ (rest.map Prod.snd) next') :=
  paired_look left (more ((List.suffix_cons pair rest).trans left))

theorem paired_expect (alike : ∀ pair ∈ pairs, pair.1.Alike pair.2) (left : rest <:+ pairs)
    (kind : Token.Kind) {next : Token → Control}
    (more : ∀ pair ∈ pairs, pair.1.kind = kind →
      (next pair.1).isPlain = true ∧ next pair.2 = next pair.1) :
    Paired pairs (expect fault ⟨control, frames, depth, rest.map Prod.fst⟩ kind next)
      (expect fault ⟨other, frames, depth, rest.map Prod.snd⟩ kind next) := by
  cases rest with
  | nil => exact paired_failWith (.unexpectedEnd _) left _ _
  | cons pair rest =>
    have member : pair ∈ pairs := left.subset (by simp)
    simp only [expect, List.map_cons, (alike pair member).kind]
    split
    · next same =>
      obtain ⟨plain, partner⟩ := more pair member same
      refine paired_take left fun after => ?_
      rw [partner]
      exact paired_plain plain after
    · exact paired_failWith (.unexpectedToken _ member) left _ _

theorem paired_constant (alike : ∀ pair ∈ pairs, pair.1.Alike pair.2) {pair : Token × Token}
    (left : pair :: rest <:+ pairs) :
    Paired pairs
      (constant fault ⟨control, frames, depth, (pair :: rest).map Prod.fst⟩ pair.1
        (rest.map Prod.fst))
      (constant fault ⟨other, frames, depth, (pair :: rest).map Prod.snd⟩ pair.2
        (rest.map Prod.snd)) := by
  have member : pair ∈ pairs := left.subset (by simp)
  refine paired_take left fun after => ?_
  rw [(alike pair member).literal?_eq]
  cases pair.1.literal? with
  | some value => exact paired_plain rfl after
  | none => exact paired_failWith (.invalidNumber member) after _ _

theorem paired_primary (alike : ∀ pair ∈ pairs, pair.1.Alike pair.2) (left : rest <:+ pairs) :
    Paired pairs (primary fault ⟨control, frames, depth, rest.map Prod.fst⟩)
      (primary fault ⟨other, frames, depth, rest.map Prod.snd⟩) := by
  cases rest with
  | nil => exact paired_failWith (.unexpectedEnd _) left _ _
  | cons pair rest =>
    have member : pair ∈ pairs := left.subset (by simp)
    have partner := alike pair member
    simp only [primary, List.map_cons, partner.kind]
    cases kind : pair.1.kind with
    | openBracket => exact paired_take left (paired_plain rfl)
    | openParenthesis =>
      exact paired_take left (.intro frames depth (.opened .parentheses member))
    | identifier =>
      have text : pair.2.text = pair.1.text := partner.text (by rw [kind]; rfl)
      rw [text]
      exact paired_take left (paired_plain rfl)
    | boolean | null | number | string => exact paired_constant alike left
    | _ => exact paired_failWith (.unexpectedToken _ member) left _ _

theorem paired_array (alike : ∀ pair ∈ pairs, pair.1.Alike pair.2) (left : rest <:+ pairs) :
    Paired pairs (array ⟨control, frames, depth, rest.map Prod.fst⟩)
      (array ⟨other, frames, depth, rest.map Prod.snd⟩) := by
  have same : (rest.map Prod.snd).head?.any (·.kind = .closedBracket) =
      (rest.map Prod.fst).head?.any (·.kind = .closedBracket) := by
    cases rest with
    | nil => rfl
    | cons pair rest => simp [(alike pair (left.subset (by simp))).kind]
  simp only [array, same]
  split
  · exact paired_plain rfl left
  · exact paired_call _ rfl left

theorem paired_element (alike : ∀ pair ∈ pairs, pair.1.Alike pair.2) (left : rest <:+ pairs) :
    Paired pairs (element fault ⟨control, frames, depth, rest.map Prod.fst⟩)
      (element fault ⟨other, frames, depth, rest.map Prod.snd⟩) := by
  cases rest with
  | nil => exact paired_failWith (.unexpectedEnd _) left _ _
  | cons pair rest =>
    have member : pair ∈ pairs := left.subset (by simp)
    have partner := alike pair member
    simp only [element, List.map_cons, partner.kind]
    split
    · exact paired_constant alike left
    · split
      · next kind =>
        have text : pair.2.text = pair.1.text := partner.text (by rw [kind]; rfl)
        rw [text]
        exact paired_take left (paired_plain rfl)
      · exact paired_failWith (.invalidArrayElement member) left _ _

theorem paired_accessor (alike : ∀ pair ∈ pairs, pair.1.Alike pair.2) (left : rest <:+ pairs)
    (object : Expr) :
    Paired pairs (accessor fault ⟨control, frames, depth, rest.map Prod.fst⟩ object)
      (accessor fault ⟨other, frames, depth, rest.map Prod.snd⟩ object) := by
  cases rest with
  | nil => exact paired_plain rfl left
  | cons pair rest =>
    have member : pair ∈ pairs := left.subset (by simp)
    simp only [accessor, List.map_cons, (alike pair member).kind]
    cases pair.1.kind with
    | dot =>
      dsimp only
      split
      · exact paired_failWith (.scalarMemberAccess _) left _ _
      · exact paired_take left (paired_plain rfl)
    | openBracket => exact paired_take left (.intro frames depth (.opened (.key object) member))
    | _ => exact paired_plain rfl left

theorem paired_operator (alike : ∀ pair ∈ pairs, pair.1.Alike pair.2) (left : rest <:+ pairs)
    (level : Level) (value : Expr) :
    Paired pairs (operator fault ⟨control, frames, depth, rest.map Prod.fst⟩ level value)
      (operator fault ⟨other, frames, depth, rest.map Prod.snd⟩ level value) := by
  cases rest with
  | nil => exact paired_plain rfl left
  | cons pair rest =>
    have member : pair ∈ pairs := left.subset (by simp)
    simp only [operator, List.map_cons, (alike pair member).operatorAt?_eq]
    cases Parser.operatorAt? level pair.1 with
    | none => exact paired_plain rfl left
    | some found => exact paired_take left (paired_call _ rfl)

theorem paired_enter (left : rest <:+ pairs) (group : Group) {bracket bracket' : Token}
    (member : (bracket, bracket') ∈ pairs) :
    Paired pairs (enter ⟨control, frames, depth, rest.map Prod.fst⟩ group bracket)
      (enter ⟨other, frames, depth, rest.map Prod.snd⟩ group bracket') := by
  unfold enter
  split
  · exact .intro _ _ (.plain rfl) left
  · exact paired_failWith (.nestingTooDeep member) left _ _

theorem paired_receive (alike : ∀ pair ∈ pairs, pair.1.Alike pair.2) (left : rest <:+ pairs)
    (value : Expr) (frame : Frame) :
    Paired pairs (receive fault ⟨control, frames, depth, rest.map Prod.fst⟩ value frame)
      (receive fault ⟨other, frames, depth, rest.map Prod.snd⟩ value frame) := by
  cases frame with
  | left level => exact paired_plain rfl left
  | object => exact paired_plain rfl left
  | right operator first =>
    simp only [receive]
    cases found : operator.operandError? first value with
    | none =>
      dsimp only
      split <;> exact paired_plain rfl left
    | some error =>
      refine paired_failWith ?_ left _ _
      rcases Parser.operandError?_cases found with rfl | ⟨kind, rfl, -⟩
      · exact .invalidScalar _
      · exact .invalidArray kind
  | element before =>
    cases rest with
    | nil => exact paired_plain rfl left
    | cons pair rest =>
      have member : pair ∈ pairs := left.subset (by simp)
      simp only [receive, List.map_cons, (alike pair member).kind]
      split
      · exact paired_take left (paired_call _ rfl)
      · exact paired_plain rfl left
  | expression group =>
    cases group with
    | some group => exact .intro _ _ (.plain rfl) left
    | none =>
      cases rest with
      | nil => exact .intro _ _ (.stop (.ok value)) left
      | cons pair rest =>
        exact .intro _ _ (.stop (.error (.trailingInput (left.subset (by simp))))) left

/-- Two parses at the same moment take the same step. -/
theorem paired_of_move (alike : ∀ pair ∈ pairs, pair.1.Alike pair.2) {d d' e : Descent}
    (paired : Paired pairs d d') (move : Move fault d e) :
    ∃ e', Move fault d' e' ∧ Paired pairs e e' := by
  cases paired with
  | @intro control control' frames depth rest controls left =>
  cases controls with
  | opened group member =>
    cases move
    exact ⟨_, .enter, paired_enter left group member⟩
  | fail corresponds =>
    cases move with
    | leave => exact ⟨_, .leave, .intro _ _ (.fail corresponds) left⟩
    | stop => exact ⟨_, .stop, .intro [] depth (.stop (.error corresponds)) left⟩
  | stop => cases move
  | plain quiet =>
    cases move with
    | start => exact ⟨_, .start, paired_look left (paired_call _ rfl left)⟩
    | member => exact ⟨_, .member, .intro _ depth (.plain rfl) left⟩
    | level notMember => exact ⟨_, .level notMember, .intro _ depth (.plain rfl) left⟩
    | primary => exact ⟨_, .primary, paired_primary alike left⟩
    | array => exact ⟨_, .array, paired_array alike left⟩
    | element => exact ⟨_, .element, paired_element alike left⟩
    | endArray => exact ⟨_, .endArray, paired_expect alike left _ fun _ _ _ => ⟨rfl, rfl⟩⟩
    | accessor => exact ⟨_, .accessor, paired_accessor alike left _⟩
    | operator notMember => exact ⟨_, .operator notMember, paired_operator alike left _ _⟩
    | property =>
      refine ⟨_, .property, paired_expect alike left _ fun pair member kind => ⟨rfl, ?_⟩⟩
      have text : pair.2.text = pair.1.text := (alike pair member).text (by rw [kind]; rfl)
      rw [text]
    | @close group =>
      refine ⟨_, .close, paired_expect alike left _ fun _ _ _ => ⟨?_, rfl⟩⟩
      cases group <;> rfl
    | receive => exact ⟨_, .receive, paired_receive alike left _ _⟩
    | _ => cases quiet

theorem paired_of_reaches (alike : ∀ pair ∈ pairs, pair.1.Alike pair.2) {d d' e : Descent}
    (paired : Paired pairs d d') (reaches : Reaches fault d e) :
    ∃ e', Reaches fault d' e' ∧ Paired pairs e e' := by
  induction reaches with
  | refl => exact ⟨d', .refl, paired⟩
  | tail _ stepped ih =>
    obtain ⟨e', reached, related⟩ := ih
    obtain ⟨next, move, after⟩ := paired_of_move alike related ((step_eq_some_iff fault).mp stepped)
    exact ⟨next, reached.tail ((step_eq_some_iff fault).mpr move), after⟩

end Descent

/-- A parse depends on nothing but the kinds of the tokens and the texts of those that are no
    operator words. -/
theorem Scan.parse_pairs {pairs : List (Token × Token)}
    (alike : ∀ pair ∈ pairs, pair.1.Alike pair.2) (fault : Option LexError) :
    ResultsCorrespond pairs (Scan.parse ⟨pairs.map Prod.fst, fault⟩)
      (Scan.parse ⟨pairs.map Prod.snd, fault⟩) := by
  obtain ⟨rest, reaches⟩ := Descent.reaches_stop ⟨pairs.map Prod.fst, fault⟩
  have start : Descent.Paired pairs (.begin (pairs.map Prod.fst)) (.begin (pairs.map Prod.snd)) :=
    .intro [] 0 (.plain rfl) (List.suffix_refl pairs)
  obtain ⟨e, reached, related⟩ := Descent.paired_of_reaches alike start reaches
  generalize parsed : Scan.parse ⟨pairs.map Prod.fst, fault⟩ = result at related ⊢
  cases related with
  | intro frames depth controls left =>
  cases controls with
  | plain quiet => cases quiet
  | @stop _ other corresponds =>
    have same : other = Scan.parse ⟨pairs.map Prod.snd, fault⟩ :=
      (Descent.result_of_stop reached rfl).1
    rwa [← same]

theorem Scan.parse_alike {tokens others : List Token}
    (alike : List.Forall₂ Token.Alike tokens others) (fault : Option LexError) :
    ResultsCorrespond (tokens.zip others) (Scan.parse ⟨tokens, fault⟩)
      (Scan.parse ⟨others, fault⟩) := by
  have lengths := alike.length_eq
  have results := parse_pairs (fun pair member => List.forall₂_zip alike member) fault
  rwa [List.map_fst_zip lengths.le, List.map_snd_zip lengths.ge] at results

theorem ResultsCorrespond.errors {pairs : List (Token × Token)} {result other : Except Failure Expr}
    (results : ResultsCorrespond pairs result other) :
    (∀ e, other.mapError (·.error) = .ok e ↔ result.mapError (·.error) = .ok e) ∧
      ∀ error, result.mapError (·.error) = .error error → ∃ error',
        other.mapError (·.error) = .error error' ∧ error.Corresponds pairs error' := by
  cases results with
  | ok e => exact ⟨fun _ => Iff.rfl, nofun⟩
  | @error failure other corresponds =>
    refine ⟨by simp [Except.mapError], fun error same => ?_⟩
    cases same
    exact ⟨other.error, rfl, corresponds⟩

/-- Layout, and the letter case of operator words, carry no meaning: tokens written again in any
    layout are read again as tokens alike, and parsed to the same tree or to the same error. -/
theorem parse_of_relaid {text other : String} {tokens : List Token}
    (scanned : tokenize text = .ok tokens) (relaid : Relaid true tokens other.toList) :
    ∃ others, tokenize other = .ok others ∧ List.Forall₂ Token.Alike tokens others ∧
      (∀ e, parse other = .ok e ↔ parse text = .ok e) ∧
      ∀ error, parse text = .error error →
        ∃ error', parse other = .error error' ∧ error.Corresponds (tokens.zip others) error' := by
  obtain ⟨fine, rfl⟩ := Scan.toExcept_eq_ok_iff.mp scanned
  obtain ⟨others, munches, alike, -⟩ := relaid.munches (Lexer.scanned text.toList 0) 0
  have whole : Scan.ofText other = ⟨others, none⟩ := munches.scan_eq
  have first : Scan.ofText text = ⟨(Scan.ofText text).tokens, none⟩ := by rw [← fine]
  have results := Scan.parse_alike alike none
  rw [← first, ← whole] at results
  exact ⟨others, Scan.toExcept_eq_ok_iff.mpr (by simp [whole]), alike, results.errors⟩

theorem parse_of_relaid_not_in :
    let tokens : List Token := [⟨.identifier, "a", 0⟩, ⟨.notIn, "NOT in", 2⟩,
      ⟨.closedParenthesis, ")", 9⟩]
    tokenize "a NOT in )" = .ok tokens ∧ Relaid true tokens "a\tnot  IN )\n".toList ∧
      ∃ others, tokenize "a\tnot  IN )\n" = .ok others ∧ List.Forall₂ Token.Alike tokens others ∧
        (∀ e, parse "a\tnot  IN )\n" = .ok e ↔ parse "a NOT in )" = .ok e) ∧
        ∀ error, parse "a NOT in )" = .error error → ∃ error',
          parse "a\tnot  IN )\n" = .error error' ∧
            error.Corresponds (tokens.zip others) error' := by
  intro tokens
  have scanned : tokenize "a NOT in )" = .ok [⟨.identifier, "a", 0⟩, ⟨.notIn, "NOT in", 2⟩,
      ⟨.closedParenthesis, ")", 9⟩] := by cbv
  have closing : Relaid false [⟨.closedParenthesis, ")", 9⟩] ([' '] ++ ([')'] ++ ['\n'])) :=
    .token (List.all_eq_true.mp rfl) (by decide) (rfl : [')'] = ")".toList)
      (.ending (List.all_eq_true.mp rfl))
  have operator : Token.Respells ⟨.notIn, "NOT in", 2⟩ ['n', 'o', 't', ' ', ' ', 'I', 'N'] :=
    ⟨['n', 'o', 't'], [' ', ' '], ['I', 'N'], rfl, rfl, by decide, List.all_eq_true.mp rfl, rfl⟩
  have behind : Relaid false [⟨.notIn, "NOT in", 2⟩, ⟨.closedParenthesis, ")", 9⟩]
      (['\t'] ++ (['n', 'o', 't', ' ', ' ', 'I', 'N'] ++ ([' '] ++ ([')'] ++ ['\n'])))) :=
    .token (List.all_eq_true.mp rfl) (by decide) operator closing
  have relaid : Relaid true tokens ([] ++ (['a'] ++ (['\t'] ++
      (['n', 'o', 't', ' ', ' ', 'I', 'N'] ++ ([' '] ++ ([')'] ++ ['\n'])))))) :=
    .token (List.all_eq_true.mp rfl) (by decide) (rfl : ['a'] = "a".toList) behind
  exact ⟨scanned, relaid, parse_of_relaid scanned relaid⟩

end FilterLang
