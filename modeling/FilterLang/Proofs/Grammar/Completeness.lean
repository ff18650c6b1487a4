import FilterLang.Proofs.Grammar.Soundness

namespace FilterLang

def Stops (level : Level) (rest : List Token) : Prop :=
  ∀ token ∈ rest.head?, token.kind ≠ .dot ∧ token.kind ≠ .openBracket ∧
    ∀ operator, token.Spells operator → operator.level.rank < level.rank

theorem Stops.mono {level tight : Level} {rest : List Token} (stops : Stops level rest)
    (le : level.rank ≤ tight.rank) : Stops tight rest := by
  intro token first
  obtain ⟨noDot, noBracket, looser⟩ := stops token first
  exact ⟨noDot, noBracket, fun operator spells => Nat.lt_of_lt_of_le (looser operator spells) le⟩

theorem stops_nil (level : Level) : Stops level [] := by
  intro token first
  cases first

theorem stops_cons {token : Token} (rest : List Token)
    (ends : token.kind ∈ [.closedBracket, .closedParenthesis, .comma]) (level : Level) :
    Stops level (token :: rest) := by
  intro first same
  cases same
  refine ⟨?_, ?_, ?_⟩
  · intro dot
    simp [dot] at ends
  · intro bracket
    simp [bracket] at ends
  · rintro operator ⟨kind, -⟩
    rw [kind] at ends
    cases operator <;> simp [Operator.tokenKind] at ends

theorem Token.Spells.unique {token : Token} {o p : Operator} (first : token.Spells o)
    (second : token.Spells p) : o = p := by
  rw [← Token.operator?_eq_some_iff] at first second
  exact Option.some.inj (first.symm.trans second)

theorem stops_operator {token : Token} {operator : Operator} (spells : token.Spells operator)
    (rest : List Token) {level : Level} (looser : operator.level.rank < level.rank) :
    Stops level (token :: rest) := by
  intro first same
  cases same
  refine ⟨?_, ?_, ?_⟩
  · rw [spells.1]
    cases operator <;> decide
  · rw [spells.1]
    cases operator <;> decide
  · intro other spellsOther
    rwa [spellsOther.unique spells]

namespace Parser

variable {fault : Option LexError}

theorem outcome_expect_of_ready {kind : Token.Kind} {token : Token} {rest : List Token}
    (same : token.kind = kind) (ready : Ready fault rest) :
    outcome (expect fault kind (token :: rest)) = .ok (token, rest) := by
  rw [outcome_expect _ _ _ _ same, arrive_eq_ok_iff.mpr ready]
  rfl

theorem outcome_literal_of_ready {token : Token} {value : Literal} {rest : List Token}
    (found : token.literal? = some value) (ready : Ready fault rest) :
    outcome (literal fault token rest) = .ok (.literal value false, rest) := by
  rw [outcome_literal, arrive_eq_ok_iff.mpr ready, found]
  rfl

theorem isLiteral_of_literal? {token : Token} {value : Literal}
    (found : token.literal? = some value) : token.kind.isLiteral = true := by
  unfold Token.literal? at found
  split at found <;> simp_all [Token.Kind.isLiteral]

theorem outcome_chainFrom_of_stops {level : Level} (operand : Parser Expr) (left : Expr)
    {rest : List Token} (stops : Stops level rest) :
    outcome (chainFrom fault level operand left rest) = .ok (left, rest) := by
  cases rest with
  | nil => rw [chainFrom, outcome_stay]
  | cons token rest =>
    rw [outcome_chainFrom_cons]
    cases found : operatorAt? level token with
    | none => rfl
    | some operator =>
      obtain ⟨spells, rfl⟩ := operatorAt?_eq_some_iff.mp found
      exact absurd ((stops token rfl).2.2 operator spells) (Nat.lt_irrefl _)

theorem outcome_single_of_stops {level : Level} (operand : Parser Expr) (left : Expr)
    {rest : List Token} (stops : Stops level rest) :
    outcome (single fault level operand left rest) = .ok (left, rest) := by
  cases rest with
  | nil => rw [single, outcome_stay]
  | cons token rest =>
    rw [outcome_single_cons]
    cases found : operatorAt? level token with
    | none => rfl
    | some operator =>
      obtain ⟨spells, rfl⟩ := operatorAt?_eq_some_iff.mp found
      exact absurd ((stops token rfl).2.2 operator spells) (Nat.lt_irrefl _)

theorem outcome_chainFrom_join {operator : Operator} {token : Token} {operand : Parser Expr}
    {left right : Expr} {rest after : List Token} (spells : token.Spells operator)
    (ready : Ready fault rest) (read : outcome (operand rest) = .ok (right, after)) :
    outcome (chainFrom fault operator.level operand left (token :: rest)) =
      outcome (chainFrom fault operator.level operand (.binary operator left right false)
        after) := by
  rw [outcome_chainFrom_cons, operatorAt?_eq_some_iff.mpr ⟨spells, rfl⟩,
    arrive_eq_ok_iff.mpr ready, read]
  rfl

theorem outcome_single_join {operator : Operator} {token : Token} {operand : Parser Expr}
    {left right : Expr} {rest after : List Token} (spells : token.Spells operator)
    (ready : Ready fault rest) (read : outcome (operand rest) = .ok (right, after))
    (fits : operator.Accepts left right) :
    outcome (single fault operator.level operand left (token :: rest)) =
      .ok (.binary operator left right false, after) := by
  have noError := Operator.operandError?_eq_none_iff.mpr fits
  rw [outcome_single_cons, operatorAt?_eq_some_iff.mpr ⟨spells, rfl⟩,
    arrive_eq_ok_iff.mpr ready, read]
  simp only [bind, Except.bind, noError]

theorem outcome_accessors_of_stops {nested : Nat → Parser Expr} {level : Level} (object : Expr)
    {rest : List Token} (stops : Stops level rest) :
    outcome (accessors fault nested object rest) = .ok (object, rest) :=
  outcome_accessors_end _ _ _ _ fun token first => ⟨(stops token first).1, (stops token first).2.1⟩

end Parser

open FilterLang.Parser

/-- How the parser takes a derived phrase in front of `rest`. Where the grammar grows to the left
    the parser is then inside a loop, with the phrase read so far as its left part. -/
def Accepted (fault : Option LexError) (n : Nat) : Phrase → List Token → Expr → Prop
  | .level level, tokens, e => ∀ ⦃rest⦄, Ready fault rest →
    if level = .member then
      outcome (member fault (inner fault n) (tokens ++ rest)) =
        outcome (accessors fault (inner fault n) e rest)
    else if level.folds then Stops level.tighter rest →
      outcome (atLevel fault (inner fault n) level (tokens ++ rest)) =
        outcome (chainFrom fault level (atLevel fault (inner fault n) level.tighter) e rest)
    else Stops level rest →
      outcome (atLevel fault (inner fault n) level (tokens ++ rest)) = .ok (e, rest)
  | .primary, tokens, e => ∀ ⦃rest⦄, Ready fault rest →
    outcome (primary fault (inner fault n) (tokens ++ rest)) = .ok (e, rest)
  | .path, tokens, e => ∀ ⦃rest⦄, Ready fault rest →
    outcome (element fault (inner fault n) (tokens ++ rest)) =
      outcome (accessors fault (inner fault n) e rest)
  | .element, tokens, e => ∀ ⦃rest⦄, Ready fault rest → Stops .member rest →
    outcome (element fault (inner fault n) (tokens ++ rest)) = .ok (e, rest)
  | .elements, tokens, e => ∀ ⦃rest⦄, Ready fault rest → Stops .member rest →
    (∀ token ∈ rest.head?, token.kind ≠ .comma) →
    ∃ es, e = .array es false ∧
      outcome (someElements fault (inner fault n) (tokens ++ rest)) = .ok (es, rest)

namespace Accepted

variable {fault : Option LexError} {n : Nat} {tokens rest : List Token} {e : Expr}

theorem whole {level : Level} (accepted : Accepted fault n (.level level) tokens e)
    (ready : Ready fault rest) (stops : Stops level rest) :
    outcome (atLevel fault (inner fault n) level (tokens ++ rest)) = .ok (e, rest) := by
  have resumed := accepted ready
  by_cases member : level = .member
  · subst member
    rw [if_pos rfl] at resumed
    exact resumed.trans (outcome_accessors_of_stops e stops)
  · rw [if_neg member] at resumed
    cases folds : level.folds with
    | true =>
      rw [folds, if_pos rfl] at resumed
      have tight := stops.mono (Nat.le_of_lt (Level.rank_tighter member))
      exact (resumed tight).trans (outcome_chainFrom_of_stops _ e stops)
    | false =>
      rw [folds, if_neg (by decide)] at resumed
      exact resumed stops

theorem tighter {level : Level} (accepted : Accepted fault n (.level level.tighter) tokens e) :
    Accepted fault n (.level level) tokens e := by
  by_cases member : level = .member
  · subst member
    exact accepted
  · intro rest ready
    rw [if_neg member]
    cases folds : level.folds with
    | true =>
      rw [if_pos rfl]
      intro stops
      rw [outcome_atLevel_of_folds _ _ folds, accepted.whole ready stops]
      rfl
    | false =>
      rw [if_neg (by decide)]
      intro stops
      have tight := stops.mono (Nat.le_of_lt (Level.rank_tighter member))
      rw [outcome_atLevel_of_not_folds _ _ folds member, accepted.whole ready tight]
      exact outcome_single_of_stops _ e stops

theorem join {operator : Operator} {token : Token} {ls rs : List Token} {left right : Expr}
    (acceptedLeft : Accepted fault n (.level operator.level.leftOperand) ls left)
    (spells : token.Spells operator)
    (acceptedRight : Accepted fault n (.level operator.level.rightOperand) rs right)
    (fits : operator.Accepts left right) :
    Accepted fault n (.level operator.level) (ls ++ token :: rs)
      (.binary operator left right false) := by
  intro rest ready
  have notMember := operator.level_ne_member
  have readyRight := ready.append rs
  have readyLeft := ready_cons fault token (rs ++ rest)
  have stopsLeft := stops_operator spells (rs ++ rest) (Level.rank_tighter notMember)
  rw [if_neg notMember, List.append_assoc, List.cons_append]
  cases folds : operator.level.folds with
  | true =>
    rw [if_pos rfl]
    intro stops
    rw [Level.leftOperand_of_folds folds] at acceptedLeft
    rw [Level.rightOperand_of_folds folds] at acceptedRight
    have resumed := acceptedLeft readyLeft
    rw [if_neg notMember, if_pos folds] at resumed
    rw [resumed stopsLeft]
    exact outcome_chainFrom_join spells readyRight (acceptedRight.whole ready stops)
  | false =>
    rw [if_neg (by decide)]
    intro stops
    rw [Level.leftOperand_of_not_folds folds] at acceptedLeft
    rw [Level.rightOperand_of_not_folds folds] at acceptedRight
    have stopsRight : Stops .member rest := stops.mono (Level.rank_le_member _)
    rw [outcome_atLevel_of_not_folds _ _ folds notMember, acceptedLeft.whole readyLeft stopsLeft]
    exact outcome_single_join spells readyRight (acceptedRight.whole ready stopsRight) fits

theorem root (accepted : Accepted fault n .primary tokens e) :
    Accepted fault n (.level .member) tokens e := by
  intro rest ready
  rw [if_pos rfl, outcome_member, accepted ready]
  rfl

theorem start {name : Token} (kind : name.kind = .identifier) :
    Accepted fault n .path [name] (.identifier name.text false) := by
  intro rest ready
  rw [List.singleton_append, outcome_element_identifier _ _ _ kind, arrive_eq_ok_iff.mpr ready]
  rfl

/-- Access chains go on with accessors, whatever they start with. -/
theorem accessed {base : Phrase} (isAccessed : base.isAccessed = true) {more : List Token}
    {object longer : Expr} (accepted : Accepted fault n base tokens object) (nonempty : more ≠ [])
    (step : ∀ ⦃rest⦄, Ready fault rest →
      outcome (accessors fault (inner fault n) object (more ++ rest)) =
        outcome (accessors fault (inner fault n) longer rest)) :
    Accepted fault n base (tokens ++ more) longer := by
  cases base with
  | level level =>
    have member : level = .member := by
      cases level <;> first | rfl | contradiction
    subst member
    intro rest ready
    have readyMore : Ready fault (more ++ rest) := .inr (by simp [nonempty])
    have resumed := accepted readyMore
    rw [if_pos rfl] at resumed ⊢
    rw [List.append_assoc, resumed, step ready]
  | path =>
    intro rest ready
    have readyMore : Ready fault (more ++ rest) := .inr (by simp [nonempty])
    rw [List.append_assoc, accepted readyMore, step ready]
  | primary | element | elements => contradiction

theorem property {base : Phrase} (isAccessed : base.isAccessed = true) {object : Expr}
    (accepted : Accepted fault n base tokens object) (notLiteral : object.isLiteral = false)
    {point name : Token} (dot : point.kind = .dot) (kind : name.kind = .identifier) :
    Accepted fault n base (tokens ++ [point, name])
      (.member object (.identifier name.text false) false false) := by
  apply accepted.accessed isAccessed (by simp)
  intro rest ready
  rw [List.cons_append, List.singleton_append, outcome_accessors_dot _ _ _ _ dot,
    if_neg (by simp [notLiteral]), arrive_eq_ok_iff.mpr (ready_cons ..), outcome_identifier,
    outcome_expect_of_ready kind ready]
  rfl

theorem key {base : Phrase} (isAccessed : base.isAccessed = true) {object key : Expr}
    (accepted : Accepted fault (n + 1) base tokens object) {inside : List Token}
    {opening closing : Token} (bracket : opening.kind = .openBracket)
    (acceptedKey : Accepted fault n (.level .or) inside key)
    (closed : closing.kind = .closedBracket) :
    Accepted fault (n + 1) base (tokens ++ opening :: (inside ++ [closing]))
      (.member object key true false) := by
  apply accepted.accessed isAccessed (by simp)
  intro rest ready
  have readKey := acceptedKey.whole (ready_cons fault closing rest)
    (stops_cons rest (by simp [closed]) .or)
  rw [← expression_eq_atLevel, ← inner_succ _ _ opening.position] at readKey
  rw [List.cons_append, List.append_assoc, List.singleton_append,
    outcome_accessors_openBracket _ _ _ _ bracket,
    arrive_eq_ok_iff.mpr ((ready_cons fault closing rest).append inside), readKey]
  simp only [bind, Except.bind, outcome_expect_of_ready closed ready]

theorem name {name : Token} (kind : name.kind = .identifier) :
    Accepted fault n .primary [name] (.identifier name.text false) := by
  intro rest ready
  rw [List.singleton_append, outcome_primary_identifier _ _ _ kind, outcome_identifier,
    outcome_expect_of_ready kind ready]
  rfl

theorem constant {token : Token} {value : Literal} (found : token.literal? = some value) :
    Accepted fault n .primary [token] (.literal value false) := by
  intro rest ready
  rw [List.singleton_append, outcome_primary_literal _ _ _ (isLiteral_of_literal? found)]
  exact outcome_literal_of_ready found ready

theorem group {inside : List Token} {opening closing : Token}
    (parenthesis : opening.kind = .openParenthesis)
    (accepted : Accepted fault n (.level .or) inside e)
    (closed : closing.kind = .closedParenthesis) :
    Accepted fault (n + 1) .primary (opening :: (inside ++ [closing])) e.parenthesized := by
  intro rest ready
  have readInside := accepted.whole (ready_cons fault closing rest)
    (stops_cons rest (by simp [closed]) .or)
  rw [← expression_eq_atLevel, ← inner_succ _ _ opening.position] at readInside
  rw [List.cons_append, List.append_assoc, List.singleton_append,
    outcome_primary_openParenthesis _ _ _ parenthesis,
    arrive_eq_ok_iff.mpr ((ready_cons fault closing rest).append inside), readInside]
  simp only [bind, Except.bind, outcome_expect_of_ready closed ready]

theorem emptyArray {opening closing : Token} (bracket : opening.kind = .openBracket)
    (closed : closing.kind = .closedBracket) :
    Accepted fault n .primary [opening, closing] (.array [] false) := by
  intro rest ready
  rw [List.cons_append, List.singleton_append, outcome_primary_openBracket _ _ _ bracket,
    arrive_eq_ok_iff.mpr (ready_cons fault closing rest), outcome_elements,
    if_pos (by simp [closed])]
  simp only [bind, Except.bind, outcome_expect_of_ready closed ready]

theorem outcome_elements_of_someElements {es : List Expr}
    (read : outcome (someElements fault (inner fault n) tokens) = .ok (es, rest)) :
    outcome (elements fault (inner fault n) tokens) = .ok (es, rest) := by
  rw [outcome_elements]
  split
  · next closed =>
    cases tokens with
    | nil => contradiction
    | cons first tokens =>
      have kind : first.kind = .closedBracket := by simpa using closed
      rw [outcome_someElements] at read
      simp [element, kind, Token.Kind.isLiteral, bind, Except.bind] at read
  · exact read

theorem array {inside : List Token} {opening closing : Token}
    (bracket : opening.kind = .openBracket) (accepted : Accepted fault n .elements inside e)
    (closed : closing.kind = .closedBracket) :
    Accepted fault n .primary (opening :: (inside ++ [closing])) e := by
  intro rest ready
  have notComma : ∀ token ∈ (closing :: rest).head?, token.kind ≠ .comma := by simp [closed]
  obtain ⟨es, rfl, readInside⟩ := accepted (ready_cons fault closing rest)
    (stops_cons rest (by simp [closed]) .member) notComma
  rw [List.cons_append, List.append_assoc, List.singleton_append,
    outcome_primary_openBracket _ _ _ bracket,
    arrive_eq_ok_iff.mpr ((ready_cons fault closing rest).append inside),
    outcome_elements_of_someElements readInside]
  simp only [bind, Except.bind, outcome_expect_of_ready closed ready]

theorem constantElement {token : Token} {value : Literal} (found : token.literal? = some value) :
    Accepted fault n .element [token] (.literal value false) := by
  intro rest ready _
  rw [List.singleton_append, outcome_element_literal _ _ _ (isLiteral_of_literal? found)]
  exact outcome_literal_of_ready found ready

theorem pathElement (accepted : Accepted fault n .path tokens e) :
    Accepted fault n .element tokens e := by
  intro rest ready stops
  exact (accepted ready).trans (outcome_accessors_of_stops e stops)

theorem outcome_moreElements_end
    (notComma : ∀ token ∈ rest.head?, token.kind ≠ .comma) :
    outcome (moreElements fault (inner fault n) rest) = .ok ([], rest) := by
  cases rest with
  | nil => rw [moreElements, outcome_stay]
  | cons token rest => rw [outcome_moreElements_cons, if_neg (notComma token rfl)]

theorem lastElement (accepted : Accepted fault n .element tokens e) :
    Accepted fault n .elements tokens (.array [e] false) := by
  intro rest ready stops notComma
  refine ⟨[e], rfl, ?_⟩
  rw [outcome_someElements, accepted ready stops]
  simp only [bind, Except.bind, outcome_moreElements_end notComma]

theorem nextElement (accepted : Accepted fault n .element tokens e) {comma : Token}
    (kind : comma.kind = .comma) {others : List Token} {es : List Expr}
    (acceptedOthers : Accepted fault n .elements others (.array es false)) :
    Accepted fault n .elements (tokens ++ comma :: others) (.array (e :: es) false) := by
  intro rest ready stops notComma
  obtain ⟨_, same, readOthers⟩ := acceptedOthers ready stops notComma
  cases same
  refine ⟨e :: es, rfl, ?_⟩
  have stopsFirst : Stops .member (comma :: (others ++ rest)) :=
    stops_cons _ (by simp [kind]) .member
  rw [List.append_assoc, List.cons_append, outcome_someElements,
    accepted (ready_cons fault comma _) stopsFirst]
  simp only [bind, Except.bind, outcome_moreElements_comma _ _ _ kind,
    arrive_eq_ok_iff.mpr (ready.append others), readOthers]

end Accepted

/-- The parser takes every phrase that the grammar derives. -/
theorem Derives.accepted {fault : Option LexError} {n : Nat} {phrase : Phrase}
    {tokens : List Token} {e : Expr} (derives : Derives n phrase tokens e) :
    Accepted fault n phrase tokens e := by
  induction derives with
  | tighter _ ih => exact ih.tighter
  | join _ spells _ fits left right => exact left.join spells right fits
  | root _ ih => exact ih.root
  | start kind => exact .start kind
  | property accessed _ notLiteral dot kind ih => exact ih.property accessed notLiteral dot kind
  | key accessed _ bracket _ closed ih key => exact ih.key accessed bracket key closed
  | name kind => exact .name kind
  | constant found => exact .constant found
  | group parenthesis _ closed ih => exact ih.group parenthesis closed
  | emptyArray bracket closed => exact .emptyArray bracket closed
  | array bracket _ closed ih => exact ih.array bracket closed
  | constantElement found => exact .constantElement found
  | pathElement _ ih => exact ih.pathElement
  | lastElement _ ih => exact ih.lastElement
  | nextElement _ kind _ first others => exact first.nextElement kind others

end FilterLang
