import FilterLang.Proofs.Descent.Progress
import FilterLang.Proofs.Grammar.LexicalErrors
import FilterLang.Proofs.Token.Contract

namespace FilterLang

/-- A branch that guards against tokens that no source has: an error about a token whose kind was
    looked at before, a text that is no numeral, or a slice out of range. -/
inductive Breach where
  | unexpected (expected : String) (found : Option Token)
  | noNumeral (found : Token)
  | outOfRange (found : Token)
  deriving DecidableEq, Repr

def Level.comparison? : Level → Option Token.Kind
  | equality => some .equality
  | relational => some .relational
  | _ => none

namespace Descent

section

variable (fault : Option LexError)

def known (d : Descent) (kind : Token.Kind) : Except Breach (Token × List Token) :=
  match d.tokens with
  | [] => .error (.unexpected kind.name none)
  | token :: rest =>
    if token.kind = kind then .ok (token, rest) else .error (.unexpected kind.name (some token))

def guardedConstant (d : Descent) : Except Breach Descent :=
  let give (value : Literal) (d : Descent) : Descent := d.goOn (.give (.literal value false))
  match d.tokens.head?.map Token.kind with
  | some .number => do
    let (token, rest) ← d.known .number
    match Decimal.ofNumeral? token.text.toList with
    | none => .error (.noNumeral token)
    | some number =>
      let value := Binary64.ofDecimal false number
      .ok (d.take fault rest fun d =>
        if value.isFinite then give (.number value) d
        else d.failWith (.invalidNumber token) rest.tail)
  | some .string => do
    let (token, rest) ← d.known .string
    match Text.slice? token.text 1 (token.text.utf8ByteSize - 1) with
    | none => .error (.outOfRange token)
    | some inside => .ok (d.take fault rest (give (.string inside)))
  | some (.boolean value) => do
    let (_, rest) ← d.known (.boolean value)
    .ok (d.take fault rest (give (.boolean value)))
  | some .null => do
    let (_, rest) ← d.known .null
    .ok (d.take fault rest (give .null))
  | _ => .error (.unexpected "a literal" d.tokens.head?)

def guardedPrimary (d : Descent) : Except Breach Descent :=
  match d.tokens.head?.map Token.kind with
  | some .openBracket => do
    let (_, rest) ← d.known .openBracket
    .ok (d.take fault rest (·.goOn .array))
  | some .openParenthesis => do
    let (token, rest) ← d.known .openParenthesis
    .ok (d.take fault rest (·.goOn (.opened .parentheses token)))
  | some .identifier => do
    let (token, rest) ← d.known .identifier
    .ok (d.take fault rest (·.goOn (.give (.identifier token.text false))))
  | kind =>
    if kind.any (·.isLiteral) then d.guardedConstant fault else .ok (d.primary fault)

def guardedElement (d : Descent) : Except Breach Descent :=
  match d.tokens.head?.map Token.kind with
  | some .identifier => do
    let (token, rest) ← d.known .identifier
    .ok (d.take fault rest (·.goOn (.onward .member (.identifier token.text false))))
  | kind =>
    if kind.any (·.isLiteral) then d.guardedConstant fault else .ok (d.element fault)

def guardedAccessor (d : Descent) (object : Expr) : Except Breach Descent :=
  match d.tokens.head?.map Token.kind with
  | some .openBracket => do
    let (token, rest) ← d.known .openBracket
    .ok (d.take fault rest (·.goOn (.opened (.key object) token)))
  | _ => .ok (d.accessor fault object)

def guardedOperator (d : Descent) (level : Level) (left : Expr) : Except Breach Descent :=
  match level.comparison? with
  | none => .ok (d.operator fault level left)
  | some kind =>
    if d.tokens.head?.map Token.kind = some kind then do
      let (token, rest) ← d.known kind
      match Expr.operatorIn? .comparison token.text with
      | none => .error (.unexpected kind.name (some token))
      | some operator =>
        .ok (d.take fault rest (·.call (.right operator left) (.level level.rightOperand)))
    else .ok (d.goOn (.give left))

def guarded (d : Descent) : Except Breach (Option Descent) :=
  match d.control with
  | .primary => (d.guardedPrimary fault).map some
  | .element => (d.guardedElement fault).map some
  | .onward .member object => (d.guardedAccessor fault object).map some
  | .onward level left => (d.guardedOperator fault level left).map some
  | _ => .ok (d.step fault)

end

variable {fault : Option LexError} {d : Descent} {token : Token} {rest : List Token}

theorem known_of_kind (tokens : d.tokens = token :: rest) :
    d.known token.kind = .ok (token, rest) := by
  simp [known, tokens]

theorem guardedConstant_eq (fault : Option LexError) (contract : token.Contract)
    (tokens : d.tokens = token :: rest)
    (literal : token.kind.isLiteral = true) :
    d.guardedConstant fault = .ok (d.constant fault token rest) := by
  have known := known_of_kind tokens
  unfold guardedConstant constant Token.literal?
  rw [tokens]
  cases kind : token.kind with
  | number =>
    obtain ⟨number, read, -⟩ := contract.number kind
    rw [kind] at known
    simp only [List.head?_cons, Option.map_some, kind, known, bind, Except.bind, read,
      Option.bind_some]
    cases (Binary64.ofDecimal false number).isFinite <;> rfl
  | string =>
    obtain ⟨_, -, -, -, slice⟩ := contract.quoted kind
    rw [kind] at known
    simp only [List.head?_cons, Option.map_some, kind, known, bind, Except.bind, slice]
  | boolean value | null =>
    rw [kind] at known
    simp only [List.head?_cons, Option.map_some, kind, known, bind, Except.bind]
  | _ =>
    rw [kind] at literal
    cases literal

theorem guardedPrimary_eq (contract : ∀ token ∈ d.tokens, token.Contract) :
    d.guardedPrimary fault = .ok (d.primary fault) := by
  cases tokens : d.tokens with
  | nil => simp [guardedPrimary, tokens]
  | cons token rest =>
    have known := known_of_kind tokens
    have constant := guardedConstant_eq fault (contract token (by simp [tokens])) tokens
    unfold guardedPrimary primary
    simp only [tokens, List.head?_cons, Option.map_some]
    cases kind : token.kind with
    | openBracket | openParenthesis | identifier =>
      rw [kind] at known
      simp only [known, bind, Except.bind]
    | boolean | null | number | string =>
      rw [kind] at constant
      simp only [Option.any_some]
      exact constant rfl
    | _ => rfl

theorem guardedElement_eq (contract : ∀ token ∈ d.tokens, token.Contract) :
    d.guardedElement fault = .ok (d.element fault) := by
  cases tokens : d.tokens with
  | nil => simp [guardedElement, tokens]
  | cons token rest =>
    have known := known_of_kind tokens
    have constant := guardedConstant_eq fault (contract token (by simp [tokens])) tokens
    unfold guardedElement element
    simp only [tokens, List.head?_cons, Option.map_some]
    cases kind : token.kind with
    | identifier =>
      rw [kind] at known
      simp only [known, bind, Except.bind]
      rfl
    | boolean | null | number | string =>
      rw [kind] at constant
      exact constant rfl
    | _ => rfl

theorem guardedAccessor_eq (object : Expr) :
    d.guardedAccessor fault object = .ok (d.accessor fault object) := by
  cases tokens : d.tokens with
  | nil => simp [guardedAccessor, tokens]
  | cons token rest =>
    have known := known_of_kind tokens
    unfold guardedAccessor accessor
    simp only [tokens, List.head?_cons, Option.map_some]
    cases kind : token.kind with
    | openBracket =>
      rw [kind] at known
      simp only [known, bind, Except.bind]
    | _ => rfl

/-- A comparison is read as an operator of the level that looks for its kind. -/
theorem operatorAt?_comparison (contract : token.Contract) {level : Level} {kind : Token.Kind}
    (compares : level.comparison? = some kind) (same : token.kind = kind) :
    ∃ operator, Expr.operatorIn? .comparison token.text = some operator ∧
      operator.level = level ∧ Parser.operatorAt? level token = some operator := by
  have found : ∃ operator, Expr.operatorIn? .comparison token.text = some operator ∧
      operator.level = level := by
    cases level <;> cases compares
    · exact contract.equality same
    · exact contract.relational same
  obtain ⟨operator, symbol, rfl⟩ := found
  obtain ⟨spelled, -⟩ := Option.filter_eq_some_iff.mp symbol
  refine ⟨operator, symbol, rfl, ?_⟩
  unfold Parser.operatorAt? Token.operator?
  generalize own : operator.level = level at compares
  cases level <;> cases compares
  all_goals simp [same, spelled, own]

theorem operatorAt?_other {level : Level} {kind : Token.Kind}
    (compares : level.comparison? = some kind) (other : token.kind ≠ kind) :
    Parser.operatorAt? level token = none := by
  by_contra found
  obtain ⟨operator, found⟩ := Option.ne_none_iff_exists'.mp found
  obtain ⟨spells, rfl⟩ := Parser.operatorAt?_eq_some_iff.mp found
  refine other (spells.1.trans ?_)
  cases operator <;> cases compares <;> rfl

theorem guardedOperator_eq (contract : ∀ token ∈ d.tokens, token.Contract) (level : Level)
    (left : Expr) : d.guardedOperator fault level left = .ok (d.operator fault level left) := by
  unfold guardedOperator operator
  cases compares : level.comparison? with
  | none => rfl
  | some kind =>
    cases tokens : d.tokens with
    | nil => rfl
    | cons token rest =>
      by_cases same : token.kind = kind
      · have known := known_of_kind tokens
        obtain ⟨operator, symbol, rfl, found⟩ :=
          operatorAt?_comparison (contract token (by simp [tokens])) compares same
        rw [same] at known
        simp only [List.head?_cons, Option.map_some, same, if_true, known, bind, Except.bind,
          symbol, found]
      · simp [same, operatorAt?_other compares same]

/-- Where the tokens keep their contract, no guard is met. -/
theorem guarded_eq_step (contract : ∀ token ∈ d.tokens, token.Contract) :
    d.guarded fault = .ok (d.step fault) := by
  obtain ⟨control, frames, depth, tokens⟩ := d
  cases control with
  | primary => exact congrArg (Except.map some) (guardedPrimary_eq contract)
  | element => exact congrArg (Except.map some) (guardedElement_eq contract)
  | onward level left =>
    by_cases member : level = .member
    · subst member
      exact congrArg (Except.map some) (guardedAccessor_eq left)
    · have guards : guarded fault ⟨.onward level left, frames, depth, tokens⟩ =
          (guardedOperator fault ⟨.onward level left, frames, depth, tokens⟩ level left).map
            some := by
        cases level <;> first | rfl | contradiction
      rw [guards, guardedOperator_eq contract, step_onward fault member]
      rfl
  | _ => rfl

/-- A quote alone would be cut out of range. -/
example : guarded none ⟨.primary, [], 0, [⟨.string, "'", 0⟩]⟩ =
    .error (.outOfRange ⟨.string, "'", 0⟩) := rfl

/-- A parse does not invent tokens. -/
theorem tokens_of_reaches {tokens : List Token} (reaches : Reaches fault (begin tokens) d) :
    d.tokens <:+ tokens := by
  induction reaches with
  | refl => exact List.suffix_rfl
  | tail _ stepped ih =>
    have progress := progress_of_move ((step_eq_some_iff fault).mp stepped)
    rcases progress.tokens with ⟨same, -⟩ | ⟨⟨token, taken⟩, -⟩
    · rwa [same]
    · exact (taken ▸ List.suffix_cons token _).trans ih

end Descent

def Expectation.commonTexts : List String :=
  ["an expression", "IDENTIFIER", "CLOSED_PARENTHESIS", "CLOSED_SQUARE_BRACKET"]

theorem Expectation.text_mem : ∀ expected ∈ common, expected.text ∈ commonTexts := by decide

/-- What an error expects is one of a few things, and a number that it blames is one, but too large
    to be finite. -/
def ParseError.IsPlain : ParseError → Prop
  | unexpectedToken expected _ => expected.text ∈ Expectation.commonTexts
  | unexpectedEnd expected => expected.text ∈ "an array element" :: Expectation.commonTexts
  | invalidNumber found =>
    found.kind = .number ∧ Binary64.ofText? found.text = some (.infinity false)
  | _ => True

/-- Number tokens without a value are too large. -/
theorem Token.Contract.infinity {token : Token} (contract : token.Contract)
    (kind : token.kind = .number) (noValue : token.literal? = none) :
    Binary64.ofText? token.text = some (.infinity false) := by
  obtain ⟨d, numeral, read⟩ := contract.number kind
  rw [read]
  simp only [Token.literal?, kind, numeral, Option.map_some, Option.bind_some] at noValue
  rw [Binary64.ofDecimal_eq_ofRatio] at noValue ⊢
  unfold Binary64.ofRatio at noValue ⊢
  dsimp only at noValue ⊢
  split at noValue
  · cases noValue
  · next large => rw [dif_neg large]

theorem Scan.plain_of_parse {scan : Scan} {failure : Failure}
    (contract : ∀ token ∈ scan.tokens, token.Contract) (failed : scan.parse = .error failure) :
    failure.error.IsPlain := by
  obtain ⟨-, named⟩ := faithful_of_parse failed
  have inner := inner_or_trailing failed
  obtain ⟨error, unread⟩ := failure
  cases error with
  | unexpectedToken expected found => exact Expectation.text_mem expected named.2
  | unexpectedEnd expected =>
    rcases List.mem_cons.mp named.2.2 with rfl | common
    · exact List.mem_cons_self
    · exact List.mem_cons_of_mem _ (Expectation.text_mem expected common)
  | invalidNumber found =>
    have noValue := inner.resolve_right nofun
    exact ⟨named.2, (contract found named.1).infinity named.2 noValue⟩
  | _ => trivial

/-- The parser takes none of the branches that guard against tokens which no text has: a string is
    in equal quotes and has none of them inside, a comparison is an operator of its kind, and a
    number has a value. So errors expect a few things only, and a number that is blamed is too
    large. -/
theorem guards_hold (text : String) :
    (∀ token ∈ (Scan.ofText text).tokens, token.Contract) ∧
      (∀ d, Descent.Reaches (Scan.ofText text).error (.begin (Scan.ofText text).tokens) d →
        d.guarded (Scan.ofText text).error = .ok (d.step (Scan.ofText text).error)) ∧
      ∀ error, parse text = .error error → error.IsPlain := by
  have contract := (Lexer.scanned text.toList 0).contract
  refine ⟨contract, fun d reaches => ?_, fun error failed => ?_⟩
  · have inside := (Descent.tokens_of_reaches reaches).subset
    exact Descent.guarded_eq_step fun token member => contract token (inside member)
  · obtain ⟨unread, failed⟩ := parse_eq_error_iff.mp failed
    exact Scan.plain_of_parse contract failed

theorem guards_hold_quoted :
    parse "('b'" = .error (.unexpectedEnd (.kind .closedParenthesis)) ∧
      (ParseError.unexpectedEnd (.kind .closedParenthesis)).IsPlain ∧
      (∃ quote, quote ∉ ['b'] ∧ "'b'".toList = quote :: (['b'] ++ [quote]) ∧
        Text.slice? "'b'" 1 2 = some "b") ∧
      Descent.guarded (Scan.ofText "('b'").error (.begin (Scan.ofText "('b'").tokens) =
        .ok (Descent.step (Scan.ofText "('b'").error (.begin (Scan.ofText "('b'").tokens)) := by
  obtain ⟨contract, guarded, plain⟩ := guards_hold "('b'"
  have failed : parse "('b'" = .error (.unexpectedEnd (.kind .closedParenthesis)) := by cbv
  have second : (Scan.ofText "('b'").tokens[1]? = some ⟨.string, "'b'", 1⟩ := by cbv
  obtain ⟨quote, -, quoted, absent, slice⟩ :=
    (contract _ (List.mem_of_getElem? second)).quoted rfl
  exact ⟨failed, plain _ failed, ⟨quote, absent, quoted, slice⟩, guarded _ .refl⟩

end FilterLang
