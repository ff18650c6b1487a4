import FilterLang.Proofs.Expr.WellFormed
import FilterLang.Proofs.Source.Lexemes
import FilterLang.Proofs.Source.Scans

namespace FilterLang

theorem Derives.loosen {n : Nat} {tokens : List Token} {e : Expr} {strong weak : Level}
    (derives : Derives n (.level strong) tokens e) (looser : weak.rank ≤ strong.rank) :
    Derives n (.level weak) tokens e := by
  induction steps : strong.rank - weak.rank generalizing weak with
  | zero =>
    obtain rfl : weak = strong := Level.rank_injective (by omega)
    exact derives
  | succ steps ih =>
    have next := Level.rank_tighter_of_lt (show weak.rank < strong.rank by omega)
    exact .tighter (ih (by omega) (by omega))

namespace Expr

structure Ends (e : Expr) (after : List Char) : Prop where
  separated : Text.Separated after
  noSuffix : e.endsInNot = true → Token.inSuffix? after = none

theorem ends_nil (e : Expr) : e.Ends [] :=
  ⟨⟨Text.headNot_nil _, nofun⟩, fun _ => rfl⟩

theorem ends_cons (e : Expr) {c : Char} (after : List Char) (outside : Text.isWord c = false)
    (noBlank : Text.isBlank c = false) (noPoint : c ≠ '.') : e.Ends (c :: after) :=
  ⟨Text.separated_cons outside noPoint,
    fun _ => Token.inSuffix?_of_headNot (Text.headNot_cons.mpr noBlank)⟩

theorem ends_point (e : Expr) {name : List Char} (noDigit : Text.HeadNot Char.isDigit name) :
    e.Ends ('.' :: name) := by
  refine ⟨⟨Text.headNot_cons.mpr (by decide), ?_⟩, fun _ => ?_⟩
  · intro rest same
    cases same
    exact noDigit
  · exact Token.inSuffix?_of_headNot (Text.headNot_cons.mpr (by decide))

theorem ends_operator {e : Expr} {operator : Operator}
    (apart : operator = .isIn → e.endsInNot = false) (more : List Char) :
    e.Ends (' ' :: (operator.symbol.toList ++ ' ' :: more)) := by
  refine ⟨Text.separated_cons (by decide) (by decide), fun ends => ?_⟩
  refine Operator.inSuffix?_symbol (fun isIn => ?_) more
  rw [apart isIn] at ends
  cases ends

/-- In front of a text, the source text of an expression is scanned as tokens that spell it, as
    tightly as it binds and as whatever it may be inside an array. -/
structure Spelled (n : Nat) (e : Expr) (after : List Char) : Prop where
  level : Scans e.source.toList after (Derives n (.level e.level) · e)
  path : e.isPath = true → Scans e.source.toList after (Derives n .path · e)
  element : e.isElement = true → Scans e.source.toList after (Derives n .element · e)

theorem Spelled.operand {n : Nat} {e : Expr} {after : List Char} (spelled : e.Spelled n after)
    {weak : Level} (looser : weak.rank ≤ e.level.rank) :
    Scans e.source.toList after (Derives n (.level weak) · e) :=
  spelled.level.mono fun _ derives => derives.loosen looser

variable {n : Nat} {after rest : List Char}

theorem scans_name {name : String} (isName : Token.IsName name)
    (ends : (identifier name false).Ends after) :
    Scans name.toList after fun tokens =>
      ∃ token : Token, tokens = [token] ∧ token.kind = .identifier ∧ token.text = name := by
  have noKeyword : ∀ kind, ¬ Token.IsKeyword name.toList kind := by
    rw [Token.Kind.not_isKeyword_iff, Token.Kind.ofKeyword?_eq_none_iff, String.ofList_toList]
    exact ⟨isName.noOperator, isName.noConstant⟩
  have lexeme : Token.Lexeme .identifier name.toList after := by
    apply Token.Lexeme.identifier isName.word ends.separated.word noKeyword
    intro isNot
    exact Token.inSuffix?_eq_none_iff.mp (ends.noSuffix (by simp [endsInNot, isNot]))
  exact .lexeme lexeme fun token kind same => ⟨token, rfl, kind, String.toList_inj.mp same⟩

theorem spelled_identifier {name : String} (isName : Token.IsName name)
    (ends : (identifier name false).Ends after) : (identifier name false).Spelled n after := by
  have text : (identifier name false).source = name := by simp [source, group]
  have scans := scans_name isName ends
  rw [← text] at scans
  refine ⟨scans.mono ?_, fun _ => scans.mono ?_, fun _ => scans.mono ?_⟩
  all_goals rintro _ ⟨token, rfl, kind, rfl⟩
  · exact .root (.name kind)
  · exact .start kind
  · exact .pathElement (.start kind)

theorem spelled_literal {value : Literal} (spellable : value.Spellable)
    (ends : (literal value false).Ends after) : (literal value false).Spelled n after := by
  have text : (literal value false).source = value.source := by simp [source, group]
  obtain ⟨kind, lexeme, reads⟩ := Literal.lexeme_source spellable ends.separated
  rw [← text] at lexeme reads
  refine ⟨.lexeme lexeme fun token same spelled => ?_, nofun,
    fun _ => .lexeme lexeme fun token same spelled => ?_⟩
  · exact .root (.constant (reads token same spelled))
  · exact .constantElement (reads token same spelled)

theorem scans_elements {first : Expr} {elements : List Expr}
    (scans : ∀ e ∈ first :: elements, ∀ {c : Char} (more : List Char), c = ',' ∨ c = ']' →
      Scans e.source.toList (c :: more) (Derives n .element · e)) :
    Scans (elementsSource (first :: elements)).toList (']' :: after)
      (Derives n .elements · (array (first :: elements) false)) := by
  induction elements generalizing first with
  | nil => exact (scans first (by simp) after (.inr rfl)).mono fun _ => .lastElement
  | cons second elements ih =>
    have text : (elementsSource (first :: second :: elements)).toList =
        first.source.toList ++ ([','] ++ ' ' :: (elementsSource (second :: elements)).toList) := by
      simp [elementsSource]
    have others := ih fun e member => scans e (List.mem_cons_of_mem _ member)
    have mark : (',', Token.Kind.comma) ∈ Token.marks := by decide
    have behind := others.space.cons (R := fun tokens => ∃ comma rs, tokens = comma :: rs ∧
      comma.kind = .comma ∧ Derives n .elements rs (array (second :: elements) false))
      (.mark mark) fun comma rs kind _ derives => ⟨comma, rs, rfl, kind, derives⟩
    rw [text]
    apply (scans first (by simp) _ (.inl rfl)).append behind
    rintro ls _ derives ⟨comma, rs, rfl, kind, derivesOthers⟩
    exact .nextElement derives kind derivesOthers

theorem spelled_array {elements : List Expr}
    (spelled : ∀ e ∈ elements, ∀ after, e.Ends after → e.Spelled n after)
    (isElement : ∀ e ∈ elements, e.isElement = true) :
    (array elements false).Spelled n after := by
  have text : (array elements false).source.toList =
      '[' :: ((elementsSource elements).toList ++ [']']) := by simp [source, group]
  have opens : ('[', Token.Kind.openBracket) ∈ Token.marks := by decide
  have closes : (']', Token.Kind.closedBracket) ∈ Token.marks := by decide
  refine ⟨?_, nofun, nofun⟩
  rw [text]
  cases elements with
  | nil =>
    have nothing : Scans [] (']' :: after) (· = []) := fun _ => ⟨[], rfl, rfl⟩
    apply nothing.enclosed opens closes
    rintro opening closing _ openingKind closingKind rfl
    exact .root (.emptyArray openingKind closingKind)
  | cons first elements =>
    have inside : Scans (elementsSource (first :: elements)).toList (']' :: after)
        (Derives n .elements · (array (first :: elements) false)) := by
      apply scans_elements
      intro e member c more mark
      have ends : e.Ends (c :: more) := by
        rcases mark with rfl | rfl <;> exact e.ends_cons more (by decide) (by decide) (by decide)
      exact (spelled e member _ ends).element (isElement e member)
    apply inside.enclosed opens closes
    intro opening closing tokens openingKind closingKind derives
    exact .root (.array openingKind derives closingKind)

theorem Spelled.access {object property : Expr} {computed : Bool} (spelled : object.Spelled n rest)
    (tight : object.level = .member)
    (step : ∀ {base : Phrase}, base.isAccessed = true →
      Scans object.source.toList rest (Derives n base · object) →
      Scans (member object property computed false).source.toList after
        (Derives n base · (member object property computed false))) :
    (member object property computed false).Spelled n after := by
  have operand : Scans object.source.toList rest (Derives n (.level .member) · object) :=
    spelled.operand (Nat.le_of_eq (congrArg Level.rank tight.symm))
  refine ⟨step rfl operand, ?_, ?_⟩
  · exact fun path => step rfl (spelled.path path)
  · exact fun path => (step rfl (spelled.path path)).mono fun _ => .pathElement

theorem scans_property {base : Phrase} (accessed : base.isAccessed = true) {object : Expr}
    {name : String} (notLiteral : object.isLiteral = false) (isName : Token.IsName name)
    (ends : (identifier name false).Ends after)
    (scans : Scans object.source.toList ('.' :: (name.toList ++ after)) (Derives n base · object)) :
    Scans (member object (identifier name false) false false).source.toList after
      (Derives n base · (member object (identifier name false) false false)) := by
  have text : (member object (identifier name false) false false).source.toList =
      object.source.toList ++ (['.'] ++ name.toList) := by simp [source, group]
  have mark : ('.', Token.Kind.dot) ∈ Token.marks := by decide
  have behind : Scans (['.'] ++ name.toList) after fun tokens => ∃ point token : Token,
      tokens = [point, token] ∧ point.kind = .dot ∧ token.kind = .identifier ∧
        token.text = name := by
    apply (scans_name isName ends).cons (.mark mark)
    rintro point _ pointKind - ⟨token, rfl, kind, same⟩
    exact ⟨point, token, rfl, pointKind, kind, same⟩
  rw [text]
  apply scans.append behind
  rintro ls _ derives ⟨point, token, rfl, pointKind, kind, rfl⟩
  exact .property accessed derives notLiteral pointKind kind

theorem scans_key {base : Phrase} (accessed : base.isAccessed = true) {object key : Expr}
    (scans : Scans object.source.toList ('[' :: (key.source.toList ++ ']' :: after))
      (Derives (n + 1) base · object))
    (inside : Scans key.source.toList (']' :: after) (Derives n (.level .or) · key)) :
    Scans (member object key true false).source.toList after
      (Derives (n + 1) base · (member object key true false)) := by
  have text : (member object key true false).source.toList =
      object.source.toList ++ ('[' :: (key.source.toList ++ [']'])) := by simp [source, group]
  have opens : ('[', Token.Kind.openBracket) ∈ Token.marks := by decide
  have closes : (']', Token.Kind.closedBracket) ∈ Token.marks := by decide
  have accessor := inside.enclosed (Q := fun tokens => ∃ opening closing ts,
    tokens = opening :: (ts ++ [closing]) ∧ opening.kind = .openBracket ∧
      closing.kind = .closedBracket ∧ Derives n (.level .or) ts key) opens closes
    fun opening closing ts openingKind closingKind derives =>
      ⟨opening, closing, ts, rfl, openingKind, closingKind, derives⟩
  rw [text]
  apply Scans.append (by simpa using scans) accessor
  rintro ls _ derives ⟨opening, closing, ts, rfl, openingKind, closingKind, derivesKey⟩
  exact .key accessed derives openingKind derivesKey closingKind

theorem spelled_binary {operator : Operator} {left right : Expr}
    (accepts : operator.Accepts left right) (placed : (binary operator left right false).Placed)
    (spelledLeft : ∀ after, left.Ends after → left.Spelled n after)
    (spelledRight : right.Spelled n after) :
    (binary operator left right false).Spelled n after := by
  obtain ⟨looseLeft, looseRight, apart⟩ := placed
  have text : (binary operator left right false).source.toList =
      left.source.toList ++ (' ' :: (operator.symbol.toList ++ (' ' :: right.source.toList))) := by
    simp [source, group]
  have ends := ends_operator apart (right.source.toList ++ after)
  have behind := (spelledRight.operand looseRight).space.cons (R := fun tokens =>
    ∃ token rs, tokens = token :: rs ∧ token.Spells operator ∧
      Derives n (.level operator.level.rightOperand) rs right)
    (operator.lexeme_symbol _) fun token rs kind same derives =>
      ⟨token, rs, rfl, Operator.spells_of_symbol kind same, derives⟩
  refine ⟨?_, nofun, nofun⟩
  rw [text]
  apply Scans.append ((spelledLeft _ (by simpa using ends)).operand looseLeft) behind.space
  rintro ls _ derives ⟨token, rs, rfl, spells, derivesRight⟩
  exact .join derives spells derivesRight accepts

theorem spelled_parenthesized {e : Expr} (bare : e.grouped = false)
    (spelled : e.Spelled n (')' :: after)) : e.parenthesized.Spelled (n + 1) after := by
  have text : e.parenthesized.source.toList = '(' :: (e.source.toList ++ [')']) := by
    cases e with
    | member object property computed g =>
      cases bare
      cases computed <;> simp [source, parenthesized, group]
    | _ =>
      cases bare
      simp [source, parenthesized, group]
  have opens : ('(', Token.Kind.openParenthesis) ∈ Token.marks := by decide
  have closes : (')', Token.Kind.closedParenthesis) ∈ Token.marks := by decide
  have inside : Scans e.source.toList (')' :: after) (Derives n (.level .or) · e) :=
    spelled.operand (Nat.zero_le _)
  refine ⟨?_, fun path => ?_, fun element => ?_⟩
  · rw [text, level_parenthesized]
    apply inside.enclosed opens closes
    intro opening closing tokens openingKind closingKind derives
    exact .root (.group openingKind derives closingKind)
  · rw [isPath_parenthesized] at path
    cases path
  · rw [isElement_parenthesized] at element
    cases element

def SourceSpells (e : Expr) : Prop :=
  ∀ (n : Nat) (after : List Char), e.Throughout InOrder → e.nesting ≤ n → e.Ends after →
    e.Spelled n after

theorem SourceSpells.parenthesized {e : Expr} (bare : e.grouped = false)
    (spells : e.SourceSpells) : e.parenthesized.SourceSpells := by
  intro n after inOrder nesting ends
  have deeper := e.nesting_parenthesized
  rw [bare, Bool.toNat_false, Nat.add_zero] at deeper
  cases n with
  | zero => omega
  | succ n =>
    apply spelled_parenthesized bare
    apply spells
    · exact (throughout_parenthesized inOrder_parenthesized).mp inOrder
    · omega
    · exact e.ends_cons after (by decide) (by decide) (by decide)

theorem sourceSpells_member {object property : Expr} {computed : Bool}
    (spellsObject : object.SourceSpells) (spellsProperty : property.SourceSpells) :
    (member object property computed false).SourceSpells := by
  intro n after inOrder nesting ends
  obtain ⟨⟨invariant, tight⟩, inOrderObject, inOrderProperty⟩ := throughout_member.mp inOrder
  simp only [Expr.nesting, Bool.toNat_false, Nat.add_zero, Nat.max_le] at nesting
  have spelledObject := fun rest => spellsObject n rest inOrderObject nesting.1
  cases computed with
  | false =>
    obtain ⟨notLiteral, isBare⟩ := invariant rfl
    obtain ⟨name, rfl⟩ := exists_of_isBareName isBare
    have isName := (throughout_identifier.mp inOrderProperty).invariant
    have endsObject : object.Ends ('.' :: (name.toList ++ after)) :=
      object.ends_point (isName.word.start.append isName.word.nonempty)
    apply (spelledObject _ endsObject).access tight
    intro base accessed scans
    exact scans_property accessed notLiteral isName ⟨ends.separated, ends.noSuffix⟩ scans
  | true =>
    cases n with
    | zero => exact absurd nesting.2 (Nat.not_succ_le_zero _)
    | succ n =>
      have endsObject : object.Ends ('[' :: (property.source.toList ++ ']' :: after)) :=
        object.ends_cons _ (by decide) (by decide) (by decide)
      have endsKey : property.Ends (']' :: after) :=
        property.ends_cons _ (by decide) (by decide) (by decide)
      have spelledKey :=
        spellsProperty _ _ inOrderProperty (Nat.le_of_succ_le_succ nesting.2) endsKey
      apply (spelledObject _ endsObject).access tight
      intro base accessed scans
      exact scans_key accessed scans (spelledKey.operand (Nat.zero_le _))

theorem sourceSpells (e : Expr) : e.SourceSpells := by
  induction e using Expr.bareInduction with
  | identifier name =>
    intro n after inOrder _ ends
    exact spelled_identifier (throughout_identifier.mp inOrder).invariant ends
  | literal value =>
    intro n after inOrder _ ends
    exact spelled_literal (throughout_literal.mp inOrder).invariant ends
  | array elements ih =>
    intro n after inOrder nesting ends
    obtain ⟨⟨invariant, -⟩, inside⟩ := throughout_array.mp inOrder
    have shallow := elementsNesting_le_iff.mp (Nat.le_of_add_right_le nesting)
    apply spelled_array
    · intro e member after ends
      exact ih e member _ _ (inside e member) (shallow e member) ends
    · intro e member
      exact (invariant e member).1
  | member object property computed ihObject ihProperty =>
    exact sourceSpells_member ihObject ihProperty
  | binary operator left right ihLeft ihRight =>
    intro n after inOrder nesting ends
    obtain ⟨⟨accepts, placed⟩, inOrderLeft, inOrderRight⟩ := throughout_binary.mp inOrder
    simp only [Expr.nesting, Bool.toNat_false, Nat.add_zero, Nat.max_le] at nesting
    apply spelled_binary accepts placed
    · intro after ends
      exact ihLeft _ _ inOrderLeft nesting.1 ends
    · exact ihRight _ _ inOrderRight nesting.2 ⟨ends.separated, ends.noSuffix⟩
  | parenthesized e bare ih => exact ih.parenthesized bare

end Expr

end FilterLang
