import FilterLang.Proofs.Descent.Outline

namespace FilterLang

def mostGroups (tokens : List Token) : Nat :=
  (tokens.inits.map fun before => (outline before).groups).foldr max 0

namespace Outline

def height (outline : Outline) : List Token → Nat
  | [] => outline.groups
  | token :: rest => max outline.groups ((outline.next token).height rest)

theorem groups_le_height (outline : Outline) (tokens : List Token) :
    outline.groups ≤ outline.height tokens := by
  cases tokens with
  | nil => exact Nat.le_refl _
  | cons token rest => exact Nat.le_max_left ..

theorem height_append (outline : Outline) (first second : List Token) :
    outline.height (first ++ second) =
      max (outline.height first) ((first.foldl next outline).height second) := by
  induction first generalizing outline with
  | nil => exact (Nat.max_eq_right (outline.groups_le_height second)).symm
  | cons token first ih => rw [List.cons_append, height, height, ih, List.foldl_cons, Nat.max_assoc]

theorem height_eq (outline : Outline) (tokens : List Token) :
    outline.height tokens =
      (tokens.inits.map fun before => (before.foldl next outline).groups).foldr max 0 := by
  induction tokens generalizing outline with
  | nil => exact (Nat.max_zero _).symm
  | cons token rest ih =>
    rw [height, ih, List.inits_cons, List.map_cons, List.foldr_cons, List.map_map]
    rfl

variable {outline : Outline} {token : Token}

theorem next_of_not_isBracket (noBracket : token.kind.isBracket = false) :
    outline.next token = ⟨outline.brackets, token.kind.endsOperand⟩ := by
  rw [← brackets_next_of_not_isBracket outline noBracket]
  rfl

theorem next_of_opens {bracket : Bracket} (opening : outline.opens token = some bracket) :
    outline.next token = ⟨bracket :: outline.brackets, false⟩ := by
  rw [← brackets_next_of_opens opening]
  have noOperand : token.kind.endsOperand = false := by
    unfold opens at opening
    split at opening
    · next kind => rw [kind]; rfl
    · next kind => rw [kind]; rfl
    · cases opening
  rw [← noOperand]
  rfl

theorem next_of_closes
    (closing : token.kind = .closedParenthesis ∨ token.kind = .closedBracket) :
    outline.next token = ⟨outline.brackets.tail, true⟩ := by
  rcases closing with kind | kind <;> simp [next, kind, Token.Kind.endsOperand]

end Outline

theorem mostGroups_eq_height (tokens : List Token) :
    mostGroups tokens = Outline.height ⟨[], false⟩ tokens :=
  (Outline.height_eq _ tokens).symm

/-- Tokens that start where an operand is missing and end behind one. They close the brackets that
    they open, and of these `height` groups are open at once. -/
structure Spans (tokens : List Token) (height : Nat) : Prop where
  closes : ∀ brackets, tokens.foldl Outline.next ⟨brackets, false⟩ = ⟨brackets, true⟩
  highest : ∀ brackets, Outline.height ⟨brackets, false⟩ tokens = brackets.count .group + height

namespace Spans

variable {tokens others inside : List Token} {token opening closing : Token} {height other : Nat}

theorem mostGroups_eq (spans : Spans tokens height) : mostGroups tokens = height := by
  rw [mostGroups_eq_height, spans.highest, List.count_nil, Nat.zero_add]

theorem operand (noBracket : token.kind.isBracket = false) (ends : token.kind.endsOperand = true) :
    Spans [token] 0 where
  closes brackets := by rw [List.foldl_cons, Outline.next_of_not_isBracket noBracket, ends]; rfl
  highest brackets := by
    rw [Outline.height, Outline.height, Outline.next_of_not_isBracket noBracket]
    exact Nat.max_self _

theorem joined (first : Spans tokens height) (noBracket : token.kind.isBracket = false)
    (goesOn : token.kind.endsOperand = false) (second : Spans others other) :
    Spans (tokens ++ token :: others) (max height other) where
  closes brackets := by
    rw [List.foldl_append, first.closes, List.foldl_cons, Outline.next_of_not_isBracket noBracket,
      goesOn, second.closes]
  highest brackets := by
    rw [Outline.height_append, first.highest, first.closes, Outline.height,
      Outline.next_of_not_isBracket noBracket, goesOn, second.highest, Outline.groups]
    dsimp only
    omega

/-- What a bracket encloses is as high as it is outside, one more if the bracket is a group. -/
theorem height_enclosed {outline : Outline} {bracket : Bracket}
    (opens : outline.opens opening = some bracket) (spans : Spans inside height)
    (closes : closing.kind = .closedParenthesis ∨ closing.kind = .closedBracket) :
    (opening :: (inside ++ [closing])).foldl Outline.next outline = ⟨outline.brackets, true⟩ ∧
      outline.height (opening :: (inside ++ [closing])) =
        (bracket :: outline.brackets).count .group + height := by
  have start := Outline.next_of_opens opens
  have last : Outline.next ⟨bracket :: outline.brackets, true⟩ closing =
      ⟨outline.brackets, true⟩ := Outline.next_of_closes closes
  refine ⟨?_, ?_⟩
  · rw [List.foldl_cons, start, List.foldl_append, spans.closes, List.foldl_cons, last]
    rfl
  · have below : outline.groups ≤ (bracket :: outline.brackets).count .group :=
      List.count_le_count_cons
    rw [Outline.height, start, Outline.height_append, spans.highest, spans.closes, Outline.height,
      Outline.height, last]
    simp only [Outline.groups] at below ⊢
    omega

theorem accessed (object : Spans tokens height) (bracket : opening.kind = .openBracket)
    (key : Spans inside other) (closes : closing.kind = .closedBracket) :
    Spans (tokens ++ opening :: (inside ++ [closing])) (max height (other + 1)) := by
  have opens (brackets : List Bracket) : Outline.opens ⟨brackets, true⟩ opening = some .group := by
    simp [Outline.opens, bracket]
  have enclosed (brackets : List Bracket) := height_enclosed (opens brackets) key (.inr closes)
  refine ⟨fun brackets => ?_, fun brackets => ?_⟩
  · rw [List.foldl_append, object.closes, (enclosed brackets).1]
  · rw [Outline.height_append, object.highest, object.closes, (enclosed brackets).2,
      List.count_cons_self]
    dsimp only
    omega

theorem grouped (parenthesis : opening.kind = .openParenthesis) (spans : Spans inside height)
    (closes : closing.kind = .closedParenthesis) :
    Spans (opening :: (inside ++ [closing])) (height + 1) := by
  have opens (brackets : List Bracket) : Outline.opens ⟨brackets, false⟩ opening = some .group := by
    simp [Outline.opens, parenthesis]
  have enclosed (brackets : List Bracket) := height_enclosed (opens brackets) spans (.inl closes)
  refine ⟨fun brackets => (enclosed brackets).1, fun brackets => ?_⟩
  rw [(enclosed brackets).2, List.count_cons_self]
  dsimp only
  omega

theorem array (bracket : opening.kind = .openBracket) (spans : Spans inside height)
    (closes : closing.kind = .closedBracket) :
    Spans (opening :: (inside ++ [closing])) height := by
  have opens (brackets : List Bracket) : Outline.opens ⟨brackets, false⟩ opening = some .array := by
    simp [Outline.opens, bracket]
  have enclosed (brackets : List Bracket) := height_enclosed (opens brackets) spans (.inr closes)
  refine ⟨fun brackets => (enclosed brackets).1, fun brackets => ?_⟩
  rw [(enclosed brackets).2, List.count_cons_of_ne (by decide)]

theorem emptyArray (bracket : opening.kind = .openBracket)
    (closes : closing.kind = .closedBracket) : Spans [opening, closing] 0 := by
  have opens (brackets : List Bracket) : Outline.opens ⟨brackets, false⟩ opening = some .array := by
    simp [Outline.opens, bracket]
  have start (brackets : List Bracket) := Outline.next_of_opens (opens brackets)
  refine ⟨fun brackets => ?_, fun brackets => ?_⟩
  · rw [List.foldl_cons, start, List.foldl_cons, Outline.next_of_closes (.inr closes)]
    rfl
  · rw [Outline.height, Outline.height, Outline.height, start, Outline.next_of_closes (.inr closes)]
    simp [Outline.groups]

end Spans

namespace Derives

variable {n : Nat} {phrase : Phrase} {tokens : List Token} {e : Expr}

theorem spans_constant {token : Token} {value : Literal} (found : token.literal? = some value) :
    Spans [token] 0 := by
  have literal := Parser.isLiteral_of_literal? found
  apply Spans.operand <;>
    cases kind : token.kind <;>
      simp_all [Token.Kind.isLiteral, Token.Kind.isBracket, Token.Kind.endsOperand]

/-- How much room a derivation needs can be told from its tokens. -/
theorem spans (derives : Derives n phrase tokens e) :
    ∃ height, Spans tokens height ∧ height ≤ n ∧ ∀ m, height ≤ m → Derives m phrase tokens e := by
  induction derives with
  | tighter _ ih =>
    obtain ⟨height, spans, room, fits⟩ := ih
    exact ⟨height, spans, room, fun m le => .tighter (fits m le)⟩
  | @join _ operator token _ _ _ _ _ spells _ accepts ihLeft ihRight =>
    obtain ⟨height, left, room, fits⟩ := ihLeft
    obtain ⟨other, right, room', fits'⟩ := ihRight
    have noBracket : token.kind.isBracket = false := by rw [spells.1]; cases operator <;> rfl
    have goesOn : token.kind.endsOperand = false := by rw [spells.1]; cases operator <;> rfl
    refine ⟨_, left.joined noBracket goesOn right, Nat.max_le.mpr ⟨room, room'⟩, fun m le => ?_⟩
    obtain ⟨le, le'⟩ := Nat.max_le.mp le
    exact .join (fits m le) spells (fits' m le') accepts
  | root _ ih =>
    obtain ⟨height, spans, room, fits⟩ := ih
    exact ⟨height, spans, room, fun m le => .root (fits m le)⟩
  | start kind => exact ⟨0, .operand (by rw [kind]; rfl) (by rw [kind]; rfl), Nat.zero_le _,
      fun m _ => .start kind⟩
  | property accessed _ noLiteral dot kind ih =>
    obtain ⟨height, spans, room, fits⟩ := ih
    have name := Spans.operand (by rw [kind]; rfl) (by rw [kind]; rfl)
    refine ⟨_, spans.joined (by rw [dot]; rfl) (by rw [dot]; rfl) name, by omega, fun m le => ?_⟩
    exact .property accessed (fits m (by omega)) noLiteral dot kind
  | key accessed _ bracket _ closes ihObject ihKey =>
    obtain ⟨height, object, room, fits⟩ := ihObject
    obtain ⟨other, key, room', fits'⟩ := ihKey
    refine ⟨_, object.accessed bracket key closes, by omega, fun m le => ?_⟩
    cases m with
    | zero => omega
    | succ m => exact .key accessed (fits _ (by omega)) bracket (fits' m (by omega)) closes
  | name kind => exact ⟨0, .operand (by rw [kind]; rfl) (by rw [kind]; rfl), Nat.zero_le _,
      fun m _ => .name kind⟩
  | constant found => exact ⟨0, spans_constant found, Nat.zero_le _, fun m _ => .constant found⟩
  | group parenthesis _ closes ih =>
    obtain ⟨height, spans, room, fits⟩ := ih
    refine ⟨_, spans.grouped parenthesis closes, by omega, fun m le => ?_⟩
    cases m with
    | zero => omega
    | succ m => exact .group parenthesis (fits m (by omega)) closes
  | emptyArray bracket closes =>
    exact ⟨0, .emptyArray bracket closes, Nat.zero_le _, fun m _ => .emptyArray bracket closes⟩
  | array bracket _ closes ih =>
    obtain ⟨height, spans, room, fits⟩ := ih
    exact ⟨height, spans.array bracket closes, room, fun m le => .array bracket (fits m le) closes⟩
  | constantElement found =>
    exact ⟨0, spans_constant found, Nat.zero_le _, fun m _ => .constantElement found⟩
  | pathElement _ ih =>
    obtain ⟨height, spans, room, fits⟩ := ih
    exact ⟨height, spans, room, fun m le => .pathElement (fits m le)⟩
  | lastElement _ ih =>
    obtain ⟨height, spans, room, fits⟩ := ih
    exact ⟨height, spans, room, fun m le => .lastElement (fits m le)⟩
  | nextElement _ comma _ ihFirst ihOthers =>
    obtain ⟨height, first, room, fits⟩ := ihFirst
    obtain ⟨other, others, room', fits'⟩ := ihOthers
    refine ⟨_, first.joined (by rw [comma]; rfl) (by rw [comma]; rfl) others,
      Nat.max_le.mpr ⟨room, room'⟩, fun m le => ?_⟩
    obtain ⟨le, le'⟩ := Nat.max_le.mp le
    exact .nextElement (fits m le) comma (fits' m le')

/-- Tokens that derive an expression derive it wherever there is room for their groups, and nowhere
    else. -/
theorem iff_mostGroups_le (derives : Derives n phrase tokens e) {m : Nat} :
    Derives m phrase tokens e ↔ mostGroups tokens ≤ m := by
  obtain ⟨height, spans, -, fits⟩ := derives.spans
  rw [spans.mostGroups_eq]
  constructor
  · intro again
    obtain ⟨same, spans', room, -⟩ := again.spans
    rwa [← spans.mostGroups_eq, spans'.mostGroups_eq]
  · exact fits m

end Derives

end FilterLang
