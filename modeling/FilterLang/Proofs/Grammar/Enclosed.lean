import FilterLang.Proofs.Grammar.Graft
import FilterLang.Proofs.Grammar.Height
import FilterLang.Proofs.Grammar.Room

namespace FilterLang

theorem Outline.height_shift (outline : Outline) (distance : Nat) (tokens : List Token) :
    outline.height (tokens.map (Token.shift distance)) = outline.height tokens := by
  induction tokens generalizing outline with
  | nil => rfl
  | cons token rest ih => exact congrArg (max outline.groups) (ih (outline.next token))

theorem mostGroups_shift (distance : Nat) (tokens : List Token) :
    mostGroups (tokens.map (Token.shift distance)) = mostGroups tokens := by
  rw [mostGroups_eq_height, mostGroups_eq_height, Outline.height_shift]

section

variable {text : List Char} {offset : Nat} {scan : Scan} {c : Char} {kind : Token.Kind}

theorem Text.breaks_mark (mark : (c, kind) ∈ Token.marks) (noPoint : c ≠ '.') (more : List Char) :
    Breaks (c :: more) := by
  simp only [Token.marks, List.mem_cons, Prod.mk.injEq, List.not_mem_nil, or_false] at mark
  rcases mark with ⟨rfl, -⟩ | ⟨rfl, -⟩ | ⟨rfl, -⟩ | ⟨rfl, -⟩ | ⟨rfl, -⟩ | ⟨rfl, -⟩
  case inr.inl => contradiction
  all_goals exact ⟨headNot_cons.mpr rfl, by simp, by simp⟩

theorem Token.inSuffix?_mark (mark : (c, kind) ∈ marks) (more : List Char) :
    inSuffix? (c :: more) = none := by
  simp only [marks, List.mem_cons, Prod.mk.injEq, List.not_mem_nil, or_false] at mark
  rcases mark with ⟨rfl, -⟩ | ⟨rfl, -⟩ | ⟨rfl, -⟩ | ⟨rfl, -⟩ | ⟨rfl, -⟩ | ⟨rfl, -⟩ <;>
    exact inSuffix?_of_headNot (Text.headNot_cons.mpr rfl)

/-- A text in front of a mark is read as if it stood alone, unless a fraction might go on there. -/
theorem Munches.scan_mark (munches : Munches text offset scan) (fine : scan.error = none)
    (mark : (c, kind) ∈ Token.marks) (noPoint : c ≠ '.') (more : List Char) :
    Lexer.scan ⟨text ++ c :: more, offset⟩ =
      (Lexer.scan ⟨more, offset + text.length + 1⟩).prepend
        (scan.tokens ++ [⟨kind, String.ofList [c], offset + text.length⟩]) := by
  have before := munches.scan_append fine (Text.breaks_mark mark noPoint more)
    fun _ _ _ _ => Token.inSuffix?_mark mark more
  have longest : Token.Lexeme kind [c] more := .mark mark
  have behind := Lexer.scan_of_lexeme (offset + text.length) longest
  rw [List.singleton_append] at behind
  rw [before, behind, Scan.prepend_prepend]
  rfl

end

/-- A text between two marks is read as it is by itself, further on. -/
theorem Munches.scan_between {before inside : List Char} {tokens : List Token} {scan : Scan}
    {c d : Char} {kind kind' : Token.Kind} (start : Munches before 0 ⟨tokens, none⟩)
    (munches : Munches inside 0 scan) (fine : scan.error = none) (opens : (c, kind) ∈ Token.marks)
    (noPoint : c ≠ '.') (closes : (d, kind') ∈ Token.marks) (noPoint' : d ≠ '.') :
    ∃ opening closing : Token, opening.kind = kind ∧ closing.kind = kind' ∧
      Lexer.scan ⟨before ++ c :: (inside ++ [d]), 0⟩ =
        ⟨tokens ++ opening :: (scan.tokens.map (Token.shift (before.length + 1)) ++ [closing]),
          none⟩ := by
  have shifted := munches.shift (before.length + 1)
  rw [Nat.zero_add] at shifted
  have last := shifted.scan_mark (by simp [Scan.shift, fine]) closes noPoint' []
  have done : Lexer.scan ⟨[], before.length + 1 + inside.length + 1⟩ = ⟨[], none⟩ :=
    Lexer.scan_of_end rfl
  have first := start.scan_mark rfl opens noPoint (inside ++ [d])
  rw [Nat.zero_add] at first
  let opening : Token := ⟨kind, String.ofList [c], before.length⟩
  let closing : Token := ⟨kind', String.ofList [d], before.length + 1 + inside.length⟩
  refine ⟨opening, closing, rfl, rfl, first.trans ?_⟩
  rw [last, done]
  simp [Scan.prepend, Scan.shift, opening, closing]

/-- A text that holds another one inside one group more, and spells `whole` where that has room. -/
structure Encloses (outer text : String) (whole : Expr) : Prop where
  fine : (Scan.ofText outer).error = none
  groups : mostGroups (Scan.ofText outer).tokens = mostGroups (Scan.ofText text).tokens + 1
  derives : Derives (maxNesting + 1) (.level .or) (Scan.ofText outer).tokens whole

namespace Encloses

variable {outer text : String} {whole : Expr}

theorem parse_of_room (encloses : Encloses outer text whole)
    (room : mostGroups (Scan.ofText text).tokens < maxNesting) : parse outer = .ok whole := by
  have fits := encloses.groups.trans_le room
  exact parse_eq_ok_iff.mpr ⟨encloses.fine, encloses.derives.iff_mostGroups_le.mpr fits⟩

theorem parse_of_full (encloses : Encloses outer text whole)
    (full : maxNesting ≤ mostGroups (Scan.ofText text).tokens) :
    ∃ position, parse outer = .error (.nestingTooDeep position) := by
  have crowded : maxNesting < mostGroups (Scan.ofText outer).tokens :=
    (Nat.lt_succ_of_le full).trans_eq encloses.groups.symm
  have missed : ¬ Derives maxNesting (.level .or) (Scan.ofText outer).tokens whole := fun fits =>
    Nat.not_le.mpr crowded (encloses.derives.iff_mostGroups_le.mp fits)
  obtain ⟨position, unread, failed⟩ := Scan.parse_tooDeep encloses.derives missed
  rw [← encloses.fine] at failed
  exact ⟨position, parse_eq_error_iff.mpr ⟨unread, failed⟩⟩

end Encloses

variable {text name : String} {e : Expr}

theorem encloses_grouped (parsed : parse text = .ok e) :
    Encloses ("(" ++ text ++ ")") text e.parenthesized := by
  obtain ⟨fine, derives⟩ := parse_eq_ok_iff.mp parsed
  have start : Munches [] 0 ⟨[], none⟩ := .ending nofun
  obtain ⟨opening, closing, opens, closes, scanned⟩ := start.scan_between
    (Lexer.munches_scan text.toList 0) fine
    (show ('(', .openParenthesis) ∈ Token.marks by decide) (by decide)
    (show (')', .closedParenthesis) ∈ Token.marks by decide) (by decide)
  have inside := derives.alike (Token.alike_shift (0 + 1) (Scan.ofText text).tokens)
  have outer : ("(" ++ text ++ ")").toList = [] ++ '(' :: (text.toList ++ [')']) := by simp
  have read : Scan.ofText ("(" ++ text ++ ")") = _ :=
    (congrArg (fun chars => Lexer.scan ⟨chars, 0⟩) outer).trans scanned
  obtain ⟨height, spans, -⟩ := inside.spans
  have groups := spans.mostGroups_eq.symm.trans (mostGroups_shift (0 + 1) _)
  constructor <;> rw [read]
  · exact (spans.grouped opens closes).mostGroups_eq.trans (congrArg (· + 1) groups)
  · exact (Derives.root (.group opens inside closes)).loosen (Nat.zero_le _)

theorem encloses_keyed (parsed : parse text = .ok e)
    (isName : tokenize name = .ok [⟨.identifier, name, 0⟩]) :
    Encloses (name ++ "[" ++ text ++ "]") text (.member (.identifier name false) e true false) := by
  obtain ⟨fine, derives⟩ := parse_eq_ok_iff.mp parsed
  obtain ⟨noFault, alone⟩ := Scan.toExcept_eq_ok_iff.mp isName
  have start : Munches name.toList 0 ⟨[⟨.identifier, name, 0⟩], none⟩ := by
    rw [← alone, ← noFault]
    exact Lexer.munches_scan name.toList 0
  obtain ⟨opening, closing, opens, closes, scanned⟩ := start.scan_between
    (Lexer.munches_scan text.toList 0) fine
    (show ('[', .openBracket) ∈ Token.marks by decide) (by decide)
    (show (']', .closedBracket) ∈ Token.marks by decide) (by decide)
  let distance := name.toList.length + 1
  have inside := derives.alike (Token.alike_shift distance (Scan.ofText text).tokens)
  have outer : (name ++ "[" ++ text ++ "]").toList =
      name.toList ++ '[' :: (text.toList ++ [']']) := by simp
  have read : Scan.ofText (name ++ "[" ++ text ++ "]") = _ :=
    (congrArg (fun chars => Lexer.scan ⟨chars, 0⟩) outer).trans scanned
  obtain ⟨height, spans, -⟩ := inside.spans
  have groups := spans.mostGroups_eq.symm.trans (mostGroups_shift distance _)
  have object : Spans [⟨.identifier, name, 0⟩] 0 := .operand rfl rfl
  have whole := object.accessed opens spans closes
  rw [Nat.zero_max, groups] at whole
  constructor <;> rw [read]
  · exact whole.mostGroups_eq
  · exact (Derives.key rfl (.root (.name rfl)) opens inside closes).loosen (Nat.zero_le _)

/-- There are expressions of every depth up to the limit. -/
theorem exists_parse_of_groups {n : Nat} (room : n ≤ maxNesting) :
    ∃ text e, parse text = .ok e ∧ mostGroups (Scan.ofText text).tokens = n := by
  induction n with
  | zero => exact ⟨"a", .identifier "a" false, by cbv, by cbv⟩
  | succ n ih =>
    obtain ⟨text, e, parsed, groups⟩ := ih (Nat.le_of_lt room)
    have encloses := encloses_grouped parsed
    rw [← groups] at room ⊢
    exact ⟨"(" ++ text ++ ")", e.parenthesized, encloses.parse_of_room room, encloses.groups⟩

/-- Any expression may stand in parentheses, and as a key behind any name, where it leaves room for
    one group more. The parentheses set the flag of its top node, a second pair changes nothing
    more, and as a key it is itself. -/
theorem parse_enclosed (parsed : parse text = .ok e) :
    let deepest := mostGroups (Scan.ofText text).tokens
    let whole := e.parenthesized
    let grouped := "(" ++ text ++ ")"
    let keyed (name : String) := name ++ "[" ++ text ++ "]"
    (whole.grouped = true ∧ whole.SameParts e) ∧ deepest ≤ maxNesting ∧
      (deepest < maxNesting → parse grouped = .ok whole ∧
        ∀ name, tokenize name = .ok [⟨.identifier, name, 0⟩] →
          parse (keyed name) = .ok (.member (.identifier name false) e true false)) ∧
      (deepest = maxNesting → (∃ position, parse grouped = .error (.nestingTooDeep position)) ∧
        ∀ name, tokenize name = .ok [⟨.identifier, name, 0⟩] →
          ∃ position, parse (keyed name) = .error (.nestingTooDeep position)) ∧
      (deepest + 1 < maxNesting → parse ("(" ++ grouped ++ ")") = .ok whole) := by
  intro deepest whole grouped keyed
  obtain ⟨-, derives⟩ := parse_eq_ok_iff.mp parsed
  have inParentheses : Encloses grouped text whole := encloses_grouped parsed
  refine ⟨⟨e.grouped_parenthesized, e.sameParts_parenthesized⟩,
    derives.iff_mostGroups_le.mp derives, fun room => ?_, fun full => ?_, fun room => ?_⟩
  · exact ⟨inParentheses.parse_of_room room, fun name isName =>
      (encloses_keyed parsed isName).parse_of_room room⟩
  · exact ⟨inParentheses.parse_of_full full.ge, fun name isName =>
      (encloses_keyed parsed isName).parse_of_full full.ge⟩
  · have once := inParentheses.parse_of_room (Nat.le_of_lt room)
    have twice := (encloses_grouped once).parse_of_room (inParentheses.groups.trans_lt room)
    exact twice.trans (congrArg _ e.parenthesized_parenthesized)

theorem parse_enclosed_limits :
    let key : Expr := .member (.identifier "b" false) (.literal .null false) true false
    let whole (grouped : Bool) : Expr := .binary .or (.identifier "a" false) key grouped
    tokenize "NOT" = .ok [⟨.identifier, "NOT", 0⟩] ∧ parse "a or b[null]" = .ok (whole false) ∧
      parse ("(" ++ "a or b[null]" ++ ")") = .ok (whole true) ∧
      parse ("(" ++ ("(" ++ "a or b[null]" ++ ")") ++ ")") = .ok (whole true) ∧
      parse ("NOT" ++ "[" ++ "a or b[null]" ++ "]") =
        .ok (.member (.identifier "NOT" false) (whole false) true false) ∧
      ∃ deep e, parse deep = .ok e ∧ mostGroups (Scan.ofText deep).tokens = maxNesting ∧
        (∃ position, parse ("(" ++ deep ++ ")") = .error (.nestingTooDeep position)) ∧
        ∃ position, parse ("NOT" ++ "[" ++ deep ++ "]") = .error (.nestingTooDeep position) := by
  intro key whole
  have isName : tokenize "NOT" = .ok [⟨.identifier, "NOT", 0⟩] := by cbv
  have parsed : parse "a or b[null]" = .ok (whole false) := by cbv
  have few : mostGroups (Scan.ofText "a or b[null]").tokens = 1 := by cbv
  obtain ⟨⟨flag, same⟩, -, fits, -, twice⟩ := parse_enclosed parsed
  have flagged : (whole false).parenthesized = whole true :=
    (same.trans .binary).eq_of_grouped flag
  rw [few, flagged] at fits twice
  obtain ⟨once, asKey⟩ := fits (by decide)
  obtain ⟨deep, e, parsedDeep, full⟩ := exists_parse_of_groups (Nat.le_refl maxNesting)
  obtain ⟨misses, missesAsKey⟩ := (parse_enclosed parsedDeep).2.2.2.1 full
  exact ⟨isName, parsed, once, twice (by decide), asKey "NOT" isName, deep, e, parsedDeep, full,
    misses, missesAsKey "NOT" isName⟩

end FilterLang
