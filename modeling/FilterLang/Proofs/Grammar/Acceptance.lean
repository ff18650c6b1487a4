import FilterLang.Proofs.Grammar.Completeness

namespace FilterLang

def wholly (found : Expr × List Token) : Except Failure (Expr × List Token) :=
  match found.2 with
  | [] => .ok found
  | token :: unread => .error ⟨.trailingInput token, unread⟩

namespace Scan

theorem ready_or_empty (scan : Scan) :
    Ready scan.error scan.tokens ∨ ∃ error, scan = ⟨[], some error⟩ := by
  obtain ⟨tokens, fault⟩ := scan
  cases tokens <;> cases fault <;> simp [Ready]

theorem parse_eq_map (scan : Scan) (ready : Ready scan.error scan.tokens) :
    scan.parse =
      (outcome (Parser.expression scan.error maxNesting scan.tokens) >>= wholly).map Prod.fst := by
  unfold parse
  split
  · next empty fault => simp [Ready, empty, fault] at ready
  · cases Parser.expression scan.error maxNesting scan.tokens with
    | error failure => rfl
    | ok whole =>
      obtain ⟨value, rest, _⟩ := whole
      cases rest <;> rfl

theorem parse_eq_ok_iff {scan : Scan} {e : Expr} :
    scan.parse = .ok e ↔ Ready scan.error scan.tokens ∧
      outcome (Parser.expression scan.error maxNesting scan.tokens) = .ok (e, []) := by
  rcases scan.ready_or_empty with ready | ⟨error, rfl⟩
  · rw [parse_eq_map scan ready]
    cases outcome (Parser.expression scan.error maxNesting scan.tokens) with
    | error failure => simp [bind, Except.bind, Except.map]
    | ok found =>
      obtain ⟨value, rest⟩ := found
      cases rest <;> simp [bind, Except.bind, Except.map, wholly, ready]
  · simp [parse, Ready]

end Scan

theorem Scan.parse_iff_derives {scan : Scan} {e : Expr} :
    scan.parse = .ok e ↔
      scan.error = none ∧ Derives maxNesting (.level .or) scan.tokens e := by
  rw [parse_eq_ok_iff]
  constructor
  · rintro ⟨_, read⟩
    obtain ⟨ready, taken, split, derives⟩ := Parser.expression_reads maxNesting read
    rw [List.append_nil] at split
    refine ⟨ready.resolve_right (by simp), ?_⟩
    rwa [split]
  · rintro ⟨fine, derives⟩
    have ready : Ready scan.error [] := .inl fine
    have read := derives.accepted.whole ready (stops_nil _)
    rw [List.append_nil, ← Parser.expression_eq_atLevel] at read
    exact ⟨.inl fine, read⟩

theorem parse_eq_ok_iff {text : String} {e : Expr} :
    parse text = .ok e ↔ (Scan.ofText text).error = none ∧
      Derives maxNesting (.level .or) (Scan.ofText text).tokens e := by
  rw [← Scan.parse_iff_derives, parse]
  cases (Scan.ofText text).parse with
  | error failure => constructor <;> (intro same; cases same)
  | ok value => constructor <;> (intro same; cases same; rfl)

/-- A text parses as an expression exactly when it is free of lexical errors and its tokens derive
    the expression with at most `maxNesting` groups inside each other. -/
theorem parse_eq_ok_iff_derives (text : String) (e : Expr) :
    parse text = .ok e ↔
      ∃ tokens, tokenize text = .ok tokens ∧ Derives maxNesting (.level .or) tokens e := by
  rw [parse_eq_ok_iff]
  constructor
  · rintro ⟨fine, derives⟩
    exact ⟨_, Scan.toExcept_eq_ok_iff.mpr ⟨fine, rfl⟩, derives⟩
  · rintro ⟨tokens, tokenized, derives⟩
    obtain ⟨fine, rfl⟩ := Scan.toExcept_eq_ok_iff.mp tokenized
    exact ⟨fine, derives⟩

end FilterLang
