import FilterLang.Proofs.Expr.Invariants
import FilterLang.Proofs.Source.Spelled

namespace FilterLang

/-- A well-formed tree is what its source text parses as. -/
theorem Expr.WellFormed.parse_source {e : Expr} (wellFormed : e.WellFormed) :
    parse e.source = .ok e := by
  have spelled := e.sourceSpells maxNesting [] wellFormed.nodes wellFormed.nesting e.ends_nil
  have scans : Scans e.source.toList [] (Derives maxNesting (.level .or) · e) :=
    spelled.operand (Nat.zero_le _)
  obtain ⟨tokens, derives, same⟩ := scans 0
  have stop : Lexer.scan ⟨[], 0 + e.source.toList.length⟩ = ⟨[], none⟩ := Lexer.scan_of_end rfl
  rw [List.append_nil, stop] at same
  have scan : Scan.ofText e.source = ⟨tokens, none⟩ := by
    rw [Scan.ofText, Lexer.ofText, same]
    simp [Scan.prepend]
  rw [parse_eq_ok_iff, scan]
  exact ⟨rfl, derives⟩

/-- Source text gives back exactly the well-formed trees. -/
theorem parse_source_eq_ok_iff (e : Expr) : parse e.source = .ok e ↔ e.WellFormed :=
  ⟨wellFormed_of_parse, Expr.WellFormed.parse_source⟩

/-- The source text of a parsed tree parses as the same tree. -/
theorem parse_source_of_parse {text : String} {e : Expr} (parsed : parse text = .ok e) :
    parse e.source = .ok e :=
  (wellFormed_of_parse parsed).parse_source

theorem parse_source_of_parse_spaced :
    ∃ e, parse "( a  OR b ) . c [ 'x' ]IN[d.e,null]" = .ok e ∧
      e.source = "(a or b).c[\"x\"] in [d.e, null]" ∧ parse e.source = .ok e :=
  let e : Expr := .binary .isIn
    (.member
      (.member (.binary .or (.identifier "a" false) (.identifier "b" false) true)
        (.identifier "c" false) false false)
      (.literal (.string "x") false) true false)
    (.array [.member (.identifier "d" false) (.identifier "e" false) false false,
      .literal .null false] false)
    false
  have parsed : parse "( a  OR b ) . c [ 'x' ]IN[d.e,null]" = .ok e := by cbv
  ⟨e, parsed, by cbv, parse_source_of_parse parsed⟩

end FilterLang
