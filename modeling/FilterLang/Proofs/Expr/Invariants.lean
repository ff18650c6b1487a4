import FilterLang.Proofs.Expr.Derived
import FilterLang.Proofs.Grammar.Acceptance
import Mathlib

namespace FilterLang

/-- Parsing builds well-formed trees only. -/
theorem wellFormed_of_parse {text : String} {e : Expr} (parsed : parse text = .ok e) :
    e.WellFormed := by
  obtain ⟨-, derives⟩ := parse_eq_ok_iff.mp parsed
  have scanned : Scanned (Scan.ofText text).tokens := Lexer.scanned text.toList 0
  exact ⟨derives.nodes scanned, derives.nesting_le⟩

/-- Every node of a parsed tree is as the data model says. -/
theorem invariant_of_parse {text : String} {e node : Expr} (parsed : parse text = .ok e)
    (inside : node ∈ e.nodes) : node.Invariant :=
  ((wellFormed_of_parse parsed).nodes node inside).invariant

theorem invariant_of_parse_membership :
    parse "tags has user.name" =
        .ok (.binary .has (.identifier "tags" false)
          (.member (.identifier "user" false) (.identifier "name" false) false false) false) ∧
      (Expr.member (.identifier "user" false) (.identifier "name" false) false false).Invariant :=
  have parsed : parse "tags has user.name" =
      .ok (.binary .has (.identifier "tags" false)
        (.member (.identifier "user" false) (.identifier "name" false) false false) false) := by cbv
  ⟨parsed, invariant_of_parse parsed (by simp [Expr.nodes])⟩

end FilterLang
