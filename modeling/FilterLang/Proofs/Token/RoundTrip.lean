import FilterLang.Proofs.Json.Fields
import FilterLang.Proofs.Json.Reading
import FilterLang.Proofs.Token.Layout
import FilterLang.Token.Json

namespace FilterLang

theorem position_lt_of_tokenize {text : String} {tokens : List Token}
    (read : tokenize text = .ok tokens) : ∀ token ∈ tokens, token.position < text.length := by
  obtain ⟨-, rfl⟩ := Scan.toExcept_eq_ok_iff.mp read
  have lies : (Scan.ofText text).LiesIn text.toList 0 :=
    (Lexer.munches_scan text.toList 0).liesIn [] rfl
  rw [← String.length_toList]
  exact lies.position_lt

namespace Token

variable {number : Numeral → Binary64}

theorem Kind.ofName?_name (kind : Kind) : ofName? kind.name = some kind := by
  cases kind with
  | boolean value => cases value <;> rfl
  | _ => rfl

/-- A token is read back exactly when 64 bits hold its position. -/
theorem ofJson?_reread (token : Token) :
    ofJson? (token.toJson.reread number) =
      if token.position < UInt64.size then some token else none := by
  have same : token.toJson.reread number =
      .object [("kind", .string token.kind.name), ("text", .string token.text),
        ("position", .scalar ((Json.Scalar.natural token.position).reread number))] := rfl
  rw [same, ofJson?]
  by_cases small : token.position < UInt64.size
  · simp [Json.field?_cons_self, Json.field?_cons_of_ne, Json.string, Json.string?,
      Kind.ofName?_name, Json.natural?_reread, small]
  · simp [Json.field?_cons_self, Json.field?_cons_of_ne, Json.natural?_reread, small]

/-- A list is read back as a whole or not at all. -/
theorem ofJsonList?_reread (tokens : List Token) :
    ofJsonList? ((listJson tokens).reread number) =
      if ∀ token ∈ tokens, token.position < UInt64.size then some tokens else none := by
  rw [listJson, Json.reread, ofJsonList?]
  induction tokens with
  | nil => rfl
  | cons token tokens ih =>
    rw [List.map_cons, Json.rereadElements, List.mapM_cons, ofJson?_reread, ih]
    simp only [List.forall_mem_cons]
    by_cases own : token.position < UInt64.size
    · by_cases others : ∀ token ∈ tokens, token.position < UInt64.size
      · rw [if_pos own, if_pos others, if_pos ⟨own, others⟩]
        rfl
      · rw [if_pos own, if_neg others, if_neg (mt And.right others)]
        rfl
    · rw [if_neg own, if_neg (mt And.left own)]
      rfl

/-- A list of tokens is read back from its text, in either layout and however other numbers are
    read, if 64 bits hold the positions. The tokens may have any characters. In particular those of
    a source are read back if 64 bits can count its characters. No other list can be read at all. -/
theorem ofJsonList?_readWith?_write (number : Numeral → Binary64) (indented : Bool)
    (tokens : List Token) :
    let read := (Json.readWith? number ((listJson tokens).write indented)).bind ofJsonList?
    ((∀ token ∈ tokens, token.position < UInt64.size) → read = some tokens) ∧
      ((∃ token ∈ tokens, UInt64.size ≤ token.position) → read = none) ∧
      ∀ text, tokenize text = .ok tokens → text.length ≤ UInt64.size → read = some tokens := by
  intro read
  have same : read =
      if ∀ token ∈ tokens, token.position < UInt64.size then some tokens else none :=
    (congrArg (·.bind ofJsonList?) (Json.readWith?_write number indented _)).trans
      (ofJsonList?_reread tokens)
  have kept (small : ∀ token ∈ tokens, token.position < UInt64.size) : read = some tokens := by
    rw [same, if_pos small]
  refine ⟨kept, fun ⟨token, member, large⟩ => ?_, fun text found fits => ?_⟩
  · rw [same, if_neg fun small => Nat.not_lt_of_le large (small token member)]
  · exact kept fun token member =>
      Nat.lt_of_lt_of_le (position_lt_of_tokenize found token member) fits

theorem ofJsonList?_readWith?_write_limits :
    let kept : List Token := [⟨.string, "\"\\\x1f\x7f𝄞", UInt64.size - 1⟩, ⟨.notIn, "not\nin", 0⟩]
    let beyond : List Token := [⟨.comma, ",", UInt64.size⟩]
    (∀ token ∈ kept, token.position < UInt64.size) ∧
      (Json.read? (listJson kept).pretty).bind ofJsonList? = some kept ∧
      (∃ token ∈ beyond, UInt64.size ≤ token.position) ∧
      (Json.read? (listJson beyond).compact).bind ofJsonList? = none ∧
      ∃ tokens, tokenize "tags has 'a\tb'" = .ok tokens ∧
        (Json.read? (listJson tokens).compact).bind ofJsonList? = some tokens := by
  intro kept beyond
  have small : ∀ token ∈ kept, token.position < UInt64.size := by decide
  have large : ∃ token ∈ beyond, UInt64.size ≤ token.position := by decide
  have read : tokenize "tags has 'a\tb'" =
      .ok [⟨.identifier, "tags", 0⟩, ⟨.has, "has", 5⟩, ⟨.string, "'a\tb'", 9⟩] := by
    decide +kernel
  have fits : "tags has 'a\tb'".length ≤ UInt64.size := by decide
  exact ⟨small, (ofJsonList?_readWith?_write Json.approximate true kept).1 small, large,
    (ofJsonList?_readWith?_write Json.approximate false beyond).2.1 large, _, read,
    (ofJsonList?_readWith?_write Json.approximate false _).2.2 _ read fits⟩

end Token

end FilterLang
