import FilterLang.Proofs.Token.Cut
import FilterLang.Proofs.Token.Layout
import FilterLang.Proofs.Token.Respelled

namespace FilterLang

namespace Munches

variable {text : List Char} {offset : Nat} {scan : Scan}

theorem le_position (munches : Munches text offset scan) :
    ∀ token ∈ scan.tokens, offset ≤ token.position := by
  have lies := munches.liesIn (List.replicate offset ' ') (List.length_replicate ..)
  rw [List.length_replicate] at lies
  exact lies.behind

theorem inSuffix?_eq_none (munches : Munches text offset scan)
    (other : ∀ token ∈ scan.tokens.head?, token.kind ≠ .isIn) : Token.inSuffix? text = none := by
  cases munches with
  | ending blank => exact Token.inSuffix?_of_blanks blank
  | token blank longest _ => exact Token.inSuffix?_of_lexeme blank longest (other _ rfl)
  | @unterminated _ _ quote _ blank isQuote _ =>
    refine Token.inSuffix?_behind_blanks blank (Text.headNot_cons.mpr ?_) (Text.headNot_cons.mpr ?_)
    all_goals rcases isQuote with rfl | rfl <;> decide
  | unexpected blank unexpected =>
    exact Token.inSuffix?_behind_blanks blank (Text.headNot_cons.mpr unexpected.notBlank)
      (Text.headNot_cons.mpr unexpected.notWord)

/-- A token in front of a text is the same in front of the start of the text, cut off where one of
    its tokens ends: a `not` finds no `in` there that it did not find before. -/
theorem cons_take {blanks lexeme after : List Char} {kind : Token.Kind} {tokens taken : List Token}
    {n : Nat} (blank : ∀ c ∈ blanks, Text.isBlank c = true)
    (longest : Token.Lexeme kind lexeme after)
    (apart : (⟨kind, String.ofList lexeme, offset + blanks.length⟩ :: tokens).IsChain Token.Apart)
    (start : taken <+: tokens)
    (cut : Munches (after.take n) (offset + blanks.length + lexeme.length) ⟨taken, none⟩) :
    Munches (blanks ++ (lexeme ++ after.take n)) offset
      (Scan.cons ⟨kind, String.ofList lexeme, offset + blanks.length⟩ ⟨taken, none⟩) := by
  have ends := Text.endsAs_cut (after.take n) (after.drop n)
  rw [List.take_append_drop] at ends
  refine .token blank (longest.transfer ends fun isName isNot => ?_) cut
  refine cut.inSuffix?_eq_none fun next first => ?_
  have found : next ∈ tokens.head? := by
    obtain ⟨more, rfl⟩ := start
    cases taken with
    | nil => cases first
    | cons => exact first
  refine (List.isChain_cons.mp apart).1 next found isName ?_
  rwa [String.toList_ofList]

theorem take_behind (blanks lexeme after : List Char) (n : Nat) :
    (blanks ++ (lexeme ++ after)).take (blanks.length + (lexeme.length + n)) =
      blanks ++ (lexeme ++ after.take n) := by
  rw [List.take_length_add_append, List.take_length_add_append]

/-- A text that is cut off where one of its tokens ends has the same tokens up to there. -/
theorem take (munches : Munches text offset scan) {before rest : List Token} {token : Token}
    (split : scan.tokens = before ++ token :: rest) :
    Munches (text.take (token.limit - offset)) offset ⟨before ++ [token], none⟩ := by
  induction munches generalizing before with
  | ending | unterminated | unexpected => cases before <;> cases split
  | @token blanks lexeme after offset kind scan blank longest munches ih =>
    have apart := (Munches.token blank longest munches).scanned.1.apart
    cases before with
    | nil =>
      cases split
      have limit : Token.limit ⟨kind, String.ofList lexeme, offset + blanks.length⟩ - offset =
          blanks.length + (lexeme.length + 0) := by
        rw [Token.limit_ofList]
        omega
      rw [limit, take_behind]
      exact cons_take blank longest apart List.nil_prefix (.ending nofun)
    | cons first before =>
      obtain ⟨rfl, others⟩ := List.cons.inj split
      have place := munches.le_position token (by simp [others])
      have limit : token.limit - offset = blanks.length +
          (lexeme.length + (token.limit - (offset + blanks.length + lexeme.length))) := by
        have : token.position ≤ token.limit := Nat.le_add_right ..
        omega
      rw [limit, take_behind]
      refine cons_take blank longest apart ?_ (ih others)
      rw [others]
      exact ⟨rest, by simp⟩

/-- A text that is cut off where one of its tokens starts has the same tokens before it. -/
theorem takeBefore (munches : Munches text offset scan) {before rest : List Token} {token : Token}
    (split : scan.tokens = before ++ token :: rest) :
    Munches (text.take (token.position - offset)) offset ⟨before, none⟩ := by
  induction munches generalizing before with
  | ending | unterminated | unexpected => cases before <;> cases split
  | @token blanks lexeme after offset kind scan blank longest munches ih =>
    cases before with
    | nil =>
      cases split
      have width : offset + blanks.length - offset = blanks.length := by omega
      rw [width, List.take_left]
      exact .ending blank
    | cons first before =>
      have apart := (Munches.token blank longest munches).scanned.1.apart
      obtain ⟨rfl, others⟩ := List.cons.inj split
      have place := munches.le_position token (by simp [others])
      have width : token.position - offset = blanks.length +
          (lexeme.length + (token.position - (offset + blanks.length + lexeme.length))) := by
        omega
      rw [width, take_behind]
      refine cons_take blank longest apart ?_ (ih others)
      rw [others]
      exact List.prefix_append ..

end Munches

def Scan.EndsAt (scan : Scan) (length : Nat) : Prop :=
  length = 0 ∨ ∃ token ∈ scan.tokens, length = token.limit

theorem Scan.ofText_take_of_endsAt {text : String} {length : Nat}
    (ends : (ofText text).EndsAt length) :
    ∃ taken, taken <+: (ofText text).tokens ∧
      ofText (String.ofList (text.toList.take length)) = ⟨taken, none⟩ := by
  rcases ends with rfl | ⟨token, member, rfl⟩
  · refine ⟨[], List.nil_prefix, ?_⟩
    exact Lexer.scan_of_end rfl
  · obtain ⟨before, rest, split⟩ := List.append_of_mem member
    have cut := (Lexer.munches_scan text.toList 0).take split
    refine ⟨before ++ [token], ⟨rest, by simp [split]⟩, ?_⟩
    rw [ofText, Lexer.ofText, String.toList_ofList]
    exact cut.scan_eq

end FilterLang
