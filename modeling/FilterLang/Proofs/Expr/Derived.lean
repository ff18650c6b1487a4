import FilterLang.Proofs.Expr.WellFormed
import FilterLang.Proofs.Token.Scanned

namespace FilterLang

def Phrase.Fits : Phrase → Expr → Prop
  | .level l, e => l.rank ≤ e.level.rank
  | .primary, e => e.level = .member
  | .path, e => e.isPath = true
  | .element, e => e.isElement = true
  | .elements, e => ∃ es, e = .array es false ∧ ∀ x ∈ es, x.isElement = true

theorem Phrase.fits_member {base : Phrase} (accessed : base.isAccessed = true) {object : Expr}
    (fits : base.Fits object) (property : Expr) (computed : Bool) :
    base.Fits (.member object property computed false) := by
  cases base with
  | level level => exact level.rank_le_member
  | path => exact fits
  | primary | element | elements => contradiction

theorem Phrase.level_of_fits {base : Phrase} (accessed : base.isAccessed = true) {object : Expr}
    (fits : base.Fits object) : object.level = .member := by
  cases base with
  | level level =>
    cases level with
    | member => exact Level.eq_member_of_rank fits
    | _ => contradiction
  | path => cases object <;> first | rfl | contradiction
  | primary | element | elements => contradiction

theorem Binary64.isNegative_ofDecimal (negative : Bool) (d : Decimal) :
    (Binary64.ofDecimal negative d).isNegative = negative := by
  unfold Binary64.ofDecimal Binary64.ofRatio
  dsimp only
  repeat' split
  all_goals rfl

theorem Scanned.spellable {token : Token} {tokens : List Token} (scanned : Scanned tokens)
    (member : token ∈ tokens) {value : Literal} (found : token.literal? = some value) :
    value.Spellable := by
  unfold Token.literal? at found
  split at found
  · obtain ⟨x, read, found⟩ := Option.bind_eq_some_iff.mp found
    obtain ⟨d, -, rfl⟩ := Option.map_eq_some_iff.mp read
    split at found
    · next finite =>
      cases found
      exact ⟨finite, Binary64.isNegative_ofDecimal _ _⟩
    · cases found
  · next kind =>
    cases found
    obtain ⟨after, lexeme⟩ := scanned.lexemes token member
    rw [kind] at lexeme
    obtain ⟨quote, body, text, isQuote, absent⟩ := lexeme.of_string
    rintro ⟨double, single⟩
    rw [Token.unquoted_of_quoted text] at double single
    rcases isQuote with rfl | rfl <;> contradiction
  · cases found
    exact True.intro
  · cases found
    exact True.intro
  · cases found

namespace Derives

variable {n : Nat} {phrase : Phrase} {tokens : List Token} {e : Expr}

theorem fits (derives : Derives n phrase tokens e) : phrase.Fits e := by
  induction derives with
  | tighter _ ih => exact Nat.le_trans (Level.rank_le_tighter _) ih
  | join => exact Nat.le_refl _
  | root _ ih => exact Nat.le_of_eq (congrArg Level.rank ih.symm)
  | start | name | constant | emptyArray | constantElement => rfl
  | property accessed _ _ _ _ ih => exact Phrase.fits_member accessed ih _ _
  | key accessed _ _ _ _ ih _ => exact Phrase.fits_member accessed ih _ _
  | group => exact Expr.level_parenthesized _
  | array _ _ _ ih =>
    obtain ⟨es, rfl, _⟩ := ih
    rfl
  | @pathElement _ _ e _ ih => cases e <;> first | exact ih | contradiction
  | lastElement _ ih => exact ⟨_, rfl, by simpa [Phrase.Fits] using ih⟩
  | nextElement _ _ _ first others =>
    obtain ⟨_, same, elements⟩ := others
    cases same
    refine ⟨_, rfl, ?_⟩
    rw [List.forall_mem_cons]
    exact ⟨first, elements⟩

theorem nesting_le (derives : Derives n phrase tokens e) : e.nesting ≤ n := by
  induction derives with
  | tighter _ ih | root _ ih | array _ _ _ ih | pathElement _ ih => exact ih
  | start | name | constant | emptyArray | constantElement => exact Nat.zero_le _
  | join _ _ _ _ left right =>
    simp only [Expr.nesting, Bool.toNat_false]
    omega
  | property _ _ _ _ _ ih =>
    simp only [Expr.nesting, Bool.toNat_false]
    omega
  | key _ _ _ _ _ ih key =>
    simp only [Expr.nesting, Bool.toNat_false, Bool.toNat_true]
    omega
  | @group _ _ e _ _ _ _ _ ih =>
    have := e.nesting_parenthesized
    omega
  | lastElement _ ih => simpa [Expr.nesting, Expr.elementsNesting] using ih
  | nextElement _ _ _ first others =>
    simp only [Expr.nesting, Expr.elementsNesting, Bool.toNat_false, Nat.add_zero] at others ⊢
    omega

/-- A tree that ends in `not` is spelled by tokens that end in that name. -/
theorem last_of_endsInNot (derives : Derives n phrase tokens e) (ends : e.endsInNot = true) :
    ∃ before last, tokens = before ++ [last] ∧ last.kind = .identifier ∧
      Text.lower last.text.toList = ['n', 'o', 't'] := by
  induction derives with
  | tighter _ ih | root _ ih | pathElement _ ih => exact ih ends
  | start kind | name kind => exact ⟨[], _, rfl, kind, by simpa [Expr.endsInNot] using ends⟩
  | constant | constantElement | emptyArray | key | lastElement | nextElement =>
    simp [Expr.endsInNot] at ends
  | @join _ _ token ls _ _ _ _ _ _ _ _ right =>
    obtain ⟨before, last, rfl, kind, isNot⟩ := right (by simpa [Expr.endsInNot] using ends)
    exact ⟨ls ++ token :: before, last, by simp, kind, isNot⟩
  | @property _ _ tokens _ point name _ _ _ _ kind _ =>
    exact ⟨tokens ++ [point], name, by simp, kind, by simpa [Expr.endsInNot] using ends⟩
  | @group _ _ e _ _ _ _ _ _ => cases e <;> simp [Expr.parenthesized, Expr.endsInNot] at ends
  | array _ inside _ _ =>
    obtain ⟨es, rfl, _⟩ := inside.fits
    simp [Expr.endsInNot] at ends

/-- Scanned tokens spell only trees whose nodes are all in order. -/
theorem nodes (derives : Derives n phrase tokens e) (scanned : Scanned tokens) :
    e.Throughout Expr.InOrder := by
  induction derives with
  | tighter _ ih | root _ ih | pathElement _ ih => exact ih scanned
  | start kind | name kind =>
    exact Expr.throughout_identifier.mpr ⟨scanned.isName (by simp) kind, True.intro⟩
  | constant found | constantElement found =>
    exact Expr.throughout_literal.mpr ⟨scanned.spellable (by simp) found, True.intro⟩
  | @join _ operator token ls rs left right derivesLeft spells derivesRight accepts ihLeft ihRight =>
    have scannedRight := scanned.right.tail
    refine Expr.throughout_binary.mpr ⟨⟨accepts, ?_⟩, ihLeft scanned.left, ihRight scannedRight⟩
    refine ⟨derivesLeft.fits, derivesRight.fits, fun isIn => Bool.eq_false_iff.mpr fun ends => ?_⟩
    obtain ⟨before, last, rfl, kind, isNot⟩ := derivesLeft.last_of_endsInNot ends
    rw [List.append_assoc] at scanned
    have apart := List.isChain_cons_cons.mp scanned.right.apart
    exact apart.1 kind isNot (by rw [spells.1, isIn]; rfl)
  | @property _ base tokens object point name accessed derivesObject notLiteral _ kind ih =>
    have isName : Token.IsName name.text := scanned.right.isName (by simp) kind
    refine Expr.throughout_member.mpr ⟨⟨fun _ => ⟨notLiteral, rfl⟩, ?_⟩, ih scanned.left, ?_⟩
    · exact Phrase.level_of_fits accessed derivesObject.fits
    · exact Expr.throughout_identifier.mpr ⟨isName, True.intro⟩
  | key accessed derivesObject _ _ _ ih ihKey =>
    refine Expr.throughout_member.mpr ⟨⟨nofun, ?_⟩, ih scanned.left, ?_⟩
    · exact Phrase.level_of_fits accessed derivesObject.fits
    · exact ihKey scanned.right.tail.left
  | group _ _ _ ih =>
    exact (Expr.throughout_parenthesized Expr.inOrder_parenthesized).mpr (ih scanned.tail.left)
  | emptyArray => exact Expr.throughout_array.mpr ⟨⟨by simp [Expr.Invariant], True.intro⟩, by simp⟩
  | array _ _ _ ih => exact ih scanned.tail.left
  | lastElement derivesElement ih =>
    have element : Expr.isElement _ = true := derivesElement.fits
    refine Expr.throughout_array.mpr ⟨⟨?_, True.intro⟩, by simpa using ih scanned⟩
    simpa [Expr.Invariant] using ⟨element, Expr.isScalar_of_isElement element⟩
  | nextElement derivesElement _ _ ih ihOthers =>
    have element : Expr.isElement _ = true := derivesElement.fits
    obtain ⟨⟨invariant, _⟩, others⟩ := Expr.throughout_array.mp (ihOthers scanned.right.tail)
    refine Expr.throughout_array.mpr ⟨⟨?_, True.intro⟩, ?_⟩
    · exact List.forall_mem_cons.mpr ⟨⟨element, Expr.isScalar_of_isElement element⟩, invariant⟩
    · exact List.forall_mem_cons.mpr ⟨ih scanned.left, others⟩

end Derives

end FilterLang
