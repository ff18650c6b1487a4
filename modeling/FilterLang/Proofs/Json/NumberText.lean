import FilterLang.Numeral
import FilterLang.Proofs.Binary64.Style

namespace FilterLang

namespace Numeral

def signPart (negative : Bool) : List Char := if negative then ['-'] else []

def goesOn (c : Char) : Bool := c.isDigit || c == '.' || c == 'e' || c == 'E'

theorem takeMinus_signPart {body : List Char} (negative : Bool)
    (start : Text.HeadNot (· == '-') body) :
    takeMinus (signPart negative ++ body) = (negative, body) := by
  cases negative with
  | true => rfl
  | false =>
    cases body with
    | nil => rfl
    | cons c body =>
      have other : c ≠ '-' := by simpa using Text.headNot_cons.mp start
      simp [signPart, takeMinus, other]

theorem scanFraction_pointPart {places after : List Char}
    (isPlaces : ∀ c ∈ places, c.isDigit = true)
    (ends : Text.HeadNot (fun c => c.isDigit || c == '.') after) :
    scanFraction (pointPart places ++ after) = (places, after) := by
  cases places with
  | nil =>
    cases after with
    | nil => rfl
    | cons c after =>
      have other : c ≠ '.' := by
        rintro rfl
        cases Text.headNot_cons.mp ends
      simp [pointPart, scanFraction, other]
  | cons digit places =>
    have stop : Text.HeadNot Char.isDigit after := fun c first => by
      have := ends c first
      simp only [Bool.or_eq_false_iff] at this
      exact this.1
    have taken := Text.takeWhile_run isPlaces stop
    have left := Text.dropWhile_run isPlaces stop
    rw [List.cons_append] at taken left
    simp [pointPart, scanFraction, taken, left]

theorem scanExponent_none {after : List Char}
    (ends : Text.HeadNot (fun c => c == 'e' || c == 'E') after) :
    scanExponent after = (none, after) := by
  cases after with
  | nil => rfl
  | cons c after =>
    have other := Text.headNot_cons.mp ends
    simp [scanExponent, other]

inductive ExponentText : List Char → Option Int → Prop where
  | absent : ExponentText [] none
  | present {mark : Char} {sign digits : List Char} {negative : Bool} :
      mark ∈ ['e', 'E'] → (sign, negative) ∈ [([], false), (['+'], false), (['-'], true)] →
      Token.IsDigits digits →
      ExponentText (mark :: (sign ++ digits))
        (some (if negative then -(Nat.ofDigitChars 10 digits 0 : Int)
          else Nat.ofDigitChars 10 digits 0))

theorem takeSign_of_sign {sign digits : List Char} {negative : Bool}
    (isSign : (sign, negative) ∈ [([], false), (['+'], false), (['-'], true)])
    (start : Text.HeadNot (fun c => c == '+' || c == '-') digits) :
    takeSign (sign ++ digits) = (negative, digits) := by
  simp only [List.mem_cons, Prod.mk.injEq, List.not_mem_nil, or_false] at isSign
  rcases isSign with ⟨rfl, rfl⟩ | ⟨rfl, rfl⟩ | ⟨rfl, rfl⟩
  · cases digits with
    | nil => rfl
    | cons c digits =>
      have other := Text.headNot_cons.mp start
      simp only [Bool.or_eq_false_iff, beq_eq_false_iff_ne] at other
      simp [takeSign, takeMinus, other]
  · rfl
  · rfl

theorem ExponentText.scanExponent_eq {tail after : List Char} {exponent : Option Int}
    (isExponent : ExponentText tail exponent) (ends : Text.HeadNot goesOn after) :
    scanExponent (tail ++ after) = (exponent, after) := by
  have stop : Text.HeadNot Char.isDigit after := fun c first => by
    have := ends c first
    simp only [goesOn, Bool.or_eq_false_iff] at this
    exact this.1.1.1
  cases isExponent with
  | absent =>
    refine scanExponent_none fun c first => ?_
    have := ends c first
    simp only [goesOn, Bool.or_eq_false_iff] at this ⊢
    exact ⟨this.1.2, this.2⟩
  | @present mark sign digits negative isMark isSign isDigits =>
    have start : Text.HeadNot (fun c => c == '+' || c == '-') (digits ++ after) := by
      refine Text.HeadNot.append (fun c first => ?_) isDigits.nonempty
      have digit := isDigits.inside c (List.mem_of_mem_head? first)
      simp only [Bool.or_eq_false_iff, beq_eq_false_iff_ne]
      constructor <;> (rintro rfl; cases digit)
    have taken := Text.takeWhile_run isDigits.inside stop
    have left := Text.dropWhile_run isDigits.inside stop
    simp only [List.cons_append, List.append_assoc, scanExponent, takeSign_of_sign isSign start,
      taken, left]
    rw [if_pos]
    simpa [isDigits.nonempty] using isMark

theorem ExponentText.headNot {tail after : List Char} {exponent : Option Int}
    (isExponent : ExponentText tail exponent) (ends : Text.HeadNot goesOn after) :
    Text.HeadNot (fun c => c.isDigit || c == '.') (tail ++ after) := by
  cases isExponent with
  | absent =>
    intro c first
    have := ends c first
    simp only [goesOn, Bool.or_eq_false_iff] at this ⊢
    exact this.1.1
  | present isMark =>
    simp only [List.mem_cons, List.not_mem_nil, or_false] at isMark
    rcases isMark with rfl | rfl <;> exact Text.headNot_cons.mpr rfl

/-- The exponent is scanned off where no digit and no point can stand. -/
theorem scan?_of_scanExponent {whole places tail rest : List Char} {exponent : Option Int}
    (negative : Bool) (isWhole : Token.IsDigits whole)
    (isPlaces : ∀ c ∈ places, c.isDigit = true)
    (ends : Text.HeadNot (fun c => c.isDigit || c == '.') tail)
    (scans : scanExponent tail = (exponent, rest)) :
    scan? (signPart negative ++ (whole ++ (pointPart places ++ tail))) =
      some (⟨negative, whole, places, exponent.getD 0,
        !negative && places.isEmpty && exponent.isNone⟩, rest) := by
  have unsigned : Text.HeadNot (· == '-') (whole ++ (pointPart places ++ tail)) := by
    refine Text.HeadNot.append (fun c first => ?_) isWhole.nonempty
    have digit := isWhole.inside c (List.mem_of_mem_head? first)
    simp only [beq_eq_false_iff_ne]
    rintro rfl
    cases digit
  have stop : Text.HeadNot Char.isDigit (pointPart places ++ tail) := by
    cases places with
    | nil =>
      intro c first
      have := ends c first
      simp only [Bool.or_eq_false_iff] at this
      exact this.1
    | cons => exact Text.headNot_cons.mpr rfl
  have taken := Text.takeWhile_run isWhole.inside stop
  have left := Text.dropWhile_run isWhole.inside stop
  simp [scan?, takeMinus_signPart negative unsigned, taken, left, isWhole.nonempty,
    scanFraction_pointPart isPlaces ends, scans]

theorem ExponentText.scan?_eq {whole places tail after : List Char} {exponent : Option Int}
    (isExponent : ExponentText tail exponent) (negative : Bool) (isWhole : Token.IsDigits whole)
    (isPlaces : ∀ c ∈ places, c.isDigit = true) (ends : Text.HeadNot goesOn after) :
    scan? (signPart negative ++ (whole ++ (pointPart places ++ tail)) ++ after) =
      some (⟨negative, whole, places, exponent.getD 0,
        !negative && places.isEmpty && exponent.isNone⟩, after) := by
  simp only [List.append_assoc]
  exact scan?_of_scanExponent negative isWhole isPlaces (isExponent.headNot ends)
    (isExponent.scanExponent_eq ends)

/-- The text of a number: no zeros stand in front of other digits, and digits on both sides of a
    point. -/
inductive NumberText : List Char → Numeral → Prop where
  | parts {whole places tail : List Char} {exponent : Option Int} (negative : Bool) :
      Token.IsDigits whole → (whole.head? = some '0' → whole.length = 1) →
      (∀ c ∈ places, c.isDigit = true) → ExponentText tail exponent →
      NumberText (signPart negative ++ (whole ++ (pointPart places ++ tail)))
        ⟨negative, whole, places, exponent.getD 0,
          !negative && places.isEmpty && exponent.isNone⟩

theorem NumberText.scan?_eq {text after : List Char} {numeral : Numeral}
    (isNumber : NumberText text numeral) (ends : Text.HeadNot goesOn after) :
    scan? (text ++ after) = some (numeral, after) := by
  obtain ⟨negative, isWhole, _, isPlaces, isExponent⟩ := isNumber
  exact isExponent.scan?_eq negative isWhole isPlaces ends

theorem takeMinus_split {text body : List Char} {negative : Bool}
    (taken : takeMinus text = (negative, body)) : text = signPart negative ++ body := by
  unfold takeMinus at taken
  split at taken <;> cases taken <;> rfl

theorem takeSign_split {text body : List Char} {negative : Bool}
    (taken : takeSign text = (negative, body)) :
    ∃ sign, (sign, negative) ∈ [([], false), (['+'], false), (['-'], true)] ∧
      text = sign ++ body := by
  unfold takeSign at taken
  split at taken
  · cases taken
    exact ⟨['+'], by simp, rfl⟩
  · have split := takeMinus_split taken
    cases negative with
    | true => exact ⟨['-'], by simp, split⟩
    | false => exact ⟨[], by simp, split⟩

theorem isDigits_of_takeWhile {text digits : List Char}
    (taken : text.takeWhile Char.isDigit = digits) (nonempty : digits.isEmpty = false) :
    Token.IsDigits digits := by
  subst taken
  exact ⟨List.isEmpty_eq_false_iff.mp nonempty, fun c => List.mem_takeWhile_imp⟩

theorem scanFraction_split {text places after : List Char}
    (scanned : scanFraction text = (places, after)) :
    text = pointPart places ++ after ∧ ∀ c ∈ places, c.isDigit = true := by
  unfold scanFraction at scanned
  split at scanned
  · next rest =>
    dsimp only at scanned
    split at scanned
    · cases scanned
      exact ⟨rfl, nofun⟩
    · next some =>
      cases scanned
      have nonempty : rest.takeWhile Char.isDigit ≠ [] := by simpa using some
      refine ⟨?_, fun c => List.mem_takeWhile_imp⟩
      rw [pointPart_of_ne_nil nonempty, List.cons_append, List.takeWhile_append_dropWhile]
  · cases scanned
    exact ⟨rfl, nofun⟩

theorem scanExponent_split {text after : List Char} {exponent : Option Int}
    (scanned : scanExponent text = (exponent, after)) :
    ∃ tail, text = tail ++ after ∧ ExponentText tail exponent := by
  unfold scanExponent at scanned
  split at scanned
  · cases scanned
    exact ⟨[], rfl, .absent⟩
  · next mark rest =>
    cases signed : takeSign rest with
    | mk negative body =>
    simp only [signed] at scanned
    split at scanned
    · next present =>
      cases scanned
      simp only [Bool.and_eq_true, Bool.or_eq_true, beq_iff_eq, Bool.not_eq_true'] at present
      obtain ⟨sign, isSign, rfl⟩ := takeSign_split signed
      have isDigits := isDigits_of_takeWhile rfl present.2
      refine ⟨_, ?_, .present (by simpa using present.1) isSign isDigits⟩
      rw [List.cons_append, List.append_assoc, List.takeWhile_append_dropWhile]
    · cases scanned
      exact ⟨[], rfl, .absent⟩

theorem numberText_of_scan? {text after : List Char} {numeral : Numeral}
    (scans : scan? text = some (numeral, after))
    (tidy : numeral.whole.head? = some '0' → numeral.whole.length = 1) :
    ∃ taken, text = taken ++ after ∧ NumberText taken numeral := by
  unfold scan? at scans
  cases minus : takeMinus text with
  | mk negative body =>
  cases point : scanFraction (body.dropWhile Char.isDigit) with
  | mk places afterPlaces =>
  cases mark : scanExponent afterPlaces with
  | mk exponent rest =>
  simp only [minus, point, mark] at scans
  split at scans
  · cases scans
  · next some =>
    cases scans
    obtain rfl := takeMinus_split minus
    obtain ⟨splitPlaces, isPlaces⟩ := scanFraction_split point
    obtain ⟨tail, rfl, isExponent⟩ := scanExponent_split mark
    have isWhole := isDigits_of_takeWhile rfl (by simpa using some)
    refine ⟨_, ?_, .parts negative isWhole tidy isPlaces isExponent⟩
    rw [List.append_assoc, List.append_assoc, List.append_assoc, ← splitPlaces,
      List.takeWhile_append_dropWhile]

end Numeral

end FilterLang
