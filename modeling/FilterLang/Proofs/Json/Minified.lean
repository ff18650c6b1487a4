import FilterLang.Proofs.Json.RoundTrip
import FilterLang.Token.Json

namespace FilterLang

namespace Json

inductive Place where
  | outside
  | inside
  | escaped
  deriving DecidableEq

namespace Place

def next : Place → Char → Place
  | outside, c => if c = '"' then inside else outside
  | inside, c => if c = '"' then outside else if c = '\\' then escaped else inside
  | escaped, _ => inside

def walk (place : Place) : List Char → List (Place × Char)
  | [] => []
  | c :: rest => (place, c) :: (place.next c).walk rest

theorem walk_append (place : Place) (first second : List Char) :
    place.walk (first ++ second) = place.walk first ++ (first.foldl next place).walk second := by
  induction first generalizing place with
  | nil => rfl
  | cons c first ih => simp [walk, ih]

theorem map_snd_walk (place : Place) (text : List Char) :
    (place.walk text).map Prod.snd = text := by
  induction text generalizing place with
  | nil => rfl
  | cons c text ih => simp [walk, ih]

end Place

def isLayout (located : Place × Char) : Bool :=
  located.1 == .outside && (located.2 == ' ' || located.2 == '\n')

def minified (text : List Char) : List Char :=
  ((Place.outside.walk text).filter (!isLayout ·)).map Prod.snd

-- Spaces inside a string are kept, also behind an escaped quote.
example : minified "[\n  \"a \\\" b\"\n]".toList = "[\"a \\\" b\"]".toList := by cbv

def IsVisible (c : Char) : Prop := 0x20 < c.toNat ∧ c ≠ '"'

instance (c : Char) : Decidable (IsVisible c) := inferInstanceAs (Decidable (_ ∧ _))

/-- A text that leads from one place to another has no control characters, and no spaces outside
    string literals. -/
structure Dense (start stop : Place) (text : List Char) : Prop where
  stops : text.foldl Place.next start = stop
  clean : ∀ located ∈ start.walk text,
    0x20 ≤ located.2.toNat ∧ (located.1 = .outside → located.2 ≠ ' ')

namespace Dense

variable {start middle stop : Place} {first second : List Char}

theorem nil : Dense start start [] := ⟨rfl, nofun⟩

theorem append (left : Dense start middle first) (right : Dense middle stop second) :
    Dense start stop (first ++ second) := by
  constructor
  · rw [List.foldl_append, left.stops, right.stops]
  · rw [Place.walk_append, left.stops]
    exact List.forall_mem_append.mpr ⟨left.clean, right.clean⟩

theorem flatMap {α : Type} {text : α → List Char} (each : ∀ x, Dense start start (text x))
    (xs : List α) : Dense start start (xs.flatMap text) := by
  induction xs with
  | nil => exact .nil
  | cons x xs ih => exact (each x).append ih

theorem char (start : Place) {c : Char} (visible : 0x20 ≤ c.toNat)
    (noSpace : start = .outside → c ≠ ' ') :
    Dense start (start.next c) [c] :=
  ⟨rfl, by simpa [Place.walk] using ⟨visible, noSpace⟩⟩

/-- Visible characters stay outside string literals if there is no quote among them. -/
theorem visible {text : List Char} (inside : ∀ c ∈ text, IsVisible c) :
    Dense .outside .outside text := by
  induction text with
  | nil => exact .nil
  | cons c text ih =>
    obtain ⟨⟨high, noQuote⟩, inside⟩ := List.forall_mem_cons.mp inside
    have noSpace : c ≠ ' ' := by
      rintro rfl
      exact absurd high (by decide)
    have own := char .outside high.le fun _ => noSpace
    rw [Place.next, if_neg noQuote] at own
    exact own.append (ih inside)

end Dense

theorem dense_escape (c : Char) : Dense .inside .inside (escape c) := by
  by_cases control : c.toNat < 0x20
  · have all : ∀ n < 0x20,
        (escape (Char.ofNat n)).foldl Place.next .inside = .inside ∧
          ∀ located ∈ Place.inside.walk (escape (Char.ofNat n)),
            0x20 ≤ located.2.toNat ∧ (located.1 = .outside → located.2 ≠ ' ') := by decide
    obtain ⟨stops, clean⟩ := all c.toNat control
    rw [Char.ofNat_toNat] at stops clean
    exact ⟨stops, clean⟩
  · by_cases quote : c = '"'
    · subst quote
      exact ⟨rfl, by decide⟩
    · by_cases backslash : c = '\\'
      · subst backslash
        exact ⟨rfl, by decide⟩
      · have plain : escape c = [c] := by
          unfold escape
          split <;> first | contradiction | simp_all
        have own := Dense.char .inside (Nat.le_of_not_lt control) nofun
        rwa [Place.next, if_neg quote, if_neg backslash, ← plain] at own

theorem dense_string (value : String) :
    Dense .outside .outside (Scalar.string value).text.toList := by
  have opening : Dense .outside .inside ['"'] := ⟨rfl, by decide⟩
  have closing : Dense .inside .outside ['"'] := ⟨rfl, by decide⟩
  have characters := Dense.flatMap dense_escape value.toList
  have whole := (opening.append characters).append closing
  rwa [Scalar.text, String.toList_ofList]

theorem isVisible_of_isDigit {c : Char} (digit : c.isDigit = true) : IsVisible c := by
  have bounds := Text.isWord_bounds (Text.isWord_of_isDigit digit)
  refine ⟨by omega, ?_⟩
  rintro rfl
  cases digit

theorem isVisible_toDigits (n : Nat) : ∀ c ∈ Nat.toDigits 10 n, IsVisible c :=
  fun _ member =>
    isVisible_of_isDigit (Nat.isDigit_of_mem_toDigits (by decide) (by decide) member)

theorem isVisible_of_spells {text : List Char} {numeral : Numeral}
    (spells : Numeral.Spells text numeral) : ∀ c ∈ text, IsVisible c := by
  obtain @⟨whole, places, negative, exponent, isWhole, isPlaces⟩ := spells
  have sign : ∀ c ∈ Numeral.signPart negative, IsVisible c := by
    cases negative <;> simp [Numeral.signPart, IsVisible]
  have point : ∀ c ∈ pointPart places, IsVisible c := by
    cases places with
    | nil => exact List.forall_mem_nil _
    | cons digit places =>
      refine List.forall_mem_cons.mpr ⟨by decide, fun c member => ?_⟩
      exact isVisible_of_isDigit (isPlaces c member)
  have exponent : ∀ c ∈ Numeral.exponentPart exponent, IsVisible c := by
    cases exponent with
    | none => exact List.forall_mem_nil _
    | some e =>
      refine List.forall_mem_cons.mpr ⟨by decide, List.forall_mem_cons.mpr ⟨?_, ?_⟩⟩
      · split <;> decide
      · exact isVisible_toDigits e.natAbs
  have digits : ∀ c ∈ whole, IsVisible c := fun c member =>
    isVisible_of_isDigit (isWhole.inside c member)
  simp only [List.forall_mem_append]
  exact ⟨sign, digits, point, exponent⟩

theorem isVisible_render (x : Binary64) :
    ∀ c ∈ (numberStyle.render x).toList, IsVisible c := by
  by_cases finite : x.isFinite = true
  · obtain ⟨numeral, renders⟩ := exists_renders finite
    exact isVisible_of_spells renders.spells
  · rw [render_of_not_finite finite]
    simp [IsVisible]

/-- Every piece is dense, whatever its strings hold. -/
theorem dense_text (piece : Lexeme) : Dense .outside .outside piece.text.toList := by
  cases piece with
  | scalar value =>
    cases value with
    | string value => exact dense_string value
    | natural value =>
      rw [Lexeme.text, Scalar.text, String.toList_ofList]
      exact .visible (isVisible_toDigits value)
    | real value => exact .visible (isVisible_render value)
    | boolean value => cases value <;> exact ⟨rfl, by decide⟩
    | null | unrepresentable => exact ⟨rfl, by decide⟩
  | _ => exact ⟨rfl, by decide⟩

theorem dense_compact (value : Json) : Dense .outside .outside value.compact.toList := by
  rw [compact, String.toList_join, List.flatMap_map]
  exact Dense.flatMap dense_text value.lexemes

theorem Dense.minified_eq {stop : Place} {text : List Char} (dense : Dense .outside stop text) :
    minified text = text := by
  have kept : (Place.outside.walk text).filter (!isLayout ·) = Place.outside.walk text := by
    refine List.filter_eq_self.mpr fun located member => ?_
    obtain ⟨high, noSpace⟩ := dense.clean located member
    have noLine : located.2 ≠ '\n' := fun line => by
      rw [line] at high
      exact absurd high (by decide)
    by_cases outside : located.1 = .outside
    · simp [isLayout, noSpace outside, noLine]
    · simp [isLayout, outside]
  rw [minified, kept, Place.map_snd_walk]

theorem minified_append {first : List Char} (second : List Char)
    (stops : first.foldl Place.next .outside = .outside) :
    minified (first ++ second) = minified first ++ minified second := by
  rw [minified, Place.walk_append, stops, List.filter_append, List.map_append]
  rfl

theorem minified_gap_append {gap : List Char} (layout : ∀ c ∈ gap, c = ' ' ∨ c = '\n')
    (text : List Char) : minified (gap ++ text) = minified text := by
  induction gap with
  | nil => rfl
  | cons c gap ih =>
    obtain ⟨own, others⟩ := List.forall_mem_cons.mp layout
    rcases own with rfl | rfl <;> exact ih others

theorem minified_layOut (depth : Nat) (before : Lexeme) (pieces : List Lexeme) :
    minified ((layOut depth before pieces).flatMap String.toList) =
      pieces.flatMap (·.text.toList) := by
  induction pieces generalizing depth before with
  | nil => rfl
  | cons piece pieces ih =>
    have dense := dense_text piece
    rw [layOut, List.flatMap_cons, List.flatMap_cons, List.flatMap_cons,
      minified_gap_append (eq_of_mem_gap depth before piece), minified_append _ dense.stops,
      dense.minified_eq, ih]

theorem minified_pretty (value : Json) : minified value.pretty.toList = value.compact.toList := by
  unfold pretty compact
  cases value.lexemes with
  | nil => rfl
  | cons first rest =>
    have dense := dense_text first
    dsimp only
    rw [String.toList_join, String.toList_join, List.flatMap_cons, minified_append _ dense.stops,
      dense.minified_eq, minified_layOut, List.flatMap_map, List.flatMap_cons]

/-- Two texts of one value: the second is the first without its layout, and has none itself. -/
structure DifferInLayout (laid dense : String) : Prop where
  minified : minified laid.toList = dense.toList
  noControl : ∀ c ∈ dense.toList, 0x20 ≤ c.toNat
  noSpace : ∀ located ∈ Place.outside.walk dense.toList,
    located.1 = .outside → located.2 ≠ ' '
  sameValue : ∀ number, ∃ value,
    readWith? number laid = some value ∧ readWith? number dense = some value

theorem differInLayout (value : Json) : DifferInLayout value.pretty value.compact where
  minified := minified_pretty value
  noControl := by
    intro c member
    rw [← Place.map_snd_walk .outside value.compact.toList] at member
    obtain ⟨located, inside, rfl⟩ := List.mem_map.mp member
    exact ((dense_compact value).clean located inside).1
  noSpace := fun located inside => ((dense_compact value).clean located inside).2
  sameValue := fun number =>
    ⟨_, readWith?_write number true value, readWith?_write number false value⟩

end Json

/-- The indented and the compact text of a tree, and of a list of tokens, differ in layout only, and
    are read as the same tree and the same tokens. -/
theorem differInLayout_outputs (e : Expr) (tokens : List Token) :
    (Json.DifferInLayout e.toJson.pretty e.toJson.compact ∧
      ∀ number, (Json.readWith? number e.toJson.pretty).bind Expr.ofJson? =
        (Json.readWith? number e.toJson.compact).bind Expr.ofJson?) ∧
    (Json.DifferInLayout (Token.listJson tokens).pretty (Token.listJson tokens).compact ∧
      ∀ number, (Json.readWith? number (Token.listJson tokens).pretty).bind Token.ofJsonList? =
        (Json.readWith? number (Token.listJson tokens).compact).bind Token.ofJsonList?) := by
  have same : ∀ (value : Json) number,
      Json.readWith? number value.pretty = Json.readWith? number value.compact := by
    intro value number
    obtain ⟨read, laid, dense⟩ := value.differInLayout.sameValue number
    rw [laid, dense]
  exact ⟨⟨e.toJson.differInLayout, fun number => by rw [same]⟩,
    ⟨(Token.listJson tokens).differInLayout, fun number => by rw [same]⟩⟩

end FilterLang
