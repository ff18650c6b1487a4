import FilterLang.Json.Lexeme
import FilterLang.Json.Writer

namespace FilterLang.Json

theorem hexDigit?_hexDigit (n : Nat) : hexDigit? (hexDigit n) = some (n % 16) := by
  have all : ∀ digit : Fin 16, hexDigit? (Nat.digitChar digit) = some digit.val := by decide
  exact all ⟨n % 16, Nat.mod_lt n (by decide)⟩

theorem hex4?_hexDigit {n : Nat} (small : n < 0x20) :
    hex4? '0' '0' (hexDigit (n / 16)) (hexDigit n) = some n := by
  have zero : hexDigit? '0' = some 0 := rfl
  have high : n / 16 % 16 = n / 16 := Nat.mod_eq_of_lt (by omega)
  simp only [hex4?, zero, hexDigit?_hexDigit, high, Option.bind_eq_bind, Option.bind_some,
    Option.pure_def, Option.some.injEq]
  omega

def withPart (part : StringPart) (read : Option (List StringPart × List Char)) :
    Option (List StringPart × List Char) :=
  read.map fun (parts, after) => (part :: parts, after)

theorem scanString?_char {c : Char} (quote : c ≠ '"') (backslash : c ≠ '\\')
    (plain : ¬ c.toNat < 0x20) (text : List Char) :
    scanString? (c :: text) = withPart (.char c) (scanString? text) := by
  rw [scanString?, if_neg plain]
  · cases scanString? text <;> rfl
  · exact quote
  · exact fun _ _ _ _ _ same => absurd same backslash
  · exact fun _ _ same => absurd same backslash

theorem scanString?_escaped {letter c : Char} (isEscape : escaped? letter = some c)
    (text : List Char) :
    scanString? ('\\' :: letter :: text) = withPart (.char c) (scanString? text) := by
  rw [scanString?, isEscape]
  · cases scanString? text <;> rfl
  · rintro _ _ _ _ _ rfl
    cases isEscape

theorem scanString?_hex {a b c d : Char} {value : Nat} (isHex : hex4? a b c d = some value)
    (text : List Char) :
    scanString? ('\\' :: 'u' :: a :: b :: c :: d :: text) =
      withPart (.unit value) (scanString? text) := by
  rw [scanString?, isHex]
  cases scanString? text <;> rfl

/-- The text between the quotes of a string, and the characters that it stands for. Two escaped
    surrogates that make a pair stand for one character, and other surrogates cannot be escaped. -/
inductive Characters : List Char → List Char → Prop where
  | ending : Characters [] []
  | plain {c : Char} {text characters : List Char} :
      c ≠ '"' → c ≠ '\\' → ¬ c.toNat < 0x20 → Characters text characters →
      Characters (c :: text) (c :: characters)
  | escaped {letter c : Char} {text characters : List Char} :
      escaped? letter = some c → Characters text characters →
      Characters ('\\' :: letter :: text) (c :: characters)
  | unit {a b c d : Char} {value : Nat} {text characters : List Char} :
      hex4? a b c d = some value → isHighSurrogate value = false → isLowSurrogate value = false →
      Characters text characters →
      Characters ('\\' :: 'u' :: a :: b :: c :: d :: text) (Char.ofNat value :: characters)
  | pair {a b c d a' b' c' d' : Char} {high low : Nat} {text characters : List Char} :
      hex4? a b c d = some high → isHighSurrogate high = true →
      hex4? a' b' c' d' = some low → isLowSurrogate low = true → Characters text characters →
      Characters ('\\' :: 'u' :: a :: b :: c :: d :: '\\' :: 'u' :: a' :: b' :: c' :: d' :: text)
        (Char.ofNat (0x10000 + (high - 0xD800) * 0x400 + (low - 0xDC00)) :: characters)

inductive PartText : StringPart → List Char → Prop where
  | plain {c : Char} : c ≠ '"' → c ≠ '\\' → ¬ c.toNat < 0x20 → PartText (.char c) [c]
  | escaped {letter c : Char} : escaped? letter = some c → PartText (.char c) ['\\', letter]
  | unit {a b c d : Char} {value : Nat} : hex4? a b c d = some value →
      PartText (.unit value) ['\\', 'u', a, b, c, d]

/-- A string that is scanned starts with its closing quote or with its first part. -/
theorem scanString?_cases {text after : List Char} {parts : List StringPart}
    (scanned : scanString? text = some (parts, after)) :
    (parts = [] ∧ text = '"' :: after) ∨
      ∃ part others head rest, parts = part :: others ∧ text = head ++ rest ∧
        PartText part head ∧ scanString? rest = some (others, after) := by
  unfold scanString? at scanned
  split at scanned
  · cases scanned
  · cases scanned
    exact .inl ⟨rfl, rfl⟩
  · simp only [Option.bind_eq_bind, Option.bind_eq_some_iff, Option.pure_def, Option.some.injEq,
      Prod.mk.injEq] at scanned
    obtain ⟨value, isHex, ⟨others, _⟩, inner, rfl, rfl⟩ := scanned
    exact .inr ⟨_, others, [_, _, _, _, _, _], _, rfl, rfl, .unit isHex, inner⟩
  · simp only [Option.bind_eq_bind, Option.bind_eq_some_iff, Option.pure_def, Option.some.injEq,
      Prod.mk.injEq] at scanned
    obtain ⟨c, isEscape, ⟨others, _⟩, inner, rfl, rfl⟩ := scanned
    exact .inr ⟨_, others, [_, _], _, rfl, rfl, .escaped isEscape, inner⟩
  · next c rest quote _ noEscape =>
    split at scanned
    · cases scanned
    · next plain =>
      simp only [Option.bind_eq_bind, Option.bind_eq_some_iff, Option.pure_def, Option.some.injEq,
        Prod.mk.injEq] at scanned
      obtain ⟨⟨others, _⟩, inner, rfl, rfl⟩ := scanned
      -- A backslash has a letter behind it, as no string ends there.
      have backslash : c ≠ '\\' := by
        rintro rfl
        cases rest with
        | nil => cases inner
        | cons letter rest => exact noEscape letter rest rfl rfl
      exact .inr ⟨_, others, [c], rest, rfl, rfl, .plain quote backslash plain, inner⟩

theorem eq_of_scanString?_nil {text after : List Char}
    (scanned : scanString? text = some ([], after)) : text = '"' :: after := by
  obtain ⟨-, split⟩ | ⟨_, _, _, _, same, _⟩ := scanString?_cases scanned
  · exact split
  · cases same

theorem split_of_scanString?_cons {text after : List Char} {part : StringPart}
    {parts : List StringPart} (scanned : scanString? text = some (part :: parts, after)) :
    ∃ head rest, text = head ++ rest ∧ PartText part head ∧
      scanString? rest = some (parts, after) := by
  obtain ⟨same, -⟩ | ⟨_, _, head, rest, same, split, isPart, inner⟩ := scanString?_cases scanned
  · cases same
  · cases same
    exact ⟨head, rest, split, isPart, inner⟩

theorem joinUnits?_char (c : Char) (parts : List StringPart) :
    joinUnits? (.char c :: parts) = (joinUnits? parts).map (c :: ·) := by
  rw [joinUnits?]

theorem joinUnits?_ordinary {value : Nat} (notHigh : isHighSurrogate value = false)
    (notLow : isLowSurrogate value = false) (parts : List StringPart) :
    joinUnits? (.unit value :: parts) = (joinUnits? parts).map (Char.ofNat value :: ·) := by
  rw [joinUnits?.eq_def]
  simp [notHigh, notLow]

theorem joinUnits?_pair {high low : Nat} (isHigh : isHighSurrogate high = true)
    (isLow : isLowSurrogate low = true) (parts : List StringPart) :
    joinUnits? (.unit high :: .unit low :: parts) =
      (joinUnits? parts).map
        (Char.ofNat (0x10000 + (high - 0xD800) * 0x400 + (low - 0xDC00)) :: ·) := by
  have notLow : isLowSurrogate high = false := by
    simp only [isHighSurrogate, isLowSurrogate, Bool.and_eq_true, Bool.and_eq_false_iff,
      decide_eq_true_eq, decide_eq_false_iff_not] at isHigh ⊢
    omega
  rw [joinUnits?.eq_def]
  simp [isHigh, isLow, notLow]

theorem Characters.scanString?_eq {text characters : List Char}
    (stands : Characters text characters) (after : List Char) :
    ∃ parts, scanString? (text ++ '"' :: after) = some (parts, after) ∧
      joinUnits? parts = some characters := by
  induction stands with
  | ending => exact ⟨[], by rw [List.nil_append, scanString?], by rw [joinUnits?]⟩
  | plain quote backslash plain _ ih =>
    obtain ⟨parts, scanned, joined⟩ := ih
    refine ⟨.char _ :: parts, ?_, by rw [joinUnits?_char, joined]; rfl⟩
    rw [List.cons_append, scanString?_char quote backslash plain, scanned]
    rfl
  | escaped isEscape _ ih =>
    obtain ⟨parts, scanned, joined⟩ := ih
    refine ⟨.char _ :: parts, ?_, by rw [joinUnits?_char, joined]; rfl⟩
    rw [List.cons_append, List.cons_append, scanString?_escaped isEscape, scanned]
    rfl
  | unit isHex notHigh notLow _ ih =>
    obtain ⟨parts, scanned, joined⟩ := ih
    refine ⟨.unit _ :: parts, ?_, by rw [joinUnits?_ordinary notHigh notLow, joined]; rfl⟩
    simp only [List.cons_append, scanString?_hex isHex, scanned]
    rfl
  | pair isHex isHigh isHex' isLow _ ih =>
    obtain ⟨parts, scanned, joined⟩ := ih
    refine ⟨.unit _ :: .unit _ :: parts, ?_, by rw [joinUnits?_pair isHigh isLow, joined]; rfl⟩
    simp only [List.cons_append, scanString?_hex isHex, scanString?_hex isHex', scanned]
    rfl

theorem characters_of_scanString? {text after characters : List Char} {parts : List StringPart}
    (scanned : scanString? text = some (parts, after))
    (joined : joinUnits? parts = some characters) :
    ∃ inner, text = inner ++ '"' :: after ∧ Characters inner characters := by
  fun_induction joinUnits? parts generalizing text characters with
  | case1 =>
    cases joined
    exact ⟨[], eq_of_scanString?_nil scanned, .ending⟩
  | case2 c rest ih =>
    obtain ⟨others, joins, rfl⟩ := Option.map_eq_some_iff.mp joined
    obtain ⟨head, text, rfl, isPart, scanned⟩ := split_of_scanString?_cons scanned
    obtain ⟨inner, rfl, stands⟩ := ih scanned joins
    cases isPart with
    | plain quote backslash plain => exact ⟨c :: inner, rfl, .plain quote backslash plain stands⟩
    | escaped isEscape => exact ⟨_ :: _ :: inner, rfl, .escaped isEscape stands⟩
  | case4 high notLow isHigh low rest isLow ih =>
    obtain ⟨others, joins, rfl⟩ := Option.map_eq_some_iff.mp joined
    obtain ⟨_, _, rfl, isPart, scanned⟩ := split_of_scanString?_cons scanned
    obtain ⟨_, _, rfl, isPart', scanned⟩ := split_of_scanString?_cons scanned
    obtain ⟨inner, rfl, stands⟩ := ih scanned joins
    cases isPart with
    | unit isHex =>
      cases isPart' with
      | unit isHex' => exact ⟨_, rfl, .pair isHex isHigh isHex' isLow stands⟩
  | case7 value rest notLow notHigh ih =>
    obtain ⟨others, joins, rfl⟩ := Option.map_eq_some_iff.mp joined
    obtain ⟨_, _, rfl, isPart, scanned⟩ := split_of_scanString?_cons scanned
    obtain ⟨inner, rfl, stands⟩ := ih scanned joins
    cases isPart with
    | unit isHex =>
      exact ⟨_, rfl, .unit isHex (by simpa using notHigh) (by simpa using notLow) stands⟩
  | case3 | case5 | case6 => cases joined

theorem Characters.escape {text characters : List Char} (stands : Characters text characters)
    (c : Char) : Characters (Json.escape c ++ text) (c :: characters) := by
  unfold Json.escape
  split
  case h_8 quote backslash _ _ _ _ _ =>
    split
    · next control =>
      have high : isHighSurrogate c.toNat = false := by
        simp only [isHighSurrogate, Bool.and_eq_false_iff, decide_eq_false_iff_not]
        omega
      have low : isLowSurrogate c.toNat = false := by
        simp only [isLowSurrogate, Bool.and_eq_false_iff, decide_eq_false_iff_not]
        omega
      have unit := Characters.unit (hex4?_hexDigit control) high low stands
      rwa [Char.ofNat_toNat] at unit
    · next plain => exact .plain quote backslash plain stands
  all_goals exact .escaped rfl stands

/-- The escapes of characters stand for them. -/
theorem characters_flatMap_escape (characters : List Char) :
    Characters (characters.flatMap Json.escape) characters := by
  induction characters with
  | nil => exact .ending
  | cons c characters ih => exact ih.escape c

end FilterLang.Json
