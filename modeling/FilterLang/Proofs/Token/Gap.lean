import FilterLang.Proofs.Token.Scanned

namespace FilterLang

namespace Text

def HeadBlank (text : List Char) : Prop := ∀ c ∈ text.head?, isBlank c = true

theorem headBlank_of_blanks {blanks : List Char} (blank : ∀ c ∈ blanks, isBlank c = true) :
    HeadBlank blanks :=
  fun c first => blank c (List.mem_of_mem_head? first)

theorem headBlank_append {blanks : List Char} (blank : ∀ c ∈ blanks, isBlank c = true)
    (nonempty : blanks ≠ []) (after : List Char) : HeadBlank (blanks ++ after) := by
  cases blanks with
  | nil => exact absurd rfl nonempty
  | cons c blanks =>
    intro d first
    rw [List.cons_append, List.head?_cons, Option.mem_some_iff] at first
    exact first ▸ blank c (by simp)

theorem HeadBlank.headNot_isWord {text : List Char} (blank : HeadBlank text) :
    HeadNot isWord text := by
  intro c first
  cases word : isWord c with
  | false => rfl
  | true =>
    have both := blank c first
    rw [isBlank_eq_false_of_isWord word] at both
    cases both

theorem HeadBlank.head?_ne {text : List Char} (blank : HeadBlank text) {c : Char}
    (visible : isBlank c = false) : text.head? ≠ some c := by
  intro first
  have both := blank c first
  rw [visible] at both
  cases both

/-- A word, a number or a symbol that ends in front of `after` ends in front of `next`. -/
structure EndsAs (after next : List Char) : Prop where
  word : HeadNot isWord after → HeadNot isWord next
  digit : HeadNot Char.isDigit after → HeadNot Char.isDigit next
  equals : after.head? ≠ some '=' → next.head? ≠ some '='
  point : (∀ rest, after = '.' :: rest → HeadNot Char.isDigit rest) →
    ∀ rest, next = '.' :: rest → HeadNot Char.isDigit rest

/-- No lexeme goes on with the text behind it, but for the `in` of a `not`. -/
structure Breaks (text : List Char) : Prop where
  word : HeadNot isWord text
  equals : text.head? ≠ some '='
  point : text.head? ≠ some '.'

theorem HeadBlank.breaks {text : List Char} (blank : HeadBlank text) : Breaks text :=
  ⟨blank.headNot_isWord, blank.head?_ne (by decide), blank.head?_ne (by decide)⟩

theorem Breaks.endsAs {next : List Char} (breaks : Breaks next) (after : List Char) :
    EndsAs after next := by
  refine ⟨fun _ => breaks.word, fun _ => breaks.word.isDigit, fun _ => breaks.equals,
    fun _ rest same => ?_⟩
  exact absurd (congrArg List.head? same) breaks.point

theorem Breaks.endsAs_append {more : List Char} (breaks : Breaks more) (after : List Char) :
    EndsAs after (after ++ more) := by
  cases after with
  | nil => exact breaks.endsAs []
  | cons c after =>
    refine ⟨id, id, id, fun noFraction rest same => ?_⟩
    obtain ⟨rfl, rfl⟩ := List.cons.inj same
    have ends := noFraction after rfl
    cases after with
    | nil => exact breaks.word.isDigit
    | cons => exact ends

end Text

namespace Token

theorem IsInSuffix.endsAs {suffix after next : List Char} (isSuffix : IsInSuffix suffix after)
    (ends : Text.EndsAs after next) : IsInSuffix suffix next :=
  ⟨isSuffix.parts, ends.word isSuffix.ends⟩

/-- Where a lexeme stops depends only on how the text after it starts, but for the `in` that a `not`
    may find there. -/
theorem Lexeme.transfer {kind : Kind} {text after next : List Char}
    (lexeme : Lexeme kind text after) (ends : Text.EndsAs after next)
    (noIn : kind = .identifier → Text.lower text = ['n', 'o', 't'] → inSuffix? next = none) :
    Lexeme kind text next := by
  cases lexeme with
  | mark member => exact .mark member
  | equality sign => exact .equality sign
  | not alone => exact .not (ends.equals alone)
  | inclusive sign => exact .inclusive sign
  | strict sign alone => exact .strict sign (ends.equals alone)
  | string quote absent => exact .string quote absent
  | whole digits stop noFraction =>
    exact .whole digits (ends.digit stop) (ends.point noFraction)
  | fraction digits places stop => exact .fraction digits places (ends.digit stop)
  | keyword word stop found => exact .keyword word (ends.word stop) found
  | identifier word stop noKeyword _ =>
    exact .identifier word (ends.word stop) noKeyword fun isNot =>
      inSuffix?_eq_none_iff.mp (noIn rfl isNot)
  | notIn word isNot isSuffix => exact .notIn word isNot (isSuffix.endsAs ends)

/-- A text starts with only one longest lexeme. -/
theorem Lexeme.unique {kind kind' : Kind} {text text' after after' : List Char}
    (lexeme : Lexeme kind text after) (lexeme' : Lexeme kind' text' after')
    (same : text ++ after = text' ++ after') : kind' = kind ∧ text' = text ∧ after' = after := by
  cases text with
  | nil => exact absurd rfl lexeme.nonempty
  | cons head tail =>
    cases text' with
    | nil => exact absurd rfl lexeme'.nonempty
    | cons head' tail' =>
      simp only [List.cons_append, List.cons.injEq] at same
      obtain ⟨rfl, rests⟩ := same
      have one := recognize_of_lexeme lexeme
      have other := recognize_of_lexeme lexeme'
      rw [← rests, one] at other
      obtain ⟨kinds, lengths⟩ := Prod.mk.inj (Except.ok.inj other)
      obtain ⟨tails, afters⟩ := List.append_inj rests lengths
      exact ⟨kinds.symm, by rw [tails], afters.symm⟩

end Token

end FilterLang
