import FilterLang.Proofs.Grammar.LexicalErrors
import FilterLang.Proofs.Token.Truncated

namespace FilterLang

def GoesOn (more : List Token) : Prop := ∃ next ∈ more.head?, next.kind ∈ [.dot, .openBracket]

/-- The tokens end in an array literal right of `contains` or `has`, and are cut off in front of its
    accessor. -/
def CutsArray (tokens more : List Token) : Prop :=
  GoesOn more ∧ ∃ before operator array, tokens = before ++ operator :: array ∧
    operator.kind ∈ [.contains, .has] ∧
    ∃ n elements g, Derives n (.level .member) array (.array elements g)

def ParseError.IsTruncation (tokens more : List Token) : ParseError → Prop
  | unexpectedEnd _ => True
  | invalidScalar kind => kind = .array ∧ CutsArray tokens more
  | _ => False

/-- How the run over the tokens at the start of a list ends, where the run over the whole list gives
    `full`: in the same way, with `more` still to come, or at the last token, perhaps with less of a
    value if it is one that `mayStop` there. -/
inductive Truncated {α : Type} (mayStop : Prop) (tokens more : List Token) (full : α × List Token) :
    Except Failure (α × List Token) → Prop
  | same {left : List Token} : full.2 = left ++ more → left <:+ tokens →
      Truncated mayStop tokens more full (.ok (full.1, left))
  | part {value : α} : mayStop → Truncated mayStop tokens more full (.ok (value, []))
  | failed {failure : Failure} : failure.error.IsTruncation tokens more →
      Truncated mayStop tokens more full (.error failure)

theorem CutsArray.mono {tokens more longer : List Token} (cuts : CutsArray tokens more)
    (suffix : tokens <:+ longer) : CutsArray longer more := by
  obtain ⟨goesOn, before, operator, array, rfl, found⟩ := cuts
  obtain ⟨start, rfl⟩ := suffix
  exact ⟨goesOn, start ++ before, operator, array, by simp, found⟩

theorem ParseError.IsTruncation.mono {tokens more longer : List Token} {error : ParseError}
    (truncation : error.IsTruncation tokens more) (suffix : tokens <:+ longer) :
    error.IsTruncation longer more := by
  cases error with
  | unexpectedEnd => trivial
  | invalidScalar => exact truncation.imp_right (·.mono suffix)
  | _ => exact truncation.elim

namespace Truncated

variable {α β : Type} {mayStop stops : Prop} {tokens more longer rest : List Token}
  {full : α × List Token}

theorem mono {run : Except Failure (α × List Token)}
    (truncated : Truncated mayStop tokens more full run) (suffix : tokens <:+ longer)
    (weaker : mayStop → stops) : Truncated stops longer more full run := by
  cases truncated with
  | same found left => exact .same found (left.trans suffix)
  | part stop => exact .part (weaker stop)
  | failed truncation => exact .failed (truncation.mono suffix)

theorem ends {expected : Expectation} {unread : List Token} :
    Truncated mayStop tokens more full (.error ⟨.unexpectedEnd expected, unread⟩) :=
  .failed trivial

/-- Readings in sequence: the second one goes on where the first one ended, or at the end. -/
theorem bind {run : Except Failure (α × List Token)}
    {second : α × List Token → Except Failure (β × List Token)} {last : β × List Token}
    (start : Truncated mayStop tokens more full run)
    (same : ∀ left, full.2 = left ++ more → left <:+ tokens →
      Truncated stops tokens more last (second (full.1, left)))
    (part : ∀ value, mayStop → run = .ok (value, []) →
      Truncated stops tokens more last (second (value, []))) :
    Truncated stops tokens more last (run >>= second) := by
  cases start with
  | same found left => exact same _ found left
  | part stop => exact part _ stop rfl
  | failed truncation => exact .failed truncation

end Truncated

namespace Parser

variable {α : Type}

def Truncates (mayStop : List Token → α → Prop)
    (reading : List Token → Except Failure (α × List Token)) : Prop :=
  ∀ ⦃tokens more : List Token⦄ ⦃full : α × List Token⦄, reading (tokens ++ more) = .ok full →
    Truncated (mayStop more full.1) tokens more full (reading tokens)

def Never (_ : List Token) (_ : α) : Prop := False

def Always (_ : List Token) (_ : α) : Prop := True

def InChain (more : List Token) (e : Expr) : Prop := GoesOn more ∧ e.mayBeArray = false

theorem Truncates.always {mayStop : List Token → α → Prop}
    {reading : List Token → Except Failure (α × List Token)}
    (truncates : Truncates mayStop reading) : Truncates Always reading :=
  fun _ _ _ read => (truncates read).mono List.suffix_rfl fun _ => trivial

@[simp] theorem arrive_none (rest : List Token) : arrive none rest = .ok () := rfl

@[simp] theorem ok_bind {β : Type} (value : α) (next : α → Except Failure β) :
    (Except.ok value >>= next) = next value := rfl

theorem expect_truncates (kind : Token.Kind) :
    Truncates Never fun tokens => outcome (expect none kind tokens) := by
  intro tokens more full read
  cases tokens with
  | nil => exact .ends
  | cons token rest =>
    by_cases same : token.kind = kind
    · simp only [List.cons_append, outcome_expect none kind token _ same, arrive_none,
        ok_bind] at read ⊢
      cases read
      exact .same rfl (List.suffix_cons ..)
    · simp [expect, same] at read

end Parser

/-- What is enclosed may be cut anywhere, as then its closing token is missed. -/
theorem Truncated.closed {α β : Type} {mayStop stops : Prop} {tokens more : List Token}
    {full : α × List Token} {run : Except Failure (α × List Token)} {kind : Token.Kind}
    {closing : Token × List Token} {last : β × List Token}
    (start : Truncated mayStop tokens more full run)
    (closes : outcome (Parser.expect none kind full.2) = .ok closing)
    (second : α → Token × List Token → Except Failure (β × List Token))
    (same : ∀ left, closing.2 = left ++ more → left <:+ tokens →
      Truncated stops tokens more last (second full.1 (closing.1, left))) :
    Truncated stops tokens more last
      (run >>= fun inside => outcome (Parser.expect none kind inside.2) >>= second inside.1) := by
  refine start.bind (fun left split suffix => ?_) fun _ _ _ => .ends
  rw [split] at closes
  have closed := (Parser.expect_truncates _ closes).mono suffix id
  exact closed.bind same fun _ never => never.elim

namespace Parser

variable {α : Type}

theorem identifier_truncates :
    Truncates Never fun tokens => outcome (identifier none tokens) := by
  intro tokens more full read
  simp only [outcome_identifier, bind_eq_ok_iff] at read ⊢
  obtain ⟨name, taken, read⟩ := read
  cases read
  refine (expect_truncates _ taken).bind (fun left found suffix => .same found suffix) ?_
  exact fun _ never => never.elim

theorem literal_truncates {token : Token} {rest more : List Token} {full : Expr × List Token}
    (read : outcome (literal none token (rest ++ more)) = .ok full) :
    Truncated False (token :: rest) more full (outcome (literal none token rest)) := by
  simp only [outcome_literal, arrive_none, ok_bind] at read ⊢
  cases found : token.literal? with
  | none => simp [found] at read
  | some value =>
    rw [found] at read
    cases read
    exact .same rfl (List.suffix_cons ..)

end Parser

end FilterLang
