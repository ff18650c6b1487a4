import FilterLang.Proofs.Descent.Outline
import FilterLang.Proofs.Grammar.LexicalErrors

namespace FilterLang

theorem Outline.length_brackets_next_le (outline : Outline) (token : Token) :
    (outline.next token).brackets.length ≤ outline.brackets.length + 1 := by
  unfold next opens
  split
  · rw [List.length_tail]
    omega
  · rw [List.length_tail]
    omega
  · split <;> simp

theorem length_brackets_outline_le (tokens : List Token) :
    (outline tokens).brackets.length ≤ tokens.length := by
  induction tokens using List.reverseRecOn with
  | nil => exact Nat.le_refl 0
  | append_singleton tokens token ih =>
    have one := (outline tokens).length_brackets_next_le token
    rw [outline_concat, List.length_append, List.length_singleton]
    omega

namespace Descent

def Control.isEntry : Control → Bool
  | level _ | primary | array | element | opened _ _ => true
  | _ => false

def Control.isReturn : Control → Bool
  | give _ | close _ _ | fail _ => true
  | _ => false

variable {fault : Option LexError}

theorem Returns.comes_back {give : Expr → Control} {start : Descent} {frames : List Frame}
    {depth : Nat} {result : Except Failure (Expr × List Token)}
    (returns : Returns fault give start frames depth result)
    (back : ∀ value, (give value).isReturn = true) :
    ∃ e, Reaches fault start e ∧ e.control.isReturn = true ∧
      e.frames = frames ∧ e.depth = depth := by
  cases result with
  | ok found => exact ⟨_, returns, back found.1, rfl, rfl⟩
  | error failure =>
    obtain ⟨rest, failed⟩ := returns
    exact ⟨_, failed, rfl, rfl, rfl⟩

/-- Each function comes back to those that wait for it, with the counter as it was. -/
theorem comes_back {d : Descent} (counted : Counted d.counts) (entry : d.control.isEntry = true) :
    ∃ e, Reaches fault d e ∧ e.control.isReturn = true ∧
      e.frames = d.frames ∧ e.depth = d.depth := by
  obtain ⟨control, frames, depth, tokens⟩ := d
  have limit : depth ≤ maxNesting := counted.limit
  have room : depth + (maxNesting - depth) = maxNesting := Nat.add_sub_cancel' limit
  have opens : Opens fault depth (Parser.inner fault (maxNesting - depth)) := opens_inner room
  cases control with
  | level level => exact (calls_level opens level frames tokens).comes_back fun _ => rfl
  | primary => exact (calls_primary opens frames tokens).comes_back fun _ => rfl
  | array => exact (calls_array opens frames tokens).comes_back fun _ => rfl
  | element => exact (calls_element opens frames tokens).comes_back fun _ => rfl
  | opened group bracket => exact (opens group bracket frames tokens).comes_back fun _ => rfl
  | _ => cases entry

structure Balanced (scan : Scan) (d : Descent) : Prop where
  depth : d.depth = d.openGroups
  limit : d.depth ≤ maxNesting
  activations : d.activations ≤ maxNesting + 1
  positive : ∀ group frames, d.frames = .expression (some group) :: frames → 0 < d.depth
  comesBack : d.control.isEntry = true →
    ∃ e, Reaches scan.error d e ∧ e.control.isReturn = true ∧
      e.frames = d.frames ∧ e.depth = d.depth
  restored : ∀ e, Reaches scan.error d e → e.frames = d.frames → e.depth = d.depth
  ended : ∀ result, d.control = .stop result → result = scan.parse ∧ d.depth = 0

theorem balanced_of_reaches {scan : Scan} {d : Descent}
    (reaches : Reaches scan.error (begin scan.tokens) d) : Balanced scan d := by
  have counted := counted_of_reaches reaches
  have depth : d.depth = d.openGroups := counted.depth
  have limit : d.depth ≤ maxNesting := counted.limit
  have activations : d.activations ≤ d.openGroups + 1 := counted.activations
  refine ⟨depth, limit, by omega, ?_, comes_back counted, ?_, ?_⟩
  · intro group frames head
    rw [depth, openGroups, head, countP_isGroup_cons]
    exact Nat.succ_pos _
  · intro e later same
    have after : e.depth = e.openGroups := (counted_of_reaches (reaches.trans later)).depth
    rw [after, depth, openGroups, openGroups, same]
  · exact fun result stops => result_of_stop reaches stops

/-- A parse that fails on its nesting has met a group that opens too deep. -/
theorem opensTooDeep_of_parse {scan : Scan} {failure : Failure} {position : Nat}
    (parsed : scan.parse = .error failure) (tooDeep : failure.error = .nestingTooDeep position) :
    OpensTooDeep scan.tokens position := by
  obtain ⟨rest, whole⟩ := reaches_stop scan
  rw [parsed] at whole
  cases traced_of_reaches whole with
  | going before placed => exact placed.fits.elim
  | failed error found deep =>
    cases found
    exact deep position (by simp [tooDeep, ParseError.tooDeep?])

end Descent

open Descent

/-- The limit on open groups is exact, and the counter behind it balanced: it counts the groups
    whose inside is read, at each moment of each parse, and a parse ends with none. The limit is met
    only by a group inside as many others as may be, so by no text whose brackets never nest
    deeper. -/
theorem nesting_of_parse (text : String) :
    let scan := Scan.ofText text
    (∃ rest, Reaches scan.error (begin scan.tokens) ⟨.stop scan.parse, [], 0, rest⟩) ∧
    (∀ d, Reaches scan.error (begin scan.tokens) d → Balanced scan d) ∧
    (∀ position, parse text = .error (.nestingTooDeep position) →
      OpensTooDeep scan.tokens position) ∧
    ((∀ before, before <+: scan.tokens → (outline before).brackets.length ≤ maxNesting) →
      ∀ position, parse text ≠ .error (.nestingTooDeep position)) := by
  intro scan
  have deep : ∀ position, parse text = .error (.nestingTooDeep position) →
      OpensTooDeep scan.tokens position := by
    intro position failed
    obtain ⟨unread, parsed⟩ := parse_eq_error_iff.mp failed
    exact opensTooDeep_of_parse parsed rfl
  refine ⟨reaches_stop scan, fun d reaches => balanced_of_reaches reaches, deep, ?_⟩
  intro shallow position failed
  obtain ⟨before, begins, crowded⟩ := (deep position failed).crowded
  exact Nat.not_lt.mpr (shallow before begins) crowded

set_option maxRecDepth 20000 in
theorem nesting_of_parse_crowded :
    let text := String.ofList (List.replicate 101 '(')
    parse text = .error (.nestingTooDeep 100) ∧ OpensTooDeep (Scan.ofText text).tokens 100 ∧
      ∀ position, parse "[a]" ≠ .error (.nestingTooDeep position) := by
  intro text
  have failed : parse (String.ofList (List.replicate 101 '(')) = .error (.nestingTooDeep 100) := by
    cbv
  have few : (Scan.ofText "[a]").tokens.length = 3 := by cbv
  refine ⟨failed, (nesting_of_parse text).2.2.1 100 failed, ?_⟩
  refine (nesting_of_parse "[a]").2.2.2 fun before begins => ?_
  have shorter := begins.length_le
  have brackets := length_brackets_outline_le before
  have limit : maxNesting = 100 := rfl
  omega

end FilterLang
