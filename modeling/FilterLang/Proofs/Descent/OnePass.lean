import FilterLang.Proofs.Descent.Reader

namespace FilterLang

def SeesAll : Except ParseError Expr → Prop
  | .ok _ | .error (.unexpectedEnd _) | .error (.lexical _) => True
  | .error _ => False

namespace Descent

/-- One turn of a loop: from a value of a level to the next one, over an operator or an accessor, or
    from an element of an array to the next one or to the end. -/
inductive LoopTurn : Descent → Descent → Prop
  | onward {level : Level} {left joined : Expr} {frames : List Frame} {depth depth' : Nat}
      {tokens tokens' : List Token} :
      LoopTurn ⟨.onward level left, frames, depth, tokens⟩
        ⟨.onward level joined, frames, depth', tokens'⟩
  | element {before more : List Expr} {frames : List Frame} {depth depth' : Nat}
      {tokens tokens' : List Token} :
      LoopTurn ⟨.element, .element before :: frames, depth, tokens⟩
        ⟨.element, .element more :: frames, depth', tokens'⟩
  | endArray {before elements : List Expr} {frames : List Frame} {depth depth' : Nat}
      {tokens tokens' : List Token} :
      LoopTurn ⟨.element, .element before :: frames, depth, tokens⟩
        ⟨.endArray elements, frames, depth', tokens'⟩

theorem Control.eq_stop_of_leaving {control : Control} {unread : List Token}
    {result : Except Failure Expr} (stops : control.leaving unread = .stop result) :
    ∃ own, control = .stop own ∧ own.mapError (·.error) = result.mapError (·.error) ∧
      ∀ failure, result = .error failure → failure.unread = unread := by
  cases control with
  | stop own =>
    refine ⟨own, rfl, ?_⟩
    cases own with
    | ok e =>
      cases stops
      exact ⟨rfl, nofun⟩
    | error failure =>
      cases stops
      refine ⟨rfl, fun _ same => ?_⟩
      cases same
      rfl
  | _ => cases stops

theorem LoopTurn.cost_eq {d e : Descent} (turn : LoopTurn d e) : e.cost = d.cost := by
  cases turn <;> simp only [cost, Control.cost, List.length_cons]
  omega

variable {scan : Scan}

/-- A parse that ends with a value has no token in view. -/
theorem reaches_stop_ok {e : Expr} (parsed : scan.parse = .ok e) :
    Reaches scan.error (begin scan.tokens) ⟨.stop (.ok e), [], 0, []⟩ := by
  obtain ⟨ready, read⟩ := Scan.parse_eq_ok_iff.mp parsed
  have opens : Opens scan.error 0 (Parser.inner scan.error maxNesting) :=
    opens_inner (Nat.zero_add maxNesting)
  have inside := calls_expression opens [.expression none] scan.tokens
  rw [read] at inside
  exact .head (step_begin ready) (inside.tail rfl)

end Descent

namespace Reader

open Descent (Control Reaches LoopTurn)

structure Moment (scan : Scan) (count : Nat) (r : Reader) : Prop where
  stage : Stage scan r
  reaches : Reaches scan.error (.begin scan.tokens) r.whole
  pulled : r.pulled = r.taken ++ r.view.tokens
  count : count + r.view.cost ≤ 47 + 46 * r.taken.length

/-- The reader keeps to the order of the tokens, does not look further than one token ahead, and
    asks for no more behind the end or an error. -/
structure Orderly (scan : Scan) (r : Reader) : Prop where
  pulled : r.pulled = r.taken ++ r.view.tokens
  lookahead : r.view.tokens.length ≤ 1
  inOrder : r.pulled <+: scan.tokens
  asked : r.answers.length ≤ scan.tokens.length + 1
  noMore : ∀ answer ∈ r.answers.dropLast, ∃ token, answer = .ok (some token)

variable {scan : Scan} {text : String} {r s : Reader} {count more : Nat}

theorem moment_ofText (text : String) : Moment (Scan.ofText text) 0 (ofText text) :=
  ⟨.first rfl rfl rfl, .refl, rfl, by simp [ofText, Descent.cost, Control.cost, Descent.begin]⟩

theorem Moment.step (moment : Moment scan count r) (stepped : r.step = some s) :
    Moment scan (count + 1) s := by
  have turn := moment.stage.turn stepped
  refine ⟨turn.stage, moment.reaches.tail turn.whole, turn.pulled moment.pulled, ?_⟩
  have bound := moment.count
  rcases turn.taken with ⟨same, cheaper⟩ | ⟨⟨token, taken⟩, cost⟩
  · rw [same]
    omega
  · rw [taken, List.length_append, List.length_singleton]
    omega

theorem moment_of_run (ran : (ofText text).run count = some r) :
    Moment (Scan.ofText text) count r := by
  induction count generalizing r with
  | zero =>
    cases ran
    exact moment_ofText text
  | succ count ih =>
    obtain ⟨before, ran, stepped⟩ := Option.bind_eq_some_iff.mp ran
    exact (ih ran).step stepped

/-- Steps between which no token is taken come closer to the next token. -/
theorem taken_of_run (first : (ofText text).run count = some r)
    (ran : (ofText text).run (count + more) = some s) :
    r.taken.length < s.taken.length ∨ s.taken = r.taken ∧ s.view.cost + more ≤ r.view.cost := by
  induction more generalizing s with
  | zero =>
    cases first.symm.trans ran
    exact .inr ⟨rfl, Nat.le_refl _⟩
  | succ more ih =>
    obtain ⟨before, ran, stepped⟩ := Option.bind_eq_some_iff.mp ran
    have earlier := ih ran
    have turn := (moment_of_run ran).stage.turn stepped
    rcases turn.taken with ⟨same, cheaper⟩ | ⟨⟨token, taken⟩, -⟩
    · rw [same]
      refine earlier.imp id fun ⟨same, closer⟩ => ⟨same, ?_⟩
      omega
    · rw [taken, List.length_append, List.length_singleton]
      rcases earlier with longer | ⟨same, -⟩
      · exact .inl (by omega)
      · exact .inl (by rw [same]; omega)

theorem Stage.answers_prefix (stage : Stage scan r) : r.answers <+: scan.answers := by
  cases stage with
  | first _ answers =>
    rw [answers]
    exact List.nil_prefix
  | inside _ _ _ answers => exact ⟨_, answers⟩
  | ended _ _ answers | failed _ _ answers => rw [answers]

theorem Stage.lookahead (stage : Stage scan r) : r.view.tokens.length ≤ 1 := by
  cases stage with
  | first view =>
    rw [view]
    exact Nat.zero_le 1
  | inside token _ look =>
    rw [look]
    exact Nat.le_refl 1
  | ended _ look =>
    rw [look]
    exact Nat.zero_le 1
  | failed _ look => exact look

theorem pulled_append_left {scan : Scan} {answers : List (Except LexError (Option Token))}
    (all : r.answers ++ answers = scan.answers) :
    r.pulled ++ answers.filterMap (·.toOption.join) = scan.tokens := by
  rw [pulled, ← List.filterMap_append, all, Scan.filterMap_answers]

/-- What was given and what is left are all tokens. -/
theorem Stage.left (stage : Stage scan r) : r.pulled ++ r.lexer.scan.tokens = scan.tokens := by
  cases stage with
  | first _ answers lexer =>
    rw [pulled, answers, lexer]
    rfl
  | inside _ _ _ answers =>
    rw [← r.lexer.scan.filterMap_answers]
    exact pulled_append_left answers
  | ended _ _ answers left | failed _ _ answers left =>
    rw [left]
    rw [← List.append_nil r.answers] at answers
    exact pulled_append_left answers

theorem Moment.orderly (moment : Moment scan count r) : Orderly scan r := by
  have answers := moment.stage.answers_prefix
  have given : scan.answers.dropLast = scan.tokens.map fun token => .ok (some token) := by
    rw [Scan.answers, List.dropLast_concat]
  have total : scan.answers.length = scan.tokens.length + 1 := by
    rw [Scan.answers, List.length_append, List.length_map, List.length_singleton]
  have asked := answers.length_le
  refine ⟨moment.pulled, moment.stage.lookahead, ⟨_, moment.stage.left⟩, by omega, ?_⟩
  intro answer member
  have early : r.answers.dropLast <+: scan.answers.dropLast := by
    rw [List.dropLast_eq_take (l := scan.answers), List.prefix_take_iff, List.length_dropLast]
    exact ⟨(List.dropLast_prefix _).trans answers, by omega⟩
  rw [given] at early
  obtain ⟨token, -, same⟩ := List.mem_map.mp (early.subset member)
  exact ⟨token, same.symm⟩

/-- Every moment of the parse over all tokens is met by the reader. -/
theorem run_of_reaches {d : Descent}
    (reaches : Reaches (Scan.ofText text).error (.begin (Scan.ofText text).tokens) d) :
    ∃ count r, (ofText text).run count = some r ∧ r.whole = d := by
  induction reaches with
  | refl => exact ⟨0, ofText text, rfl, rfl⟩
  | tail _ stepped ih =>
    obtain ⟨count, r, ran, rfl⟩ := ih
    have turn := (moment_of_run ran).stage
    cases next : r.step with
    | none =>
      rw [Option.mem_def, step_whole_eq_none next] at stepped
      cases stepped
    | some s =>
      rw [Option.mem_def, (turn.turn next).whole] at stepped
      cases stepped
      exact ⟨count + 1, s, by rw [run, ran]; exact next, rfl⟩

structure Done (text : String) (r : Reader) : Prop where
  result : ∃ result, r.view.control = .stop result ∧ result.mapError (·.error) = parse text
  halted : r.step = none
  consulted : r.pulled = (Scan.ofText text).consulted
  events : ∃ ending, Event.ofParsing text = r.pulled.map .token ++ [ending]
  all : SeesAll (parse text) → r.pulled = (Scan.ofText text).tokens

theorem seesAll_consulted (seen : SeesAll (parse text)) :
    (Scan.ofText text).consulted = (Scan.ofText text).tokens := by
  rw [parse] at seen
  cases parsed : (Scan.ofText text).parse with
  | ok e => simp [Scan.consulted, parsed]
  | error failure =>
    have confirms := Scan.confirms_of_parse parsed
    obtain ⟨error, unread⟩ := failure
    rw [parsed] at seen
    cases error <;> first | exact confirms.2 | exact seen.elim

theorem events_ofParsing (text : String) :
    ∃ ending, Event.ofParsing text = (Scan.ofText text).consulted.map .token ++ [ending] := by
  unfold Event.ofParsing
  cases parse text with
  | ok e => exact ⟨_, rfl⟩
  | error error => exact ⟨_, rfl⟩

theorem done_of_stop {rest : List Token} (moment : Moment (Scan.ofText text) count r)
    (stops : r.whole = ⟨.stop (Scan.ofText text).parse, [], 0, rest⟩) : Done text r := by
  obtain ⟨result, control, same, unread⟩ := Control.eq_stop_of_leaving
    (congrArg Descent.control stops)
  have consulted : r.pulled = (Scan.ofText text).consulted := by
    cases parsed : (Scan.ofText text).parse with
    | error failure =>
      rw [Scan.consulted_of_error parsed]
      rw [unread failure parsed]
      exact moment.stage.left.symm
    | ok e =>
      -- Both parses stop, and so at the same place, where nothing is left.
      rw [parsed] at stops
      have ended := Descent.eq_of_stops moment.reaches (congrArg Descent.control stops)
        (Descent.reaches_stop_ok parsed) rfl
      have none : r.lexer.scan.tokens = [] :=
        (List.append_eq_nil_iff.mp (congrArg Descent.tokens ended)).2
      have left := moment.stage.left
      rw [none, List.append_nil] at left
      simp only [Scan.consulted, parsed, left]
  have halted : r.step = none := by
    have final : r.view.step none = none := by
      rw [Descent.step, control]
    rw [step, final, Option.bind_none]
  refine ⟨⟨result, control, same⟩, halted, consulted, ?_, fun seen => ?_⟩
  · rw [consulted]
    exact events_ofParsing text
  · rw [consulted, seesAll_consulted seen]

theorem Moment.count_le (moment : Moment scan count r) : count ≤ 47 + 46 * scan.tokens.length := by
  have taken : r.taken.length ≤ scan.tokens.length := by
    rw [← moment.stage.left, moment.pulled]
    simp only [List.length_append]
    omega
  have bound := moment.count
  omega

end Reader

/-- A parse terminates and reads each token once: it has one token of lookahead, it asks the lexer
    at most once more than there are tokens, and never behind the end or an error, and each turn of
    a loop takes a token. -/
theorem reader_reads_once (text : String) :
    (∃ count r, count ≤ 47 + 46 * (Scan.ofText text).tokens.length ∧
      (Reader.ofText text).run count = some r ∧ r.Done text) ∧
    (∀ count r, (Reader.ofText text).run count = some r →
      count ≤ 47 + 46 * (Scan.ofText text).tokens.length ∧ r.Orderly (Scan.ofText text)) ∧
    ∀ early late r s, early < late → (Reader.ofText text).run early = some r →
      (Reader.ofText text).run late = some s → Descent.LoopTurn r.view s.view →
      r.taken.length < s.taken.length := by
  refine ⟨?_, fun count r ran => ?_, fun early late r s before first second turn => ?_⟩
  · obtain ⟨rest, reaches⟩ := Descent.reaches_stop (Scan.ofText text)
    obtain ⟨count, r, ran, stops⟩ := Reader.run_of_reaches reaches
    have moment := Reader.moment_of_run ran
    exact ⟨count, r, moment.count_le, ran, Reader.done_of_stop moment stops⟩
  · have moment := Reader.moment_of_run ran
    exact ⟨moment.count_le, moment.orderly⟩
  · obtain ⟨more, rfl⟩ := Nat.exists_eq_add_of_le before
    rw [Nat.succ_add_eq_add_succ] at second
    -- A turn ends where it would cost as much as at its start, which without a token it cannot.
    have later := Reader.taken_of_run first second
    have cost := turn.cost_eq
    refine later.resolve_right fun ⟨_, closer⟩ => ?_
    omega

theorem reader_reads_once_accessors :
    let run := (Reader.ofText "a.b.").run
    parse "a.b." = .error (.unexpectedEnd (.kind .identifier)) ∧
      (∃ count r, run count = some r ∧ r.pulled = (Scan.ofText "a.b.").tokens) ∧
      (∃ r, run 24 = some r ∧ r.Orderly (Scan.ofText "a.b.") ∧
        r.pulled.map Token.text = ["a", ".", "b", "."]) ∧
      ∃ early late, run 11 = some early ∧ run 13 = some late ∧
        Descent.LoopTurn early.view late.view ∧ early.taken.length < late.taken.length := by
  intro run
  have parsed : parse "a.b." = .error (.unexpectedEnd (.kind .identifier)) := by cbv
  obtain ⟨⟨count, r, -, ran, done⟩, orderly, turns⟩ := reader_reads_once "a.b."
  refine ⟨parsed, ⟨count, r, ran, done.all ?_⟩, ⟨_, rfl, (orderly 24 _ rfl).2, rfl⟩, _, _, rfl, rfl,
    .onward, turns 11 13 _ _ (by decide) rfl rfl .onward⟩
  rw [parsed]
  trivial

end FilterLang
