import FilterLang.Proofs.Descent.Lookahead
import FilterLang.Proofs.Grammar.ErrorLocation
import FilterLang.Proofs.Token.Stream
import FilterLang.Command.Event

namespace FilterLang

def Scan.answers (scan : Scan) : List (Except LexError (Option Token)) :=
  scan.tokens.map (fun token => .ok (some token)) ++ [scan.error.elim (.ok none) .error]

theorem Scan.filterMap_answers (scan : Scan) :
    scan.answers.filterMap (·.toOption.join) = scan.tokens := by
  have ending : [scan.error.elim (.ok none) .error].filterMap
      (fun answer : Except LexError (Option Token) => answer.toOption.join) = [] := by
    cases scan.error <;> rfl
  rw [answers, List.filterMap_append, ending, List.append_nil, List.filterMap_map]
  exact List.filterMap_some

def Descent.Control.isStart : Control → Bool
  | start => true
  | _ => false

/-- A parse that reads from a lexer. It has no more than the next token in view; `answers` are those
    of the lexer so far, and `taken` are the tokens that are not in view any more. -/
structure Reader where
  view : Descent
  lexer : Lexer
  answers : List (Except LexError (Option Token))
  taken : List Token

namespace Reader

def ofText (text : String) : Reader := ⟨.begin [], .ofText text, [], []⟩

def ask (r : Reader) (next : Descent) : Option Reader :=
  match r.lexer.next with
  | (.ok found, after) =>
    some ⟨{ next with tokens := found.toList }, after, r.answers ++ [.ok found],
      r.taken ++ r.view.tokens⟩
  | (.error error, after) =>
    (r.view.step (some error)).map fun failed =>
      ⟨failed, after, r.answers ++ [.error error], r.taken⟩

def step (r : Reader) : Option Reader :=
  (r.view.step none).bind fun next =>
    if r.view.control.isStart || next.tokens != r.view.tokens then r.ask next
    else some { r with view := next }

def run (r : Reader) : Nat → Option Reader
  | 0 => some r
  | count + 1 => (r.run count).bind step

def pulled (r : Reader) : List Token :=
  r.answers.filterMap fun answer => answer.toOption.join

def whole (r : Reader) : Descent := r.view.followedBy r.lexer.scan.tokens

end Reader

namespace Descent

theorem Control.ne_start {control : Control} (started : control.isStart = false) :
    control ≠ .start := by
  rintro rfl
  cases started

theorem Control.Inner.started {control : Control} (inner : control.Inner) :
    control.isStart = false := by
  cases control <;> first | rfl | exact inner.elim

variable {fault : Option LexError} {d e : Descent}

theorem Progress.cheaper (progress : Progress d e) (same : e.tokens = d.tokens) :
    e.cost < d.cost := by
  rcases progress.tokens with ⟨-, cheaper⟩ | ⟨⟨token, taken⟩, -⟩
  · exact cheaper
  · rw [same] at taken
    exact (List.ne_cons_self taken).elim

/-- Where a token is taken, the parse has not failed yet. -/
theorem Move.active (move : Move fault d e) (taken : e.tokens ≠ d.tokens) (unread : List Token) :
    d.control.leaving unread = d.control := by
  cases move <;> first | rfl | exact absurd rfl taken

theorem followedBy_nil (active : ∀ unread, d.control.leaving unread = d.control) :
    d.followedBy [] = d := by
  simp only [followedBy, active, List.append_nil]

/-- Where there is no further step does not depend on the tokens. -/
theorem step_followedBy_eq_none (halted : d.step fault = none) (rest : List Token)
    (other : Option LexError) : (d.followedBy rest).step other = none := by
  obtain ⟨control, frames, depth, tokens⟩ := d
  cases control with
  | level level => cases level <;> cases halted
  | onward level => cases level <;> cases halted
  | stop result => cases result <;> rfl
  | _ => cases frames <;> first | rfl | cases halted

end Descent

namespace Lexer

variable {lexer after : Lexer}

theorem scan_exhausted (lexer : Lexer) : lexer.exhausted.scan = ⟨[], none⟩ := scan_of_end rfl

theorem scan_of_ok {found : Option Token} (read : lexer.next = (.ok found, after)) :
    lexer.scan.tokens = found.toList ++ after.scan.tokens ∧
      after.scan.tokens = lexer.scan.tokens.tail := by
  cases found with
  | some token =>
    rw [scan_of_token read]
    exact ⟨rfl, rfl⟩
  | none =>
    rw [scan_of_end read, next_end read, scan_exhausted]
    exact ⟨rfl, rfl⟩

theorem ready_of_ok {found : Option Token} (read : lexer.next = (.ok found, after)) :
    Ready lexer.scan.error lexer.scan.tokens := by
  cases found with
  | some token =>
    rw [scan_of_token read]
    exact ready_cons ..
  | none =>
    rw [scan_of_end read]
    exact .inl rfl

/-- After an error comes no token: the lexer stays at the error, or it is at its end. -/
theorem scan_of_failed {error : LexError} (read : lexer.next = (.error error, after)) :
    lexer.scan = ⟨[], some error⟩ ∧ after.scan.tokens = [] := by
  refine ⟨scan_of_error read, ?_⟩
  rw [(next_error read).2]
  cases error.cause with
  | unexpectedCharacter => rw [scan_eq_of_next_eq lexer.next_skipBlanks, scan_of_error read]
  | unterminatedString => rw [scan_exhausted]

end Lexer

namespace Reader

open Descent (Control)

inductive Stage (scan : Scan) (r : Reader) : Prop
  | first : r.view = .begin [] → r.answers = [] → r.lexer.scan = scan → Stage scan r
  | inside (token : Token) : r.view.control.Inner → r.view.tokens = [token] →
      r.answers ++ r.lexer.scan.answers = scan.answers → r.lexer.scan.error = scan.error →
      Stage scan r
  | ended : r.view.control.Inner → r.view.tokens = [] → r.answers = scan.answers →
      r.lexer.scan.tokens = [] → scan.error = none → Stage scan r
  | failed : (∃ error, r.view.control = .fail ⟨error, []⟩ ∨
      r.view.control = .stop (.error ⟨error, []⟩)) → r.view.tokens.length ≤ 1 →
      r.answers = scan.answers → r.lexer.scan.tokens = [] → Stage scan r

structure Turn (scan : Scan) (r s : Reader) : Prop where
  stage : Stage scan s
  whole : r.whole.step scan.error = some s.whole
  taken : s.taken = r.taken ∧ s.view.cost < r.view.cost ∨
    (∃ token, s.taken = r.taken ++ [token]) ∧ s.view.cost ≤ r.view.cost + 45
  pulled : r.pulled = r.taken ++ r.view.tokens → s.pulled = s.taken ++ s.view.tokens

variable {scan : Scan} {r s : Reader} {next : Descent}

theorem step_of_stay (moved : r.view.step none = some next)
    (started : r.view.control.isStart = false) (stay : next.tokens = r.view.tokens) :
    r.step = some { r with view := next } := by
  simp [step, moved, started, stay]

theorem step_of_ask (moved : r.view.step none = some next)
    (asks : r.view.control.isStart = true ∨ next.tokens ≠ r.view.tokens) : r.step = r.ask next := by
  have asks : (r.view.control.isStart || next.tokens != r.view.tokens) = true := by simpa using asks
  simp only [step, moved, Option.bind_some, if_pos asks]

theorem ask_ok {found : Option Token} {after : Lexer} (read : r.lexer.next = (.ok found, after)) :
    r.ask next = some ⟨{ next with tokens := found.toList }, after, r.answers ++ [.ok found],
      r.taken ++ r.view.tokens⟩ := by
  simp [ask, read]

theorem ask_error {error : LexError} {after : Lexer} (read : r.lexer.next = (.error error, after)) :
    r.ask next = (r.view.step (some error)).map fun failed =>
      ⟨failed, after, r.answers ++ [.error error], r.taken⟩ := by
  simp [ask, read]

/-- The stage behind an answer that is no error. -/
theorem stage_ok {found : Option Token} {after : Lexer} (read : r.lexer.next = (.ok found, after))
    (inner : next.control.Inner) (answers : r.answers ++ r.lexer.scan.answers = scan.answers)
    (error : r.lexer.scan.error = scan.error) (taken : List Token) :
    Stage scan ⟨{ next with tokens := found.toList }, after, r.answers ++ [.ok found], taken⟩ := by
  cases found with
  | some token =>
    rw [Lexer.scan_of_token read] at answers error
    refine .inside token inner rfl ?_ error
    rw [← answers, List.append_assoc]
    rfl
  | none =>
    rw [Lexer.scan_of_end read] at answers error
    refine .ended inner rfl answers ?_ error.symm
    rw [(Lexer.scan_of_ok read).2, Lexer.scan_of_end read]
    rfl

theorem stage_error {error : LexError} {after : Lexer} {failed : Descent}
    (read : r.lexer.next = (.error error, after))
    (control : failed.control = .fail ⟨.lexical error, []⟩) (look : failed.tokens.length ≤ 1)
    (answers : r.answers ++ r.lexer.scan.answers = scan.answers) (taken : List Token) :
    Stage scan ⟨failed, after, r.answers ++ [.error error], taken⟩ := by
  obtain ⟨scanned, left⟩ := Lexer.scan_of_failed read
  rw [scanned] at answers
  exact .failed ⟨_, .inl control⟩ look answers left

theorem whole_ok {found : Option Token} {after : Lexer} (read : r.lexer.next = (.ok found, after))
    (answers : List (Except LexError (Option Token))) (taken : List Token) :
    whole ⟨{ next with tokens := found.toList }, after, answers, taken⟩ =
      ⟨next.control.leaving r.lexer.scan.tokens.tail, next.frames, next.depth,
        r.lexer.scan.tokens⟩ := by
  obtain ⟨tokens, tail⟩ := Lexer.scan_of_ok read
  rw [tokens, ← tokens, ← tail, tokens]
  rfl

theorem pulled_ask (r : Reader) (answer : Except LexError (Option Token)) (view : Descent)
    (lexer : Lexer) (taken : List Token) :
    pulled ⟨view, lexer, r.answers ++ [answer], taken⟩ =
      r.pulled ++ answer.toOption.join.toList := by
  simp only [pulled, List.filterMap_append]
  cases answer with
  | error error => rfl
  | ok found => cases found <;> rfl

/-- An answer that is no error takes the token in view, if there is one. -/
theorem turn_ok {found : Option Token} {after : Lexer} (read : r.lexer.next = (.ok found, after))
    (asked : r.ask next = some s) (inner : next.control.Inner)
    (answers : r.answers ++ r.lexer.scan.answers = scan.answers)
    (error : r.lexer.scan.error = scan.error)
    (stepped : Ready scan.error r.lexer.scan.tokens → r.whole.step scan.error =
      some ⟨next.control.leaving r.lexer.scan.tokens.tail, next.frames, next.depth,
        r.lexer.scan.tokens⟩)
    (taken : r.view.tokens = [] ∧ next.cost < r.view.cost ∨
      (∃ token, r.view.tokens = [token]) ∧ next.cost ≤ r.view.cost + 45) : Turn scan r s := by
  rw [ask_ok read] at asked
  cases asked
  refine ⟨stage_ok read inner answers error _, ?_, ?_, fun same => ?_⟩
  · rw [whole_ok read]
    exact stepped (error ▸ Lexer.ready_of_ok read)
  · rcases taken with ⟨none, cheaper⟩ | ⟨⟨token, one⟩, cost⟩
    · exact .inl ⟨by rw [none, List.append_nil], cheaper⟩
    · exact .inr ⟨⟨token, by rw [one]⟩, cost⟩
  · rw [pulled_ask, same]
    cases found <;> rfl

theorem turn_error {error : LexError} {after : Lexer} {failed : Descent}
    (read : r.lexer.next = (.error error, after)) (asked : r.ask next = some s)
    (answers : r.answers ++ r.lexer.scan.answers = scan.answers)
    (same : r.lexer.scan.error = scan.error) (moved : r.view.step (some error) = some failed)
    (active : ∀ unread, r.view.control.leaving unread = r.view.control)
    (control : failed.control = .fail ⟨.lexical error, []⟩) (tokens : failed.tokens = r.view.tokens)
    (look : r.view.tokens.length ≤ 1) (cheaper : failed.cost < r.view.cost) : Turn scan r s := by
  obtain ⟨scanned, left⟩ := Lexer.scan_of_failed read
  rw [ask_error read, moved] at asked
  cases asked
  refine ⟨stage_error read control (by rwa [tokens]) answers _, ?_, .inl ⟨rfl, cheaper⟩,
    fun same => ?_⟩
  · have all : failed.followedBy [] = failed := by
      simp only [Descent.followedBy, control, List.append_nil, Descent.Control.leaving]
      rw [← control]
    rw [← same, whole, whole, left, scanned, Descent.followedBy_nil active, moved, all]
  · rw [pulled_ask, same, tokens]
    exact List.append_nil _

/-- A step that asks for nothing keeps the token in view. -/
theorem turn_of_stay (moved : r.view.step none = some next)
    (started : r.view.control.isStart = false) (same : next.tokens = r.view.tokens)
    (stage : Stage scan { r with view := next })
    (whole : r.whole.step scan.error = some (next.followedBy r.lexer.scan.tokens))
    (stepped : r.step = some s) : Turn scan r s := by
  rw [step_of_stay moved started same] at stepped
  cases stepped
  have progress := Descent.progress_of_move ((Descent.step_eq_some_iff none).mp moved)
  exact ⟨stage, whole, .inl ⟨rfl, progress.cheaper same⟩, fun pulled =>
    pulled.trans (congrArg (r.taken ++ ·) same.symm)⟩

/-- The step that takes the first token into view. -/
theorem turn_of_first (view : r.view = .begin []) (answers : r.answers = [])
    (lexer : r.lexer.scan = scan) (stepped : r.step = some s) : Turn scan r s := by
  subst lexer
  have moved : r.view.step none = some ⟨.level .or, [.expression none], 0, []⟩ := by
    rw [view]
    rfl
  rw [step_of_ask moved (.inl (by rw [view]; rfl))] at stepped
  have answers : r.answers ++ r.lexer.scan.answers = r.lexer.scan.answers := by rw [answers]; rfl
  cases read : r.lexer.next with
  | mk answer after =>
  cases answer with
  | ok found =>
    refine turn_ok read stepped trivial answers rfl (fun ready => ?_) (.inl ?_)
    · have begins : r.whole = .begin r.lexer.scan.tokens := by rw [whole, view]; rfl
      rw [begins]
      exact Descent.step_begin ready
    · rw [view]
      decide
  | error error =>
    have failed : r.view.step (some error) = some ⟨.fail ⟨.lexical error, []⟩, [], 0, []⟩ := by
      rw [view]
      rfl
    have active : ∀ unread, r.view.control.leaving unread = r.view.control := by
      rw [view]
      exact fun _ => rfl
    have none : r.view.tokens = [] := by rw [view]; rfl
    have cost : r.view.cost = 47 := by rw [view]; rfl
    refine turn_error read stepped answers rfl failed active rfl none.symm ?_ ?_
    · rw [none]
      exact Nat.zero_le 1
    · rw [cost]
      exact Nat.lt_of_sub_pos (by simp [Descent.cost, Control.cost])

/-- A step with a token in view. -/
theorem turn_of_inside {token : Token} (inner : r.view.control.Inner)
    (look : r.view.tokens = [token])
    (answers : r.answers ++ r.lexer.scan.answers = scan.answers)
    (error : r.lexer.scan.error = scan.error) (stepped : r.step = some s) : Turn scan r s := by
  obtain ⟨next, moved, -⟩ := Option.bind_eq_some_iff.mp stepped
  have move := (Descent.step_eq_some_iff none).mp moved
  have progress := Descent.progress_of_move move
  obtain ⟨full, wholeMove, shows⟩ := Descent.move_followedBy scan.error r.lexer.scan.tokens
    (some token) move (Control.ne_start inner.started) look nofun
  have wholeStep := (Descent.step_eq_some_iff scan.error).mpr wholeMove
  cases shows with
  | stay same followed =>
    subst followed
    have stage : Stage scan { r with view := next } :=
      .inside token (progress.inner (.inr inner)) (same.trans look) answers error
    exact turn_of_stay moved inner.started same stage wholeStep stepped
  | take one gone ready faulty =>
    have taken : next.tokens ≠ r.view.tokens := by
      rw [gone, look]
      nofun
    have cost : next.cost ≤ r.view.cost + 45 := by
      rcases progress.tokens with ⟨same, -⟩ | ⟨-, cost⟩
      · exact absurd same taken
      · exact cost
    rw [step_of_ask moved (.inr taken)] at stepped
    cases read : r.lexer.next with
    | mk answer after =>
    cases answer with
    | ok found =>
      refine turn_ok read stepped (progress.inner (.inr inner)) answers error (fun there => ?_)
        (.inr ⟨⟨token, look⟩, cost⟩)
      rw [← ready there]
      exact wholeStep
    | error error' =>
      -- The parse over all tokens meets the same error in the same step, and takes no token either.
      have scanned := (Lexer.scan_of_failed read).1
      have active := move.active taken
      obtain ⟨control, tokens⟩ := faulty error' (by rw [← error, scanned]) (by rw [scanned])
      have tokens : full.tokens = r.view.tokens := tokens.trans one.symm
      rw [← error, scanned, Descent.followedBy_nil active] at wholeMove
      exact turn_error read stepped answers error ((Descent.step_eq_some_iff _).mpr wholeMove)
        active control tokens (by rw [look]; exact Nat.le_refl 1)
        ((Descent.progress_of_move wholeMove).cheaper tokens)

/-- A step at the end of the source. -/
theorem turn_of_ended (inner : r.view.control.Inner) (look : r.view.tokens = [])
    (answers : r.answers = scan.answers) (left : r.lexer.scan.tokens = [])
    (fine : scan.error = none) (stepped : r.step = some s) : Turn scan r s := by
  obtain ⟨next, moved, -⟩ := Option.bind_eq_some_iff.mp stepped
  have move := (Descent.step_eq_some_iff none).mp moved
  have progress := Descent.progress_of_move move
  obtain ⟨full, wholeMove, shows⟩ := Descent.move_followedBy scan.error r.lexer.scan.tokens none
    move (Control.ne_start inner.started) look fun _ => left
  cases shows with
  | stay same followed =>
    subst followed
    have stage : Stage scan { r with view := next } :=
      .ended (progress.inner (.inr inner)) (same.trans look) answers left fine
    exact turn_of_stay moved inner.started same stage
      ((Descent.step_eq_some_iff scan.error).mpr wholeMove) stepped
  | take one =>
    rw [look] at one
    cases one

/-- A step of a failure on its way out. -/
theorem turn_of_failed {error : ParseError}
    (control : r.view.control = .fail ⟨error, []⟩ ∨ r.view.control = .stop (.error ⟨error, []⟩))
    (look : r.view.tokens.length ≤ 1) (answers : r.answers = scan.answers)
    (left : r.lexer.scan.tokens = []) (stepped : r.step = some s) : Turn scan r s := by
  obtain ⟨⟨turn, frames, depth, tokens⟩, lexer, given, taken⟩ := r
  have left : lexer.scan.tokens = [] := left
  obtain rfl | rfl : turn = .fail ⟨error, []⟩ ∨ turn = .stop (.error ⟨error, []⟩) := control
  · obtain ⟨next, moved, -⟩ := Option.bind_eq_some_iff.mp stepped
    have move := (Descent.step_eq_some_iff none).mp moved
    have same : next.tokens = tokens := by cases move <;> rfl
    have look : next.tokens.length ≤ 1 := by rwa [same]
    refine turn_of_stay moved rfl same ?_ ?_ stepped
    · cases move with
      | leave => exact .failed ⟨error, .inl rfl⟩ look answers left
      | stop => exact .failed ⟨error, .inr rfl⟩ look answers left
    · simp only [whole, left]
      cases move <;> rfl
  · cases stepped

theorem Stage.turn (stage : Stage scan r) (stepped : r.step = some s) : Turn scan r s := by
  cases stage with
  | first view answers lexer => exact turn_of_first view answers lexer stepped
  | inside token inner look answers error =>
    exact turn_of_inside inner look answers error stepped
  | ended inner look answers left fine => exact turn_of_ended inner look answers left fine stepped
  | failed control look answers left =>
    obtain ⟨error, control⟩ := control
    exact turn_of_failed control look answers left stepped

/-- A reader stops only where the parse does. -/
theorem step_whole_eq_none {r : Reader} (halted : r.step = none) (fault : Option LexError) :
    r.whole.step fault = none := by
  cases moved : r.view.step none with
  | none => exact Descent.step_followedBy_eq_none moved _ fault
  | some next =>
    simp only [step, moved, Option.bind_some] at halted
    split at halted
    · cases read : r.lexer.next with
      | mk answer after =>
      cases answer with
      | ok found =>
        rw [ask_ok read] at halted
        cases halted
      | error error =>
        rw [ask_error read, Option.map_eq_none_iff] at halted
        exact Descent.step_followedBy_eq_none halted _ fault
    · cases halted

end Reader

end FilterLang
