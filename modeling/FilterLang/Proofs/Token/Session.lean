import FilterLang.Proofs.Token.Stream

namespace FilterLang

namespace Scan

theorem filterMap_results (scan : Scan) : scan.results.filterMap Except.toOption = scan.tokens := by
  obtain ⟨tokens, error⟩ := scan
  cases error <;> simp [results, Except.toOption, List.filterMap_append, List.filterMap_map,
    Function.comp_def]

theorem results_eq_nil {scan : Scan} (none : scan.results = []) : scan = ⟨[], .none⟩ := by
  obtain ⟨tokens, error⟩ := scan
  obtain ⟨noTokens, noError⟩ := List.append_eq_nil_iff.mp none
  rw [List.map_eq_nil_iff] at noTokens noError
  rw [← Option.toList_eq_nil_iff.mp noError, ← noTokens]

theorem error_mem_results {scan : Scan} {error : LexError} :
    .error error ∈ scan.results ↔ scan.error = some error := by
  obtain ⟨tokens, fault⟩ := scan
  cases fault <;> simp [results, eq_comm]

end Scan

namespace TokenStream

open Lexer (Call Reply)

variable (stream : TokenStream) {call : Call}

theorem answer_length (noReset : call.isReset = false) :
    (stream.answer call).2.length = stream.length := by
  cases call with
  | hasMore | drain => rfl
  | next =>
    simp only [answer, next]
    split
    · rfl
    · rfl
    · split <;> rfl
  | step =>
    simp only [answer, step]
    split <;> rfl
  | reset => cases noReset

/-- An answer takes its results off the stream, but for an error that may be asked for again. -/
theorem results_answer (noReset : call.isReset = false) :
    stream.left.results =
        (stream.answer call).1.results ++ (stream.answer call).2.left.results ∨
      ∃ error, stream.left = ⟨[], some error⟩ ∧
        (stream.answer call).1.results = [.error error] ∧
        (stream.answer call).2.left = stream.left := by
  cases call with
  | hasMore => exact .inl rfl
  | drain => exact .inl (List.append_nil _).symm
  | next =>
    simp only [answer, next]
    split
    · next left => exact .inl (by rw [left]; simp [Scan.results, Reply.results, behind, left])
    · next left => exact .inl (by rw [left]; rfl)
    · next error left =>
      split
      · exact .inr ⟨error, left, rfl, rfl⟩
      · exact .inl (by rw [left]; rfl)
  | step =>
    simp only [answer, step]
    split
    · next left => exact .inl (by rw [left]; simp [Scan.results, Reply.results, behind, left])
    · next left => exact .inl (by rw [left]; rfl)
    · next error left => exact .inl (by rw [left]; rfl)
  | reset => cases noReset

theorem tokens_answer (noReset : call.isReset = false) :
    (stream.answer call).1.tokens ++ (stream.answer call).2.left.tokens = stream.left.tokens := by
  rcases stream.results_answer noReset with taken | ⟨error, left, results, same⟩
  · rw [← Scan.filterMap_results, ← Scan.filterMap_results, taken, List.filterMap_append]
    rfl
  · rw [Reply.tokens, results, same, left]
    rfl

theorem errors_answer (noReset : call.isReset = false) {error : LexError}
    (found : .error error ∈ (stream.answer call).1.results ∨
      (stream.answer call).2.left.error = some error) : stream.left.error = some error := by
  rw [← Scan.error_mem_results] at found ⊢
  rcases stream.results_answer noReset with taken | ⟨fault, left, results, same⟩
  · rwa [taken, List.mem_append]
  · rw [results, same, left] at found
    rw [left]
    simpa [Scan.results] using found

end TokenStream

namespace Lexer

theorem next_rest_le (lexer : Lexer) : lexer.next.2.rest.length ≤ lexer.rest.length := by
  cases read : lexer.next with
  | mk result after =>
  cases result with
  | error error =>
    rw [(next_error read).2]
    split
    · exact lexer.length_skipBlanks_le
    · exact Nat.zero_le _
  | ok found =>
    cases found with
    | none =>
      rw [next_end read]
      exact Nat.zero_le _
    | some token => exact Nat.le_of_lt (next_shorter read)

theorem length_results_le (lexer : Lexer) : lexer.scan.results.length ≤ lexer.rest.length := by
  induction size : lexer.rest.length using Nat.strongRecOn generalizing lexer with
  | ind length ih =>
  cases read : lexer.next with
  | mk result after =>
  cases result with
  | error error =>
    have some := List.length_pos_iff.mpr (rest_ne_nil_of_error read)
    rw [scan_of_error read]
    exact size ▸ some
  | ok found =>
    cases found with
    | none =>
      rw [scan_of_end read]
      exact Nat.zero_le _
    | some token =>
      have shorter := next_shorter read
      have few := ih _ (size ▸ shorter) after rfl
      have results : lexer.scan.results = .ok token :: after.scan.results := by
        rw [scan_of_token read]
        rfl
      rw [results, List.length_cons]
      omega

theorem length_results_answer_le (lexer : Lexer) (call : Call) :
    (lexer.answer call).1.results.length ≤ lexer.rest.length := by
  cases reset : call.isReset with
  | true =>
    cases call <;> first | exact Nat.zero_le _ | cases reset
  | false =>
    refine Nat.le_trans ?_ lexer.length_results_le
    have results : (lexer.stream.answer call).1.results.length ≤ lexer.scan.results.length := by
      change _ ≤ lexer.stream.left.results.length
      rcases lexer.stream.results_answer reset with taken | ⟨error, left, results, -⟩
      · rw [taken, List.length_append]
        omega
      · rw [results, left]
        exact Nat.le_refl 1
    rwa [stream_answer] at results

theorem length_tokens_le (reply : Reply) : reply.tokens.length ≤ reply.results.length :=
  List.length_filterMap_le ..

theorem length_tokens_next (lexer : Lexer) :
    (Reply.token lexer.next.1).tokens.length + lexer.next.2.rest.length ≤ lexer.rest.length := by
  cases read : lexer.next with
  | mk result after =>
  have left := lexer.next_rest_le
  rw [read] at left
  cases result with
  | error error => exact (Nat.zero_add _).trans_le left
  | ok found =>
    cases found with
    | none => exact (Nat.zero_add _).trans_le left
    | some token => exact (Nat.add_comm ..).trans_le (next_shorter read)

theorem length_tokens_step (lexer : Lexer) :
    (Reply.item lexer.step.1).tokens.length + lexer.step.2.rest.length ≤ lexer.rest.length := by
  have taken := lexer.length_tokens_next
  unfold step
  split
  · next read => rwa [read] at taken
  · next read => rwa [read] at taken
  · next read => exact Nat.zero_le _

/-- Each token of an answer takes at least one character. -/
theorem length_tokens_answer (lexer : Lexer) {call : Call} (noReset : call.isReset = false) :
    (lexer.answer call).1.tokens.length + (lexer.answer call).2.rest.length ≤
      lexer.rest.length := by
  cases call with
  | hasMore => exact Nat.le_of_eq (Nat.zero_add _)
  | next => exact lexer.length_tokens_next
  | step => exact lexer.length_tokens_step
  | drain =>
    have few := lexer.length_results_answer_le .drain
    have tokens := length_tokens_le (lexer.answer .drain).1
    have ended := congrArg (fun stream => stream.length - stream.cursor)
      (Prod.mk.inj lexer.stream_drain).2
    simp only [stream, TokenStream.exhausted] at ended
    simp only [answer] at few tokens ⊢
    omega
  | reset => cases noReset

/-- An answer moves the cursor on by at least one character for each of its tokens. -/
theorem offset_answer (lexer : Lexer) {call : Call} (noReset : call.isReset = false) :
    lexer.offset + (lexer.answer call).1.tokens.length ≤ (lexer.answer call).2.offset := by
  have total := lexer.stream.answer_length noReset
  have shorter := lexer.length_tokens_answer noReset
  rw [stream_answer] at total
  simp only [stream] at total
  omega

theorem answer_of_spent {lexer : Lexer} (spent : lexer.hasMore = false) {call : Call}
    (noReset : call.isReset = false) : lexer.answer call = (call.atEnd, lexer) := by
  obtain ⟨rest, offset⟩ := lexer
  cases rest with
  | cons => cases spent
  | nil =>
    cases call with
    | hasMore | next | step => rfl
    | drain =>
      have ended : step ⟨[], offset⟩ = (none, ⟨[], offset⟩) := rfl
      rw [answer, drain]
      split
      · next read =>
        rw [ended] at read
        cases read
        rfl
      · next read => simp [ended] at read
    | reset => cases noReset

theorem serve_of_spent {lexer : Lexer} (spent : lexer.hasMore = false) {calls : List Call}
    (noReset : ∀ call ∈ calls, call.isReset = false) :
    serve answer lexer calls = (calls.map Call.atEnd, lexer) := by
  induction calls with
  | nil => rfl
  | cons call calls ih =>
    obtain ⟨first, others⟩ := List.forall_mem_cons.mp noReset
    rw [serve, answer_of_spent spent first]
    dsimp only
    rw [ih others]
    rfl

/-- Behind the last token of a text without error nothing more comes. -/
theorem results_of_ended {lexer : Lexer} (ended : lexer.scan = ⟨[], none⟩) {calls : List Call}
    (noReset : ∀ call ∈ calls, call.isReset = false) :
    ∀ reply ∈ (serve answer lexer calls).1, reply.results = [] := by
  induction calls generalizing lexer with
  | nil => exact nofun
  | cons call calls ih =>
    obtain ⟨first, others⟩ := List.forall_mem_cons.mp noReset
    have answers := lexer.stream_answer call
    have left : lexer.stream.left = ⟨[], none⟩ := ended
    rcases lexer.stream.results_answer first with taken | ⟨error, fault, -⟩
    · rw [left, answers] at taken
      obtain ⟨none, after⟩ := List.nil_eq_append_iff.mp taken
      exact List.forall_mem_cons.mpr ⟨none, ih (Scan.results_eq_nil after) others⟩
    · rw [left] at fault
      cases fault

structure Kept (text : String) (replies : List Reply) (lexer : Lexer) : Prop where
  tokens : replies.flatMap Reply.tokens ++ lexer.scan.tokens = (Scan.ofText text).tokens
  errors : ∀ error, .error error ∈ replies.flatMap Reply.results ∨ lexer.scan.error = some error →
    (Scan.ofText text).error = some error
  inside : lexer.offset + lexer.rest.length = text.toList.length

theorem kept_ofText (text : String) : Kept text [] (ofText text) :=
  ⟨rfl, fun _ found => found.resolve_left List.not_mem_nil, Nat.zero_add _⟩

theorem Kept.answer {text : String} {replies : List Reply} {lexer : Lexer}
    (kept : Kept text replies lexer) {call : Call} (noReset : call.isReset = false) :
    Kept text (replies ++ [(lexer.answer call).1]) (lexer.answer call).2 := by
  have tokens := lexer.stream.tokens_answer noReset
  have errors := @TokenStream.errors_answer lexer.stream call noReset
  have total := lexer.stream.answer_length noReset
  rw [stream_answer] at tokens errors total
  refine ⟨?_, fun error found => ?_, total.trans kept.inside⟩
  · rw [List.flatMap_append, List.flatMap_singleton, List.append_assoc, ← kept.tokens]
    exact congrArg _ tokens
  · rw [List.flatMap_append, List.flatMap_singleton, List.mem_append, or_assoc] at found
    exact kept.errors error (found.imp_right errors)

theorem Kept.serve {text : String} {replies : List Reply} {lexer : Lexer}
    (kept : Kept text replies lexer) {calls : List Call}
    (noReset : ∀ call ∈ calls, call.isReset = false) :
    Kept text (replies ++ (serve Lexer.answer lexer calls).1)
      (serve Lexer.answer lexer calls).2 := by
  induction calls generalizing replies lexer with
  | nil => rwa [Lexer.serve, List.append_nil]
  | cons call calls ih =>
    obtain ⟨first, others⟩ := List.forall_mem_cons.mp noReset
    have after := ih (kept.answer first) others
    rwa [List.append_assoc] at after

end Lexer

open Lexer

/-- A lexer, set to a text from any state, answers every call as the one stream of the text does,
    with its cursor where that of the stream stands. Until it is set again, it has handed out the
    tokens of the text in order, each once, and no error but that of the text. The cursor stays
    inside the text and goes on by at least one character a token, and behind the last token, as
    at the end of the text, nothing more comes. -/
theorem serve_of_reset (lexer : Lexer) (text : String) (calls : List Call) :
    let start := (lexer.answer (.reset text)).2
    let replies := (serve answer start calls).1
    let last := (serve answer start calls).2
    (replies, last.stream) = serve TokenStream.answer (.ofText text) calls ∧
      ((∀ call ∈ calls, call.isReset = false) → Kept text replies last) ∧
      (∀ call, call.isReset = false →
        last.offset + (last.answer call).1.tokens.length ≤ (last.answer call).2.offset) ∧
      (∀ call, (last.answer call).1.results.length ≤ last.rest.length) ∧
      ∀ later, (∀ call ∈ later, call.isReset = false) →
        (last.scan = ⟨[], none⟩ → ∀ reply ∈ (serve answer last later).1, reply.results = []) ∧
        (last.hasMore = false → serve answer last later = (later.map Call.atEnd, last)) := by
  intro start replies last
  refine ⟨?_, fun noReset => (kept_ofText text).serve noReset, fun call => last.offset_answer,
    last.length_results_answer_le, fun later noReset => ?_⟩
  · rw [← stream_ofText]
    exact (stream_serve start calls).symm
  · exact ⟨fun ended => results_of_ended ended noReset, fun spent => serve_of_spent spent noReset⟩

theorem serve_of_reset_unexpected :
    let text := "'é' #b"
    let error : LexError := ⟨.unexpectedCharacter, '#', 4⟩
    let calls := [.next, .hasMore, .next, .next, .step]
    let start := ((ofText "x").answer (.reset text)).2
    let replies := (serve answer start calls).1
    let last := (serve answer start calls).2
    replies = [.token (.ok (some ⟨.string, "'é'", 0⟩)), .more true, .token (.error error),
        .token (.error error), .item (some (.error error))] ∧
      Kept text replies last ∧ last.hasMore = false ∧
      serve answer last [.drain, .hasMore] = ([.items [], .more false], last) := by
  intro text error calls start replies last
  have noReset : ∀ call ∈ calls, call.isReset = false := by decide
  have spent : last.hasMore = false := by decide +kernel
  obtain ⟨-, kept, -, -, later⟩ := serve_of_reset (ofText "x") text calls
  exact ⟨by decide +kernel, kept noReset, spent, (later _ (by decide)).2 spent⟩

end FilterLang
