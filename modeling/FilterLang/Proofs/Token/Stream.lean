import FilterLang.Proofs.Token.Layout

namespace FilterLang

namespace Lexer

inductive Call where
  | hasMore
  | next
  | step
  | drain
  | reset (text : String)

inductive Reply where
  | more (value : Bool)
  | token (result : Except LexError (Option Token))
  | item (item : Option (Except LexError Token))
  | items (items : List (Except LexError Token))
  | ready
  deriving DecidableEq

def Call.isReset : Call → Bool
  | reset _ => true
  | _ => false

def Call.atEnd : Call → Reply
  | hasMore => .more false
  | next => .token (.ok none)
  | step => .item none
  | drain => .items []
  | reset _ => .ready

def Reply.results : Reply → List (Except LexError Token)
  | token (.ok found) => found.toList.map .ok
  | token (.error error) => [.error error]
  | item found => found.toList
  | items found => found
  | more _ | ready => []

def Reply.tokens (reply : Reply) : List Token := reply.results.filterMap Except.toOption

def answer (lexer : Lexer) : Call → Reply × Lexer
  | .hasMore => (.more lexer.hasMore, lexer)
  | .next => (.token lexer.next.1, lexer.next.2)
  | .step => (.item lexer.step.1, lexer.step.2)
  | .drain => (.items lexer.drain.1, lexer.drain.2)
  | .reset text => (.ready, ofText text)

def serve {σ : Type} (answer : σ → Call → Reply × σ) : σ → List Call → List Reply × σ
  | state, [] => ([], state)
  | state, call :: calls =>
    let (reply, next) := answer state call
    let (replies, last) := serve answer next calls
    (reply :: replies, last)

end Lexer

/-- What a text of `length` characters still has to give: tokens, and then its error or its end. The
    `cursor` stands behind the last token that was read, or where there is none to be read. -/
structure TokenStream where
  length : Nat
  left : Scan
  cursor : Nat

def Scan.results (scan : Scan) : List (Except LexError Token) :=
  scan.tokens.map .ok ++ scan.error.toList.map .error

namespace TokenStream

open Lexer (Call Reply)

def ofText (text : String) : TokenStream := ⟨text.toList.length, Scan.ofText text, 0⟩

def exhausted (stream : TokenStream) : TokenStream := ⟨stream.length, ⟨[], none⟩, stream.length⟩

def behind (stream : TokenStream) (token : Token) (rest : List Token) : TokenStream :=
  ⟨stream.length, ⟨rest, stream.left.error⟩, token.limit⟩

def next (stream : TokenStream) : Except LexError (Option Token) × TokenStream :=
  match stream.left with
  | ⟨token :: rest, _⟩ => (.ok (some token), stream.behind token rest)
  | ⟨[], none⟩ => (.ok none, stream.exhausted)
  | ⟨[], some error⟩ =>
    match error.cause with
    | .unexpectedCharacter => (.error error, { stream with cursor := error.position })
    | .unterminatedString => (.error error, stream.exhausted)

def step (stream : TokenStream) : Option (Except LexError Token) × TokenStream :=
  match stream.left with
  | ⟨token :: rest, _⟩ => (some (.ok token), stream.behind token rest)
  | ⟨[], none⟩ => (none, stream.exhausted)
  | ⟨[], some error⟩ => (some (.error error), stream.exhausted)

def answer (stream : TokenStream) : Call → Reply × TokenStream
  | .hasMore => (.more (stream.cursor < stream.length), stream)
  | .next => (.token stream.next.1, stream.next.2)
  | .step => (.item stream.step.1, stream.step.2)
  | .drain => (.items stream.left.results, stream.exhausted)
  | .reset text => (.ready, ofText text)

theorem step_eq_none {stream after : TokenStream} (ended : stream.step = (none, after)) :
    stream.left = ⟨[], none⟩ ∧ after = stream.exhausted := by
  unfold step at ended
  split at ended
  · cases ended
  · next left =>
    cases ended
    exact ⟨left, rfl⟩
  · cases ended

theorem step_eq_some {stream after : TokenStream} {item : Except LexError Token}
    (read : stream.step = (some item, after)) :
    stream.left.results = item :: after.left.results ∧ after.exhausted = stream.exhausted := by
  unfold step at read
  split at read
  · next left =>
    cases read
    simp [Scan.results, behind, exhausted, left]
  · cases read
  · next left =>
    cases read
    rw [left]
    exact ⟨rfl, rfl⟩

end TokenStream

namespace Lexer

def stream (lexer : Lexer) : TokenStream :=
  ⟨lexer.offset + lexer.rest.length, lexer.scan, lexer.offset⟩

theorem stream_ofText (text : String) : (ofText text).stream = .ofText text := by
  simp [stream, ofText, TokenStream.ofText, Scan.ofText]

theorem skipBlanks_total (lexer : Lexer) :
    lexer.skipBlanks.offset + lexer.skipBlanks.rest.length =
      lexer.offset + lexer.rest.length := by
  have whole := congrArg List.length
    (List.takeWhile_append_dropWhile (p := Text.isBlank) (l := lexer.rest))
  rw [List.length_append] at whole
  simp only [skipBlanks]
  omega

theorem skipBlanks_skipBlanks (lexer : Lexer) : lexer.skipBlanks.skipBlanks = lexer.skipBlanks :=
  skipBlanks_of_headNot _ (Text.headNot_dropWhile _ _)

theorem next_skipBlanks (lexer : Lexer) : lexer.skipBlanks.next = lexer.next := by
  simp only [next, skipBlanks_skipBlanks]

theorem exhausted_skipBlanks (lexer : Lexer) : lexer.skipBlanks.exhausted = lexer.exhausted := by
  rw [exhausted, exhausted, skipBlanks_total]

theorem stream_exhausted (lexer : Lexer) : lexer.exhausted.stream = lexer.stream.exhausted := by
  have ended : lexer.exhausted.scan = ⟨[], none⟩ := scan_of_end rfl
  rw [stream, ended]
  rfl

variable {lexer after : Lexer}

theorem next_token {token : Token} (read : lexer.next = (.ok (some token), after)) :
    after.offset = token.limit ∧
      after.offset + after.rest.length = lexer.offset + lexer.rest.length := by
  have total := lexer.skipBlanks_total
  unfold next at read
  dsimp only at read
  split at read
  · cases read
  · next head rest start =>
    rw [start, List.length_cons] at total
    split at read
    · next recognized =>
      obtain ⟨tail, after, rfl, rfl, -⟩ := Token.lexeme_of_recognize recognized
      cases read
      rw [List.take_left, List.drop_left, Token.limit_ofList, List.length_cons]
      rw [List.length_append] at total
      dsimp only
      omega
    · split at read <;> cases read

theorem next_end (read : lexer.next = (.ok none, after)) : after = lexer.exhausted := by
  unfold next at read
  dsimp only at read
  split at read
  · next start =>
    cases read
    rw [← lexer.exhausted_skipBlanks]
    cases ended : lexer.skipBlanks with
    | mk rest offset =>
      rw [ended] at start
      subst start
      rfl
  · split at read
    · cases read
    · split at read <;> cases read

theorem next_error {error : LexError} (read : lexer.next = (.error error, after)) :
    error.position = lexer.skipBlanks.offset ∧
      after = match error.cause with
        | .unexpectedCharacter => lexer.skipBlanks
        | .unterminatedString => lexer.exhausted := by
  unfold next at read
  dsimp only at read
  split at read
  · cases read
  · split at read
    · cases read
    · split at read
      · cases read
        exact ⟨rfl, rfl⟩
      · cases read
        exact ⟨rfl, lexer.exhausted_skipBlanks⟩

theorem next_total (lexer : Lexer) :
    lexer.next.2.offset + lexer.next.2.rest.length = lexer.offset + lexer.rest.length := by
  cases read : lexer.next with
  | mk result after =>
  cases result with
  | error error =>
    rw [(next_error read).2]
    split
    · exact lexer.skipBlanks_total
    · rfl
  | ok found =>
    cases found with
    | none =>
      rw [next_end read]
      rfl
    | some token => exact (next_token read).2

theorem stream_skipBlanks (lexer : Lexer) :
    lexer.skipBlanks.stream = { lexer.stream with cursor := lexer.skipBlanks.offset } := by
  rw [stream, skipBlanks_total, scan_eq_of_next_eq lexer.next_skipBlanks]
  rfl

/-- A token that is read is the first of the stream. -/
theorem stream_of_token {token : Token} (read : lexer.next = (.ok (some token), after)) :
    lexer.stream.left = ⟨token :: after.scan.tokens, after.scan.error⟩ ∧
      after.stream = lexer.stream.behind token after.scan.tokens := by
  have left : lexer.scan = ⟨token :: after.scan.tokens, after.scan.error⟩ := scan_of_token read
  obtain ⟨cursor, total⟩ := next_token read
  refine ⟨left, ?_⟩
  rw [stream, total, cursor, TokenStream.behind, stream, left]

theorem stream_next (lexer : Lexer) :
    lexer.stream.next = (lexer.next.1, lexer.next.2.stream) := by
  cases read : lexer.next with
  | mk result after =>
  cases result with
  | error error =>
    have left : lexer.stream.left = ⟨[], some error⟩ := scan_of_error read
    obtain ⟨place, ends⟩ := next_error read
    subst ends
    rw [TokenStream.next, left]
    dsimp only
    cases error.cause with
    | unexpectedCharacter => simp only [stream_skipBlanks, place, left]
    | unterminatedString => rw [stream_exhausted]
  | ok found =>
    cases found with
    | none =>
      have left : lexer.stream.left = ⟨[], none⟩ := scan_of_end read
      rw [TokenStream.next, left, next_end read, stream_exhausted]
    | some token =>
      obtain ⟨left, behind⟩ := stream_of_token read
      rw [TokenStream.next, left, behind]

theorem stream_step (lexer : Lexer) :
    lexer.stream.step = (lexer.step.1, lexer.step.2.stream) := by
  cases read : lexer.next with
  | mk result after =>
  cases result with
  | error error =>
    have left : lexer.stream.left = ⟨[], some error⟩ := scan_of_error read
    have total := next_total lexer
    rw [read] at total
    rw [step, read, TokenStream.step, left, stream_exhausted]
    simp only [TokenStream.exhausted, stream, total]
  | ok found =>
    cases found with
    | none =>
      have left : lexer.stream.left = ⟨[], none⟩ := scan_of_end read
      rw [step, read, TokenStream.step, left, next_end read, stream_exhausted]
    | some token =>
      obtain ⟨left, behind⟩ := stream_of_token read
      rw [step, read, TokenStream.step, left, behind]

theorem stream_drain (lexer : Lexer) :
    (lexer.drain.1, lexer.drain.2.stream) =
      (lexer.stream.left.results, lexer.stream.exhausted) := by
  fun_induction drain lexer with
  | case1 lexer after ended =>
    have same := lexer.stream_step
    rw [ended] at same
    obtain ⟨left, exhausted⟩ := TokenStream.step_eq_none same
    rw [left, ← exhausted]
    rfl
  | case2 lexer item after read items last rest ih =>
    have same := lexer.stream_step
    rw [read] at same
    obtain ⟨left, exhausted⟩ := TokenStream.step_eq_some same
    rw [rest] at ih
    obtain ⟨rfl, behind⟩ := Prod.mk.inj ih
    rw [left, ← exhausted, ← behind]

/-- A lexer answers each call as its stream does. -/
theorem stream_answer (lexer : Lexer) (call : Call) :
    lexer.stream.answer call = ((lexer.answer call).1, (lexer.answer call).2.stream) := by
  cases call with
  | hasMore =>
    have same : lexer.hasMore = decide (lexer.offset < lexer.offset + lexer.rest.length) := by
      cases found : lexer.rest <;> simp [Lexer.hasMore, found]
    rw [answer, same]
    rfl
  | next => rw [TokenStream.answer, stream_next, answer]
  | step => rw [TokenStream.answer, stream_step, answer]
  | drain =>
    obtain ⟨results, behind⟩ := Prod.mk.inj lexer.stream_drain
    rw [TokenStream.answer, answer, results, behind]
  | reset text => rw [TokenStream.answer, answer, stream_ofText]

theorem stream_serve (lexer : Lexer) (calls : List Call) :
    serve TokenStream.answer lexer.stream calls =
      ((serve answer lexer calls).1, (serve answer lexer calls).2.stream) := by
  induction calls generalizing lexer with
  | nil => rfl
  | cons call calls ih =>
    rw [serve, stream_answer, serve]
    dsimp only
    rw [ih]

end Lexer

end FilterLang
