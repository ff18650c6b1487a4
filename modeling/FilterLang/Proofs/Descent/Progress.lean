import FilterLang.Proofs.Descent.Agreement

namespace FilterLang

def ParseError.IsInner : ParseError → Prop
  | trailingInput _ => False
  | invalidNumber found => found.literal? = none
  | _ => True

namespace Descent

/-- More than the steps that a function can take before it takes a token or comes back, where each
    function that waits is reckoned with four. -/
def Control.cost : Control → Nat
  | stop _ => 0
  | fail _ => 1
  | primary | element | property _ | close _ _ => 2
  | give _ => 3
  | onward _ _ => 4
  | endArray _ => 6
  | array => 7
  | level own => 7 + 5 * (Level.member.rank - own.rank)
  | opened _ _ | start => 47

def cost (d : Descent) : Nat := 4 * d.frames.length + d.control.cost

def Control.Inner : Control → Prop
  | start => False
  | fail failure => failure.error.IsInner
  | _ => True

structure Progress (d e : Descent) : Prop where
  tokens : e.tokens = d.tokens ∧ e.cost < d.cost ∨
    (∃ token, d.tokens = token :: e.tokens) ∧ e.cost ≤ d.cost + 45
  inner : d.control = .start ∨ d.control.Inner → e.control.Inner

theorem Control.cost_level_le (level : Level) : (Control.level level).cost ≤ 42 := by
  cases level <;> decide

theorem Control.cost_tighter {level : Level} (notMember : level ≠ .member) :
    (Control.level level.tighter).cost + 4 < (Control.level level).cost := by
  have tighter := Level.rank_tighter notMember
  have bound := level.tighter.rank_le_member
  simp only [cost]
  omega

variable {fault : Option LexError} {d : Descent}

theorem progress_goOn {next : Control} (cheaper : next.cost < d.control.cost)
    (inner : next.Inner) : Progress d (d.goOn next) :=
  ⟨.inl ⟨rfl, Nat.add_lt_add_left cheaper _⟩, fun _ => inner⟩

theorem progress_failWith {error : ParseError} (unread : List Token)
    (active : 1 < d.control.cost) (inner : error.IsInner) :
    Progress d (d.failWith error unread) :=
  progress_goOn active inner

theorem inner_of_arrive {rest : List Token} {failure : Failure}
    (arrived : arrive fault rest = .error failure) : failure.error.IsInner := by
  cases fault <;> cases rest <;> cases arrived
  trivial

/-- Only where a function takes a token may it go on to one that has much to do. -/
theorem progress_take {token : Token} {rest : List Token} {next : Descent → Descent}
    (tokens : d.tokens = token :: rest) (active : 1 < d.control.cost)
    (cost : (next { d with tokens := rest }).cost ≤ d.cost + 45)
    (same : (next { d with tokens := rest }).tokens = rest)
    (inner : (next { d with tokens := rest }).control.Inner) :
    Progress d (d.take fault rest next) := by
  unfold take
  cases arrived : arrive fault rest with
  | ok => exact ⟨.inr ⟨⟨token, by rw [tokens, same]⟩, cost⟩, fun _ => inner⟩
  | error failure => exact progress_goOn active (inner_of_arrive arrived)

theorem progress_expect {kind : Token.Kind} {next : Token → Control} (active : 1 < d.control.cost)
    (cost : ∀ token, (next token).cost ≤ 4) (inner : ∀ token, (next token).Inner) :
    Progress d (d.expect fault kind next) := by
  unfold expect
  split
  · exact progress_failWith _ active trivial
  · next token rest tokens =>
    split
    · refine progress_take tokens active ?_ rfl (inner token)
      have := cost token
      simp only [Descent.cost, goOn]
      omega
    · exact progress_failWith _ active trivial

theorem progress_constant {token : Token} {rest : List Token} (tokens : d.tokens = token :: rest)
    (active : 1 < d.control.cost) : Progress d (d.constant fault token rest) := by
  refine progress_take tokens active ?_ ?_ ?_
  all_goals cases read : token.literal?
  · simp only [failWith, goOn, cost, Control.cost]
    omega
  · simp only [goOn, cost, Control.cost]
    omega
  all_goals first | rfl | exact read | trivial

theorem progress_primary (turn : d.control = .primary) : Progress d (d.primary fault) := by
  have active : 1 < d.control.cost := by rw [turn]; decide
  have taken : ∀ {token rest} (next : Control), d.tokens = token :: rest → next.cost ≤ 47 →
      next.Inner → Progress d (d.take fault rest (·.goOn next)) := by
    intro token rest next tokens bound inner
    refine progress_take tokens active ?_ rfl inner
    simp only [cost, goOn]
    omega
  unfold primary
  split
  · exact progress_failWith _ active trivial
  · next token rest tokens =>
    split
    · exact taken .array tokens (by decide) trivial
    · exact taken (.opened .parentheses token) tokens (Nat.le_refl _) trivial
    · exact taken (.give _) tokens (by simp [Control.cost]) trivial
    · split
      · exact progress_constant tokens active
      · exact progress_failWith _ active trivial

theorem progress_array (turn : d.control = .array) : Progress d d.array := by
  unfold array
  split
  · exact progress_goOn (by rw [turn]; decide) trivial
  · refine ⟨.inl ⟨rfl, ?_⟩, fun _ => trivial⟩
    simp only [call, cost, turn, Control.cost, List.length_cons]
    omega

theorem progress_element (turn : d.control = .element) : Progress d (d.element fault) := by
  have active : 1 < d.control.cost := by rw [turn]; decide
  unfold element
  split
  · exact progress_failWith _ active trivial
  · next token rest tokens =>
    split
    · exact progress_constant tokens active
    · split
      · refine progress_take tokens active ?_ rfl trivial
        simp only [cost, goOn, turn, Control.cost]
        omega
      · exact progress_failWith _ active trivial

theorem progress_accessor {object : Expr} (turn : d.control = .onward .member object) :
    Progress d (d.accessor fault object) := by
  have active : 1 < d.control.cost := by simp [turn, Control.cost]
  have gives : Progress d (d.goOn (.give object)) :=
    progress_goOn (by simp [turn, Control.cost]) trivial
  unfold accessor
  split
  · exact gives
  · next token rest tokens =>
    split
    · split
      · exact progress_failWith _ active trivial
      · refine progress_take tokens active ?_ rfl trivial
        simp only [cost, goOn, turn, Control.cost]
        omega
    · refine progress_take tokens active ?_ rfl trivial
      simp only [cost, goOn, turn, Control.cost]
      omega
    · exact gives

theorem progress_operator {level : Level} {left : Expr} (turn : d.control = .onward level left) :
    Progress d (d.operator fault level left) := by
  have gives : Progress d (d.goOn (.give left)) :=
    progress_goOn (by rw [turn]; simp [Control.cost]) trivial
  unfold operator
  split
  · exact gives
  · next token rest tokens =>
    split
    · exact gives
    · next operator found =>
      refine progress_take tokens (by rw [turn]; simp [Control.cost]) ?_ rfl trivial
      have bound := Control.cost_level_le operator.level.rightOperand
      have waits : (Control.onward level left).cost = 4 := rfl
      simp only [cost, call, List.length_cons, turn]
      omega

theorem progress_enter {group : Group} {bracket : Token}
    (turn : d.control = .opened group bracket) : Progress d (d.enter group bracket) := by
  unfold enter
  split
  · refine ⟨.inl ⟨rfl, ?_⟩, fun _ => trivial⟩
    have bound := Control.cost_level_le .or
    have waits : (Control.opened group bracket).cost = 47 := rfl
    simp only [call, cost, turn, List.length_cons]
    omega
  · exact progress_failWith _ (by rw [turn]; simp [Control.cost]) trivial

/-- The frame that goes pays for what its function still does. -/
theorem progress_receive {value : Expr} {frame : Frame} {frames : List Frame} {depth : Nat}
    {tokens : List Token} :
    Progress ⟨.give value, frame :: frames, depth, tokens⟩
      (receive fault ⟨.give value, frames, depth, tokens⟩ value frame) := by
  have turns : ∀ {next : Control} {depth' : Nat}, next.cost < 7 → next.Inner →
      Progress ⟨.give value, frame :: frames, depth, tokens⟩ ⟨next, frames, depth', tokens⟩ := by
    intro next depth' bound inner
    refine ⟨.inl ⟨rfl, ?_⟩, fun _ => inner⟩
    simp only [cost, Control.cost, List.length_cons] at bound ⊢
    omega
  cases frame with
  | left level => exact turns (by simp [Control.cost]) trivial
  | object => exact turns (by simp [Control.cost]) trivial
  | right operator left =>
    simp only [receive]
    split
    · next error found =>
      refine turns (by simp [Control.cost]) ?_
      rcases Parser.operandError?_cases found with rfl | ⟨kind, rfl, -⟩ <;> trivial
    · split <;> exact turns (by simp [Control.cost]) trivial
  | element before =>
    have ends : Progress _ ⟨.endArray (before ++ [value]), frames, depth, tokens⟩ :=
      turns (by simp [Control.cost]) trivial
    cases tokens with
    | nil => exact ends
    | cons token rest =>
      simp only [receive]
      split
      · unfold take
        cases arrived : arrive fault rest with
        | error failure => exact turns (by simp [Control.cost]) (inner_of_arrive arrived)
        | ok =>
          refine ⟨.inr ⟨⟨token, rfl⟩, ?_⟩, fun _ => trivial⟩
          simp only [cost, Control.cost, call, List.length_cons]
          omega
      · exact ends
  | expression group =>
    cases group with
    | some group => exact turns (by simp [Control.cost, goOn]) trivial
    | none => exact turns (by simp [Control.cost]) trivial

theorem progress_of_move {d e : Descent} (move : Move fault d e) : Progress d e := by
  cases move with
  | start =>
    unfold take
    cases arrived : arrive fault _ with
    | ok => exact ⟨.inl ⟨rfl, Nat.lt_add_one 46⟩, fun _ => trivial⟩
    | error failure =>
      exact progress_goOn (by simp [Control.cost]) (inner_of_arrive arrived)
  | member =>
    refine ⟨.inl ⟨rfl, ?_⟩, fun _ => trivial⟩
    simp only [cost, List.length_cons, Control.cost]
    omega
  | @level level frames depth tokens notMember =>
    refine ⟨.inl ⟨rfl, ?_⟩, fun _ => trivial⟩
    have tighter := Control.cost_tighter notMember
    simp only [cost, List.length_cons]
    omega
  | primary => exact progress_primary rfl
  | array => exact progress_array rfl
  | element => exact progress_element rfl
  | endArray | property =>
    exact progress_expect (by simp [Control.cost]) (fun _ => by simp [Control.cost])
      fun _ => trivial
  | accessor => exact progress_accessor rfl
  | operator => exact progress_operator rfl
  | enter => exact progress_enter rfl
  | @close group =>
    refine progress_expect (by simp [Control.cost]) (fun _ => ?_) fun _ => ?_
    · cases group <;> simp [Group.finish, Control.cost]
    · cases group <;> trivial
  | receive => exact progress_receive
  | leave =>
    refine ⟨.inl ⟨rfl, ?_⟩, fun inside => inside.resolve_left nofun⟩
    simp only [leave, cost, List.length_cons]
    omega
  | stop => exact ⟨.inl ⟨rfl, Nat.lt_add_one _⟩, fun _ => trivial⟩

/-- A source that starts with a token, or is empty, gets into its expression. -/
theorem step_begin {tokens : List Token} (ready : Ready fault tokens) :
    step fault (begin tokens) = some ⟨.level .or, [.expression none], 0, tokens⟩ := by
  rw [step, begin, take]
  simp only [arrive_eq_ok_iff.mpr ready]
  rfl

theorem inner_of_reaches {tokens : List Token} (reaches : Reaches fault (begin tokens) d) :
    d.control = .start ∨ d.control.Inner := by
  induction reaches with
  | refl => exact .inl rfl
  | tail _ stepped ih =>
    exact .inr ((progress_of_move ((step_eq_some_iff fault).mp stepped)).inner ih)

end Descent

/-- What an expression fails with does not blame what follows it. -/
theorem Scan.inner_of_expression {scan : Scan} {failure : Failure}
    (ready : Ready scan.error scan.tokens)
    (failed : outcome (Parser.expression scan.error maxNesting scan.tokens) = .error failure) :
    failure.error.IsInner := by
  have opens : Descent.Opens scan.error 0 (Parser.inner scan.error maxNesting) :=
    Descent.opens_inner (Nat.zero_add maxNesting)
  have inside := Descent.calls_expression opens [.expression none] scan.tokens
  rw [failed] at inside
  obtain ⟨rest, fails⟩ := inside
  have inner := Descent.inner_of_reaches (.head (Descent.step_begin ready) fails)
  exact inner.resolve_left nofun

theorem Scan.inner_or_trailing {scan : Scan} {failure : Failure}
    (failed : scan.parse = .error failure) :
    failure.error.IsInner ∨ ∃ found, failure.error = .trailingInput found := by
  rcases scan.ready_or_empty with ready | ⟨error, rfl⟩
  · rw [parse_eq_map scan ready] at failed
    cases read : outcome (Parser.expression scan.error maxNesting scan.tokens) with
    | error failure =>
      rw [read] at failed
      cases failed
      exact .inl (inner_of_expression ready read)
    | ok result =>
      obtain ⟨e, rest⟩ := result
      rw [read] at failed
      cases rest <;> cases failed
      exact .inr ⟨_, rfl⟩
  · cases failed
    exact .inl trivial

end FilterLang
