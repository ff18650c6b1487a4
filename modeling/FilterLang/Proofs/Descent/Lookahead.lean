import FilterLang.Proofs.Descent.Progress

namespace FilterLang.Descent

def Control.leaving (unread : List Token) : Control → Control
  | fail failure => .fail ⟨failure.error, unread⟩
  | stop (.error failure) => .stop (.error ⟨failure.error, unread⟩)
  | control => control

/-- A parse that has only the next token in view, or none at the end, and the same parse with the
    tokens behind it. -/
def followedBy (d : Descent) (rest : List Token) : Descent :=
  ⟨d.control.leaving rest, d.frames, d.depth, d.tokens ++ rest⟩

/-- What the step from `d` to `e`, which has one token in view, tells of the step to `full` over all
    tokens: that token stays in view, or the one behind it comes into view, where the fault of the
    source may be met. -/
inductive Shows (fault : Option LexError) (rest : List Token) (d e full : Descent) : Prop
  | stay : e.tokens = d.tokens → full = e.followedBy rest → Shows fault rest d e full
  | take {token : Token} : d.tokens = [token] → e.tokens = [] →
      (Ready fault rest → full = ⟨e.control.leaving rest.tail, e.frames, e.depth, rest⟩) →
      (∀ error, fault = some error → rest = [] →
        full.control = .fail ⟨.lexical error, []⟩ ∧ full.tokens = [token]) →
      Shows fault rest d e full

variable {fault : Option LexError} {rest : List Token} {d : Descent} {control : Control}
  {frames : List Frame} {depth : Nat} {look : Option Token}

theorem shows_take {token : Token} {before whole : Descent} {next next' : Descent → Descent}
    (tokens : d.tokens = [token]) (all : whole.tokens = token :: rest)
    (taken : (next { before with tokens := [] }).tokens = [])
    (same : next' { whole with tokens := rest } =
      ⟨(next { before with tokens := [] }).control.leaving rest.tail,
        (next { before with tokens := [] }).frames, (next { before with tokens := [] }).depth,
        rest⟩) :
    Shows fault rest d (before.take none [] next) (whole.take fault rest next') := by
  refine .take tokens taken (fun ready => ?_) fun error faulty none => ?_
  · unfold Descent.take
    rw [arrive_eq_ok_iff.mpr ready]
    exact same
  · subst faulty none
    exact ⟨rfl, all⟩

theorem shows_expect (ends : look = none → rest = []) {kind : Token.Kind} {next : Token → Control}
    (plain : ∀ token unread, (next token).leaving unread = next token) :
    Shows fault rest ⟨control, frames, depth, look.toList⟩
      (expect none ⟨control, frames, depth, look.toList⟩ kind next)
      (expect fault (followedBy ⟨control, frames, depth, look.toList⟩ rest) kind next) := by
  cases look with
  | none =>
    cases ends rfl
    exact .stay rfl rfl
  | some token =>
    simp only [expect, followedBy, Option.toList_some, List.singleton_append]
    split
    · refine shows_take rfl rfl rfl ?_
      simp only [goOn, plain]
    · exact .stay rfl rfl

theorem shows_constant {token : Token} :
    Shows fault rest ⟨control, frames, depth, [token]⟩
      (constant none ⟨control, frames, depth, [token]⟩ token [])
      (constant fault (followedBy ⟨control, frames, depth, [token]⟩ rest) token rest) := by
  refine shows_take rfl rfl ?_ ?_ <;> cases token.literal? <;> rfl

theorem shows_primary (ends : look = none → rest = []) :
    Shows fault rest ⟨.primary, frames, depth, look.toList⟩
      (primary none ⟨.primary, frames, depth, look.toList⟩)
      (primary fault (followedBy ⟨.primary, frames, depth, look.toList⟩ rest)) := by
  cases look with
  | none =>
    cases ends rfl
    exact .stay rfl rfl
  | some token =>
    simp only [primary, followedBy, Option.toList_some, List.singleton_append]
    split
    · exact shows_take rfl rfl rfl rfl
    · exact shows_take rfl rfl rfl rfl
    · exact shows_take rfl rfl rfl rfl
    · split
      · exact shows_constant
      · exact .stay rfl rfl

theorem shows_array (ends : look = none → rest = []) :
    Shows fault rest ⟨.array, frames, depth, look.toList⟩
      (array ⟨.array, frames, depth, look.toList⟩)
      (array (followedBy ⟨.array, frames, depth, look.toList⟩ rest)) := by
  cases look with
  | none =>
    cases ends rfl
    exact .stay rfl rfl
  | some token =>
    simp only [array, followedBy, Option.toList_some, List.singleton_append, List.head?_cons,
      Option.any_some, decide_eq_true_eq]
    split <;> exact .stay rfl rfl

theorem shows_element (ends : look = none → rest = []) :
    Shows fault rest ⟨.element, frames, depth, look.toList⟩
      (element none ⟨.element, frames, depth, look.toList⟩)
      (element fault (followedBy ⟨.element, frames, depth, look.toList⟩ rest)) := by
  cases look with
  | none =>
    cases ends rfl
    exact .stay rfl rfl
  | some token =>
    simp only [element, followedBy, Option.toList_some, List.singleton_append]
    split
    · exact shows_constant
    · split
      · exact shows_take rfl rfl rfl rfl
      · exact .stay rfl rfl

theorem shows_accessor (ends : look = none → rest = []) (object : Expr) :
    Shows fault rest ⟨.onward .member object, frames, depth, look.toList⟩
      (accessor none ⟨.onward .member object, frames, depth, look.toList⟩ object)
      (accessor fault (followedBy ⟨.onward .member object, frames, depth, look.toList⟩ rest)
        object) := by
  cases look with
  | none =>
    cases ends rfl
    exact .stay rfl rfl
  | some token =>
    simp only [accessor, followedBy, Option.toList_some, List.singleton_append]
    split
    · split
      · exact .stay rfl rfl
      · exact shows_take rfl rfl rfl rfl
    · exact shows_take rfl rfl rfl rfl
    · exact .stay rfl rfl

theorem shows_operator (ends : look = none → rest = []) (level : Level) (left : Expr) :
    Shows fault rest ⟨.onward level left, frames, depth, look.toList⟩
      (operator none ⟨.onward level left, frames, depth, look.toList⟩ level left)
      (operator fault (followedBy ⟨.onward level left, frames, depth, look.toList⟩ rest) level
        left) := by
  cases look with
  | none =>
    cases ends rfl
    exact .stay rfl rfl
  | some token =>
    simp only [operator, followedBy, Option.toList_some, List.singleton_append]
    split
    · exact .stay rfl rfl
    · exact shows_take rfl rfl rfl rfl

theorem tail_followed (ends : look = none → rest = []) : (look.toList ++ rest).tail = rest := by
  cases look with
  | none => rw [ends rfl]; rfl
  | some token => rfl

theorem shows_enter (ends : look = none → rest = []) (group : Group) (bracket : Token) :
    Shows fault rest ⟨.opened group bracket, frames, depth, look.toList⟩
      (enter ⟨.opened group bracket, frames, depth, look.toList⟩ group bracket)
      (enter (followedBy ⟨.opened group bracket, frames, depth, look.toList⟩ rest) group
        bracket) := by
  simp only [enter, followedBy, tail_followed ends]
  split <;> exact .stay rfl rfl

theorem shows_receive (ends : look = none → rest = []) (value : Expr) (frame : Frame) :
    Shows fault rest ⟨.give value, frame :: frames, depth, look.toList⟩
      (receive none ⟨.give value, frames, depth, look.toList⟩ value frame)
      (receive fault ⟨.give value, frames, depth, look.toList ++ rest⟩ value frame) := by
  cases frame with
  | left level => exact .stay rfl rfl
  | object => exact .stay rfl rfl
  | right operator left =>
    simp only [receive, tail_followed ends]
    split
    · exact .stay rfl rfl
    · split <;> exact .stay rfl rfl
  | element before =>
    cases look with
    | none =>
      cases ends rfl
      exact .stay rfl rfl
    | some token =>
      simp only [receive, Option.toList_some, List.singleton_append]
      split
      · exact shows_take rfl rfl rfl rfl
      · exact .stay rfl rfl
  | expression group =>
    cases group with
    | some group => exact .stay rfl rfl
    | none =>
      cases look with
      | none =>
        cases ends rfl
        exact .stay rfl rfl
      | some token => exact .stay rfl rfl

/-- A step sees no more of the tokens than the first one. -/
theorem move_followedBy (fault : Option LexError) (rest : List Token) (look : Option Token)
    {e : Descent} (move : Move none d e) (started : d.control ≠ .start)
    (tokens : d.tokens = look.toList) (ends : look = none → rest = []) :
    ∃ full, Move fault (d.followedBy rest) full ∧ Shows fault rest d e full := by
  obtain ⟨control, frames, depth, _⟩ := d
  subst tokens
  cases move with
  | start => exact absurd rfl started
  | member => exact ⟨_, .member, .stay rfl rfl⟩
  | level notMember => exact ⟨_, .level notMember, .stay rfl rfl⟩
  | leave => exact ⟨_, .leave, .stay rfl rfl⟩
  | stop => exact ⟨_, .stop, .stay rfl rfl⟩
  | primary => exact ⟨_, .primary, shows_primary ends⟩
  | array => exact ⟨_, .array, shows_array ends⟩
  | element => exact ⟨_, .element, shows_element ends⟩
  | endArray => exact ⟨_, .endArray, shows_expect ends fun _ _ => rfl⟩
  | accessor => exact ⟨_, .accessor, shows_accessor ends _⟩
  | operator notMember => exact ⟨_, .operator notMember, shows_operator ends _ _⟩
  | property => exact ⟨_, .property, shows_expect ends fun _ _ => rfl⟩
  | enter => exact ⟨_, .enter, shows_enter ends _ _⟩
  | @close group => exact ⟨_, .close, shows_expect ends fun _ _ => by cases group <;> rfl⟩
  | receive => exact ⟨_, .receive, shows_receive ends _ _⟩

end FilterLang.Descent
