import FilterLang.Proofs.Descent.Agreement

namespace FilterLang.Descent

inductive Turn : (List Frame × Nat) → (List Frame × Nat) → Prop where
  | stay {frames : List Frame} {depth : Nat} : Turn (frames, depth) (frames, depth)
  | whole {depth : Nat} : Turn ([], depth) ([.expression none], depth)
  | call {frames : List Frame} {depth : Nat} (frame : Frame) :
      frame.isExpression = false → Turn (frames, depth) (frame :: frames, depth)
  | again {frames : List Frame} {depth : Nat} (before after : List Expr) :
      Turn (.element before :: frames, depth) (.element after :: frames, depth)
  | enter {frames : List Frame} {depth : Nat} (group : Group) :
      depth < maxNesting → Turn (frames, depth) (.expression (some group) :: frames, depth + 1)
  | leave {frames : List Frame} {depth : Nat} (frame : Frame) :
      Turn (frame :: frames, depth) (frames, if frame.isGroup then depth - 1 else depth)

def counts (d : Descent) : List Frame × Nat := (d.frames, d.depth)

variable {fault : Option LexError}

theorem counts_take (d : Descent) (rest : List Token) (next : Descent → Descent)
    (same : ∀ d', (next d').counts = d'.counts) : (d.take fault rest next).counts = d.counts := by
  unfold take
  cases arrive fault rest with
  | ok => exact same _
  | error failure => rfl

theorem counts_expect (d : Descent) (kind : Token.Kind) (next : Token → Control) :
    (d.expect fault kind next).counts = d.counts := by
  unfold expect
  split
  · rfl
  · split
    · exact counts_take d _ _ fun _ => rfl
    · rfl

theorem counts_constant (d : Descent) (token : Token) (rest : List Token) :
    (d.constant fault token rest).counts = d.counts := by
  apply counts_take
  intro d
  cases token.literal? <;> rfl

theorem counts_primary (d : Descent) : (d.primary fault).counts = d.counts := by
  unfold primary
  split
  · rfl
  · split
    · exact counts_take d _ _ fun _ => rfl
    · exact counts_take d _ _ fun _ => rfl
    · exact counts_take d _ _ fun _ => rfl
    · split
      · exact counts_constant d _ _
      · rfl

theorem counts_element (d : Descent) : (d.element fault).counts = d.counts := by
  unfold element
  split
  · rfl
  · split
    · exact counts_constant d _ _
    · split
      · exact counts_take d _ _ fun _ => rfl
      · rfl

theorem counts_accessor (d : Descent) (object : Expr) :
    (d.accessor fault object).counts = d.counts := by
  unfold accessor
  split
  · rfl
  · split
    · split
      · rfl
      · exact counts_take d _ _ fun _ => rfl
    · exact counts_take d _ _ fun _ => rfl
    · rfl

theorem turn_take_call (d : Descent) (rest : List Token) (frame : Frame) (control : Control)
    (inner : frame.isExpression = false) :
    Turn d.counts (d.take fault rest (·.call frame control)).counts := by
  unfold take
  cases arrive fault rest with
  | ok => exact .call frame inner
  | error failure => exact .stay

theorem turn_operator (d : Descent) (level : Level) (left : Expr) :
    Turn d.counts (d.operator fault level left).counts := by
  unfold operator
  split
  · exact .stay
  · split
    · exact .stay
    · exact turn_take_call d _ _ _ rfl

theorem turn_enter (d : Descent) (group : Group) (bracket : Token) :
    Turn d.counts (d.enter group bracket).counts := by
  unfold enter
  split
  · next free => exact .enter group free
  · exact .stay

theorem turn_receive (d : Descent) (value : Expr) (frame : Frame) :
    Turn (frame :: d.frames, d.depth) (d.receive fault value frame).counts := by
  cases frame with
  | left level => exact .leave (.left level)
  | object => exact .leave .object
  | right operator left =>
    simp only [receive]
    split <;> exact .leave (.right operator left)
  | element before =>
    simp only [receive]
    split
    · exact .leave (.element before)
    · split
      · unfold take
        cases arrive fault _ with
        | ok => exact .again before _
        | error failure => exact .leave (.element before)
      · exact .leave (.element before)
  | expression group =>
    cases group with
    | none => exact .leave (.expression none)
    | some group => exact .leave (.expression (some group))

theorem Turn.of_counts {d e : Descent} (same : e.counts = d.counts) : Turn d.counts e.counts := by
  rw [same]
  exact .stay

theorem turn_of_move {d e : Descent} (move : Move fault d e) : Turn d.counts e.counts := by
  cases move with
  | start =>
    unfold take
    cases arrive fault _ with
    | ok => exact .whole
    | error failure => exact .stay
  | member => exact .call .object rfl
  | level => exact .call (.left _) rfl
  | primary => exact .of_counts (counts_primary _)
  | array =>
    unfold array
    split
    · exact .stay
    · exact .call (.element []) rfl
  | element => exact .of_counts (counts_element _)
  | endArray | property | close => exact .of_counts (counts_expect _ _ _)
  | accessor => exact .of_counts (counts_accessor _ _)
  | operator => exact turn_operator _ _ _
  | @enter group bracket => exact turn_enter _ group bracket
  | @receive value frame frames depth tokens =>
    exact turn_receive ⟨.give value, frames, depth, tokens⟩ value frame
  | @leave _ frame => exact .leave frame
  | stop => exact .stay

structure Counted (counts : List Frame × Nat) : Prop where
  depth : counts.2 = counts.1.countP Frame.isGroup
  limit : counts.2 ≤ maxNesting
  activations : counts.1.countP Frame.isExpression ≤ counts.1.countP Frame.isGroup + 1

theorem Frame.isGroup_of_not_isExpression {frame : Frame} (inner : frame.isExpression = false) :
    frame.isGroup = false := by
  cases frame <;> first | rfl | contradiction

theorem countP_isGroup_cons (group : Group) (frames : List Frame) :
    (Frame.expression (some group) :: frames).countP Frame.isGroup =
      frames.countP Frame.isGroup + 1 :=
  List.countP_cons_of_pos rfl

theorem countP_isExpression_cons (group : Option Group) (frames : List Frame) :
    (Frame.expression group :: frames).countP Frame.isExpression =
      frames.countP Frame.isExpression + 1 :=
  List.countP_cons_of_pos rfl

theorem Counted.turn {before after : List Frame × Nat} (counted : Counted before)
    (turn : Turn before after) : Counted after := by
  obtain ⟨depth, limit, activations⟩ := counted
  cases turn with
  | stay | again => exact ⟨depth, limit, activations⟩
  | whole => exact ⟨depth, limit, Nat.le_refl 1⟩
  | call frame inner =>
    have noGroup := Frame.isGroup_of_not_isExpression inner
    constructor <;> simpa [noGroup, inner]
  | @enter frames _ group free =>
    have groups := countP_isGroup_cons group frames
    have expressions := countP_isExpression_cons (some group) frames
    dsimp only at depth activations
    refine ⟨?_, free, ?_⟩ <;> dsimp only <;> omega
  | @leave frames _ frame =>
    cases frame with
    | expression group =>
      have expressions := countP_isExpression_cons group frames
      dsimp only at depth limit activations
      cases group with
      | none =>
        have same : (Frame.expression none :: frames).countP Frame.isGroup =
            frames.countP Frame.isGroup := List.countP_cons_of_neg (by decide)
        refine ⟨depth.trans same, limit, ?_⟩
        dsimp only
        omega
      | some group =>
        have groups := countP_isGroup_cons group frames
        refine ⟨?_, ?_, ?_⟩ <;> simp only [Frame.isGroup, if_true] <;> omega
    | _ => exact ⟨depth, limit, activations⟩

theorem counted_of_reaches {tokens : List Token} {d : Descent}
    (reaches : Reaches fault (begin tokens) d) : Counted d.counts := by
  induction reaches with
  | refl => exact ⟨rfl, Nat.zero_le _, Nat.zero_le _⟩
  | tail _ stepped ih => exact ih.turn (turn_of_move ((step_eq_some_iff fault).mp stepped))

end FilterLang.Descent
