import FilterLang.Proofs.Command.Options
import FilterLang.Proofs.Command.LineEnds

namespace FilterLang

inductive Reading where
  | check
  | tokens
  deriving DecidableEq, Repr

namespace Reading

def name : Reading → String
  | check => "check"
  | tokens => "tokens"

def switches : Reading → List Switch
  | check => [.logLevel, .pretty, .syntaxOnly, .format]
  | tokens => [.logLevel, .pretty]

def outcome (command : Reading) (choices : List Choice) (expression : String) : Outcome :=
  match command with
  | check =>
    match parse expression with
    | .error error => ⟨1, "", "Parse error: " ++ error.message ++ "\n"⟩
    | .ok expr =>
      if .syntaxOnly ∈ choices then ⟨0, "Syntax is valid" ++ "\n", ""⟩
      else if .format .source ∈ choices then ⟨0, expr.source ++ "\n", ""⟩
      else ⟨0, expr.toJson.write (.pretty ∈ choices) ++ "\n", ""⟩
  | tokens =>
    match tokenize expression with
    | .error error => ⟨1, "", "Lexical error: " ++ error.message ++ "\n"⟩
    | .ok found => ⟨0, (Token.listJson found).write (.pretty ∈ choices) ++ "\n", ""⟩

end Reading

namespace Choice

def request (command : Reading) (choices : List Choice) (expression : Option String) : Request :=
  match command with
  | .check => .check
    { pretty := .pretty ∈ choices
      syntaxOnly := .syntaxOnly ∈ choices
      format := if .format .source ∈ choices then .source else .json } expression
  | .tokens => .tokens (.pretty ∈ choices) expression

variable {switches : List Switch} {texts : List String} {choices : List Choice}

theorem Letters.mem_switches {letters : List Char} {pending : Option Choice}
    (spelled : Letters switches letters choices pending) :
    ∀ choice ∈ choices ++ pending.toList, choice.switch ∈ switches := by
  induction spelled with
  | last member | attached member | equals member | next member => simpa using member
  | more member _ _ _ ih => exact List.forall_mem_cons.mpr ⟨member, ih⟩

theorem Holds.mem_switches {text : String} {pending : Option Choice}
    (holds : Holds switches text choices pending) :
    ∀ choice ∈ choices ++ pending.toList, choice.switch ∈ switches := by
  cases holds with
  | flag member | equals member | next member => simpa using member
  | letters spelled => exact spelled.mem_switches

theorem Spelled.mem_switches (spelled : Spelled switches texts choices) :
    ∀ choice ∈ choices, choice.switch ∈ switches := by
  induction spelled with
  | nil => simp
  | argument holds _ ih =>
    have here := holds.mem_switches
    rw [Option.toList_none, List.append_nil] at here
    exact List.forall_mem_append.mpr ⟨here, ih⟩
  | value holds _ _ ih =>
    obtain ⟨here, own⟩ := List.forall_mem_append.mp holds.mem_switches
    exact List.forall_mem_append.mpr ⟨here, List.forall_mem_cons.mpr ⟨by simpa using own, ih⟩⟩

theorem name?_argument (choice : Choice) : choice.argument.name? = some choice.switch.long := by
  unfold argument
  cases choice.value? <;> rfl

theorem operand?_argument (choice : Choice) : choice.argument.operand? = none := by
  unfold argument
  cases choice.value? <;> rfl

theorem argument_injective : Function.Injective argument := by
  intro first second same
  rcases first with _ | _ | (_ | _) | (_ | _ | _) <;>
    rcases second with _ | _ | (_ | _) | (_ | _ | _) <;>
    first | rfl | exact absurd same (by decide)

variable (choices) (operands : List String)

theorem filterMap_name? :
    (choices.map argument ++ operands.map Argument.operand).filterMap Argument.name? =
      choices.map fun choice => choice.switch.long := by
  have none : (operands.map Argument.operand).filterMap Argument.name? = [] := by
    simp [List.filterMap_eq_nil_iff, Argument.name?]
  rw [List.filterMap_append, none, List.append_nil, List.filterMap_map]
  simp [name?_argument]

theorem filterMap_operand? :
    (choices.map argument ++ operands.map Argument.operand).filterMap Argument.operand? =
      operands := by
  have none : (choices.map argument).filterMap Argument.operand? = [] := by
    simp [operand?_argument]
  rw [List.filterMap_append, none, List.nil_append, List.filterMap_map]
  exact List.filterMap_some

theorem contains_argument (choice : Choice) :
    (choices.map argument ++ operands.map Argument.operand).contains choice.argument =
      decide (choice ∈ choices) := by
  have noOperand : ∀ text, Argument.operand text ≠ choice.argument := by
    intro text same
    have named := choice.name?_argument
    rw [← same] at named
    cases named
  rw [Bool.eq_iff_iff]
  simp [noOperand, argument_injective.eq_iff]

variable {choices}

theorem format?_arguments (once : (choices.map switch).Nodup) :
    Request.format? (choices.map argument ++ operands.map Argument.operand) =
      some (if .format .source ∈ choices then .source else .json) := by
  induction choices with
  | nil =>
    have none : (operands.map Argument.operand).findSome? (Argument.value? .format) = none := by
      simp [Argument.value?]
    simp [Request.format?, none]
  | cons choice choices ih =>
    obtain ⟨fresh, once⟩ := List.nodup_cons.mp once
    have rest := ih once
    cases choice with
    | format chosen =>
      have absent : .format .source ∉ choices := fun member =>
        fresh (List.mem_map.mpr ⟨_, member, rfl⟩)
      have read : Request.format? (argument (.format chosen) ::
          (choices.map argument ++ operands.map Argument.operand)) = some chosen := by
        cases chosen <;> rfl
      rw [List.map_cons, List.cons_append, read]
      cases chosen <;> simp [absent]
    | pretty | syntaxOnly | quiet level =>
      simp only [List.mem_cons, reduceCtorEq, false_or]
      exact rest

theorem distinct_switches (command : Reading) : Switch.Distinct command.switches := by
  cases command <;> exact ⟨by decide, by decide⟩

theorem nodup_long (once : (choices.map switch).Nodup) :
    (choices.map fun choice => choice.switch.long).Nodup := by
  have all : ∀ choice : Choice, choice.switch ∈ Reading.check.switches := by
    intro choice
    cases choice <;> simp [switch, Reading.switches]
  have named : (choices.map fun choice => choice.switch.long) =
      (choices.map switch).map Switch.long := by
    rw [List.map_map]
    rfl
  rw [named]
  refine once.map_on fun first inFirst second inSecond same => ?_
  obtain ⟨choice, -, rfl⟩ := List.mem_map.mp inFirst
  obtain ⟨other, -, rfl⟩ := List.mem_map.mp inSecond
  exact (distinct_switches .check).long _ (all choice) _ (all other) same

def ending : Option String → List String
  | some expression => ["--", expression]
  | none => []

theorem arguments?_of_spelled (distinct : Switch.Distinct (.logLevel :: switches))
    (spelled : Spelled (.logLevel :: switches) texts choices)
    (once : (choices.map switch).Nodup) (expression : Option String) :
    Request.arguments? switches (texts ++ ending expression) =
      some (choices.map argument ++ expression.toList.map .operand, expression.toList) := by
  have sorted : Argument.sort? (.logLevel :: switches) (ending expression) =
      some (expression.toList.map .operand) := by
    cases expression <;> simp [ending, Argument.sort?]
  rw [Request.arguments?, sort?_of_spelled distinct spelled, sorted]
  simp only [Option.map_some, Option.bind_eq_bind, Option.bind_some, filterMap_name?,
    filterMap_operand?, if_pos (nodup_long once)]

theorem ofCommand?_of_spelled (command : Reading) (spelled : Spelled command.switches texts choices)
    (once : (choices.map switch).Nodup) (expression : Option String) :
    Request.ofCommand? command.name (texts ++ ending expression) =
      some (request command choices expression) := by
  have operand : Request.atMostOne? expression.toList = some expression := by
    cases expression <;> rfl
  have pretty : (choices.map argument ++ expression.toList.map Argument.operand).contains
      (.flag "pretty") = decide (.pretty ∈ choices) := contains_argument choices _ .pretty
  have syntaxOnly : (choices.map argument ++ expression.toList.map Argument.operand).contains
      (.flag "syntax-only") = decide (.syntaxOnly ∈ choices) :=
    contains_argument choices _ .syntaxOnly
  cases command with
  | check =>
    have read := arguments?_of_spelled (distinct_switches .check) spelled once expression
    simp only [Request.ofCommand?, Reading.name, read, Option.bind_eq_bind, Option.bind_some,
      format?_arguments _ once, operand, request, pretty, syntaxOnly]
    rfl
  | tokens =>
    have read := arguments?_of_spelled (distinct_switches .tokens) spelled once expression
    simp only [Request.ofCommand?, Reading.name, read, Option.bind_eq_bind, Option.bind_some,
      operand, request, pretty]
    rfl

theorem Holds.ne_nil {text : String} (holds : Holds switches text choices none) : choices ≠ [] := by
  cases holds with
  | letters letters => cases letters <;> exact List.cons_ne_nil _ _
  | _ => exact List.cons_ne_nil _ _

theorem Spelled.eq_nil (spelled : Spelled switches texts []) : texts = [] := by
  generalize none : [] = choices at spelled
  cases spelled with
  | nil => rfl
  | argument holds => exact absurd (List.append_eq_nil_iff.mp none.symm).1 holds.ne_nil
  | value => simp at none

theorem distinct_logLevel : Switch.Distinct [.logLevel] := ⟨by decide, by decide⟩

/-- Before the command stands at most one log level. -/
theorem ofArguments?_of_spelled {before : List String} {leading : List Choice}
    (spelled : Spelled [.logLevel] before leading) (one : leading.length ≤ 1) (command : Reading)
    (rest : List String) :
    Request.ofArguments? (before ++ command.name :: rest) =
      Request.ofCommand? command.name rest := by
  have noVersion : Request.ofArguments?.asksVersion command.name = false := by
    cases command <;> decide
  cases spelled with
  | nil =>
    have operand : Argument.options? [.logLevel] command.name = none := by
      cases command <;> decide
    unfold Request.ofArguments?
    rw [List.nil_append]
    simp [operand, noVersion]
  | @argument text texts choices more holds others =>
    have here := List.length_pos_iff.mpr holds.ne_nil
    rw [List.length_append] at one
    obtain rfl : more = [] := List.eq_nil_of_length_eq_zero (by omega)
    obtain rfl := others.eq_nil
    have options := (options?_of_holds distinct_logLevel holds).1
    unfold Request.ofArguments?
    simp [options, noVersion]
  | @value text value texts choices more choice holds has others =>
    rw [List.length_append, List.length_cons] at one
    obtain rfl : more = [] := List.eq_nil_of_length_eq_zero (by omega)
    obtain rfl := others.eq_nil
    have options := (options?_of_holds distinct_logLevel holds).1
    unfold Request.ofArguments?
    simp [options, noVersion, value_cases has]

/-- Options that are given once each have at most one log level before the command. -/
theorem length_leading_le {before : List String} {leading : List Choice}
    (spelled : Spelled [.logLevel] before leading)
    (once : ((leading ++ choices).map switch).Nodup) :
    leading.length ≤ 1 := by
  rw [List.map_append] at once
  have inside : leading.map switch ⊆ [.logLevel] := by
    intro found member
    obtain ⟨choice, chosen, rfl⟩ := List.mem_map.mp member
    exact spelled.mem_switches choice chosen
  have bound := (once.of_append_left.subperm inside).length_le
  rwa [List.length_map] at bound

end Choice

theorem fromUTF8?_toUTF8 (text : String) : String.fromUTF8? text.toUTF8 = some text := by
  rw [String.fromUTF8?, String.toUTF8_eq_toByteArray, dif_pos text.isValidUTF8]
  rfl

/-- What a request for an expression prints, wherever it comes from. -/
theorem output_request (command : Reading) (choices : List Choice) {input : Input}
    {source : Option String} {text : String} (read : Request.expression input source = .ok text) :
    (match (Choice.request command choices source).output input with
      | .ok text => (⟨0, text, ""⟩ : Outcome)
      | .error error => ⟨1, "", error.message ++ "\n"⟩) = command.outcome choices text := by
  cases command with
  | check =>
    simp only [Choice.request, Request.output, read, bind, Except.bind, check_eq,
      Reading.outcome]
    cases parse text with
    | error error => rfl
    | ok expr =>
      by_cases syntaxOnly : .syntaxOnly ∈ choices
      · simp [Except.map, Except.mapError, CheckOptions.render, syntaxOnly, pure, Except.pure]
      · by_cases source : .format .source ∈ choices
        · simp [Except.map, Except.mapError, CheckOptions.render, syntaxOnly, source, pure, Except.pure]
        · simp [Except.map, Except.mapError, CheckOptions.render, syntaxOnly, source, pure, Except.pure]
  | tokens =>
    simp only [Choice.request, Request.output, read, bind, Except.bind, listTokens_eq,
      Reading.outcome]
    cases tokenize text <;> rfl

/-- The program does with an expression what the library does, whether it is an argument or the
    input, and however the options are spelled. -/
theorem run_spelled (command : Reading) {before texts : List String} {leading choices : List Choice}
    (first : Choice.Spelled [.logLevel] before leading)
    (spelled : Choice.Spelled command.switches texts choices)
    (once : ((leading ++ choices).map Choice.switch).Nodup) (expression : String) (input : Input) :
    run (before ++ command.name :: (texts ++ ["--", expression])) input =
        command.outcome choices expression ∧
      run (before ++ command.name :: texts) (.bytes expression.toUTF8) =
        command.outcome choices expression := by
  have one := Choice.length_leading_le first once
  have onceOwn : (choices.map Choice.switch).Nodup := by
    rw [List.map_append] at once
    exact once.of_append_right
  have request (source : Option String) :
      Request.ofArguments? (before ++ command.name :: (texts ++ Choice.ending source)) =
        some (Choice.request command choices source) := by
    rw [Choice.ofArguments?_of_spelled first one,
      Choice.ofCommand?_of_spelled command spelled onceOwn source]
  have piped : Request.expression (.bytes expression.toUTF8) none = .ok expression := by
    simp only [Request.expression, Input.text, fromUTF8?_toUTF8]
  constructor
  · have asked := request (some expression)
    rw [Choice.ending] at asked
    rw [run, asked]
    exact output_request command choices rfl
  · have asked := request none
    rw [Choice.ending, List.append_nil] at asked
    rw [run, asked]
    exact output_request command choices piped

theorem run_spelled_source :
    Choice.Spelled [.logLevel] ["--log-level", "off"] [.quiet .off] ∧
      Choice.Spelled Reading.check.switches ["-pf", "source"] [.pretty, .format .source] ∧
      run ["--log-level", "off", "check", "-pf", "source", "--", "-a"] .terminal =
        ⟨1, "", "Parse error: Unexpected character '-' at position 0\n"⟩ ∧
      run ["--log-level", "off", "check", "-pf", "source"] (.bytes "a or\nb\n".toUTF8) =
        ⟨0, "a or b\n", ""⟩ := by
  have level : Choice.Holds [.logLevel] "--log-level" [] (some (.quiet .off)) :=
    @Choice.Holds.next _ (.quiet .off) "off" (by decide) rfl
  have first : Choice.Spelled [.logLevel] ["--log-level", "off"] [.quiet .off] :=
    .value level rfl .nil
  have letters : Choice.Letters Reading.check.switches ['p', 'f'] [.pretty]
      (some (.format .source)) :=
    @Choice.Letters.more _ .pretty 'p' _ _ _ (by decide) rfl rfl
      (@Choice.Letters.next _ (.format .source) 'f' "source" (by decide) rfl rfl)
  have spelled : Choice.Spelled Reading.check.switches ["-pf", "source"]
      [.pretty, .format .source] := .value (.letters letters) rfl .nil
  have once : ([.quiet .off] ++ [.pretty, .format .source] : List Choice).map Choice.switch
      |>.Nodup := by decide
  have dashed := (run_spelled .check first spelled once "-a" .terminal).1
  have piped := (run_spelled .check first spelled once "a or\nb\n" .terminal).2
  refine ⟨first, spelled, dashed.trans ?_, piped.trans ?_⟩
  · have failed : parse "-a" = .error (.lexical ⟨.unexpectedCharacter, '-', 0⟩) := by cbv
    rw [Reading.outcome, failed]
    rfl
  · have parsed : parse "a or\nb\n" =
        .ok (.binary .or (.identifier "a" false) (.identifier "b" false) false) := by cbv
    rw [Reading.outcome, parsed]
    rfl

end FilterLang
