import FilterLang.Command.Run
import Mathlib.Data.List.TakeWhile

namespace FilterLang

/-- The log levels at which the program says nothing of what it reads. -/
inductive QuietLevel where
  | off
  | error
  | warn
  deriving DecidableEq, Repr

inductive Choice where
  | pretty
  | syntaxOnly
  | format (chosen : OutputFormat)
  | quiet (level : QuietLevel)
  deriving DecidableEq, Repr

def QuietLevel.name : QuietLevel → String
  | off => "off"
  | error => "error"
  | warn => "warn"

def OutputFormat.name : OutputFormat → String
  | json => "json"
  | source => "source"

namespace Choice

def switch : Choice → Switch
  | pretty => .pretty
  | syntaxOnly => .syntaxOnly
  | format _ => .format
  | quiet _ => .logLevel

def value? : Choice → Option String
  | pretty | syntaxOnly => none
  | format chosen => some chosen.name
  | quiet level => some level.name

def argument (choice : Choice) : Argument :=
  match choice.value? with
  | none => .flag choice.switch.long
  | some value => .setting choice.switch.long value

/-- The letters behind one dash, the choices that they make, and the one that is left to the value
    in the next argument. Only the last letter may take a value. -/
inductive Letters (switches : List Switch) : List Char → List Choice → Option Choice → Prop where
  | last {choice : Choice} {letter : Char} :
      choice.switch ∈ switches → choice.switch.short = some letter → choice.value? = none →
      Letters switches [letter] [choice] none
  | more {choice : Choice} {letter : Char} {letters : List Char} {choices : List Choice}
      {pending : Option Choice} :
      choice.switch ∈ switches → choice.switch.short = some letter → choice.value? = none →
      Letters switches letters choices pending →
      Letters switches (letter :: letters) (choice :: choices) pending
  | attached {choice : Choice} {letter : Char} {value : String} :
      choice.switch ∈ switches → choice.switch.short = some letter → choice.value? = some value →
      Letters switches (letter :: value.toList) [choice] none
  | equals {choice : Choice} {letter : Char} {value : String} :
      choice.switch ∈ switches → choice.switch.short = some letter → choice.value? = some value →
      Letters switches (letter :: '=' :: value.toList) [choice] none
  | next {choice : Choice} {letter : Char} {value : String} :
      choice.switch ∈ switches → choice.switch.short = some letter → choice.value? = some value →
      Letters switches [letter] [] (some choice)

inductive Holds (switches : List Switch) : String → List Choice → Option Choice → Prop where
  | flag {choice : Choice} :
      choice.switch ∈ switches → choice.value? = none →
      Holds switches ("--" ++ choice.switch.long) [choice] none
  | equals {choice : Choice} {value : String} :
      choice.switch ∈ switches → choice.value? = some value →
      Holds switches ("--" ++ choice.switch.long ++ "=" ++ value) [choice] none
  | next {choice : Choice} {value : String} :
      choice.switch ∈ switches → choice.value? = some value →
      Holds switches ("--" ++ choice.switch.long) [] (some choice)
  | letters {letters : List Char} {choices : List Choice} {pending : Option Choice} :
      Letters switches letters choices pending →
      Holds switches ("-" ++ String.ofList letters) choices pending

inductive Spelled (switches : List Switch) : List String → List Choice → Prop where
  | nil : Spelled switches [] []
  | argument {text : String} {texts : List String} {choices more : List Choice} :
      Holds switches text choices none → Spelled switches texts more →
      Spelled switches (text :: texts) (choices ++ more)
  | value {text value : String} {texts : List String} {choices more : List Choice}
      {choice : Choice} :
      Holds switches text choices (some choice) → choice.value? = some value →
      Spelled switches texts more →
      Spelled switches (text :: value :: texts) (choices ++ choice :: more)

end Choice

structure Switch.Distinct (switches : List Switch) : Prop where
  long : ∀ first ∈ switches, ∀ second ∈ switches, first.long = second.long → first = second
  short : ∀ first ∈ switches, ∀ second ∈ switches, first.short.isSome = true →
    first.short = second.short → first = second

theorem find?_eq_of_unique {α : Type} {p : α → Bool} {xs : List α} {x : α} (member : x ∈ xs)
    (holds : p x = true) (unique : ∀ y ∈ xs, p y = true → y = x) : xs.find? p = some x := by
  cases found : xs.find? p with
  | none => exact absurd holds (List.find?_eq_none.mp found x member)
  | some y => rw [unique y (List.mem_of_find?_eq_some found) (List.find?_some found)]

namespace Choice

theorem long_switch (choice : Choice) :
    choice.switch.long.toList ≠ [] ∧ ∀ c ∈ choice.switch.long.toList, (c != '=') = true := by
  rw [← List.all_eq_true]
  cases choice <;> simp only [switch] <;> decide

theorem short_switch (choice : Choice) : choice.switch.short ≠ some '-' := by
  cases choice <;> simp only [switch] <;> decide

/-- A value has a character, and is told apart from an option and from an equals sign. -/
theorem value_cases {choice : Choice} {value : String} (has : choice.value? = some value) :
    Argument.isDashed value = false ∧ ∃ c rest, value.toList = c :: rest ∧ c ≠ '=' := by
  cases choice with
  | pretty | syntaxOnly => cases has
  | format chosen => cases chosen <;> cases has <;> exact ⟨by decide, _, _, rfl, by decide⟩
  | quiet level => cases level <;> cases has <;> exact ⟨by decide, _, _, rfl, by decide⟩

variable {switches : List Switch} {choice : Choice} {value : String} {letters : List Char}
  {choices : List Choice} {pending : Option Choice}

theorem reads_flag (flag : choice.value? = none) :
    choice.switch.takesValue = false ∧ choice.argument = .flag choice.switch.long := by
  refine ⟨?_, by rw [argument, flag]⟩
  cases choice <;> first | rfl | cases flag

theorem reads_value (has : choice.value? = some value) :
    choice.switch.takesValue = true ∧ choice.argument = .setting choice.switch.long value := by
  refine ⟨?_, by rw [argument, has]⟩
  cases choice <;> first | rfl | cases has

theorem find?_short (distinct : Switch.Distinct switches) (member : choice.switch ∈ switches)
    {letter : Char} (short : choice.switch.short = some letter) :
    switches.find? (·.short == some letter) = some choice.switch := by
  refine find?_eq_of_unique member (by simp [short]) fun other found same => ?_
  have same : other.short = some letter := by simpa using same
  exact distinct.short other found choice.switch member (by rw [same]; rfl) (same.trans short.symm)

theorem find?_long (distinct : Switch.Distinct switches) (member : choice.switch ∈ switches) :
    switches.find? (·.long.toList == choice.switch.long.toList) = some choice.switch := by
  refine find?_eq_of_unique member (by simp) fun other found same => ?_
  have same : other.long = choice.switch.long := String.toList_injective (by simpa using same)
  exact distinct.long other found choice.switch member same

theorem cluster?_of_letters (distinct : Switch.Distinct switches)
    (spelled : Letters switches letters choices pending) :
    Argument.cluster? switches letters = some (choices.map argument, pending.map switch) := by
  induction spelled with
  | last member short flag =>
    simp [Argument.cluster?, find?_short distinct member short, reads_flag flag]
  | more member short flag _ ih =>
    simp [Argument.cluster?, find?_short distinct member short, reads_flag flag, ih]
  | @attached choice letter value member short has =>
    obtain ⟨-, c, rest, starts, noEquals⟩ := value_cases has
    have spelled : String.ofList (c :: rest) = value := by rw [← starts, String.ofList_toList]
    rw [starts]
    simp [Argument.cluster?, find?_short distinct member short, reads_value has, noEquals, spelled]
  | equals member short has | next member short has =>
    simp [Argument.cluster?, find?_short distinct member short, reads_value has]

theorem takeWhile_long (choice : Choice) :
    choice.switch.long.toList.takeWhile (· != '=') = choice.switch.long.toList :=
  List.takeWhile_eq_self_iff.mpr choice.long_switch.2

theorem long?_flag (distinct : Switch.Distinct switches) (member : choice.switch ∈ switches)
    (flag : choice.value? = none) :
    Argument.long? switches choice.switch.long.toList = some ([choice.argument], none) := by
  simp [Argument.long?, takeWhile_long, find?_long distinct member, reads_flag flag]

theorem long?_next (distinct : Switch.Distinct switches) (member : choice.switch ∈ switches)
    (has : choice.value? = some value) :
    Argument.long? switches choice.switch.long.toList = some ([], some choice.switch) := by
  simp [Argument.long?, takeWhile_long, find?_long distinct member, reads_value has]

theorem long?_equals (distinct : Switch.Distinct switches) (member : choice.switch ∈ switches)
    (has : choice.value? = some value) :
    Argument.long? switches (choice.switch.long.toList ++ '=' :: value.toList) =
      some ([choice.argument], none) := by
  have own : (choice.switch.long.toList ++ '=' :: value.toList).takeWhile (· != '=') =
      choice.switch.long.toList := by
    rw [List.takeWhile_append_of_pos choice.long_switch.2]
    simp
  simp [Argument.long?, own, find?_long distinct member, reads_value has]

theorem options?_long (switches : List Switch) {text : String} {name : List Char}
    (long : text.toList = '-' :: '-' :: name) (nonempty : name ≠ []) :
    Argument.options? switches text = some (Argument.long? switches name) ∧ text ≠ "--" := by
  refine ⟨by simp [Argument.options?, long], fun same => nonempty ?_⟩
  rw [same] at long
  cases long
  rfl

theorem Letters.starts (spelled : Letters switches letters choices pending) :
    ∃ letter rest, letters = letter :: rest ∧ letter ≠ '-' := by
  have noDash : ∀ {choice : Choice} {letter : Char}, choice.switch.short = some letter →
      letter ≠ '-' := by
    rintro choice letter short rfl
    exact choice.short_switch short
  cases spelled with
  | last _ short | more _ short | attached _ short | equals _ short | next _ short =>
    exact ⟨_, _, rfl, noDash short⟩

theorem toList_long (name : String) : ("--" ++ name).toList = '-' :: '-' :: name.toList := by
  rw [String.toList_append]
  rfl

/-- An argument is taken apart as it is spelled, and is not the end of the options. -/
theorem options?_of_holds (distinct : Switch.Distinct switches) {text : String}
    (holds : Holds switches text choices pending) :
    Argument.options? switches text =
      some (some (choices.map argument, pending.map switch)) ∧ text ≠ "--" := by
  cases holds with
  | @flag choice member flag =>
    have read := options?_long switches (toList_long _) choice.long_switch.1
    rwa [long?_flag distinct member flag] at read
  | @equals choice value member has =>
    have long : ("--" ++ choice.switch.long ++ "=" ++ value).toList =
        '-' :: '-' :: (choice.switch.long.toList ++ '=' :: value.toList) := by
      rw [String.toList_append, String.toList_append, toList_long, List.append_assoc]
      rfl
    have read := options?_long switches long (by simp)
    rwa [long?_equals distinct member has] at read
  | @next choice value member has =>
    have read := options?_long switches (toList_long _) choice.long_switch.1
    rwa [long?_next distinct member has] at read
  | @letters letters choices pending spelled =>
    obtain ⟨letter, rest, rfl, noDash⟩ := spelled.starts
    have short : ("-" ++ String.ofList (letter :: rest)).toList = '-' :: letter :: rest := by
      simp
    refine ⟨?_, fun same => noDash ?_⟩
    · rw [← cluster?_of_letters distinct spelled, Argument.options?, short]
      split
      · next same =>
        cases same
        exact absurd rfl noDash
      · next same =>
        cases same
        rfl
      · next other => exact absurd rfl (other _ _)
    · rw [same] at short
      cases short
      rfl

theorem sort?_of_spelled (distinct : Switch.Distinct switches) {texts : List String}
    (spelled : Spelled switches texts choices) (tail : List String) :
    Argument.sort? switches (texts ++ tail) =
      (Argument.sort? switches tail).map (choices.map argument ++ ·) := by
  induction spelled with
  | nil => simp
  | argument holds _ ih =>
    obtain ⟨options, notEnd⟩ := options?_of_holds distinct holds
    rw [List.cons_append, Argument.sort?, if_neg notEnd, options]
    simp [ih, Function.comp_def]
  | value holds has _ ih =>
    obtain ⟨options, notEnd⟩ := options?_of_holds distinct holds
    rw [List.cons_append, Argument.sort?, if_neg notEnd, options]
    simp [ih, Function.comp_def, value_cases has, reads_value has]

end Choice

end FilterLang
