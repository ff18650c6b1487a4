import FilterLang.Json.Basic

namespace FilterLang.Json

variable {α : Type}

/-- What a member holds that must occur once. -/
def field? (name : String) (members : List (String × α)) : Option α :=
  match members.filter (·.1 == name) with
  | [(_, value)] => some value
  | _ => none

/-- What a member holds that may be absent but not repeated: `read` of its value, or `absent`. -/
def optionalField? {β : Type} (name : String) (absent : β) (read : α → Option β)
    (members : List (String × α)) : Option β :=
  match members.filter (·.1 == name) with
  | [] => some absent
  | [(_, value)] => read value
  | _ => none

def string? : Json → Option String
  | scalar (.string value) => some value
  | _ => none

def boolean? : Json → Option Bool
  | scalar (.boolean value) => some value
  | _ => none

def natural? : Json → Option Nat
  | scalar (.natural value) => some value
  | _ => none

def number? : Json → Option Binary64
  | scalar (.natural value) => some (.ofNat value)
  | scalar (.real value) => some value
  | _ => none

mutual

def isRepresentable : Json → Bool
  | scalar value => value != .unrepresentable
  | array elements => elementsRepresentable elements
  | object members => membersRepresentable members

def elementsRepresentable : List Json → Bool
  | [] => true
  | element :: elements => element.isRepresentable && elementsRepresentable elements

def membersRepresentable : List (String × Json) → Bool
  | [] => true
  | (_, value) :: members => value.isRepresentable && membersRepresentable members

end

end FilterLang.Json
