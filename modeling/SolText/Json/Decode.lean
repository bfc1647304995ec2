import SolText.Json.Basic

/-!
# Decoding JSON values

What can be wrong with a value that is to be read as something else, and the readings that all
records share. Fields are looked up by name: their order is free, and fields that nobody looks up
are ignored.
-/

namespace SolText

/-- Why a text or value could not be decoded. -/
inductive DecodeError where
  /-- The text is not JSON. -/
  | unreadable
  | missingField (name : String)
  | duplicateField (name : String)
  /-- A name that is none of the known ones. -/
  | unknownVariant (name : String)
  /-- A value of the wrong JSON type. -/
  | invalidType
  /-- A value of the right type that is out of range. -/
  | invalidValue
  /-- A record written as an array of the wrong length. -/
  | invalidLength
  /-- An array behind whose last item something else stands. -/
  | surplusItems
  /-- A text that is no semantic version. -/
  | invalidVersion
  deriving DecidableEq, Repr

/-- The wording of a decoding problem. -/
def DecodeError.message : DecodeError → String
  | missingField name => "missing field `" ++ name ++ "`"
  | duplicateField name => "duplicate field `" ++ name ++ "`"
  | unknownVariant name => "unknown variant `" ++ name ++ "`"
  | invalidType => "invalid type"
  | invalidValue => "invalid value"
  | invalidLength => "invalid length"
  | unreadable | surplusItems | invalidVersion => "other"

namespace Json

variable {α : Type}

/-- A value read as a string. -/
def asString : Json → Except DecodeError String
  | .str text => .ok text
  | _ => .error .invalidType

/-- A value read as a truth value. -/
def asBool : Json → Except DecodeError Bool
  | .bool value => .ok value
  | _ => .error .invalidType

/-- A value read as a natural number. -/
def asNat : Json → Except DecodeError Nat
  | .num (.whole value) => if 0 ≤ value then .ok value.toNat else .error .invalidValue
  | _ => .error .invalidType

/-- A value read as a list. -/
def asList (item : Json → Except DecodeError α) : Json → Except DecodeError (List α)
  | .arr items => items.mapM item
  | _ => .error .invalidType

/-- A value that may be null. -/
def asOption (item : Json → Except DecodeError α) : Json → Except DecodeError (Option α)
  | .null => .ok none
  | value => (item value).map some

/-- The choice with the given name. -/
def choose (choices : List (String × α)) (name : String) : Except DecodeError α :=
  match choices.lookup name with
  | some choice => .ok choice
  | none => .error (.unknownVariant name)

/-- The content of a choice that has none. -/
def asNothing : Json → Except DecodeError Unit
  | .null | .obj [] => .ok ()
  | _ => .error .invalidType

/-- A value read as one of several named choices: its name, or an object with that name alone. -/
def asChoice (choices : List (String × α)) : Json → Except DecodeError α
  | .str name => choose choices name
  | .obj [(name, content)] => do
    let choice ← choose choices name
    asNothing content
    return choice
  | .obj _ => .error .invalidValue
  | _ => .error .invalidType

namespace Members

/-- A field that has to be there. -/
def required (members : Members) (name : String) (item : Json → Except DecodeError α) :
    Except DecodeError α :=
  match members.lookup name with
  | some value => item value
  | none => .error (.missingField name)

/-- A field that may be missing or null. -/
def optional (members : Members) (name : String) (item : Json → Except DecodeError α) :
    Except DecodeError (Option α) :=
  match members.lookup name with
  | some value => asOption item value
  | none => .ok none

/-- A field that may be missing, and then has a default. -/
def withDefault (members : Members) (name : String) (default : α)
    (item : Json → Except DecodeError α) : Except DecodeError α :=
  match members.lookup name with
  | some value => item value
  | none => .ok default

/-- No known field occurs twice. -/
def unrepeated (known : List String) : Members → Except DecodeError Unit
  | [] => .ok ()
  | (name, _) :: rest =>
    if known.contains name && rest.any (·.1 == name) then .error (.duplicateField name)
    else unrepeated known rest

end Members

/-- The field of an optional value. -/
def ofOption (item : α → Json) : Option α → Json
  | some value => item value
  | none => .null

/-- A natural number as a value. -/
def ofNat (value : Nat) : Json := .num (.whole value)

end Json

end SolText
