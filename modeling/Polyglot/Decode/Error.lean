import Polyglot.Json.Token
import Polyglot.Decimal.Notation
import Polyglot.RenderError
import Polyglot.Text.Shown

/-! Why a JSON text is not the value that was asked for. -/

namespace Polyglot.Decode

/-- What stands where something else was expected. -/
inductive Found where
  | null
  | bool (value : Bool)
  | number (value : Json.Number)
  | string (value : String)
  | sequence
  | map
  | unitVariant

def Found.description : Found → String
  | .null => "null"
  | .bool value => "boolean `" ++ (if value then "true" else "false") ++ "`"
  | .number (.int value) => "integer `" ++ toString value ++ "`"
  | .number (.float value) => "floating point `" ++ Decimal.compactText value ++ "`"
  | .string value => "string " ++ Text.shown value
  | .sequence => "sequence"
  | .map => "map"
  | .unitVariant => "unit variant"

inductive Error where
  /-- The text is not JSON. -/
  | fault (fault : Json.Fault)
  | missingField (name : String)
  | duplicateField (name : String)
  | unknownVariant (name : String) (variants : List String)
  | wrongType (found : Found) (expected : String)
  | notACharacter (text : String)
  | wrongLength (length : Nat) (expected : String)
  /-- The value was read, and then refused. -/
  | refused (cause : RenderError)

def code (name : String) : String :=
  "`" ++ name ++ "`"

/-- A choice among names. -/
def oneOf (names : List String) : String :=
  match names with
  | [name] => code name
  | [first, second] => code first ++ " or " ++ code second
  | names => "one of " ++ ", ".intercalate (names.map code)

namespace Error

def message : Error → String
  | .fault .ended => "the text ends too early"
  | .fault .malformed => "the text is malformed"
  | .missingField name => "missing field " ++ code name
  | .duplicateField name => "duplicate field " ++ code name
  | .unknownVariant name variants =>
    "unknown variant " ++ code name ++ ", expected " ++ oneOf variants
  | .wrongType found expected =>
    "invalid type: " ++ found.description ++ ", expected " ++ expected
  | .notACharacter text =>
    "invalid value: " ++ (Found.string text).description ++ ", expected a character"
  | .wrongLength length expected =>
    "invalid length " ++ toString length ++ ", expected " ++ expected
  | .refused cause => cause.message

end Error

end Polyglot.Decode
