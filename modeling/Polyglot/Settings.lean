import Polyglot.Decode.Error
import Polyglot.Toml.Document

/-! What a user of a language can choose, and how it is read from a file. -/

namespace Polyglot

structure Settings where
  indent : String := "  "
  interpolate : Bool := true
  scriptRoots : List String := []
  deriving DecidableEq

inductive SettingsError where
  | fileMissing
  /-- The file is not UTF-8. -/
  | notText
  /-- The text is no TOML. -/
  | malformed
  | unknownField (name : String)
  | wrongType (found : Toml.Value) (expected : String)

namespace Settings

def fieldNames : List String := ["indent", "interpolate", "script_roots"]

end Settings

def SettingsError.message : SettingsError → String
  | .fileMissing => "there is no such file"
  | .notText => "the file is not UTF-8"
  | .malformed => "the text is malformed"
  | .unknownField name =>
    "unknown field " ++ Decode.code name ++ ", expected " ++ Decode.oneOf Settings.fieldNames
  | .wrongType found expected =>
    "invalid type: " ++ found.description ++ ", expected " ++ expected

namespace Settings

def readText (expected : String) : Toml.Value → Except SettingsError String
  | .string text => .ok text
  | found => .error (.wrongType found expected)

def readFlag : Toml.Value → Except SettingsError Bool
  | .bool value => .ok value
  | found => .error (.wrongType found "a boolean")

def readPaths : Toml.Value → Except SettingsError (List String)
  | .array items => items.mapM (readText "path string")
  | .rows tables => tables.mapM fun table => readText "path string" (.table .header table)
  | found => .error (.wrongType found "a sequence")

/-- Takes the value of one field. -/
def set (settings : Settings) (name : String) (value : Toml.Value) :
    Except SettingsError Settings := do
  if name = "indent" then return { settings with indent := ← readText "a string" value }
  else if name = "interpolate" then return { settings with interpolate := ← readFlag value }
  else if name = "script_roots" then return { settings with scriptRoots := ← readPaths value }
  else .error (.unknownField name)

/-- Reads settings from TOML text; fields that it does not mention keep their defaults. -/
def ofToml (text : String) : Except SettingsError Settings :=
  match Toml.Document.ofText text with
  | some entries => entries.foldlM (fun settings entry => settings.set entry.1 entry.2) {}
  | none => .error .malformed

/-- Reads settings from a file, given by its content if there is such a file. -/
def ofFile (content : Option ByteArray) : Except SettingsError Settings :=
  match content with
  | none => .error .fileMissing
  | some bytes =>
    match String.fromUTF8? bytes with
    | some text => ofToml text
    | none => .error .notText

end Settings

end Polyglot
