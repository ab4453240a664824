import Polyglot.Text.Hidden

/-! Text as it is shown inside messages: quoted, with an escape for all that does not print. -/

namespace Polyglot.Text

def hexDigits (code : Nat) : String :=
  String.ofList (Nat.toDigits 16 code)

/-- A character between quotes of the given kind; the other kind of quote stands for itself. -/
def shownIn (quote c : Char) : String :=
  if c = quote then "\\" ++ String.singleton c
  else if c = '\x00' then "\\0"
  else if c = '\t' then "\\t"
  else if c = '\r' then "\\r"
  else if c = '\n' then "\\n"
  else if c = '\\' then "\\\\"
  else if isHidden c then "\\u\x7b" ++ hexDigits c.toNat ++ "\x7d"
  else String.singleton c

def shown (text : String) : String :=
  "\"" ++ String.join (text.toList.map (shownIn '"')) ++ "\""

def shownChar (c : Char) : String :=
  "'" ++ shownIn '\'' c ++ "'"

end Polyglot.Text
