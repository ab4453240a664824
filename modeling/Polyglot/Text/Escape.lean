/-! Escapes of quoted literals. -/

namespace Polyglot.Text

/-- The characters that stand for `c` between double quotes. -/
def escapeChar (c : Char) : List Char :=
  match c with
  | '\\' => ['\\', '\\']
  | '"' => ['\\', '"']
  | '\n' => ['\\', 'n']
  | '\r' => ['\\', 'r']
  | '\t' => ['\\', 't']
  | c => [c]

/-- Where a dollar sign opens an interpolation, it is escaped as well. -/
def escapeTemplateChar (c : Char) : List Char :=
  if c = '$' then ['\\', '$'] else escapeChar c

/-- Between single quotes the single quote is escaped and the double quote still is. -/
def escapeSingleChar (c : Char) : List Char :=
  if c = '\'' then ['\\', '\''] else escapeChar c

def escape (text : String) : String :=
  String.ofList (text.toList.flatMap escapeChar)

def escapeTemplate (text : String) : String :=
  String.ofList (text.toList.flatMap escapeTemplateChar)

end Polyglot.Text
