import Polyglot.Table

/-! Where scripts come from. -/

namespace Polyglot

/-- The files of a folder and of the folders in it, each under its path; a path without content is
an empty folder. -/
structure Folder where
  files : List (List String × Option ByteArray)

namespace Folder

/-- The names in a path. Empty ones and single dots stay where they are. -/
def steps (path : String) : List String :=
  (path.splitOn "/").filter fun name => name ≠ "" && name ≠ "."

def ofEntries (entries : List (String × Option ByteArray)) : Folder :=
  ⟨entries.map fun entry => (steps entry.1, entry.2)⟩

/-- Whether there is a folder at a place: it is the outermost one, has been given, or holds
something. -/
def hasFolder (folder : Folder) (place : List String) : Bool :=
  place.isEmpty || folder.files.any fun file =>
    place.isPrefixOf file.1 && (file.1 ≠ place || file.2.isNone)

/-- The place that a path leads to. Two dots go back to the folder around, but never out of the
outermost one, and every folder on the way must be there. -/
def resolve? (folder : Folder) : (place : List String) → List String → Option (List String)
  | place, [] => some place
  | place, [name] =>
    if name = ".." then if place.isEmpty then none else some place.dropLast
    else some (place ++ [name])
  | place, name :: rest =>
    if name = ".." then
      if place.isEmpty then none else folder.resolve? place.dropLast rest
    else if folder.hasFolder (place ++ [name]) then folder.resolve? (place ++ [name]) rest
    else none

/-- The text of a file; one that is not UTF-8 does not count. -/
def text? (folder : Folder) (path : String) : Option String :=
  if path.startsWith "/" then none
  else do
    let place ← folder.resolve? [] (steps path)
    let content ← (folder.files.lookup place).join
    String.fromUTF8? content

end Folder

inductive Resources where
  | memory (texts : Table String)
  /-- The first folder that has the file counts. -/
  | folders (roots : List Folder)

def Resources.find? (resources : Resources) (path : String) : Option String :=
  match resources with
  | .memory texts => texts.get? path
  | .folders roots => roots.findSome? (·.text? path)

end Polyglot
