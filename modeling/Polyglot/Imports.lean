import Polyglot.Types

/-! The types that a program refers to, in the order in which they were first met. -/

namespace Polyglot

@[ext]
structure Imports where
  types : List ClassType
  nodup : types.Nodup
  deriving DecidableEq

namespace Imports

def empty : Imports := ⟨[], .nil⟩

@[simp]
theorem types_empty : empty.types = [] := rfl

def contains (imports : Imports) (ty : ClassType) : Bool :=
  ty ∈ imports.types

/-- A type that is already there keeps its place. -/
def insert (imports : Imports) (ty : ClassType) : Imports :=
  if h : ty ∈ imports.types then imports
  else
    { types := imports.types ++ [ty]
      nodup := List.nodup_append.mpr ⟨imports.nodup, List.pairwise_singleton _ _, by grind⟩ }

end Imports

end Polyglot
