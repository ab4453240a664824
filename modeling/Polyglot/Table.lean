/-! Finite maps from names to values, kept as a list in increasing order of the names. -/

namespace Polyglot

/-- Entries in strictly increasing order of their names. -/
@[ext]
structure Table (α : Type) where
  entries : List (String × α)
  increasing : entries.Pairwise (·.1 < ·.1)
  deriving DecidableEq

namespace Table

variable {α : Type}

def empty : Table α := ⟨[], .nil⟩

def get? (table : Table α) (name : String) : Option α :=
  table.entries.lookup name

/-- Puts an entry in its place, instead of the one of that name if there is one. -/
def insertEntry (name : String) (value : α) : List (String × α) → List (String × α)
  | [] => [(name, value)]
  | (key, old) :: rest =>
    if name = key then (name, value) :: rest
    else if name < key then (name, value) :: (key, old) :: rest
    else (key, old) :: insertEntry name value rest

theorem mem_insertEntry {name : String} {value : α} {entries : List (String × α)}
    {entry : String × α} (h : entry ∈ insertEntry name value entries) :
    entry.1 = name ∨ entry ∈ entries := by
  induction entries with
  | nil => simp_all [insertEntry]
  | cons first rest ih =>
    obtain ⟨key, old⟩ := first
    unfold insertEntry at h
    split at h
    · cases h with
      | head => exact .inl rfl
      | tail _ hm => exact .inr (.tail _ hm)
    · split at h
      · cases h with
        | head => exact .inl rfl
        | tail _ hm => exact .inr hm
      · cases h with
        | head => exact .inr (.head _)
        | tail _ hm => exact (ih hm).imp_right (.tail _)

theorem pairwise_insertEntry {entries : List (String × α)} (h : entries.Pairwise (·.1 < ·.1))
    (name : String) (value : α) : (insertEntry name value entries).Pairwise (·.1 < ·.1) := by
  induction entries with
  | nil => exact List.pairwise_singleton _ _
  | cons first rest ih =>
    obtain ⟨key, old⟩ := first
    obtain ⟨hk, hr⟩ := List.pairwise_cons.mp h
    unfold insertEntry
    split
    · next he => exact List.pairwise_cons.mpr ⟨he ▸ hk, hr⟩
    · next hne =>
      split
      · next hlt =>
        refine List.pairwise_cons.mpr ⟨fun entry hm => ?_, h⟩
        cases hm with
        | head => exact hlt
        | tail _ hm => exact Std.lt_trans hlt (hk entry hm)
      · next hge =>
        have hgt : key < name := Std.lt_of_le_of_ne hge (Ne.symm hne)
        refine List.pairwise_cons.mpr ⟨fun entry hm => ?_, ih hr⟩
        cases mem_insertEntry hm with
        | inl he => exact he ▸ hgt
        | inr hm => exact hk entry hm

/-- Binds `name`, replacing what it was bound to before. -/
def insert (table : Table α) (name : String) (value : α) : Table α where
  entries := insertEntry name value table.entries
  increasing := pairwise_insertEntry table.increasing name value

/-- Later entries replace earlier ones of the same name. -/
def ofEntries (entries : List (String × α)) : Table α :=
  entries.foldl (fun table entry => table.insert entry.1 entry.2) empty

/-- Other values under the same names. -/
def withEntries (table : Table α) (entries : List (String × α))
    (h : entries.map (·.1) = table.entries.map (·.1)) : Table α where
  entries := entries
  increasing := by
    rw [← List.pairwise_map, h, List.pairwise_map]
    exact table.increasing

end Table

end Polyglot
