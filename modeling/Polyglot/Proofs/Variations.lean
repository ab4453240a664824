import Mathlib.Data.List.Nodup
import Polyglot.Proofs.JsonText

/-! A datum can be written in many ways. The fields of a structure may stand in any order, among
unknown ones or in an array without their names; what holds nothing may be left out; and a bare
name may be the key of null. -/
namespace Polyglot

open Json (Piece ParseTree)

/-- The keys of an object that can be read, in the order of the text. -/
def Json.keys (entries : List (List Piece × ParseTree)) : List String :=
  entries.filterMap fun entry => (Piece.text entry.1).toOption

theorem Json.keys_cons {key : List Piece} {name : String} (h : Piece.text key = .ok name)
    (tree : ParseTree) (rest : List (List Piece × ParseTree)) :
    keys ((key, tree) :: rest) = name :: keys rest := by
  simp [keys, h, Except.toOption]

theorem Json.keys_perm {whole first second : List (List Piece × ParseTree)}
    (h : whole.Perm (first ++ second)) : (keys whole).Perm (keys first ++ keys second) := by
  simp only [keys, ← List.filterMap_append]
  exact h.filterMap _

namespace Json.ParseTree

theorem node_ne_null {tree : ParseTree} (h : tree ≠ .null) : tree.node ≠ .leaf .null := by
  cases tree with
  | null => exact absurd rfl h
  | _ => exact nofun

/-- All words of a tree are whole. -/
theorem node_ne_brokenWord (tree : ParseTree) {start : Char} (fault : Fault) :
    tree.node ≠ .leaf (.brokenWord start fault) := by
  cases tree <;> exact nofun

end Json.ParseTree

namespace Datum

/-- What an object may leave out. -/
def Omissible (datum : Datum) : Prop :=
  datum = .absent ∨ datum = .table .empty

/-- An entry that belongs to no field. -/
def Unknown (fields : List (String × Datum)) (entry : List Piece × ParseTree) : Prop :=
  ∃ name, Piece.text entry.1 = .ok name ∧ name ∉ fields.map Prod.fst

section Fields

variable (R : Datum → ParseTree → Prop)

/-- An entry that gives the value of one of the fields. -/
def Known (fields : List (String × Datum)) (entry : List Piece × ParseTree) : Prop :=
  ∃ field ∈ fields, Piece.text entry.1 = .ok field.1 ∧ R field.2 entry.2

/-- Fields with their names, in the order of their declaration; some that hold nothing may be left
out. -/
inductive Entries : List (String × Datum) → List (List Piece × ParseTree) → Prop
  | nil : Entries [] []
  | cons {name : String} {datum : Datum} {key : List Piece} {tree : ParseTree}
    {fields : List (String × Datum)} {entries : List (List Piece × ParseTree)}
    (hk : Piece.text key = .ok name) (hd : R datum tree) (h : Entries fields entries) :
    Entries ((name, datum) :: fields) ((key, tree) :: entries)
  | omitted {name : String} {datum : Datum} {fields : List (String × Datum)}
    {entries : List (List Piece × ParseTree)} (ho : datum.Omissible) (h : Entries fields entries) :
    Entries ((name, datum) :: fields) entries

/-- Fields without their names. A table at the end may be missing if it is empty. -/
inductive Columns : List (String × Datum) → List ParseTree → Prop
  | nil : Columns [] []
  | cons {name : String} {datum : Datum} {tree : ParseTree} {fields : List (String × Datum)}
    {items : List ParseTree} (hd : R datum tree) (h : Columns fields items) :
    Columns ((name, datum) :: fields) (tree :: items)
  | short (name : String) : Columns [(name, .table .empty)] []

/-- Carries the fields of a structure, in an object or in an array. -/
inductive Carries : ParseTree → List (String × Datum) → Prop
  | object {fields : List (String × Datum)} {known others entries : List (List Piece × ParseTree)}
    (h : Entries R fields known) (ho : ∀ entry ∈ others, Unknown fields entry)
    (hp : entries.Perm (known ++ others)) : Carries (.object entries) fields
  | array {fields : List (String × Datum)} {items : List ParseTree} (h : Columns R fields items) :
    Carries (.array items) fields

variable {R} in
theorem Carries.of_entries {fields : List (String × Datum)}
    {entries : List (List Piece × ParseTree)} (h : Entries R fields entries) :
    Carries R (.object entries) fields :=
  @Carries.object R fields entries [] entries h nofun (.of_eq (List.append_nil entries).symm)

end Fields

/-- An entry of a table. -/
def SpelledEntry (entry : String × String) (field : List Piece × ParseTree) : Prop :=
  Piece.text field.1 = .ok entry.1 ∧
    ∃ pieces, field.2 = .string pieces ∧ Piece.text pieces = .ok entry.2

/-- The ways to write a datum. -/
inductive Varied : Datum → ParseTree → Prop
  | text {value : String} {pieces : List Piece} (h : Piece.text pieces = .ok value) :
    Varied (.text value) (.string pieces)
  | flag (value : Bool) : Varied (.flag value) (.bool value)
  | letter {value : Char} {pieces : List Piece}
    (h : Piece.text pieces = .ok (String.singleton value)) : Varied (.letter value) (.string pieces)
  | absent : Varied .absent .null
  | present {value : Datum} {tree : ParseTree} (h : Varied value tree) :
    Varied (.present value) tree
  | list {items : List Datum} {trees : List ParseTree} (h : List.Forall₂ Varied items trees) :
    Varied (.list items) (.array trees)
  | table {content : Table String} {fields : List (List Piece × ParseTree)}
    (h : List.Forall₂ SpelledEntry content.entries fields) :
    Varied (.table content) (.object fields)
  | record {name : String} {fields : List (String × Datum)} {tree : ParseTree}
    (h : Carries Varied tree fields) : Varied (.record name fields) tree
  | constant {tag : String} {pieces : List Piece} (h : Piece.text pieces = .ok tag) :
    Varied (.constant tag) (.string pieces)
  | constantKey {tag : String} {pieces : List Piece} (h : Piece.text pieces = .ok tag) :
    Varied (.constant tag) (.object [(pieces, .null)])
  | tagged {tag : String} {pieces : List Piece} {value : Datum} {tree : ParseTree}
    (ht : Piece.text pieces = .ok tag) (h : Varied value tree) :
    Varied (.tagged tag value) (.object [(pieces, tree)])
  | tuple {tag : String} {pieces : List Piece} {fields : List (String × Datum)} {tree : ParseTree}
    (ht : Piece.text pieces = .ok tag) (h : Carries Varied tree fields) :
    Varied (.tuple tag fields) (.object [(pieces, tree)])

mutual

/-- A datum stands in its own text in one of these ways. -/
theorem varied_tree : (datum : Datum) → Varied datum datum.tree
  | .text value => .text (Piece.text_ofText value)
  | .flag value => .flag value
  | .letter value => .letter (Piece.text_ofText (String.singleton value))
  | .absent => .absent
  | .present value => .present value.varied_tree
  | .list items => .list (varied_itemTrees items)
  | .table content => by
    refine .table ?_
    rw [List.forall₂_map_right_iff, List.forall₂_same]
    exact fun entry _ => ⟨Piece.text_ofText entry.1, _, rfl, Piece.text_ofText entry.2⟩
  | .record _ fields => .record (.of_entries (entries_fieldTrees fields))
  | .constant tag => .constant (Piece.text_ofText tag)
  | .tagged tag value => .tagged (Piece.text_ofText tag) value.varied_tree
  | .tuple tag fields =>
    .tuple (Piece.text_ofText tag) (.of_entries (entries_fieldTrees fields))

theorem varied_itemTrees : (items : List Datum) → List.Forall₂ Varied items (itemTrees items)
  | [] => .nil
  | item :: rest => .cons item.varied_tree (varied_itemTrees rest)

theorem entries_fieldTrees : (fields : List (String × Datum)) →
    Entries Varied fields (fieldTrees fields)
  | [] => .nil
  | (name, value) :: rest =>
    .cons (Piece.text_ofText name) value.varied_tree (entries_fieldTrees rest)

end

namespace Entries

variable {R : Datum → ParseTree → Prop} {fields : List (String × Datum)}
  {entries : List (List Piece × ParseTree)}

theorem keys_sublist (h : Entries R fields entries) :
    List.Sublist (Json.keys entries) (fields.map Prod.fst) := by
  induction h with
  | nil => exact .slnil
  | cons hk _ _ ih =>
    rw [Json.keys_cons hk]
    exact ih.cons_cons _
  | omitted _ _ ih => exact ih.cons _

theorem mem_keys_or_omissible (h : Entries R fields entries) :
    ∀ field ∈ fields, field.1 ∈ Json.keys entries ∨ field.2.Omissible := by
  induction h with
  | nil => exact nofun
  | cons hk _ _ ih =>
    rw [Json.keys_cons hk, List.forall_mem_cons]
    exact ⟨.inl (List.mem_cons_self ..), fun field hm => (ih field hm).imp_left (.tail _)⟩
  | omitted ho _ ih => exact List.forall_mem_cons.mpr ⟨.inr ho, ih⟩

theorem known (h : Entries R fields entries) : ∀ entry ∈ entries, Known R fields entry := by
  induction h with
  | nil => exact nofun
  | cons hk hd _ ih =>
    refine List.forall_mem_cons.mpr ⟨⟨_, List.mem_cons_self .., hk, hd⟩, fun entry hm => ?_⟩
    obtain ⟨field, hf, h⟩ := ih entry hm
    exact ⟨field, .tail _ hf, h⟩
  | omitted _ _ ih =>
    intro entry hm
    obtain ⟨field, hf, h⟩ := ih entry hm
    exact ⟨field, .tail _ hf, h⟩

section Perm

variable {others whole : List (List Piece × ParseTree)} (h : Entries R fields entries)
  (ho : ∀ entry ∈ others, Unknown fields entry)
  (hp : whole.Perm (entries ++ others))

include h hp

theorem mem_keys_of_perm :
    ∀ field ∈ fields, field.1 ∈ Json.keys whole ∨ field.2.Omissible := by
  intro field hm
  refine (h.mem_keys_or_omissible field hm).imp_left fun hkey => ?_
  exact (Json.keys_perm hp).mem_iff.mpr (List.mem_append_left _ hkey)

include ho

/-- No field is named twice. -/
theorem count_keys_le (hn : (fields.map Prod.fst).Nodup) :
    ∀ name ∈ fields.map Prod.fst, (Json.keys whole).count name ≤ 1 := by
  intro name hm
  have hz : (Json.keys others).count name = 0 := by
    refine List.count_eq_zero.mpr fun hkey => ?_
    obtain ⟨entry, he, ht⟩ := List.mem_filterMap.mp hkey
    obtain ⟨other, htext, hu⟩ := ho entry he
    rw [htext] at ht
    obtain rfl := Option.some.inj ht
    exact hu hm
  rw [(Json.keys_perm hp).count_eq, List.count_append, hz]
  exact List.nodup_iff_count_le_one.mp (hn.sublist h.keys_sublist) name

theorem known_or_unknown :
    ∀ entry ∈ whole, Known R fields entry ∨ Unknown fields entry := by
  intro entry hm
  obtain hm | hm := List.mem_append.mp (hp.mem_iff.mp hm)
  · exact .inl (h.known entry hm)
  · exact .inr (ho entry hm)

end Perm

end Entries

end Datum

end Polyglot
