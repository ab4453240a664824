import Polyglot.Proofs.ReadBack
import Polyglot.Proofs.Variations

/-! A value is read from all its variations alike. -/
namespace Polyglot

open Json (Piece ParseTree)

namespace Decode

open Datum (Varied Carries Entries Columns Known Unknown SpelledEntry)

mutual

/-- Nothing is wrong with a value that nobody asks for. -/
theorem skip_node : (tree : ParseTree) → skip tree.node = .ok ()
  | .null | .bool _ | .number _ | .string _ => rfl
  | .array items => by
    rw [ParseTree.node, skip, skip_itemNodes items]
    rfl
  | .object fields => by
    rw [ParseTree.node, skip, skip_fieldNodes fields]
    rfl

theorem skip_itemNodes : (items : List ParseTree) → skipItems (ParseTree.itemNodes items) = .ok ()
  | [] => rfl
  | item :: rest => by
    rw [ParseTree.itemNodes, skipItems, skip_node item]
    exact skip_itemNodes rest

theorem skip_fieldNodes : (fields : List (List Piece × ParseTree)) →
    skipFields (ParseTree.fieldNodes fields) = .ok ()
  | [] => rfl
  | (_, value) :: rest => by
    rw [ParseTree.fieldNodes, skipFields, skip_node value]
    exact skip_fieldNodes rest

end

/-- A reader of everything that nests no deeper than `depth`. -/
def ReadsVaried (depth : Nat) (read : Reader) : Prop :=
  ∀ kind value tree, Kind.Plain kind → kind.Holds Distinct value →
    Varied (kind.datum value) tree → tree.depth ≤ depth → read kind tree.node = .ok value

structure Level.ReadsVaried (depth : Nat) (level : Level) : Prop where
  read : Decode.ReadsVaried depth level.read
  readRow : ∀ title fields row tree, PlainFields fields → Row.Holds Distinct fields row →
    Carries Varied tree (Row.data fields row) → tree.depth ≤ depth →
    level.readRow title fields tree.node = .ok row

theorem Level.ReadsVaried.mono {depth limit : Nat} {level : Level} (hl : depth ≤ limit)
    (h : level.ReadsVaried limit) : level.ReadsVaried depth where
  read kind value tree hk hv ht hd := h.read kind value tree hk hv ht (Nat.le_trans hd hl)
  readRow title fields row tree hf hr ht hd :=
    h.readRow title fields row tree hf hr ht (Nat.le_trans hd hl)

theorem Row.names_data (fields : List Field) (row : Row fields) :
    (Row.data fields row).map Prod.fst = fields.map Field.name := by
  induction fields with
  | nil => rfl
  | cons field rest ih => exact congrArg (field.name :: ·) (ih row.2)

theorem PlainFields.nodup {fields : List Field} (h : PlainFields fields) :
    (fields.map Field.name).Nodup := by
  induction fields with
  | nil => exact List.nodup_nil
  | cons field rest ih =>
    obtain ⟨hn, -, h⟩ := h
    rw [List.map_cons, List.nodup_cons, List.mem_map]
    refine ⟨?_, ih h⟩
    rintro ⟨other, hm, he⟩
    exact hn other hm he

/-- What has a shape of its own is not left out. -/
theorem Shape.Writes.not_omissible {α : Type} {shape : Shape α} {value : α} {datum : Datum}
    (h : shape.Writes value datum) : ¬ datum.Omissible := by
  cases h with
  | record _ _ _ hd | constant _ _ hd | single _ _ _ _ hd | «structure» _ _ _ _ _ hd
  | tuple _ _ _ _ hd =>
    subst hd
    rintro (hd | hd) <;> contradiction

namespace Kind

variable {kind : Kind} {value : kind.Value} (h : kind.Holds Distinct value)
include h

theorem ifMissing?_of_omissible (ho : (kind.datum value).Omissible) :
    kind.ifMissing? = some value := by
  cases kind with
  | spellings =>
    obtain ho | ho := ho
    · contradiction
    · exact congrArg some (Datum.table.inj ho).symm
  | optional kind =>
    cases value with
    | none => rfl
    | some part => obtain ho | ho := ho <;> contradiction
  | named name => exact absurd ho (writes_datum name value h).not_omissible
  | text | flag | letter | list => obtain ho | ho := ho <;> contradiction

theorem ifShort?_of_empty (he : kind.datum value = .table .empty) : kind.ifShort? = some value := by
  cases kind with
  | spellings => exact congrArg some (Datum.table.inj he).symm
  | optional kind => cases value <;> contradiction
  | named name => exact absurd (.inr he) (writes_datum name value h).not_omissible
  | text | flag | letter | list => contradiction

end Kind

namespace Slots

/-- The values of those fields whose names have been seen. -/
def filled (seen : List String) : (fields : List Field) → Row fields → Slots fields
  | [], () => ()
  | field :: rest, (value, values) =>
    (if field.name ∈ seen then some value else Option.none, filled seen rest values)

theorem filled_nil (fields : List Field) (row : Row fields) :
    filled [] fields row = Slots.none fields := by
  induction fields with
  | nil => rfl
  | cons field rest ih => exact congrArg (Option.none, ·) (ih row.2)

theorem filled_of_unknown {name : String} {fields : List Field}
    (h : name ∉ fields.map Field.name) (seen : List String) (row : Row fields) :
    filled (name :: seen) fields row = filled seen fields row := by
  induction fields with
  | nil => rfl
  | cons field rest ih =>
    rw [List.map_cons, List.mem_cons, not_or] at h
    rw [filled, filled, ih h.2]
    simp [Ne.symm h.1]

theorem row_filled {seen : List String} {fields : List Field} {row : Row fields}
    (h : Row.Holds Distinct fields row)
    (hs : ∀ field ∈ Row.data fields row, field.1 ∈ seen ∨ field.2.Omissible) :
    Slots.row fields (filled seen fields row) = .ok row := by
  induction fields with
  | nil => rfl
  | cons field rest ih =>
    obtain ⟨value, values⟩ := row
    obtain ⟨hv, h⟩ := h
    obtain ⟨hf, hs⟩ := List.forall_mem_cons.mp hs
    have hvalue : (if field.name ∈ seen then some value else Option.none).or
        field.kind.ifMissing? = some value := by
      split_ifs with hm
      · rfl
      · exact Kind.ifMissing?_of_omissible hv (hf.resolve_left hm)
    rw [filled, Slots.row, hvalue, ih h hs]

section Put

variable {read : Reader} {name : String} {node : Json.Node} {fields : List Field}

theorem put?_unknown (h : name ∉ fields.map Field.name) (slots : Slots fields) :
    Slots.put? read name node fields slots = .ok Option.none := by
  induction fields with
  | nil => rfl
  | cons field rest ih =>
    rw [List.map_cons, List.mem_cons, not_or] at h
    obtain ⟨slot, slots⟩ := slots
    rw [put?_elsewhere h.1, ih h.2]
    rfl

/-- The entry of a field fills its slot and no other one. -/
theorem put?_known {datum : Datum} {row : Row fields} {seen : List String}
    (hr : ∀ kind value, Kind.Plain kind → kind.Holds Distinct value → kind.datum value = datum →
      read kind node = .ok value)
    (hf : PlainFields fields) (h : Row.Holds Distinct fields row)
    (hm : (name, datum) ∈ Row.data fields row) (hs : name ∉ seen) :
    Slots.put? read name node fields (filled seen fields row) =
      .ok (some (filled (name :: seen) fields row)) := by
  induction fields with
  | nil => contradiction
  | cons field rest ih =>
    obtain ⟨value, values⟩ := row
    obtain ⟨hn, hk, hf⟩ := hf
    obtain ⟨hv, h⟩ := h
    obtain he | hm := List.mem_cons.mp hm
    · obtain ⟨rfl, rfl⟩ := Prod.mk.inj he
      have hu : field.name ∉ rest.map Field.name := by
        rw [List.mem_map]
        rintro ⟨other, ho, he⟩
        exact hn other ho he
      rw [filled, filled, if_neg hs, if_pos (List.mem_cons_self ..), filled_of_unknown hu,
        put?_here, hr field.kind value hk hv rfl]
      rfl
    · have hne : name ≠ field.name := by
        obtain ⟨other, ho, rfl⟩ := Row.mem_data hm
        exact hn other ho
      rw [filled, filled, put?_elsewhere hne, ih hf h hm]
      simp [Ne.symm hne, Functor.map, Except.map]

end Put

end Slots

section Parts

variable {read : Reader} {depth : Nat} (hr : ReadsVaried depth read)

section Entries

variable {fields : List Field} {row : Row fields} {key : List Piece} {tree : ParseTree}
  {seen : List String}

/-- An unknown entry changes nothing. -/
theorem readEntries_unknown {name : String} (hk : Piece.text key = .ok name)
    (hu : name ∉ (Row.data fields row).map Prod.fst) (rest : List (List Piece × ParseTree)) :
    readEntries read fields (ParseTree.fieldNodes ((key, tree) :: rest))
        (Slots.filled seen fields row) =
      readEntries read fields (ParseTree.fieldNodes rest)
        (Slots.filled (name :: seen) fields row) := by
  rw [Row.names_data] at hu
  rw [Slots.filled_of_unknown hu, ParseTree.fieldNodes, readEntries, readPieces_eq_ok hk]
  change (Slots.put? read name tree.node fields _ >>= _) = _
  rw [Slots.put?_unknown hu]
  change ((skip tree.node).mapError Error.fault >>= _) = _
  rw [skip_node]
  rfl

variable (hf : PlainFields fields) (h : Row.Holds Distinct fields row)
include hr hf h

/-- An entry for a field that has not been seen yet fills its slot. -/
theorem readEntries_known {field : String × Datum} (hm : field ∈ Row.data fields row)
    (hk : Piece.text key = .ok field.1) (hv : Varied field.2 tree) (ht : tree.depth ≤ depth)
    (hs : field.1 ∉ seen) (rest : List (List Piece × ParseTree)) :
    readEntries read fields (ParseTree.fieldNodes ((key, tree) :: rest))
        (Slots.filled seen fields row) =
      readEntries read fields (ParseTree.fieldNodes rest)
        (Slots.filled (field.1 :: seen) fields row) := by
  have hread : ∀ kind value, Kind.Plain kind → kind.Holds Distinct value →
      kind.datum value = field.2 → read kind tree.node = .ok value := by
    intro kind value hplain hvalue he
    exact hr kind value tree hplain hvalue (he ▸ hv) ht
  rw [ParseTree.fieldNodes, readEntries, readPieces_eq_ok hk]
  change (Slots.put? read field.1 tree.node fields _ >>= _) = _
  rw [Slots.put?_known hread hf h hm hs]
  rfl

/-- The entries of an object are read in any order, as long as no field is named twice. -/
theorem readEntries_filled {entries : List (List Piece × ParseTree)}
    (he : ∀ entry ∈ entries, Known Varied (Row.data fields row) entry ∨
      Unknown (Row.data fields row) entry)
    (hd : ∀ entry ∈ entries, entry.2.depth ≤ depth)
    (hc : ∀ name ∈ (Row.data fields row).map Prod.fst,
      (Json.keys entries ++ seen).count name ≤ 1) :
    readEntries read fields (ParseTree.fieldNodes entries) (Slots.filled seen fields row) =
      .ok (Slots.filled ((Json.keys entries).reverse ++ seen) fields row) := by
  induction entries generalizing seen with
  | nil => rfl
  | cons entry rest ih =>
    obtain ⟨key, tree⟩ := entry
    obtain ⟨hentry, he⟩ := List.forall_mem_cons.mp he
    obtain ⟨ht, hd⟩ := List.forall_mem_cons.mp hd
    have hstep : ∃ name, Piece.text key = .ok name ∧
        readEntries read fields (ParseTree.fieldNodes ((key, tree) :: rest))
            (Slots.filled seen fields row) =
          readEntries read fields (ParseTree.fieldNodes rest)
            (Slots.filled (name :: seen) fields row) := by
      obtain ⟨field, hm, hk, hv⟩ | ⟨name, hk, hu⟩ := hentry
      · have hs : field.1 ∉ seen := by
          have hone := hc field.1 (List.mem_map_of_mem hm)
          rw [Json.keys_cons hk, List.cons_append, List.count_cons_self, List.count_append] at hone
          exact List.count_eq_zero.mp (by omega)
        exact ⟨field.1, hk, readEntries_known hr hf h hm hk hv ht hs rest⟩
      · exact ⟨name, hk, readEntries_unknown hk hu rest⟩
    obtain ⟨name, hk, hstep⟩ := hstep
    rw [Json.keys_cons hk] at hc ⊢
    rw [hstep, List.reverse_cons, List.append_assoc]
    refine ih he hd fun other ho => ?_
    rw [List.perm_middle.count_eq]
    exact hc other ho

end Entries

include hr

/-- Fields without their names are read in the order of their declaration. -/
theorem readItems_columns {data : List (String × Datum)} {items : List ParseTree}
    (hc : Columns Varied data items) (hd : ∀ item ∈ items, item.depth ≤ depth)
    {fields : List Field} (hf : PlainFields fields) {row : Row fields}
    (h : Row.Holds Distinct fields row) (he : Row.data fields row = data) (expected : String)
    (index : Nat) :
    readItems read expected .closed fields index (ParseTree.itemNodes items) = .ok row := by
  induction hc generalizing fields index with
  | nil =>
    cases fields with
    | nil => rfl
    | cons => contradiction
  | @cons name datum tree data items hv _ ih =>
    cases fields with
    | nil => contradiction
    | cons field rest =>
      obtain ⟨value, values⟩ := row
      obtain ⟨-, hk, hf⟩ := hf
      obtain ⟨hvalue, h⟩ := h
      obtain ⟨ht, hd⟩ := List.forall_mem_cons.mp hd
      obtain ⟨hfirst, hrest⟩ := List.cons.inj he
      obtain ⟨-, rfl⟩ := Prod.mk.inj hfirst
      rw [ParseTree.itemNodes, readItems, hr field.kind value tree hk hvalue hv ht]
      change (readItems read expected .closed rest (index + 1) _ >>= _) = _
      rw [ih hd hf h hrest]
      rfl
  | short name =>
    cases fields with
    | nil => contradiction
    | cons field rest =>
      obtain ⟨value, values⟩ := row
      obtain ⟨hfirst, hrest⟩ := List.cons.inj he
      have hs := Kind.ifShort?_of_empty h.1 (Prod.mk.inj hfirst).2
      cases rest with
      | cons => contradiction
      | nil =>
        rw [ParseTree.itemNodes, readItems, hs]
        rfl

theorem readList_varied {kind : Kind} (hk : kind.Plain) {values : List kind.Value}
    (h : ∀ part ∈ values, kind.Holds Distinct part) {items : List ParseTree}
    (hv : List.Forall₂ Varied (values.map kind.datum) items)
    (hd : ∀ item ∈ items, item.depth ≤ depth) :
    readList read kind (ParseTree.itemNodes items) = .ok values := by
  rw [List.forall₂_map_left_iff] at hv
  induction hv with
  | nil => rfl
  | @cons value tree values items hv _ ih =>
    obtain ⟨hvalue, h⟩ := List.forall_mem_cons.mp h
    obtain ⟨ht, hd⟩ := List.forall_mem_cons.mp hd
    rw [ParseTree.itemNodes, readList, hr kind value tree hk hvalue hv ht]
    change (readList read kind (ParseTree.itemNodes items) >>= _) = _
    rw [ih h hd]
    rfl

theorem readSpellings_varied {spellings result : Spellings} {entries : List (String × String)}
    {fields : List (List Piece × ParseTree)} (hv : List.Forall₂ SpelledEntry entries fields)
    (h : result.entries = spellings.entries ++ entries) :
    readSpellings read spellings (ParseTree.fieldNodes fields) = .ok result := by
  induction hv generalizing spellings with
  | nil =>
    rw [List.append_nil] at h
    exact congrArg Except.ok (Table.ext h.symm)
  | @cons entry field entries fields hf _ ih =>
    obtain ⟨language, spelling⟩ := entry
    obtain ⟨key, tree⟩ := field
    obtain ⟨hk, pieces, rfl, hp⟩ := hf
    have hread : read .text (ParseTree.string pieces).node = .ok spelling :=
      hr .text spelling _ trivial trivial (.text hp) (Nat.zero_le depth)
    rw [ParseTree.fieldNodes, readSpellings, readPieces_eq_ok hk, hread]
    exact ih (Table.insert_next h)

end Parts

theorem Shape.Writes.ne_null {α : Type} {shape : Shape α} {value : α} {datum : Datum}
    (h : shape.Writes value datum) {tree : ParseTree} (hv : Varied datum tree) : tree ≠ .null := by
  cases h with
  | record _ _ _ hd | constant _ _ hd | single _ _ _ _ hd | «structure» _ _ _ _ _ hd
  | tuple _ _ _ _ hd =>
    subst hd
    rintro rfl
    cases hv <;> contradiction

/-- What is no option is not written as null. -/
theorem Kind.ne_null {kind : Kind} (hk : (Kind.optional kind).Plain) {value : kind.Value}
    (h : kind.Holds Distinct value) {tree : ParseTree} (hv : Varied (kind.datum value) tree) :
    tree ≠ .null := by
  cases kind with
  | optional => exact hk.elim
  | named name => exact (writes_datum name value h).ne_null hv
  | text | flag | letter | spellings | list =>
    rintro rfl
    contradiction

section Levels

variable {limit : Nat} {inner : Option Level}
  (hi : ∀ depth < limit, ∃ level, inner = some level ∧ level.ReadsVaried depth)
include hi

theorem enter_varied {α : Type} {go : Level → Except Error α} {depth : Nat} {value : α}
    (hd : depth < limit) (h : ∀ level, Level.ReadsVaried depth level → go level = .ok value) :
    enter inner go = .ok value := by
  obtain ⟨level, rfl, hl⟩ := hi depth hd
  exact h level hl

/-- The fields of a structure are read from an object or from an array. -/
theorem readRow_carried (title : String) {fields : List Field} (hf : PlainFields fields)
    {row : Row fields} (h : Row.Holds Distinct fields row) {tree : ParseTree}
    (hc : Carries Varied tree (Row.data fields row)) (hd : tree.depth ≤ limit) :
    readRow inner title fields tree.node = .ok row := by
  cases hc with
  | @object _ known others entries hk ho hp =>
    have hn : ((Row.data fields row).map Prod.fst).Nodup := by
      rw [Row.names_data]
      exact hf.nodup
    have hcount := hk.count_keys_le ho hp hn
    refine enter_varied hi hd fun level hl => ?_
    rw [← Slots.filled_nil fields row, readEntries_filled hl.read hf h
      (hk.known_or_unknown ho hp) (ParseTree.depthOfFields_le.mp (Nat.le_refl _))
      (by simpa using hcount)]
    refine Slots.row_filled h fun field hm => ?_
    rw [List.append_nil, List.mem_reverse]
    exact hk.mem_keys_of_perm hp field hm
  | @array _ items hc =>
    refine enter_varied hi hd fun level hl => ?_
    exact readItems_columns hl.read hc (ParseTree.depthOfItems_le.mp (Nat.le_refl _)) hf h rfl _ 0

section Choices

variable {α : Type} {title : String} {variants : List (String × Payload α)} {tag : String}
  {pieces : List Piece}

theorem readChoice_key {payload : Payload α} (hl : variants.lookup tag = some payload)
    (ht : Piece.text pieces = .ok tag) {tree : ParseTree}
    (hd : (ParseTree.object [(pieces, tree)]).depth ≤ limit) {value : α}
    (h : ∀ level, Level.ReadsVaried tree.depth level → ∀ title,
      readPayload level title payload tree.node = .ok value) :
    readChoice inner title variants (ParseTree.object [(pieces, tree)]).node = .ok value := by
  have hv : findVariant variants tag = .ok payload := by
    rw [findVariant, hl]
  have hlt : tree.depth < limit := by
    rwa [ParseTree.depth, ParseTree.depthOfFields, ParseTree.depthOfFields, Nat.max_zero] at hd
  refine enter_varied hi hlt fun level hlevel => ?_
  rw [readPieces_eq_ok ht]
  change (findVariant variants tag >>= _) = _
  rw [hv]
  change (readPayload level _ payload tree.node >>= _) = _
  rw [h level hlevel]
  rfl

theorem readChoice_constant_varied {value : α}
    (hl : variants.lookup tag = some (.constant value)) {tree : ParseTree}
    (hv : Varied (.constant tag) tree) (hd : tree.depth ≤ limit) :
    readChoice inner title variants tree.node = .ok value := by
  cases hv with
  | constant ht => exact readChoice_constant hl ht
  | constantKey ht => exact readChoice_key hi hl ht hd fun _ _ _ => rfl

end Choices

/-- What a shape writes is read in all its variations. -/
theorem readShape_varied {α : Type} {Q : α → Prop} {shape : Shape α} {value : α} {datum : Datum}
    (hp : shape.Plain) (hk : shape.Keeps Distinct Q) (hq : Q value)
    (h : shape.Writes value datum) {tree : ParseTree} (hv : Varied datum tree)
    (hd : tree.depth ≤ limit) : readShape inner shape tree.node = .ok value := by
  cases h with
  | @record title fields _ _ _ name row hm he =>
    subst he
    cases hv with
    | record hc =>
      have hrow := readRow_carried hi title hp ((hk row value hm).mp hq) hc hd
      change (readRow inner title fields tree.node >>= _) = _
      rw [hrow]
      exact hm
  | constant tag hl he =>
    subst he
    exact readChoice_constant_varied hi hl hv hd
  | @single _ _ _ _ kind make tag hl part hm he =>
    subst hm he
    have hvariant := mem_of_lookup hl
    have hpart : kind.Holds Distinct part := (hk _ hvariant part).mp hq
    cases hv with
    | @tagged _ _ _ tree ht hv =>
      refine readChoice_key hi hl ht hd fun level hlevel title => ?_
      rw [readPayload, hlevel.read kind part tree (hp _ hvariant) hpart hv (Nat.le_refl _)]
      rfl
  | @«structure» _ inner _ _ _ fields make tag hl name row hm he =>
    subst hm he
    have hvariant := mem_of_lookup hl
    have hrow : Row.Holds Distinct fields row := (hk _ hvariant row).mp hq
    cases hv with
    | @tagged _ _ _ tree ht hv =>
      cases hv with
      | record hc =>
        refine readChoice_key hi hl ht hd fun level hlevel title => ?_
        rw [readPayload, hlevel.readRow inner fields row tree (hp _ hvariant) hrow hc
          (Nat.le_refl _)]
        rfl
  | @tuple _ _ _ _ fields make tag hl row hm he =>
    subst hm he
    have hvariant := mem_of_lookup hl
    have hrow : Row.Holds Distinct fields row := (hk _ hvariant row).mp hq
    cases hv with
    | @tuple _ _ _ tree ht hc =>
      refine readChoice_key hi hl ht hd fun level hlevel title => ?_
      rw [readPayload, hlevel.readRow _ fields row tree (hp _ hvariant) hrow hc (Nat.le_refl _)]
      rfl

theorem readKind_varied (kind : Kind) (value : kind.Value) (tree : ParseTree) (hk : kind.Plain)
    (h : kind.Holds Distinct value) (hv : Varied (kind.datum value) tree)
    (hd : tree.depth ≤ limit) : readKind inner kind tree.node = .ok value := by
  -- Only an option is read at the same depth as its part; all other parts are further inside.
  induction kind with
  | text =>
    cases hv with
    | text ht => exact readPieces_eq_ok ht
  | flag =>
    cases hv with
    | flag => rfl
  | letter =>
    cases hv with
    | @letter _ pieces ht =>
      have hread : readText "a character" (ParseTree.string pieces).node =
          .ok (String.singleton value) := readPieces_eq_ok ht
      change readLetter (ParseTree.string pieces).node = _
      rw [readLetter, hread]
      simp only [String.toList_singleton]
  | spellings =>
    cases hv with
    | table hv =>
      refine enter_varied hi hd fun level hl => ?_
      rw [@readSpellings_varied _ _ hl.read .empty value _ _ hv rfl]
      rfl
  | optional kind ih =>
    cases value with
    | none =>
      cases hv with
      | absent => rfl
    | some part =>
      cases hv with
      | present hv =>
        have hn := Kind.ne_null hk (h part rfl) hv
        rw [readKind_optional (ParseTree.node_ne_null hn) tree.node_ne_brokenWord,
          ih part hk.of_optional (h part rfl) hv]
        rfl
  | list kind ih =>
    have hk : kind.Plain := hk
    cases hv with
    | list hv =>
      refine enter_varied hi hd fun level hl => ?_
      rw [readList_varied hl.read hk h hv (ParseTree.depthOfItems_le.mp (Nat.le_refl _))]
      rfl
  | named name =>
    exact readShape_varied hi (shape_plain name) (shape_keeps name) h (writes_datum name value h)
      hv hd

theorem level_readsVaried : (level inner).ReadsVaried limit where
  read := readKind_varied hi
  readRow title _ _ _ hf h hc hd := readRow_carried hi title hf h hc hd

end Levels

theorem Level.ofLimit_readsVaried (limit : Nat) : (Level.ofLimit limit).ReadsVaried limit := by
  induction limit with
  | zero => exact level_readsVaried nofun
  | succ limit ih =>
    exact level_readsVaried fun depth hd => ⟨_, rfl, ih.mono (Nat.le_of_lt_succ hd)⟩

/-- A value whose data objects have different names is read from every text that varies its own
one, by the order of its fields, by unknown fields, by fields that hold nothing and are left out,
by arrays of fields or by bare names as keys, as long as the text does not nest too deeply. -/
theorem ofText_of_varied (name : Named) (value : name.Value) (h : Distinct name value) :
    (Varied (name.datum value) (name.datum value).tree ∧
      Json.Spells (name.datum value).json.text (name.datum value).tree) ∧
    ∀ tree text, Varied (name.datum value) tree → Json.Spells text tree → tree.depth ≤ 127 →
      ofText name text = .ok value := by
  refine ⟨⟨Datum.varied_tree _, Datum.spells_text _⟩, fun tree text hv hs hd => ?_⟩
  have hn : ofNode nestingLimit name tree.node = .ok value :=
    (Level.ofLimit_readsVaried nestingLimit).read (.named name) value tree trivial h hv hd
  rw [ofText, hs.ofText_eq]
  simp only [hn, Bool.false_eq_true, if_false]

/-- A field that no structure has, with a number that is out of range. -/
def unknownField : List Piece × ParseTree :=
  (Piece.ofText "x", .array [.number { whole := [1], exponent := some (false, [9, 9, 9]) }])

/-- A declaration without a value. Its fields are reversed, and its type is an array that ends
before the spellings. -/
def reversedDeclaration : ParseTree :=
  .object [(Piece.ofText "VarDecl", .object
    [unknownField, (Piece.ofText "name", .string (Piece.ofText "a")),
      (Piece.ofText "ty", .object [(Piece.ofText "Class", .array
        [.object [(Piece.ofText "Api", .null)], .string (Piece.ofText "A"),
          .string (Piece.ofText "A")])])])]

def reversedText : String :=
  "\x7b\"VarDecl\": \x7b\"x\":[1e999],\"name\":\"a\"," ++
    "\"ty\":\x7b\"Class\":[\x7b\"Api\":null\x7d,\"A\",\"A\"]\x7d\x7d\x7d"

theorem spells_reversedText : Json.Spells reversedText reversedDeclaration := by
  have hn : Json.NumberText.Spells { whole := [1], exponent := some (false, [9, 9, 9]) }
      ['1', 'e', '9', '9', '9'] :=
    .mk (.digits Nat.one_ne_zero rfl .nil) .none
      (.digits (.inl rfl) .none (.cons rfl (.cons rfl (.cons rfl .nil))))
  have he : ∀ rest, Json.EndsNumber (']' :: rest) := by
    rintro rest _ ⟨⟩
    decide
  refine .sign rfl (.quote "VarDecl" (.sign rfl (.blank rfl (.sign rfl ?_))))
  refine .quote "x" (.sign rfl (.sign rfl (.number hn (he _) (.sign rfl (.sign rfl ?_)))))
  refine .quote "name" (.sign rfl (.quote "a" (.sign rfl ?_)))
  refine .quote "ty" (.sign rfl (.sign rfl (.quote "Class" (.sign rfl (.sign rfl ?_)))))
  refine .sign rfl (.quote "Api" (.sign rfl (.null (.sign rfl (.sign rfl ?_)))))
  exact .quote "A" (.sign rfl (.quote "A" (.sign rfl (.sign rfl (.sign rfl (.sign rfl .nil))))))

theorem varied_reversedDeclaration :
    Varied (Stmt.declare (.ofClass ⟨.api, "A", "A", .empty⟩) "a" none).datum
      reversedDeclaration := by
  have htext : ∀ value, Varied (.text value) (.string (Piece.ofText value)) :=
    fun value => .text (Piece.text_ofText value)
  have hkind : Varied (.constant "Api") (.object [(Piece.ofText "Api", .null)]) :=
    .constantKey (Piece.text_ofText "Api")
  have htype : Varied (TypeInfo.ofClass ⟨.api, "A", "A", .empty⟩).datum _ :=
    .tagged (Piece.text_ofText "Class") (.record (.array (.cons hkind
      (.cons (htext "A") (.cons (htext "A") (.short "translations"))))))
  have hinit : Entries Varied [("init", .absent)] [] := .omitted (.inl rfl) .nil
  refine .tuple (Piece.text_ofText "VarDecl") (@Carries.object _ _ _ [unknownField] _
    (.cons (Piece.text_ofText "ty") htype (.cons (Piece.text_ofText "name") (htext "a") hinit))
    ?_ (List.reverse_perm [_, _, _]))
  exact List.forall_mem_singleton.mpr ⟨"x", Piece.text_ofText "x", by decide⟩

theorem ofText_of_varied_reversedText :
    let declaration : Stmt := .declare (.ofClass ⟨.api, "A", "A", .empty⟩) "a" none
    Distinct .stmt declaration ∧ ofText .stmt reversedText = .ok declaration := by
  have hd : Distinct .stmt (.declare (.ofClass ⟨.api, "A", "A", .empty⟩) "a" none) :=
    Place.allDistinct_nil
  exact ⟨hd, (ofText_of_varied .stmt _ hd).2 _ _ varied_reversedDeclaration spells_reversedText
    (by decide)⟩

end Decode

end Polyglot
