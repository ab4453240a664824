import Polyglot.Proofs.JsonText
import Polyglot.Proofs.Written

/-! A program is read back from its own text, unless the text nests too deeply. -/
namespace Polyglot

namespace Table

variable {α : Type} {name : String}

/-- A name behind all others is put at the end. -/
theorem insertEntry_of_forall_lt {entries : List (String × α)}
    (h : ∀ entry ∈ entries, entry.1 < name) (value : α) :
    insertEntry name value entries = entries ++ [(name, value)] := by
  induction entries with
  | nil => rfl
  | cons first rest ih =>
    obtain ⟨key, old⟩ := first
    obtain ⟨hk, hr⟩ := List.forall_mem_cons.mp h
    have hne : name ≠ key := fun he => Std.lt_irrefl (he ▸ hk)
    have hlt : ¬ name < key := fun hl => Std.lt_irrefl (Std.lt_trans hk hl)
    rw [insertEntry, if_neg hne, if_neg hlt, ih hr, List.cons_append]

/-- The next name in increasing order is put behind the others. -/
theorem insert_next {table result : Table α} {value : α} {rest : List (String × α)}
    (h : result.entries = table.entries ++ (name, value) :: rest) :
    result.entries = (table.insert name value).entries ++ rest := by
  have hlt : ∀ entry ∈ table.entries, entry.1 < name := by
    have hi := result.increasing
    rw [h] at hi
    exact fun entry hm => (List.pairwise_append.mp hi).2.2 entry hm _ (List.mem_cons_self ..)
  have hi : (table.insert name value).entries = table.entries ++ [(name, value)] :=
    insertEntry_of_forall_lt hlt value
  rw [hi, List.append_assoc]
  exact h

end Table

namespace Datum

theorem depth_tagged (tag : String) (value : Datum) :
    (Datum.tagged tag value).json.depth = value.json.depth + 1 := by
  rw [json, Json.depth, Json.depthOfFields, Json.depthOfFields, Nat.max_zero]

theorem depth_tuple (tag : String) (fields : List (String × Datum)) :
    (Datum.tuple tag fields).json.depth = Json.depthOfFields (jsonFields fields) + 1 + 1 := by
  rw [json, Json.depth, Json.depthOfFields, Json.depthOfFields, Nat.max_zero, Json.depth]

theorem depth_table (content : Table String) : (Datum.table content).json.depth = 1 := by
  have hf :
      Json.depthOfFields (content.entries.map fun entry => (entry.1, .string entry.2)) = 0 := by
    induction content.entries with
    | nil => rfl
    | cons entry rest ih =>
      rw [List.map_cons, Json.depthOfFields, ih]
      rfl
  rw [json, Json.depth, hf]

end Datum

namespace Decode

open Json (Piece Node)

/-- The value, if nesting of the given depth is allowed. -/
def within {α : Type} (limit depth : Nat) (value : α) : Except Error α :=
  if depth ≤ limit then .ok value else malformed

section Within

variable {α β : Type} {limit depth : Nat} {value : α}

theorem within_zero : within limit 0 value = .ok value :=
  if_pos (Nat.zero_le limit)

theorem map_within (f : α → β) : f <$> within limit depth value = within limit depth (f value) := by
  unfold within
  split_ifs <;> rfl

theorem bind_within {next : α → Except Error β} {others : Nat} {result : β}
    (h : next value = within limit others result) :
    (within limit depth value >>= next) = within limit (max depth others) result := by
  unfold within at h ⊢
  by_cases hd : depth ≤ limit
  · rw [if_pos hd]
    refine Eq.trans h ?_
    simp only [Nat.max_le, hd, true_and]
  · have hm : ¬ max depth others ≤ limit := fun hm => hd (Nat.max_le.mp hm).1
    rw [if_neg hd, if_neg hm]
    rfl

theorem bind_within_ok {next : α → Except Error β} {result : β} (h : next value = .ok result) :
    (within limit depth value >>= next) = within limit depth result := by
  have hb : (within limit depth value >>= next) = within limit (max depth 0) result :=
    bind_within (h.trans within_zero.symm)
  rwa [Nat.max_zero] at hb

end Within

/-- What is optional is not optional again, so that null stands for one value only. -/
def Kind.Plain : Kind → Prop
  | .optional (.optional _) => False
  | .optional kind | .list kind => kind.Plain
  | _ => True

/-- Fields of plain kinds, with different names. -/
def PlainFields : List Field → Prop
  | [] => True
  | field :: rest =>
    (∀ other ∈ rest, other.name ≠ field.name) ∧ field.kind.Plain ∧ PlainFields rest

def Payload.Plain {α : Type} : Payload α → Prop
  | .constant _ => True
  | .single kind _ => kind.Plain
  | .structure _ fields _ | .tuple fields _ => PlainFields fields

def Shape.Plain {α : Type} : Shape α → Prop
  | .record _ fields _ => PlainFields fields
  | .choice _ variants => ∀ variant ∈ variants, variant.2.Plain

theorem Kind.Plain.of_optional {kind : Kind} (h : (Kind.optional kind).Plain) : kind.Plain := by
  cases kind with
  | optional => exact h.elim
  | _ => exact h

theorem shape_plain (name : Named) : name.shape.Plain := by
  cases name <;>
    simp [Named.shape, Shape.Plain, Payload.Plain, PlainFields, Kind.Plain, classKindVariants,
      typeInfoVariants, literalVariants, binaryOpVariants, unaryOpVariants, lambdaBodyVariants,
      memberValueVariants, exprVariants, stmtVariants]

/-- What has a shape of its own is not written as null, nor as a word that is cut short. -/
theorem Shape.Writes.node_present {α : Type} {shape : Shape α} {value : α} {datum : Datum}
    (h : shape.Writes value datum) :
    datum.node ≠ .leaf .null ∧ ∀ fault, datum.node ≠ .leaf (.brokenWord 'n' fault) := by
  cases h with
  | record _ _ _ hd | constant _ _ hd | single _ _ _ _ hd | «structure» _ _ _ _ _ hd
  | tuple _ _ _ _ hd =>
    subst hd
    exact ⟨nofun, nofun⟩

theorem Kind.node_present {kind : Kind} (hk : (Kind.optional kind).Plain) {value : kind.Value}
    (h : kind.Holds Distinct value) :
    (kind.datum value).node ≠ .leaf .null ∧
      ∀ fault, (kind.datum value).node ≠ .leaf (.brokenWord 'n' fault) := by
  cases kind with
  | text | flag | letter | spellings | list => exact ⟨nofun, nofun⟩
  | optional => exact hk.elim
  | named name => exact (writes_datum name value h).node_present

/-- A reader that gives back every value it finds written, as far as `limit` allows. -/
def ReadsBack (limit : Nat) (read : Reader) : Prop :=
  ∀ kind value, Kind.Plain kind → kind.Holds Distinct value →
    read kind (kind.datum value).node = within limit (kind.datum value).json.depth value

/-- The nesting of the values of some fields. -/
def Row.depth (fields : List Field) (row : Row fields) : Nat :=
  Json.depthOfFields (Datum.jsonFields (Row.data fields row))

/-- The object that the fields are written as. -/
def Row.node (fields : List Field) (row : Row fields) : Node :=
  .object (Datum.fieldNodes (Row.data fields row)) .closed

structure Level.ReadsBack (limit : Nat) (level : Level) : Prop where
  read : Decode.ReadsBack limit level.read
  readRow : ∀ title fields row, PlainFields fields → Row.Holds Distinct fields row →
    level.readRow title fields (Row.node fields row) = within limit (row.depth fields + 1) row

theorem readPieces_eq_ok {pieces : List Piece} {text : String} (h : Piece.text pieces = .ok text) :
    readPieces pieces = .ok text := by
  rw [readPieces, h]
  rfl

theorem readPieces_ofText (text : String) : readPieces (Piece.ofText text) = .ok text :=
  readPieces_eq_ok (Piece.text_ofText text)

section Fields

variable {read : Reader} {limit : Nat}

/-- All fields have been read. -/
def Slots.full : (fields : List Field) → Row fields → Slots fields
  | [], () => ()
  | _ :: rest, (value, values) => (some value, full rest values)

theorem Slots.row_full (fields : List Field) (row : Row fields) :
    Slots.row fields (Slots.full fields row) = .ok row := by
  induction fields with
  | nil => rfl
  | cons field rest ih =>
    obtain ⟨value, values⟩ := row
    simp [Slots.full, Slots.row, ih values]

theorem Slots.put?_here (field : Field) (rest : List Field) (node : Node) (slots : Slots rest) :
    Slots.put? read field.name node (field :: rest) (Option.none, slots) =
      (fun value => some (some value, slots)) <$> read field.kind node := by
  rw [Slots.put?, if_pos rfl]
  cases read field.kind node <;> rfl

theorem Slots.put?_elsewhere {field : Field} {name : String} (hn : name ≠ field.name)
    (rest : List Field) (node : Node) (slot : Option field.kind.Value) (slots : Slots rest) :
    Slots.put? read name node (field :: rest) (slot, slots) =
      Option.map (fun slots => (slot, slots)) <$> Slots.put? read name node rest slots := by
  simp only [Slots.put?, if_neg hn.symm]
  cases Slots.put? read name node rest slots <;> rfl

/-- Entries for other fields leave the first one as it is. -/
theorem readEntries_elsewhere (field : Field) (rest : List Field)
    (slot : Option field.kind.Value) {data : List (String × Datum)}
    (hn : ∀ entry ∈ data, entry.1 ≠ field.name) (slots : Slots rest) :
    readEntries read (field :: rest) (Datum.fieldNodes data) (slot, slots) =
      (fun slots => (slot, slots)) <$> readEntries read rest (Datum.fieldNodes data) slots := by
  induction data generalizing slots with
  | nil => rfl
  | cons entry data ih =>
    obtain ⟨name, datum⟩ := entry
    obtain ⟨hf, hr⟩ := List.forall_mem_cons.mp hn
    rw [Datum.fieldNodes, readEntries, readEntries, readPieces_ofText]
    simp only [bind, Except.bind, Slots.put?_elsewhere hf]
    cases Slots.put? read name datum.node rest slots with
    | error _ => rfl
    | ok found =>
      cases found with
      | some found => exact ih hr found
      | none =>
        simp only [Functor.map, Except.map, Option.map_none]
        cases skip datum.node with
        | error _ => rfl
        | ok _ => exact ih hr slots

theorem Row.mem_data {fields : List Field} {row : Row fields} {entry : String × Datum}
    (h : entry ∈ Row.data fields row) : ∃ field ∈ fields, entry.1 = field.name := by
  induction fields with
  | nil => contradiction
  | cons field rest ih =>
    cases h with
    | head => exact ⟨field, List.mem_cons_self .., rfl⟩
    | tail _ h =>
      obtain ⟨other, hm, he⟩ := ih h
      exact ⟨other, List.mem_cons_of_mem _ hm, he⟩

theorem readEntries_row (hr : ReadsBack limit read) {fields : List Field}
    (hf : PlainFields fields) {row : Row fields} (h : Row.Holds Distinct fields row) :
    readEntries read fields (Datum.fieldNodes (Row.data fields row)) (Slots.none fields) =
      within limit (row.depth fields) (Slots.full fields row) := by
  induction fields with
  | nil => exact within_zero.symm
  | cons field rest ih =>
    obtain ⟨value, values⟩ := row
    obtain ⟨hn, hk, hf⟩ := hf
    obtain ⟨hv, h⟩ := h
    have hd : ∀ entry ∈ Row.data rest values, entry.1 ≠ field.name := by
      intro entry hm
      obtain ⟨other, ho, he⟩ := Row.mem_data hm
      exact he ▸ hn other ho
    -- The first entry fills the first slot, and no other entry has its name.
    have hrest : readEntries read (field :: rest) (Datum.fieldNodes (Row.data rest values))
        (some value, Slots.none rest) =
          within limit (values.depth rest) (some value, Slots.full rest values) := by
      rw [readEntries_elsewhere field rest _ hd, ih hf h, map_within]
    rw [Row.data, Datum.fieldNodes, readEntries, readPieces_ofText]
    have hp : Slots.put? read field.name (field.kind.datum value).node (field :: rest)
        (Slots.none (field :: rest)) = within limit (field.kind.datum value).json.depth
          (some (some value, Slots.none rest)) := by
      rw [Slots.none, Slots.put?_here, hr field.kind value hk hv, map_within]
    change (Slots.put? read field.name _ (field :: rest) _ >>= _) = _
    rw [hp]
    exact bind_within hrest

theorem readList_items (hr : ReadsBack limit read) {kind : Kind} (hk : kind.Plain)
    {values : List kind.Value} (h : ∀ part ∈ values, kind.Holds Distinct part) :
    readList read kind (Datum.itemNodes (values.map kind.datum)) =
      within limit (Json.depthOfItems (Datum.jsonItems (values.map kind.datum))) values := by
  induction values with
  | nil => exact within_zero.symm
  | cons value rest ih =>
    obtain ⟨hv, h⟩ := List.forall_mem_cons.mp h
    rw [List.map_cons, Datum.itemNodes, readList, hr kind value hk hv]
    refine bind_within ?_
    rw [ih h]
    exact map_within (value :: ·)

/-- Names in increasing order are put behind one another. -/
theorem readSpellings_table (hr : ReadsBack limit read) {spellings result : Spellings}
    {entries : List (String × String)} (h : result.entries = spellings.entries ++ entries) :
    readSpellings read spellings (entries.map fun entry =>
      (Piece.ofText entry.1, .leaf (.string (Piece.ofText entry.2)))) = .ok result := by
  induction entries generalizing spellings with
  | nil =>
    rw [List.append_nil] at h
    exact congrArg Except.ok (Table.ext h.symm)
  | cons entry rest ih =>
    obtain ⟨language, spelling⟩ := entry
    have hread : read .text (.leaf (.string (Piece.ofText spelling))) = .ok spelling :=
      (hr .text spelling trivial trivial).trans within_zero
    rw [List.map_cons, readSpellings, readPieces_ofText, hread]
    exact ih (Table.insert_next h)

end Fields

/-- The readers inside an array or object allow one level less. -/
inductive Inner : Nat → Option Level → Prop
  | none : Inner 0 none
  | some {limit : Nat} {level : Level} (h : level.ReadsBack limit) : Inner (limit + 1) (some level)

section Levels

variable {limit : Nat} {inner : Option Level} (hi : Inner limit inner)
include hi

theorem enter_within {α : Type} {go : Level → Except Error α} {depth : Nat} {value : α}
    (h : ∀ limit level, Level.ReadsBack limit level → go level = within limit depth value) :
    enter inner go = within limit (depth + 1) value := by
  cases hi with
  | none => rfl
  | @some limit level hl =>
    refine (h limit level hl).trans ?_
    unfold within
    simp only [Nat.add_le_add_iff_right]

theorem readRow_row (title : String) {fields : List Field} (hf : PlainFields fields)
    {row : Row fields} (h : Row.Holds Distinct fields row) :
    readRow inner title fields (Row.node fields row) = within limit (row.depth fields + 1) row := by
  refine enter_within hi fun limit level hl => ?_
  rw [readEntries_row hl.read hf h]
  exact bind_within_ok (Slots.row_full fields row)

section Choices

variable {α : Type} {title : String} {variants : List (String × Payload α)} {tag : String}

theorem readChoice_tagged {payload : Payload α} (hl : variants.lookup tag = some payload)
    {node : Node} {depth : Nat} {value : α}
    (h : ∀ limit level, Level.ReadsBack limit level → ∀ title,
      readPayload level title payload node = within limit depth value) :
    readChoice inner title variants (.object [(Piece.ofText tag, node)] .closed) =
      within limit (depth + 1) value := by
  have hv : findVariant variants tag = .ok payload := by
    rw [findVariant, hl]
  refine enter_within hi fun limit level hlevel => ?_
  rw [readPieces_ofText]
  change (findVariant variants tag >>= _) = _
  rw [hv]
  change (readPayload level _ payload node >>= _) = _
  rw [h limit level hlevel]
  exact bind_within_ok rfl

omit hi in
theorem readChoice_constant {value : α} (hl : variants.lookup tag = some (.constant value))
    {pieces : List Piece} (ht : Piece.text pieces = .ok tag) :
    readChoice inner title variants (.leaf (.string pieces)) = .ok value := by
  rw [readChoice, readPieces_eq_ok ht]
  change (findVariant variants tag >>= _) = _
  rw [findVariant, hl]
  rfl

end Choices

section Payloads

variable {α : Type} {level : Level} (hl : level.ReadsBack limit) (title : String)
include hl
omit hi

theorem readPayload_single {kind : Kind} (make : kind.Value → α) (hp : kind.Plain)
    {part : kind.Value} (h : kind.Holds Distinct part) :
    readPayload level title (.single kind make) (kind.datum part).node =
      within limit (kind.datum part).json.depth (make part) := by
  rw [readPayload, hl.read kind part hp h, map_within]

theorem readPayload_structure (inner : String) {fields : List Field} (make : Row fields → α)
    (hf : PlainFields fields) {row : Row fields} (h : Row.Holds Distinct fields row) :
    readPayload level title (.structure inner fields make) (Row.node fields row) =
      within limit (row.depth fields + 1) (make row) := by
  rw [readPayload, hl.readRow inner fields row hf h, map_within]

theorem readPayload_tuple {fields : List Field} (make : Row fields → α) (hf : PlainFields fields)
    {row : Row fields} (h : Row.Holds Distinct fields row) :
    readPayload level title (.tuple fields make) (Row.node fields row) =
      within limit (row.depth fields + 1) (make row) := by
  rw [readPayload, hl.readRow _ fields row hf h, map_within]

end Payloads

/-- What a shape writes is read back, its parts being read back one level further inside. -/
theorem readShape_written {α : Type} {Q : α → Prop} {shape : Shape α} {value : α} {datum : Datum}
    (hp : shape.Plain) (hk : shape.Keeps Distinct Q) (hq : Q value)
    (h : shape.Writes value datum) :
    readShape inner shape datum.node = within limit datum.json.depth value := by
  cases h with
  | @record title fields _ _ _ name row hv hd =>
    subst hd
    have hr := readRow_row hi title hp ((hk row value hv).mp hq)
    change (readRow inner title fields (Row.node fields row) >>= _) = _
    rw [hr]
    exact bind_within_ok hv
  | constant tag hl hd =>
    subst hd
    rw [Datum.node, readShape, readChoice_constant hl (Piece.text_ofText tag)]
    exact within_zero.symm
  | @single _ _ _ _ kind make tag hl part hv hd =>
    subst hv hd
    have hm := mem_of_lookup hl
    have hpart : kind.Holds Distinct part := (hk _ hm part).mp hq
    rw [Datum.depth_tagged]
    exact readChoice_tagged hi hl fun limit level hlevel title =>
      readPayload_single hlevel title make (hp _ hm) hpart
  | @«structure» _ inner _ _ _ fields make tag hl name row hv hd =>
    subst hv hd
    have hm := mem_of_lookup hl
    have hrow : Row.Holds Distinct fields row := (hk _ hm row).mp hq
    rw [Datum.depth_tagged]
    exact readChoice_tagged hi hl fun limit level hlevel title =>
      readPayload_structure hlevel title inner make (hp _ hm) hrow
  | @tuple _ _ _ _ fields make tag hl row hv hd =>
    subst hv hd
    have hm := mem_of_lookup hl
    have hrow : Row.Holds Distinct fields row := (hk _ hm row).mp hq
    rw [Datum.depth_tuple]
    exact readChoice_tagged hi hl fun limit level hlevel title =>
      readPayload_tuple hlevel title make (hp _ hm) hrow

theorem readKind_datum (kind : Kind) (value : kind.Value) (hk : kind.Plain)
    (h : kind.Holds Distinct value) :
    readKind inner kind (kind.datum value).node =
      within limit (kind.datum value).json.depth value := by
  -- Only an option needs the induction; all other parts are one level further inside.
  induction kind with
  | text => exact (readPieces_ofText value).trans within_zero.symm
  | flag => exact within_zero.symm
  | letter =>
    have ht : readText "a character" (Datum.letter value).node = .ok (String.singleton value) :=
      readPieces_ofText (String.singleton value)
    change readLetter (Datum.letter value).node = _
    rw [readLetter, ht]
    simp only [String.toList_singleton]
    exact within_zero.symm
  | spellings =>
    rw [Kind.datum, Datum.depth_table]
    refine enter_within hi fun limit level hl => ?_
    rw [@readSpellings_table level.read limit hl.read .empty value value.entries rfl]
    exact within_zero.symm
  | optional kind ih =>
    cases value with
    | none => exact within_zero.symm
    | some part =>
      obtain ⟨hn, hw⟩ := Kind.node_present hk (h part rfl)
      change readKind inner (.optional kind) (kind.datum part).node =
        within limit (kind.datum part).json.depth (some part)
      rw [readKind_optional hn hw, ih part hk.of_optional (h part rfl), map_within]
  | list kind ih =>
    have hk : kind.Plain := hk
    refine enter_within hi fun limit level hl => ?_
    rw [readList_items hl.read hk h]
    exact bind_within_ok rfl
  | named name =>
    exact readShape_written hi (shape_plain name) (shape_keeps name) h (writes_datum name value h)

theorem level_readsBack : (level inner).ReadsBack limit where
  read := readKind_datum hi
  readRow title _ _ hf h := readRow_row hi title hf h

end Levels

theorem Level.ofLimit_readsBack (limit : Nat) : (Level.ofLimit limit).ReadsBack limit := by
  induction limit with
  | zero => exact level_readsBack .none
  | succ limit ih => exact level_readsBack (.some ih)

/-- A value is read back from its own text, unless that nests too deeply. -/
theorem ofText_text {name : Named} {value : name.Value} (h : Distinct name value) :
    ofText name (name.datum value).json.text =
      within nestingLimit (name.datum value).json.depth value := by
  have hr := (Level.ofLimit_readsBack nestingLimit).read (.named name) value trivial h
  have hn : ofNode nestingLimit name (name.datum value).node =
      within nestingLimit (name.datum value).json.depth value := hr
  rw [ofText, Datum.ofText_text]
  simp only [hn, Bool.false_eq_true, if_false]
  unfold within
  split_ifs <;> rfl

end Decode

/-- A program whose data objects have different names is read back from its text, unless the text
nests too deeply, which makes it malformed. -/
theorem Program.ofJson_readsBack (program : Program)
    (h : ∀ object ∈ program.dataObjects, (object.members.map Member.name).Nodup) :
    (program.datum.json.depth ≤ 127 →
      Program.ofJson program.datum.json.text = .ok program) ∧
    (128 ≤ program.datum.json.depth →
      Program.ofJson program.datum.json.text = .error (.fault .malformed)) := by
  have hd : program.Distinct := program.distinct_iff.mpr h
  have hr : Program.ofJson program.datum.json.text =
      Decode.within 127 program.datum.json.depth program :=
    @Decode.ofText_text .program program hd
  rw [hr]
  constructor
  · intro hl
    exact if_pos hl
  · intro hl
    exact if_neg (Nat.not_le_of_gt hl)

/-- A data object one of whose members is `this` in the given number of parentheses. -/
def deepObject (parentheses : Nat) : DataObject where
  ty := .ofName .dataObject "geo.Point"
  members :=
    [.single (.literal (.string "x")) (parentheses.repeat Expr.parens .this),
      .array (.literal (.string "y")) []]

/-- Eight arrays and objects stand around the parentheses, so 119 of them can be read. -/
theorem Program.ofJson_readsBack_deepObject :
    Program.ofJson (Program.mk [.expr (deepObject 119).expr]).datum.json.text =
      .ok ⟨[.expr (deepObject 119).expr]⟩ ∧
    Program.ofJson (Program.mk [.expr (deepObject 120).expr]).datum.json.text =
      .error (.fault .malformed) := by
  have hn : ∀ count, ((deepObject count).members.map Member.name).Nodup := by
    simp [deepObject, Member.name]
  have hd : (Program.mk [.expr (deepObject 119).expr]).dataObjects = [deepObject 119] := rfl
  have hd' : (Program.mk [.expr (deepObject 120).expr]).dataObjects = [deepObject 120] := rfl
  constructor
  · refine (ofJson_readsBack _ ?_).1 (by decide +kernel)
    rw [hd]
    simpa using hn 119
  · refine (ofJson_readsBack _ ?_).2 (by decide +kernel)
    rw [hd']
    simpa using hn 120

end Polyglot
