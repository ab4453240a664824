import Mathlib.Tactic.Common
import Polyglot.Decode.Reader

/-! A property of the parts of a tree that every shape keeps holds of every value that is read.
The property is given for the types that have a shape of their own; it extends to all kinds of
values, to the fields of a structure and to the readers of every depth. -/
namespace Polyglot.Decode

open Json (Node Piece Close)

section Results

variable {ε α β : Type} {result : Except ε α} {value : β}

theorem bind_eq_ok {next : α → Except ε β} :
    (result >>= next) = .ok value ↔ ∃ a, result = .ok a ∧ next a = .ok value := by
  cases result <;> simp [bind, Except.bind]

theorem map_eq_ok {f : α → β} : f <$> result = .ok value ↔ ∃ a, result = .ok a ∧ f a = value := by
  cases result <;> simp [Functor.map, Except.map]

theorem mapError_eq_ok {ε' : Type} {f : ε → ε'} {made : α} :
    result.mapError f = .ok made ↔ result = .ok made := by
  cases result <;> simp [Except.mapError]

end Results

theorem mem_of_lookup {α : Type} {variants : List (String × α)} {name : String} {value : α}
    (h : variants.lookup name = some value) : (name, value) ∈ variants := by
  obtain ⟨before, after, rfl, -⟩ := List.lookup_eq_some_iff.mp h
  exact List.mem_append_right _ (List.mem_cons_self ..)

/-- A property of the values that have a shape of their own. -/
abbrev Property := (name : Named) → name.Value → Prop

variable (P : Property)

/-- The property holds of all parts of a value. -/
def Kind.Holds : (kind : Kind) → kind.Value → Prop
  | .text, _ | .flag, _ | .letter, _ | .spellings, _ => True
  | .optional kind, value => ∀ part ∈ value, kind.Holds part
  | .list kind, values => ∀ part ∈ values, kind.Holds part
  | .named name, value => P name value

def Row.Holds : (fields : List Field) → Row fields → Prop
  | [], () => True
  | field :: rest, (value, values) => field.kind.Holds P value ∧ Row.Holds rest values

/-- The property holds of the fields that have been read. -/
def Slots.Holds : (fields : List Field) → Slots fields → Prop
  | [], () => True
  | field :: rest, (slot, slots) =>
    (∀ value ∈ slot, field.kind.Holds P value) ∧ Slots.Holds rest slots

/-- What a variant makes has a property just when all that it is made of has it. -/
def Payload.Keeps {α : Type} (Q : α → Prop) : Payload α → Prop
  | .constant value => Q value
  | .single kind make => ∀ value, Q (make value) ↔ kind.Holds P value
  | .structure _ fields make | .tuple fields make =>
    ∀ row, Q (make row) ↔ Row.Holds P fields row

/-- A structure may refuse its fields. -/
def Shape.Keeps {α : Type} (Q : α → Prop) : Shape α → Prop
  | .record _ fields make =>
    ∀ row value, make row = .ok value → (Q value ↔ Row.Holds P fields row)
  | .choice _ variants => ∀ variant ∈ variants, variant.2.Keeps P Q

structure Level.Keeps (level : Level) : Prop where
  read : ∀ kind node value, level.read kind node = .ok value → kind.Holds P value
  readRow : ∀ title fields node row,
    level.readRow title fields node = .ok row → Row.Holds P fields row

variable {P}

theorem Kind.ifMissing?_holds {kind : Kind} {value : kind.Value}
    (h : kind.ifMissing? = some value) : kind.Holds P value := by
  cases kind with
  | spellings => trivial
  | optional kind =>
    obtain rfl := Option.some.inj h
    exact nofun
  | _ => contradiction

theorem Kind.ifShort?_holds {kind : Kind} {value : kind.Value}
    (h : kind.ifShort? = some value) : kind.Holds P value := by
  cases kind with
  | spellings => trivial
  | _ => contradiction

section Fields

variable {read : Reader} {fields : List Field}

namespace Slots

theorem none_holds : (fields : List Field) → Slots.Holds P fields (Slots.none fields)
  | [] => trivial
  | _ :: rest => ⟨nofun, none_holds rest⟩

theorem put?_holds (hr : ∀ kind node value, read kind node = .ok value → kind.Holds P value)
    {name : String} {node : Node} {slots filled : Slots fields} (hs : Slots.Holds P fields slots)
    (h : Slots.put? read name node fields slots = .ok (some filled)) :
    Slots.Holds P fields filled := by
  induction fields with
  | nil => trivial
  | cons field rest ih =>
    obtain ⟨slot, slots⟩ := slots
    unfold Slots.put? at h
    split at h
    · cases slot with
      | some _ => contradiction
      | none =>
        cases hv : read field.kind node with
        | error _ =>
          rw [hv] at h
          contradiction
        | ok value =>
          rw [hv] at h
          obtain rfl := Option.some.inj (Except.ok.inj h)
          refine ⟨?_, hs.2⟩
          rintro _ ⟨⟩
          exact hr field.kind node value hv
    · cases hp : Slots.put? read name node rest slots with
      | error _ =>
        rw [hp] at h
        contradiction
      | ok result =>
        rw [hp] at h
        obtain ⟨others, rfl, rfl⟩ := Option.map_eq_some_iff.mp (Except.ok.inj h)
        exact ⟨hs.1, ih hs.2 hp⟩

theorem row_holds {slots : Slots fields} {row : Row fields} (hs : Slots.Holds P fields slots)
    (h : Slots.row fields slots = .ok row) : Row.Holds P fields row := by
  induction fields with
  | nil => trivial
  | cons field rest ih =>
    obtain ⟨slot, slots⟩ := slots
    unfold Slots.row at h
    split at h
    · next value hv =>
      cases hr : Slots.row rest slots with
      | error _ =>
        rw [hr] at h
        contradiction
      | ok values =>
        rw [hr] at h
        obtain rfl := Except.ok.inj h
        refine ⟨?_, ih hs.2 hr⟩
        obtain hv | ⟨-, hv⟩ := Option.or_eq_some_iff.mp hv
        · exact hs.1 value hv
        · exact Kind.ifMissing?_holds hv
    · contradiction

end Slots

variable (hr : ∀ kind node value, read kind node = .ok value → kind.Holds P value)
include hr

theorem readEntries_holds {entries : List (List Piece × Node)} {slots filled : Slots fields}
    (hs : Slots.Holds P fields slots) (h : readEntries read fields entries slots = .ok filled) :
    Slots.Holds P fields filled := by
  induction entries generalizing slots with
  | nil =>
    obtain rfl := Except.ok.inj h
    exact hs
  | cons entry rest ih =>
    obtain ⟨name, -, h⟩ := bind_eq_ok.mp h
    obtain ⟨found, hp, h⟩ := bind_eq_ok.mp h
    cases found with
    | some found => exact ih (Slots.put?_holds hr hs hp) h
    | none =>
      obtain ⟨-, -, h⟩ := bind_eq_ok.mp h
      exact ih hs h

theorem readItems_holds {expected : String} {close : Close} {index : Nat} {items : List Node}
    {row : Row fields} (h : readItems read expected close fields index items = .ok row) :
    Row.Holds P fields row := by
  induction fields generalizing index items with
  | nil => trivial
  | cons field rest ih =>
    cases items with
    | nil =>
      obtain ⟨-, -, h⟩ := bind_eq_ok.mp h
      split at h
      · next value hv =>
        obtain ⟨values, hi, h⟩ := bind_eq_ok.mp h
        obtain rfl := Except.ok.inj h
        exact ⟨Kind.ifShort?_holds hv, ih hi⟩
      · contradiction
    | cons item items =>
      obtain ⟨value, hv, h⟩ := bind_eq_ok.mp h
      obtain ⟨values, hi, h⟩ := bind_eq_ok.mp h
      obtain rfl := Except.ok.inj h
      exact ⟨hr field.kind item value hv, ih hi⟩

theorem readList_holds {kind : Kind} {items : List Node} {values : List kind.Value}
    (h : readList read kind items = .ok values) : ∀ part ∈ values, kind.Holds P part := by
  induction items generalizing values with
  | nil =>
    obtain rfl := Except.ok.inj h
    exact nofun
  | cons item rest ih =>
    obtain ⟨value, hv, h⟩ := bind_eq_ok.mp h
    obtain ⟨others, ho, h⟩ := bind_eq_ok.mp h
    obtain rfl := Except.ok.inj h
    exact List.forall_mem_cons.mpr ⟨hr kind item value hv, ih ho⟩

end Fields

section Levels

variable {inner : Option Level} (hi : ∀ level ∈ inner, level.Keeps P)

theorem enter_eq_ok {α : Type} {go : Level → Except Error α} {value : α}
    (h : enter inner go = .ok value) : ∃ level ∈ inner, go level = .ok value := by
  cases inner with
  | none => contradiction
  | some level => exact ⟨level, rfl, h⟩

include hi

theorem readRow_holds {title : String} {fields : List Field} {node : Node} {row : Row fields}
    (h : readRow inner title fields node = .ok row) : Row.Holds P fields row := by
  cases node with
  | array items close =>
    obtain ⟨level, hl, h⟩ := enter_eq_ok h
    exact readItems_holds (hi level hl).read h
  | object entries close =>
    obtain ⟨level, hl, h⟩ := enter_eq_ok h
    obtain ⟨slots, hs, h⟩ := bind_eq_ok.mp h
    obtain ⟨-, -, h⟩ := bind_eq_ok.mp h
    exact Slots.row_holds (readEntries_holds (hi level hl).read (Slots.none_holds fields) hs) h
  | _ => contradiction

section Shapes

variable {α : Type} {Q : α → Prop} {value : α} {node : Node}

omit hi in
theorem readPayload_holds {level : Level} (hl : level.Keeps P) {payload : Payload α}
    (hp : payload.Keeps P Q) {title : String}
    (h : readPayload level title payload node = .ok value) : Q value := by
  cases payload with
  | constant value' =>
    obtain ⟨-, -, rfl⟩ := map_eq_ok.mp h
    exact hp
  | single kind make =>
    obtain ⟨part, hr, rfl⟩ := map_eq_ok.mp h
    exact (hp part).mpr (hl.read kind node part hr)
  | «structure» title' fields make | tuple fields make =>
    obtain ⟨row, hr, rfl⟩ := map_eq_ok.mp h
    exact (hp row).mpr (hl.readRow _ fields node row hr)

omit hi in
theorem findVariant_keeps {variants : List (String × Payload α)} {name : String}
    {payload : Payload α} (hv : ∀ variant ∈ variants, variant.2.Keeps P Q)
    (h : findVariant variants name = .ok payload) : payload.Keeps P Q := by
  unfold findVariant at h
  split at h
  · next hl =>
    obtain rfl := Except.ok.inj h
    exact hv _ (mem_of_lookup hl)
  · contradiction

theorem readChoice_holds {title : String} {variants : List (String × Payload α)}
    (hv : ∀ variant ∈ variants, variant.2.Keeps P Q)
    (h : readChoice inner title variants node = .ok value) : Q value := by
  unfold readChoice at h
  split at h
  · obtain ⟨name, -, h⟩ := bind_eq_ok.mp h
    obtain ⟨payload, hp, h⟩ := bind_eq_ok.mp h
    have hk := findVariant_keeps hv hp
    cases payload with
    | constant value' =>
      obtain rfl := Except.ok.inj h
      exact hk
    | _ => contradiction
  · contradiction
  · contradiction
  · obtain ⟨level, -, h⟩ := enter_eq_ok h
    obtain ⟨-, -, h⟩ := bind_eq_ok.mp h
    contradiction
  · obtain ⟨level, hl, h⟩ := enter_eq_ok h
    obtain ⟨name, -, h⟩ := bind_eq_ok.mp h
    obtain ⟨payload, hp, h⟩ := bind_eq_ok.mp h
    obtain ⟨read, hr, h⟩ := bind_eq_ok.mp h
    obtain ⟨-, -, h⟩ := bind_eq_ok.mp h
    obtain rfl := Except.ok.inj h
    exact readPayload_holds (hi level hl) (findVariant_keeps hv hp) hr
  · contradiction

theorem readShape_holds {shape : Shape α} (hs : shape.Keeps P Q)
    (h : readShape inner shape node = .ok value) : Q value := by
  cases shape with
  | record title fields make =>
    obtain ⟨row, hr, hm⟩ := bind_eq_ok.mp h
    exact (hs row value hm).mpr (readRow_holds hi hr)
  | choice title variants => exact readChoice_holds hi hs h

end Shapes

variable (hP : ∀ name : Named, name.shape.Keeps P (P name))
include hP

omit hi hP in
theorem readKind_optional {kind : Kind} {node : Node} (hn : node ≠ .leaf .null)
    (hw : ∀ fault, node ≠ .leaf (.brokenWord 'n' fault)) :
    readKind inner (.optional kind) node = some <$> readKind inner kind node := by
  rw [readKind]
  · exact hn
  · exact hw

theorem readKind_holds {kind : Kind} {node : Node} {value : kind.Value}
    (h : readKind inner kind node = .ok value) : kind.Holds P value := by
  -- Only an option reads its part at the same depth; all other parts are read by `inner`.
  induction kind generalizing node with
  | text | flag | letter | spellings => trivial
  | optional kind ih =>
    by_cases hn : node = .leaf .null
    · subst hn
      obtain rfl := Except.ok.inj h
      exact nofun
    by_cases hw : ∃ fault, node = .leaf (.brokenWord 'n' fault)
    · obtain ⟨fault, rfl⟩ := hw
      contradiction
    · rw [readKind_optional hn (not_exists.mp hw)] at h
      obtain ⟨part, hp, rfl⟩ := map_eq_ok.mp h
      rintro _ ⟨⟩
      exact ih hp
  | list kind ih =>
    cases node with
    | array items close =>
      obtain ⟨level, hl, h⟩ := enter_eq_ok h
      obtain ⟨values, hv, h⟩ := bind_eq_ok.mp h
      obtain ⟨-, -, h⟩ := bind_eq_ok.mp h
      obtain rfl := Except.ok.inj h
      exact readList_holds (hi level hl).read hv
    | _ => contradiction
  | named name => exact readShape_holds hi (hP name) h

theorem level_keeps : (level inner).Keeps P where
  read _ _ _ h := readKind_holds hi hP h
  readRow _ _ _ _ h := readRow_holds hi h

omit hi in
theorem Level.ofLimit_keeps (limit : Nat) : (Level.ofLimit limit).Keeps P := by
  induction limit with
  | zero => exact level_keeps nofun hP
  | succ limit ih =>
    refine level_keeps ?_ hP
    rintro _ ⟨⟩
    exact ih

end Levels

/-- Whatever a text is read as has every property that the shapes keep. -/
theorem ofText_holds (hP : ∀ name : Named, name.shape.Keeps P (P name)) {name : Named}
    {text : String} {value : name.Value} (h : ofText name text = .ok value) : P name value := by
  unfold ofText at h
  dsimp only at h
  split at h
  · next read hr =>
    split at h
    · contradiction
    · obtain rfl := Except.ok.inj h
      exact (Level.ofLimit_keeps hP nestingLimit).read (.named name) _ read hr
  · contradiction

end Polyglot.Decode
