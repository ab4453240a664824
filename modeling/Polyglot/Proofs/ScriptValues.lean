import Mathlib.Data.List.Basic
import Polyglot.Script

/-! The values that a script finds at its start. A value stands for a JSON value if they are the
same tree, through whatever tables; the tables that a value needs are put behind those that are
there, so that what stands for something goes on to do so. -/
namespace Polyglot

namespace Script

namespace TableContent

variable (content : TableContent) (key : Key) (value : Value)

theorem get_set_self : (content.set key value).get key = value := by
  have hn : (content.fields.filter (·.1 ≠ key)).lookup key = none := by
    rw [List.lookup_eq_none_iff]
    intro field hm
    have hk : field.1 ≠ key := of_decide_eq_true (List.mem_filter.mp hm).2
    exact bne_iff_ne.mpr hk.symm
  unfold set get
  split
  · rw [hn]
    rfl
  · rw [List.lookup_append, hn]
    simp

theorem get_set_of_ne {other : Key} (h : other ≠ key) :
    (content.set key value).get other = content.get other := by
  have hb : (other == key) = false := beq_eq_false_iff_ne.mpr h
  have hf : (content.fields.filter (·.1 ≠ key)).lookup other = content.fields.lookup other := by
    induction content.fields with
    | nil => rfl
    | cons field rest ih =>
      obtain ⟨first, old⟩ := field
      by_cases hk : first = key
      · subst hk
        rw [List.filter_cons_of_neg (by simp), ih, List.lookup_cons, hb]
      · rw [List.filter_cons_of_pos (by simpa using hk), List.lookup_cons, List.lookup_cons, ih]
  unfold set get
  split
  · rw [hf]
  · rw [List.lookup_append, hf, List.lookup_cons, hb]
    simp

theorem set_metatable : (content.set key value).metatable = content.metatable := by
  unfold set
  split <;> rfl

end TableContent

mutual

/-- The value is the JSON value as Lua has it. -/
inductive Value.Stands (store : Store) : Json → Value → Prop
  | null : Value.Stands store .null .null
  | bool (value : Bool) : Value.Stands store (.bool value) (.bool value)
  | int (value : Int) : Value.Stands store (.int value) (.number (.ofInt value))
  | float (value : Float) : Value.Stands store (.float value) (.number (.float value))
  | string (text : String) : Value.Stands store (.string text) (.string text)
  | array {items : List Json} {fields : List (Key × Value)} {place : Nat}
      (hp : store[place]? = some { isArray := true, fields := fields })
      (hi : Value.StandInOrder store 1 items fields) :
      Value.Stands store (.array items) (.table (.stored place))
  | object {entries : List (String × Json)} {content : TableContent} {place : Nat}
      (hp : store[place]? = some content) (he : Value.StandByName store entries {} content) :
      Value.Stands store (.object entries) (.table (.stored place))

/-- The fields are numbered from the position on and stand for the items. -/
inductive Value.StandInOrder (store : Store) : Int → List Json → List (Key × Value) → Prop
  | nil (position : Int) : Value.StandInOrder store position [] []
  | cons {position : Int} {item : Json} {value : Value} {items : List Json}
      {fields : List (Key × Value)} (hv : Value.Stands store item value)
      (hr : Value.StandInOrder store (position + 1) items fields) :
      Value.StandInOrder store position (item :: items) ((.index position, value) :: fields)

/-- The first content becomes the second one when values that stand for the entries are set. -/
inductive Value.StandByName (store : Store) :
    List (String × Json) → TableContent → TableContent → Prop
  | nil (content : TableContent) : Value.StandByName store [] content content
  | cons {name : String} {json : Json} {value : Value} {entries : List (String × Json)}
      {content last : TableContent} (hv : Value.Stands store json value)
      (hr : Value.StandByName store entries (content.set (.name name) value) last) :
      Value.StandByName store ((name, json) :: entries) content last

end

/-- A later store has the tables of an earlier one in their places. -/
theorem Store.getElem?_of_prefix {earlier later : Store} (h : earlier.toList <+: later.toList)
    {place : Nat} {content : TableContent} (hp : earlier[place]? = some content) :
    later[place]? = some content := by
  obtain ⟨added, ha⟩ := h
  rw [← Array.getElem?_toList] at hp ⊢
  rw [← ha, List.getElem?_append_left (List.getElem?_eq_some_iff.mp hp).1, hp]

namespace Value

variable {earlier later : Store}

mutual

theorem Stands.later (h : earlier.toList <+: later.toList) {json : Json} {value : Value} :
    Stands earlier json value → Stands later json value
  | .null => .null
  | .bool value => .bool value
  | .int value => .int value
  | .float value => .float value
  | .string text => .string text
  | .array hp hi => .array (Store.getElem?_of_prefix h hp) (hi.later h)
  | .object hp he => .object (Store.getElem?_of_prefix h hp) (he.later h)

theorem StandInOrder.later (h : earlier.toList <+: later.toList) {position : Int}
    {items : List Json} {fields : List (Key × Value)} :
    StandInOrder earlier position items fields → StandInOrder later position items fields
  | .nil position => .nil position
  | .cons hv hr => .cons (hv.later h) (hr.later h)

theorem StandByName.later (h : earlier.toList <+: later.toList)
    {entries : List (String × Json)} {content last : TableContent} :
    StandByName earlier entries content last → StandByName later entries content last
  | .nil content => .nil content
  | .cons hv hr => .cons (hv.later h) (hr.later h)

end

theorem prefix_push (store : Store) (content : TableContent) :
    store.toList <+: (store.push content).toList := by
  simp

mutual

/-- A JSON value is given a value that stands for it, and no table is changed for that. -/
theorem stands_ofJson (json : Json) (store : Store) :
    store.toList <+: (ofJson json store).2.toList ∧
      Stands (ofJson json store).2 json (ofJson json store).1 := by
  cases json with
  | null => exact ⟨List.prefix_rfl, .null⟩
  | bool value => exact ⟨List.prefix_rfl, .bool value⟩
  | int value => exact ⟨List.prefix_rfl, .int value⟩
  | float value => exact ⟨List.prefix_rfl, .float value⟩
  | string text => exact ⟨List.prefix_rfl, .string text⟩
  | array items =>
    obtain ⟨hs, hi⟩ := standInOrder_ofItems 1 items store
    have hp := prefix_push (ofItems 1 items store).2
      { isArray := true, fields := (ofItems 1 items store).1 }
    simp only [ofJson]
    exact ⟨hs.trans hp, .array Array.getElem?_push_size (hi.later hp)⟩
  | object entries =>
    obtain ⟨hs, he⟩ := standByName_ofEntries entries {} store
    have hp := prefix_push (ofEntries entries {} store).2 (ofEntries entries {} store).1
    simp only [ofJson]
    exact ⟨hs.trans hp, .object Array.getElem?_push_size (he.later hp)⟩

theorem standInOrder_ofItems (position : Int) (items : List Json) (store : Store) :
    store.toList <+: (ofItems position items store).2.toList ∧
      StandInOrder (ofItems position items store).2 position items
        (ofItems position items store).1 := by
  cases items with
  | nil => exact ⟨List.prefix_rfl, .nil position⟩
  | cons item rest =>
    obtain ⟨hs, hv⟩ := stands_ofJson item store
    obtain ⟨hr, hi⟩ := standInOrder_ofItems (position + 1) rest (ofJson item store).2
    simp only [ofItems]
    exact ⟨hs.trans hr, .cons (hv.later hr) hi⟩

theorem standByName_ofEntries (entries : List (String × Json)) (content : TableContent)
    (store : Store) :
    store.toList <+: (ofEntries entries content store).2.toList ∧
      StandByName (ofEntries entries content store).2 entries content
        (ofEntries entries content store).1 := by
  cases entries with
  | nil => exact ⟨List.prefix_rfl, .nil content⟩
  | cons entry rest =>
    obtain ⟨name, json⟩ := entry
    obtain ⟨hs, hv⟩ := stands_ofJson json store
    obtain ⟨hr, he⟩ := standByName_ofEntries rest
      (content.set (.name name) (ofJson json store).1) (ofJson json store).2
    simp only [ofEntries]
    exact ⟨hs.trans hr, .cons (hv.later hr) he⟩

end

end Value

namespace State

/-- The global of that name is a value that stands for the JSON value. -/
def Holds (state : State) (name : String) (json : Json) : Prop :=
  Value.Stands state.store json (state.globals.get (.name name))

/-- The global is what it is in a fresh interpreter, and nothing hides it or stands in for it. -/
structure Untouched (state : State) (name : String) : Prop where
  globals : state.globals.get (.name name) = initial.globals.get (.name name)
  metatable : state.globals.metatable = none
  locals : state.locals = []

variable {state : State} {name other : String}

theorem holds_bind (state : State) (name : String) (json : Json) :
    (state.bind name json).Holds name json := by
  have hg : (state.bind name json).globals.get (.name name) = (Value.ofJson json state.store).1 :=
    TableContent.get_set_self ..
  rw [Holds, hg]
  exact (Value.stands_ofJson json state.store).2

theorem Holds.bind_of_ne {old : Json} (h : state.Holds other old) (hn : other ≠ name)
    (json : Json) : (state.bind name json).Holds other old := by
  have hg : (state.bind name json).globals.get (.name other) = state.globals.get (.name other) :=
    TableContent.get_set_of_ne _ _ _ (by simpa using hn)
  rw [Holds, hg]
  exact h.later (Value.stands_ofJson json state.store).1

theorem Untouched.bind_of_ne (h : state.Untouched other) (hn : other ≠ name) (json : Json) :
    (state.bind name json).Untouched other where
  globals := (TableContent.get_set_of_ne _ _ _ (by simpa using hn)).trans h.globals
  metatable := (TableContent.set_metatable ..).trans h.metatable
  locals := h.locals

/-- Looking up a global of a table without a metatable runs nothing. -/
theorem read_of_no_metatable (h : state.globals.metatable = none) (name : String) :
    state.read name =
      (state.store.json? (state.globals.get (.name name))).map fun json => (json, state) := by
  have hh : state.handler state.globals = .nil := by simp [handler, h]
  have hi : state.index (Value.call callLimit) (.table .globals) (.string name) =
      some (state.globals.get (.name name), state) := by
    unfold index indexLimit indexWithin
    simp only [content?, Value.key?, Option.map_some, Option.getD_some, hh, Option.bind_eq_bind,
      Option.bind_some]
    split <;> simp_all
  rw [read, hi]
  simp only [Option.bind_eq_bind, Option.bind_some]
  cases state.store.json? (state.globals.get (.name name)) <;> rfl

end State

end Script

/-- What can be known of the names in a state before anything runs, and how it follows from the
single bindings. -/
structure Interpreter.Environment (lua : Interpreter) where
  /-- The name is bound to the value of the JSON value. -/
  Holds : lua.State → (name : String) → Json → Prop
  /-- The name means what it means to the language itself. -/
  Untouched : lua.State → (name : String) → Prop
  untouched_fresh : ∀ name, Untouched lua.fresh name
  holds_bind : ∀ {state next name json}, lua.bind state name json = some next →
    Holds next name json
  holds_bind_of_ne : ∀ {state next name other json old}, lua.bind state name json = some next →
    other ≠ name → Holds state other old → Holds next other old
  untouched_bind_of_ne : ∀ {state next name other json}, lua.bind state name json = some next →
    other ≠ name → Untouched state other → Untouched next other

def Interpreter.Environment.standard : Interpreter.standard.Environment where
  Holds := Script.State.Holds
  Untouched := Script.State.Untouched
  untouched_fresh _ := ⟨rfl, rfl, rfl⟩
  holds_bind {state _ name json} h := by
    obtain rfl := Option.some.inj h
    exact Script.State.holds_bind state name json
  holds_bind_of_ne {_ _ name _ json _} h hn hs := by
    obtain rfl := Option.some.inj h
    exact hs.bind_of_ne hn json
  untouched_bind_of_ne {_ _ name _ json} h hn hu := by
    obtain rfl := Option.some.inj h
    exact hu.bind_of_ne hn json

end Polyglot
