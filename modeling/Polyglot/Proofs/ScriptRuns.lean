import Mathlib.Logic.Function.Iterate
import Polyglot.Proofs.ScriptValues

/-! Runs of a loaded script, for every interpreter. The globals are bound in a fresh state, the code
is executed, and the globals are looked up one by one; each lookup may change what the next ones
find, and the first one without a result ends the run and leaves the rest as it was. -/
namespace Polyglot

theorem Table.get?_eq_some_of_mem {α : Type} {table : Table α} {name : String} {value : α}
    (h : (name, value) ∈ table.entries) : table.get? name = some value := by
  obtain ⟨before, rest, he⟩ := List.append_of_mem h
  have hi := table.increasing
  rw [he] at hi
  refine List.lookup_eq_some_iff.mpr ⟨before, rest, he, fun entry hm => ?_⟩
  have hlt := (List.pairwise_append.mp hi).2.2 entry hm _ (.head _)
  exact bne_iff_ne.mpr fun hn => Std.lt_irrefl (hn ▸ hlt)

namespace Interpreter

/-- Binding the globals one after the other leads from the first state to the second. -/
inductive Binds (lua : Interpreter) : lua.State → List (String × Json) → lua.State → Prop
  | nil (state : lua.State) : Binds lua state [] state
  | cons {state next last : lua.State} {name : String} {json : Json} {rest : List (String × Json)}
      (hb : lua.bind state name json = some next) (hr : Binds lua next rest last) :
      Binds lua state ((name, json) :: rest) last

/-- One of the globals cannot be bound in the state that those in front of it lead to. -/
inductive Refuses (lua : Interpreter) : lua.State → List (String × Json) → Prop
  | here {state : lua.State} {name : String} {json : Json} {rest : List (String × Json)}
      (hb : lua.bind state name json = none) : Refuses lua state ((name, json) :: rest)
  | later {state next : lua.State} {name : String} {json : Json} {rest : List (String × Json)}
      (hb : lua.bind state name json = some next) (hr : Refuses lua next rest) :
      Refuses lua state ((name, json) :: rest)

variable {lua : Interpreter} {state last : lua.State} {globals : List (String × Json)}

theorem foldlM_bind_eq_some_iff :
    globals.foldlM (fun state binding => lua.bind state binding.1 binding.2) state = some last ↔
      lua.Binds state globals last := by
  induction globals generalizing state with
  | nil =>
    constructor
    · intro h
      obtain rfl := Option.some.inj h
      exact .nil _
    · rintro ⟨⟩
      rfl
  | cons binding rest ih =>
    rw [List.foldlM_cons, Option.bind_eq_bind, Option.bind_eq_some_iff]
    constructor
    · rintro ⟨next, hb, hr⟩
      exact .cons hb (ih.mp hr)
    · rintro (_ | ⟨hb, hr⟩)
      exact ⟨_, hb, ih.mpr hr⟩

theorem foldlM_bind_eq_none_iff :
    globals.foldlM (fun state binding => lua.bind state binding.1 binding.2) state = none ↔
      lua.Refuses state globals := by
  induction globals generalizing state with
  | nil => constructor <;> intro h <;> cases h
  | cons binding rest ih =>
    rw [List.foldlM_cons, Option.bind_eq_bind, Option.bind_eq_none_iff]
    constructor
    · intro h
      cases hb : lua.bind state binding.1 binding.2 with
      | none => exact .here hb
      | some next => exact .later hb (ih.mp (h next hb))
    · rintro (hb | ⟨hb, hr⟩) next hn
      · exact absurd (hb.symm.trans hn) nofun
      · obtain rfl := Option.some.inj (hb.symm.trans hn)
        exact ih.mpr hr

namespace Environment

variable (environment : lua.Environment)

/-- Other names are not touched when globals are bound. -/
theorem kept_of_binds (h : lua.Binds state globals last) {name : String}
    (hn : name ∉ globals.map (·.1)) :
    (environment.Untouched state name → environment.Untouched last name) ∧
      ∀ json, environment.Holds state name json → environment.Holds last name json := by
  induction h with
  | nil state => exact ⟨id, fun _ => id⟩
  | cons hb _ ih =>
    rw [List.map_cons, List.mem_cons, not_or] at hn
    obtain ⟨hne, hr⟩ := hn
    obtain ⟨hu, hh⟩ := ih hr
    exact ⟨fun h => hu (environment.untouched_bind_of_ne hb hne h),
      fun json h => hh json (environment.holds_bind_of_ne hb hne h)⟩

/-- Globals of different names are all bound in the end. -/
theorem holds_of_binds (h : lua.Binds state globals last) (hg : globals.Pairwise (·.1 < ·.1))
    {binding : String × Json} (hm : binding ∈ globals) :
    environment.Holds last binding.1 binding.2 := by
  induction h with
  | nil state => cases hm
  | @cons _ _ _ name json rest hb hr ih =>
    obtain ⟨hlt, hi⟩ := List.pairwise_cons.mp hg
    rcases List.mem_cons.mp hm with rfl | hm
    · -- The names behind this one are larger, so none of them binds it again.
      have hn : name ∉ rest.map (·.1) := by
        intro hn
        obtain ⟨other, ho, he⟩ := List.mem_map.mp hn
        exact Std.lt_irrefl (he ▸ hlt other ho)
      exact (environment.kept_of_binds hr hn).2 json (environment.holds_bind hb)
    · exact ih hi hm

end Environment

section Reading

/-- The names are looked up one after the other, each in the state that the one before has left:
the first list gets the values of the second. -/
inductive Reads (lua : Interpreter) :
    lua.State → List (String × Json) → List (String × Json) → lua.State → Prop
  | nil (state : lua.State) : Reads lua state [] [] state
  | cons {state next last : lua.State} {name : String} {old value : Json}
      {rest taken : List (String × Json)} (hr : lua.read state name = some (value, next))
      (ht : Reads lua next rest taken last) :
      Reads lua state ((name, old) :: rest) ((name, value) :: taken) last

/-- Behind the names that can be looked up there is one that cannot. -/
inductive Stops (lua : Interpreter) (state : lua.State) (before taken : List (String × Json)) :
    List (String × Json) → Prop
  | intro {last : lua.State} {name : String} {old : Json} {rest : List (String × Json)}
      (hr : lua.Reads state before taken last) (hn : lua.read last name = none) :
      Stops lua state before taken ((name, old) :: rest)

/-- Looking up one of these names leaves the state as it is. -/
def Still (lua : Interpreter) (state : lua.State) (globals : List (String × Json)) : Prop :=
  ∀ binding ∈ globals, ∀ value next, lua.read state binding.1 = some (value, next) → next = state

variable {taken before rest : List (String × Json)}

theorem Reads.names (h : lua.Reads state globals taken last) :
    taken.map (·.1) = globals.map (·.1) := by
  induction h with
  | nil => rfl
  | cons _ _ ih => rw [List.map_cons, List.map_cons, ih]

theorem Stops.names (h : lua.Stops state before taken rest) :
    taken.map (·.1) = before.map (·.1) := by
  cases h with
  | intro hr _ => exact hr.names

/-- Either all names can be looked up, or there is a first one that cannot. -/
theorem reads_or_stops (state : lua.State) (globals : List (String × Json)) :
    (∃ taken last, lua.Reads state globals taken last) ∨
    ∃ before taken rest, globals = before ++ rest ∧ lua.Stops state before taken rest := by
  induction globals generalizing state with
  | nil => exact .inl ⟨[], state, .nil state⟩
  | cons binding globals ih =>
    obtain ⟨name, old⟩ := binding
    cases hr : lua.read state name with
    | none => exact .inr ⟨[], [], _, rfl, .intro (.nil state) hr⟩
    | some found =>
      obtain ⟨value, next⟩ := found
      rcases ih next with ⟨taken, last, ht⟩ | ⟨before, taken, rest, he, hs⟩
      · exact .inl ⟨_, last, .cons hr ht⟩
      · right
        cases hs with
        | intro ht hn => exact ⟨_, _, _, congrArg _ he, .intro (.cons hr ht) hn⟩

/-- The value of a name is that which it has behind the names in front of it. -/
theorem Reads.at {name : String} {old : Json}
    (h : lua.Reads state (before ++ (name, old) :: rest) taken last) :
    ∃ front mid value, lua.Reads state before front mid ∧
      (lua.read mid name).map (·.1) = some value ∧ (name, value) ∈ taken := by
  -- Each of the names in front moves the state on.
  induction before generalizing state taken with
  | nil =>
    rcases h with _ | ⟨hr, -⟩
    exact ⟨[], state, _, .nil state, by rw [hr]; rfl, .head _⟩
  | cons binding before ih =>
    rcases h with _ | ⟨hr, ht⟩
    obtain ⟨front, mid, value, hf, hv, hm⟩ := ih ht
    exact ⟨_, mid, value, .cons hr hf, hv, .tail _ hm⟩

theorem Reads.eq_of_still (h : lua.Reads state globals taken last)
    (hs : lua.Still state globals) : last = state := by
  induction h with
  | nil => rfl
  | cons hr _ ih =>
    obtain ⟨hn, hg⟩ := List.forall_mem_cons.mp hs
    obtain rfl := hn _ _ hr
    exact ih hg

/-- The table that is taken back has that value. -/
theorem Reads.get?_eq {globals updated : Globals}
    (h : lua.Reads state globals.entries updated.entries last) {name : String} {old : Json}
    (hg : globals.entries = before ++ (name, old) :: rest) :
    ∃ front mid, lua.Reads state before front mid ∧
      updated.get? name = (lua.read mid name).map (·.1) := by
  rw [hg] at h
  obtain ⟨front, mid, value, hf, hv, hm⟩ := h.at
  exact ⟨front, mid, hf, by rw [hv, Table.get?_eq_some_of_mem hm]⟩

theorem Reads.get?_of_still {globals updated : Globals}
    (h : lua.Reads state globals.entries updated.entries last)
    (hs : lua.Still state globals.entries) {name : String}
    (hn : name ∈ globals.entries.map (·.1)) :
    updated.get? name = (lua.read state name).map (·.1) := by
  obtain ⟨binding, hm, rfl⟩ := List.mem_map.mp hn
  obtain ⟨before, rest, hg⟩ := List.append_of_mem hm
  obtain ⟨front, mid, hf, hv⟩ := h.get?_eq hg
  -- The state is the same behind the names in front.
  have hb : lua.Still state before := by
    intro other ho
    exact hs other (by rw [hg]; exact List.mem_append_left _ ho)
  rw [hv, hf.eq_of_still hb]

/-- Lookups that leave their states alone see nothing but the values of the names. -/
theorem Reads.of_agree (h : lua.Reads state globals taken last) {other : lua.State}
    (hs : lua.Still state globals) (ho : lua.Still other globals)
    (ha : ∀ binding ∈ globals,
      (lua.read other binding.1).map (·.1) = (lua.read state binding.1).map (·.1)) :
    lua.Reads other globals taken other := by
  induction h with
  | nil => exact .nil other
  | cons hr _ ih =>
    obtain ⟨hn, hg⟩ := List.forall_mem_cons.mp hs
    obtain ⟨hm, hk⟩ := List.forall_mem_cons.mp ho
    obtain ⟨hv, ha⟩ := List.forall_mem_cons.mp ha
    obtain rfl := hn _ _ hr
    rw [hr, Option.map_some, Option.map_eq_some_iff] at hv
    obtain ⟨⟨value, next⟩, he, rfl⟩ := hv
    obtain rfl := hm _ _ he
    exact .cons he (ih hg hk ha)

/-- Nothing is run for the globals if they have no metatable. -/
theorem still_of_no_metatable {state : Script.State} (h : state.globals.metatable = none)
    (globals : List (String × Json)) : standard.Still state globals := by
  intro binding _ value (next : Script.State) (hr : state.read binding.1 = some (value, next))
  rw [state.read_of_no_metatable h, Option.map_eq_some_iff] at hr
  obtain ⟨json, -, he⟩ := hr
  exact (congrArg Prod.snd he).symm

end Reading

end Interpreter

namespace LuaScript

variable {lua : Interpreter}

/-- A loaded script has the code of its source. -/
theorem compile_of_load {resources : Resources} {name : String} {script : LuaScript lua}
    (h : load lua resources name = .ok script) : lua.compile script.source = some script.code := by
  simp only [load, bind, Except.bind] at h
  cases hs : loadSource resources (name ++ ".lua") with
  | error error => simp [hs] at h
  | ok source =>
    cases hc : lua.compile source with
    | none => simp [hs, hc] at h
    | some code =>
      simp only [hs, hc] at h
      obtain rfl := Except.ok.inj h
      exact hc

section TakingBack

variable {state mid last : lua.State} {globals before rest taken : List (String × Json)}

/-- What can be looked up is taken back, and then it goes on from there. -/
theorem takeBack_append (h : lua.Reads state before taken mid) (rest : List (String × Json)) :
    takeBack state (before ++ rest) =
      ((takeBack mid rest).1, taken ++ (takeBack mid rest).2) := by
  induction h with
  | nil => rfl
  | cons hr _ ih => simp [takeBack, hr, ih]

theorem takeBack_of_reads (h : lua.Reads state globals taken last) :
    takeBack state globals = (true, taken) := by
  simpa [takeBack] using takeBack_append h []

theorem takeBack_of_stops (h : lua.Stops state before taken rest) :
    takeBack state (before ++ rest) = (false, taken ++ rest) := by
  cases h with
  | intro hr hn =>
    rw [takeBack_append hr]
    simp [takeBack, hn]

end TakingBack

variable {script : LuaScript lua} {globals updated left : Globals}

theorem execute_eq_some_iff {finish : lua.State} :
    script.execute globals = some finish ↔
      ∃ start, lua.Binds lua.fresh globals.entries start ∧
        lua.execute script.code start = some finish := by
  simp only [execute, Option.bind_eq_bind, Option.bind_eq_some_iff,
    Interpreter.foldlM_bind_eq_some_iff]

theorem execute_eq_none_iff :
    script.execute globals = none ↔
      lua.Refuses lua.fresh globals.entries ∨
        ∃ start, lua.Binds lua.fresh globals.entries start ∧
          lua.execute script.code start = none := by
  rw [← Interpreter.foldlM_bind_eq_none_iff]
  simp only [← Interpreter.foldlM_bind_eq_some_iff, execute, Option.bind_eq_bind]
  cases globals.entries.foldlM (fun state binding => lua.bind state binding.1 binding.2)
    lua.fresh <;> simp

/-- What a run that fails leaves of the globals. -/
inductive Fails (script : LuaScript lua) (globals : Globals) : Globals → Prop
  | binding (hr : lua.Refuses lua.fresh globals.entries) : Fails script globals globals
  | executing {start : lua.State} (hb : lua.Binds lua.fresh globals.entries start)
      (he : lua.execute script.code start = none) : Fails script globals globals
  | takingBack {start finish : lua.State} {before taken rest : List (String × Json)}
      {left : Globals} (hb : lua.Binds lua.fresh globals.entries start)
      (he : lua.execute script.code start = some finish)
      (hs : lua.Stops finish before taken rest) (hg : globals.entries = before ++ rest)
      (hl : left.entries = taken ++ rest) : Fails script globals left

theorem run_of_execute_none (h : script.execute globals = none) :
    script.run globals = (.error (.execution script.path none), globals) := by
  simp [run, h]

/-- A run to the end of the code answers with what was taken back. -/
theorem run_of_takeBack {finish : lua.State} (he : script.execute globals = some finish)
    {complete : Bool} (ht : takeBack finish globals.entries = (complete, left.entries)) :
    script.run globals =
      (if complete then .ok () else .error (.execution script.path none), left) := by
  have hc : (takeBack finish globals.entries).1 = complete := congrArg Prod.fst ht
  simp only [run, he]
  refine Prod.ext ?_ (Table.ext (congrArg Prod.snd ht))
  simp only [hc]

theorem run_of_fails (h : script.Fails globals left) :
    script.run globals = (.error (.execution script.path none), left) := by
  cases h with
  | binding hr => exact run_of_execute_none (execute_eq_none_iff.mpr (.inl hr))
  | executing hb he => exact run_of_execute_none (execute_eq_none_iff.mpr (.inr ⟨_, hb, he⟩))
  | takingBack hb he hs hg hl =>
    have ht := takeBack_of_stops hs
    rw [← hg, ← hl] at ht
    exact run_of_takeBack (execute_eq_some_iff.mpr ⟨_, hb, he⟩) ht

theorem exists_fails_of_stops {finish : lua.State} {before taken rest : List (String × Json)}
    (he : script.execute globals = some finish) (hg : globals.entries = before ++ rest)
    (hs : lua.Stops finish before taken rest) :
    ∃ left, script.Fails globals left ∧ left.entries = taken ++ rest := by
  obtain ⟨start, hb, hx⟩ := execute_eq_some_iff.mp he
  have hn : (taken ++ rest).map (·.1) = globals.entries.map (·.1) := by
    rw [hg, List.map_append, List.map_append, hs.names]
  exact ⟨globals.withEntries _ hn, .takingBack hb hx hs hg rfl, rfl⟩

/-- A run ends well, or it fails in one of three places. -/
theorem run_cases (script : LuaScript lua) (globals : Globals) :
    (∃ finish last updated, script.execute globals = some finish ∧
      lua.Reads finish globals.entries updated.entries last ∧
      script.run globals = (.ok (), updated)) ∨
    ∃ left, script.Fails globals left := by
  cases he : script.execute globals with
  | none =>
    right
    rcases execute_eq_none_iff.mp he with hr | ⟨start, hb, hx⟩
    · exact ⟨globals, .binding hr⟩
    · exact ⟨globals, .executing hb hx⟩
  | some finish =>
    rcases Interpreter.reads_or_stops finish globals.entries with
      ⟨taken, last, hr⟩ | ⟨before, taken, rest, hg, hs⟩
    · let updated := globals.withEntries taken hr.names
      exact .inl ⟨finish, last, updated, rfl, hr, run_of_takeBack he (takeBack_of_reads hr)⟩
    · obtain ⟨left, hf, -⟩ := exists_fails_of_stops he hg hs
      exact .inr ⟨left, hf⟩

theorem run_eq_error_iff {error : ScriptError} :
    script.run globals = (.error error, left) ↔
      error = .execution script.path none ∧ script.Fails globals left := by
  constructor
  · intro h
    rcases run_cases script globals with ⟨finish, last, updated, -, -, hr⟩ | ⟨other, hf⟩
    · rw [hr] at h
      cases h
    · rw [run_of_fails hf] at h
      cases h
      exact ⟨rfl, hf⟩
  · rintro ⟨rfl, hf⟩
    exact run_of_fails hf

theorem run_eq_ok_iff :
    script.run globals = (.ok (), updated) ↔
      ∃ finish last, script.execute globals = some finish ∧
        lua.Reads finish globals.entries updated.entries last := by
  constructor
  · intro h
    rcases run_cases script globals with ⟨finish, last, other, he, hr, ho⟩ | ⟨left, hf⟩
    · rw [ho] at h
      cases h
      exact ⟨finish, last, he, hr⟩
    · rw [run_of_fails hf] at h
      cases h
  · rintro ⟨finish, last, he, hr⟩
    exact run_of_takeBack he (takeBack_of_reads hr)

/-- Nothing is changed just when the names that were taken back had their old values. -/
theorem Fails.left_eq_iff (h : script.Fails globals left) :
    left = globals ↔ ∀ finish before taken rest, script.execute globals = some finish →
      globals.entries = before ++ rest → lua.Stops finish before taken rest → taken = before := by
  constructor
  · rintro rfl finish before taken rest he hg hs
    -- A run leaves one table only, so that of the given stop is this one.
    obtain ⟨other, hf, ho⟩ := exists_fails_of_stops he hg hs
    have hr := (run_of_fails hf).symm.trans (run_of_fails h)
    obtain rfl : other = left := congrArg Prod.snd hr
    exact List.append_cancel_right (ho.symm.trans hg)
  · intro hv
    cases h with
    | binding _ | executing _ _ => rfl
    | takingBack hb he hs hg hl =>
      have ht := hv _ _ _ _ (execute_eq_some_iff.mpr ⟨_, hb, he⟩) hg hs
      exact Table.ext (by rw [hl, hg, ht])

/-- A run that fails has told nothing but its path. What it leaves of the globals depends on where
it fails: all of them if it comes to no end of the code, and otherwise the first ones have been
replaced, up to the first that cannot be looked up in the state that the ones in front of it have
left. They are as before just when all of those have been found as they were. -/
theorem failed_run_keeps_globals_iff (script : LuaScript lua) (globals left : Globals)
    (error : ScriptError) :
    (script.run globals = (.error error, left) ↔
      error = .execution script.path none ∧ script.Fails globals left) ∧
    (script.run globals = (.error error, left) →
      (left = globals ↔ ∀ finish before taken rest, script.execute globals = some finish →
        globals.entries = before ++ rest → lua.Stops finish before taken rest →
          taken = before)) :=
  ⟨run_eq_error_iff, fun h => (run_eq_error_iff.mp h).2.left_eq_iff⟩

/-- A script that makes a function of the global in the middle. -/
def functionValue : LuaScript .standard where
  path := "s.lua"
  source := "a = 5 x = print z = 6"
  code := [.assign (.name "a") (.number (.int 5)), .assign (.name "x") (.name "print"),
    .assign (.name "z") (.number (.int 6))]

theorem failed_run_keeps_globals_iff_functionValue :
    let globals : Globals := ⟨[("a", .int 0), ("x", .int 1), ("z", .int 2)], by decide⟩
    let left : Globals := ⟨[("a", .int 5), ("x", .int 1), ("z", .int 2)], by decide⟩
    load .standard (.memory (.ofEntries [("s.lua", functionValue.source)])) "s" =
        .ok functionValue ∧
      functionValue.run globals = (.error (.execution "s.lua" none), left) ∧
      functionValue.Fails globals left ∧ left ≠ globals := by
  intro globals left
  have hr : functionValue.run globals = (.error (.execution "s.lua" none), left) := rfl
  obtain ⟨hf, hk⟩ := failed_run_keeps_globals_iff functionValue globals left
    (.execution "s.lua" none)
  refine ⟨rfl, hr, (hf.mp hr).2, fun he => ?_⟩
  have ha := (hk hr).mp he _ [("a", .int 0)] [("a", .int 5)] _ rfl rfl
    (.intro (.cons rfl (.nil _)) rfl)
  cases ha

section Succeeding

/-- A run from one state to another that turns the globals into the updated ones. -/
structure Updates (script : LuaScript lua) (environment : lua.Environment)
    (globals updated : Globals) (start finish last : lua.State) : Prop where
  /-- Nothing but the given names is bound at the start. -/
  started : lua.Binds lua.fresh globals.entries start
  given : ∀ binding ∈ globals.entries, environment.Holds start binding.1 binding.2
  others : ∀ name ∉ globals.entries.map (·.1), environment.Untouched start name
  executed : (lua.compile script.source).bind (lua.execute · start) = some finish
  /-- The lookups begin where the source ends. -/
  taken : lua.Reads finish globals.entries updated.entries last

variable {resources : Resources} {name : String}

theorem Updates.execute_eq {environment : lua.Environment} {start finish last : lua.State}
    (h : script.Updates environment globals updated start finish last)
    (hl : load lua resources name = .ok script) : script.execute globals = some finish := by
  have hx : lua.execute script.code start = some finish := by
    simpa [compile_of_load hl] using h.executed
  exact execute_eq_some_iff.mpr ⟨start, h.started, hx⟩

theorem run_eq_ok_iff_exists_updates (hl : load lua resources name = .ok script)
    (environment : lua.Environment) :
    script.run globals = (.ok (), updated) ↔
      ∃ start finish last, script.Updates environment globals updated start finish last := by
  rw [run_eq_ok_iff]
  constructor
  · rintro ⟨finish, last, he, hr⟩
    obtain ⟨start, hb, hx⟩ := execute_eq_some_iff.mp he
    exact ⟨start, finish, last, {
      started := hb
      given := fun binding hm => environment.holds_of_binds hb globals.increasing hm
      others := fun name hn =>
        (environment.kept_of_binds hb hn).1 (environment.untouched_fresh name)
      executed := by rw [compile_of_load hl]; exact hx
      taken := hr }⟩
  · rintro ⟨start, finish, last, h⟩
    exact ⟨finish, last, h.execute_eq hl, h.taken⟩

end Succeeding

section Sequences

/-- A run on one of several maps. -/
def runAt (script : LuaScript lua) (maps : Nat → Globals) (place : Nat) : Nat → Globals :=
  Function.update maps place (script.run (maps place)).2

/-- A map is changed by its own runs only. -/
theorem foldl_runAt (script : LuaScript lua) (maps : Nat → Globals) (places : List Nat)
    (place : Nat) :
    places.foldl script.runAt maps place =
      (fun globals => (script.run globals).2)^[places.count place] (maps place) := by
  induction places generalizing maps with
  | nil => rfl
  | cons next rest ih =>
    rw [List.foldl_cons, ih]
    by_cases h : next = place
    · subst h
      rw [List.count_cons_self, Function.iterate_succ_apply, runAt, Function.update_self]
    · rw [List.count_cons_of_ne h, runAt, Function.update_of_ne (Ne.symm h)]

end Sequences

/-- A run that ends well starts where nothing but the given globals is bound, each of them to its
value, and replaces their values. It looks them up one after the other from the end of the source
on, and what is run for one of them is seen by the next ones, so that a name need not have the value
that it has at the end of the source; it has if no lookup changes the state, and then nothing else
of what the code does is seen. After any sequence of runs on several maps, a run on one of them
starts from the same fresh state, and only earlier runs on that map have a part in what it binds. -/
theorem run_takes_globals_back_in_turn {resources : Resources} {name : String}
    {script : LuaScript lua} (hl : load lua resources name = .ok script)
    (environment : lua.Environment) (globals : Globals) :
    (∀ updated, script.run globals = (.ok (), updated) ↔
      ∃ start finish last, script.Updates environment globals updated start finish last) ∧
    (∀ updated start finish last,
      script.Updates environment globals updated start finish last →
        updated.entries.map (·.1) = globals.entries.map (·.1) ∧
        (∀ before name old rest, globals.entries = before ++ (name, old) :: rest →
          ∃ front mid, lua.Reads finish before front mid ∧
            updated.get? name = (lua.read mid name).map (·.1)) ∧
        (lua.Still finish globals.entries →
          (∀ name ∈ globals.entries.map (·.1),
            updated.get? name = (lua.read finish name).map (·.1)) ∧
          ∀ (other : LuaScript lua) (finish' : lua.State),
            other.execute globals = some finish' → lua.Still finish' globals.entries →
            (∀ binding ∈ globals.entries,
              (lua.read finish' binding.1).map (·.1) = (lua.read finish binding.1).map (·.1)) →
            other.run globals = (.ok (), updated))) ∧
    ∀ (maps : Nat → Globals) (places : List Nat) (place : Nat) (updated : Globals),
      script.run (places.foldl script.runAt maps place) = (.ok (), updated) ↔
        ∃ start finish last, script.Updates environment
          ((fun globals => (script.run globals).2)^[places.count place] (maps place))
          updated start finish last := by
  refine ⟨fun updated => run_eq_ok_iff_exists_updates hl environment, ?_, ?_⟩
  · intro updated start finish last h
    refine ⟨h.taken.names, fun before name old rest hg => h.taken.get?_eq hg, fun hs => ⟨?_, ?_⟩⟩
    · intro name hn
      exact h.taken.get?_of_still hs hn
    · intro other finish' ho hs' ha
      exact run_eq_ok_iff.mpr ⟨finish', finish', ho, h.taken.of_agree hs hs' ha⟩
  · intro maps places place updated
    rw [foldl_runAt]
    exact run_eq_ok_iff_exists_updates hl environment

/-- A script that removes a global and leaves code that changes another one when it is missed. -/
def delayedChange : LuaScript .standard where
  path := "s.lua"
  source := "setmetatable(_G, \x7b__index = load(\"z = 99\")\x7d) x = nil"
  code := [.call (.name "setmetatable") [.name "_G",
      .table [(some "__index", .call (.name "load") [.string "z = 99"])]],
    .assign (.name "x") .nil]

/-- A script that binds a name of its own, and changes a number and a table. -/
def changedTable : LuaScript .standard where
  path := "s.lua"
  source := "extra = 7 n = n + items[1] items[2] = n"
  code := [.assign (.name "extra") (.number (.int 7)),
    .assign (.name "n") (.binary .add (.name "n") (.index (.name "items") (.number (.int 1)))),
    .assign (.index (.name "items") (.number (.int 2))) (.name "n")]

/-- The first script is not given the value that a name has at its end. The second one sets no
metatable and is given all of them. -/
theorem run_takes_globals_back_in_turn_twoScripts :
    (let globals : Globals := ⟨[("x", .int 0), ("z", .int 2)], by decide⟩
      let updated : Globals := ⟨[("x", .null), ("z", .int 99)], by decide⟩
      load .standard (.memory (.ofEntries [("s.lua", delayedChange.source)])) "s" =
          .ok delayedChange ∧
        delayedChange.run globals = (.ok (), updated) ∧
        ∃ start finish last, delayedChange.Updates .standard globals updated start finish last ∧
          (Interpreter.standard.read finish "z").map (·.1) = some (.int 2)) ∧
    let globals : Globals := ⟨[("items", .array [.int 1, .int 2]), ("n", .int 3)], by decide⟩
    let updated : Globals := ⟨[("items", .array [.int 1, .int 4]), ("n", .int 4)], by decide⟩
    load .standard (.memory (.ofEntries [("s.lua", changedTable.source)])) "s" =
        .ok changedTable ∧
      changedTable.run globals = (.ok (), updated) ∧
      ∃ start finish last, changedTable.Updates .standard globals updated start finish last ∧
        Interpreter.standard.Still finish globals.entries ∧
        ∀ name ∈ globals.entries.map (·.1),
          updated.get? name = (Interpreter.standard.read finish name).map (·.1) := by
  constructor
  · intro globals updated
    have hl : load .standard (.memory (.ofEntries [("s.lua", delayedChange.source)])) "s" =
        .ok delayedChange := rfl
    have hr : delayedChange.run globals = (.ok (), updated) := rfl
    obtain ⟨start, finish, last, h⟩ :=
      ((run_takes_globals_back_in_turn hl .standard globals).1 updated).mp hr
    have hz : (delayedChange.execute globals).bind
        (fun state => (Interpreter.standard.read state "z").map (·.1)) = some (.int 2) := rfl
    rw [h.execute_eq hl] at hz
    exact ⟨hl, hr, start, finish, last, h, hz⟩
  · intro globals updated
    have hl : load .standard (.memory (.ofEntries [("s.lua", changedTable.source)])) "s" =
        .ok changedTable := rfl
    have hr : changedTable.run globals = (.ok (), updated) := rfl
    obtain ⟨hu, hv, -⟩ := run_takes_globals_back_in_turn hl .standard globals
    obtain ⟨start, finish, last, h⟩ := (hu updated).mp hr
    have hm : (changedTable.execute globals).map (·.globals.metatable) = some none := rfl
    rw [h.execute_eq hl] at hm
    have hs := Interpreter.still_of_no_metatable (Option.some.inj hm) globals.entries
    exact ⟨hl, hr, start, finish, last, h, hs, ((hv updated start finish last h).2.2 hs).1⟩

end LuaScript

end Polyglot
