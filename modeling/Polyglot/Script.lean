import Polyglot.Script.Run
import Polyglot.Script.Resources

/-! Scripts that are loaded from a resource and run on named values. -/

namespace Polyglot

/-- The values that a script is given and may change. -/
abbrev Globals := Table Json

inductive LoadFailure where
  | notFound
  | noEngine
  /-- A Lua script that does not compile. -/
  | malformed
  /-- What an engine says about a script that it does not accept. -/
  | refused (complaint : String)
  deriving DecidableEq

def LoadFailure.reason : LoadFailure → String
  | .notFound => "resource not found"
  | .noEngine => "no groovy script engine configured"
  | .malformed => "lua compile error"
  | .refused complaint => complaint

inductive ScriptError where
  | load (path : String) (failure : LoadFailure)
  /-- The cause is what an engine says; Lua gives none. -/
  | execution (path : String) (cause : Option String)
  deriving DecidableEq

def ScriptError.message : ScriptError → String
  | .load path failure => "could not load script " ++ path ++ ": " ++ failure.reason
  | .execution path _ => "script " ++ path ++ " failed"

def loadSource (resources : Resources) (path : String) : Except ScriptError String :=
  match resources.find? path with
  | some source => .ok source
  | none => .error (.load path .notFound)

/-- What runs Lua scripts. Every step may fail, and nothing is kept from one run to the next. -/
structure Interpreter where
  Code : Type
  State : Type
  compile : (source : String) → Option Code
  /-- A state in which nothing but the language itself is bound. -/
  fresh : State
  bind : State → (name : String) → Json → Option State
  execute : Code → State → Option State
  /-- The JSON of a global, and what looking it up makes of the state: a script can have left code
  that runs for it. Some values have no JSON. -/
  read : State → (name : String) → Option (Json × State)

/-- The interpreter of this library. -/
def Interpreter.standard : Interpreter where
  Code := List Script.Statement
  State := Script.State
  compile := Script.Statement.ofText
  fresh := .initial
  bind state name json := some (state.bind name json)
  execute := Script.Statement.runAll (Script.Value.call Script.callLimit)
  read := Script.State.read

structure LuaScript (lua : Interpreter) where
  path : String
  source : String
  code : lua.Code

namespace LuaScript

variable {lua : Interpreter}

def load (lua : Interpreter) (resources : Resources) (name : String) :
    Except ScriptError (LuaScript lua) := do
  let path := name ++ ".lua"
  let source ← loadSource resources path
  match lua.compile source with
  | some code => return ⟨path, source, code⟩
  | none => .error (.load path .malformed)

/-- The state at the end of a run on the given globals. -/
def execute (script : LuaScript lua) (globals : Globals) : Option lua.State := do
  let bound ← globals.entries.foldlM
    (fun state binding => lua.bind state binding.1 binding.2) lua.fresh
  lua.execute script.code bound

/-- Takes the values of the globals back in their order, up to the first that JSON does not have.
Each is looked up in the state that the one before has left. -/
def takeBack (state : lua.State) : List (String × Json) → Bool × List (String × Json)
  | [] => (true, [])
  | (name, old) :: rest =>
    match lua.read state name with
    | some (value, next) =>
      let (complete, rest) := takeBack next rest
      (complete, (name, value) :: rest)
    | none => (false, (name, old) :: rest)

theorem takeBack_names (state : lua.State) (entries : List (String × Json)) :
    (takeBack state entries).2.map (·.1) = entries.map (·.1) := by
  induction entries generalizing state with
  | nil => rfl
  | cons entry rest ih =>
    unfold takeBack
    split
    · exact congrArg (entry.1 :: ·) (ih _)
    · rfl

/-- Runs the script and takes the globals back. -/
def run (script : LuaScript lua) (globals : Globals) : Except ScriptError Unit × Globals :=
  match script.execute globals with
  | none => (.error (.execution script.path none), globals)
  | some state =>
    let taken := takeBack state globals.entries
    let result := if taken.1 then .ok () else .error (.execution script.path none)
    (result, globals.withEntries taken.2 (takeBack_names state globals.entries))

end LuaScript

/-- An interpreter outside of this library. Both calls answer with a complaint if they fail. -/
structure Engine (m : Type → Type) where
  compile : (name source : String) → m (Option String)
  execute : (name source : String) → Globals → m (Option String × Globals)

structure GroovyScript where
  path : String
  /-- The name that the engine knows the script by. -/
  name : String
  source : String

namespace GroovyScript

variable {m : Type → Type} [Monad m]

/-- A path as a dotted name. -/
def dotted (path : String) : String :=
  String.ofList (path.toList.map fun c => if c = '/' then '.' else c)

def load (engine : Option (Engine m)) (resources : Resources) (name : String) :
    m (Except ScriptError GroovyScript) := do
  let path := name ++ ".groovy"
  match loadSource resources path, engine with
  | .error error, _ => return .error error
  | .ok _, none => return .error (.load path .noEngine)
  | .ok source, some engine =>
    match ← engine.compile (dotted name) source with
    | some complaint => return .error (.load path (.refused complaint))
    | none => return .ok ⟨path, dotted name, source⟩

def run (engine : Engine m) (script : GroovyScript) (globals : Globals) :
    m (Except ScriptError Unit × Globals) := do
  let (complaint, globals) ← engine.execute script.name script.source globals
  match complaint with
  | some complaint => return (.error (.execution script.path (some complaint)), globals)
  | none => return (.ok (), globals)

end GroovyScript

end Polyglot
