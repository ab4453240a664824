import Polyglot.Session

/-! The languages that are known by name or by file extension. -/

namespace Polyglot

/-- A language under a name and an extension; its sessions are those of `dialect`. Custom providers
have numbers, which tell them apart where they agree in everything else. -/
structure Provider where
  name : String
  extension : String
  dialect : Dialect
  number : Option Nat
  deriving DecidableEq

namespace Provider

def groovy : Provider := ⟨"groovy", "groovy", .groovy, none⟩

def lua : Provider := ⟨"lua", "lua", .lua, none⟩

def builtIn : List Provider := [groovy, lua]

def isCustom (provider : Provider) : Bool :=
  provider.number.isSome

def newSession (provider : Provider) (settings : Settings) : Session where
  dialect := provider.dialect
  settings := settings

end Provider

/-- The built-in languages join the others at the first look-up. -/
structure Registry where
  providers : List Provider := []
  started : Bool := false

namespace Registry

def register (registry : Registry) (provider : Provider) : Registry :=
  { registry with providers := registry.providers ++ [provider] }

def start (registry : Registry) : Registry :=
  if registry.started then registry
  else { providers := registry.providers ++ Provider.builtIn, started := true }

/-- All languages, and the registry after the look-up. -/
def all (registry : Registry) : List Provider × Registry :=
  (registry.start.providers, registry.start)

/-- The first of them counts, so that a later one of the same name does not replace it. -/
def forName (registry : Registry) (name : String) : Option Provider × Registry :=
  (registry.start.providers.find? (·.name = name), registry.start)

def forExtension (registry : Registry) (extension : String) : Option Provider × Registry :=
  (registry.start.providers.find? (·.extension = extension), registry.start)

end Registry

end Polyglot
