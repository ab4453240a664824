import Mathlib.Data.List.Basic
import Polyglot.Registry

/-! A registry over whole runs. The first look-up puts the built-in languages behind the custom
ones that are there by then; from there on the list of languages grows at its end only, and so no
answer is ever taken back. -/
namespace Polyglot

namespace Registry

/-- What can be asked of a registry. -/
inductive Call where
  | register (provider : Provider)
  | forName (name : String)
  | forExtension (extension : String)
  | all

inductive Answer where
  | done
  | found (provider : Option Provider)
  | listed (providers : List Provider)

/-- The answer to a call, and the registry after it. -/
def answer (registry : Registry) : Call → Answer × Registry
  | .register provider => (.done, registry.register provider)
  | .forName name => (.found (registry.forName name).1, (registry.forName name).2)
  | .forExtension extension =>
    (.found (registry.forExtension extension).1, (registry.forExtension extension).2)
  | .all => (.listed registry.all.1, registry.all.2)

/-- Calls one after the other, each with its answer. -/
def trace (registry : Registry) : List Call → List (Call × Answer)
  | [] => []
  | call :: rest => (call, (registry.answer call).1) :: (registry.answer call).2.trace rest

theorem start_of_started {registry : Registry} (h : registry.started = true) :
    registry.start = registry :=
  if_pos h

theorem start_of_not_started {registry : Registry} (h : registry.started = false) :
    registry.start = ⟨registry.providers ++ Provider.builtIn, true⟩ := by
  simp [start, h]

@[simp] theorem start_started (registry : Registry) : registry.start.started = true := by
  cases h : registry.started with
  | true => rw [start_of_started h, h]
  | false => rw [start_of_not_started h]

/-- Every call is a registration, or it starts the registry and then only reads it. -/
theorem answer_cases (registry : Registry) (call : Call) :
    (∃ provider, call = .register provider ∧
      registry.answer call = (.done, registry.register provider)) ∨
    (registry.answer call).2 = registry.start := by
  cases call with
  | register provider => exact .inl ⟨provider, rfl, rfl⟩
  | forName name | forExtension extension | all => exact .inr rfl

/-- One registry may turn into the other once the built-in languages are there. -/
structure Grows (earlier later : Registry) : Prop where
  started : later.started = true
  providers : earlier.providers <+: later.providers

namespace Grows

variable {first second third : Registry}

theorem refl (h : first.started = true) : Grows first first :=
  ⟨h, List.prefix_rfl⟩

theorem answer (h : Grows first second) (call : Call) : Grows first (second.answer call).2 := by
  obtain ⟨provider, -, ha⟩ | ha := answer_cases second call
  · rw [ha]
    exact ⟨h.started, h.providers.trans (List.prefix_append _ _)⟩
  · rw [ha, start_of_started h.started]
    exact h

/-- A provider that was found is found again: nothing has come in front of it. -/
theorem find?_eq (h : Grows first second) {test : Provider → Bool} {provider : Provider}
    (hf : first.providers.find? test = some provider) :
    second.start.providers.find? test = some provider := by
  obtain ⟨rest, hr⟩ := h.providers
  rw [start_of_started h.started, ← hr, List.find?_append, hf]
  rfl

end Grows

/-- A later answer says the same as an earlier one, and lists what that one has listed. -/
structure KeptBy (earlier later : Call × Answer) : Prop where
  found : ∀ provider, earlier.2 = .found (some provider) → later.1 = earlier.1 →
    later.2 = earlier.2
  listed : ∀ providers others, earlier.2 = .listed providers → later.2 = .listed others →
    providers <+: others

/-- An answer is kept by the next answer of every registry that the first one may turn into. -/
theorem answer_keptBy {registry later : Registry} (h : Grows registry.start later)
    (call next : Call) :
    KeptBy (call, (registry.answer call).1) (next, (later.answer next).1) where
  found provider hf hn := by
    obtain rfl : next = call := hn
    cases next with
    | register | all => cases hf
    | forName name | forExtension extension =>
      have hp := h.find?_eq (Answer.found.inj hf)
      exact (congrArg Answer.found hp).trans hf.symm
  listed providers others hl ho := by
    cases call with
    | register | forName | forExtension => cases hl
    | all =>
      cases next with
      | register | forName | forExtension => cases ho
      | all =>
        obtain rfl := Answer.listed.inj hl
        obtain rfl := Answer.listed.inj ho
        change registry.start.providers <+: later.start.providers
        rw [start_of_started h.started]
        exact h.providers

theorem trace_keptBy {registry later : Registry} (h : Grows registry.start later) (call : Call)
    (calls : List Call) :
    ∀ entry ∈ later.trace calls, KeptBy (call, (registry.answer call).1) entry := by
  induction calls generalizing later with
  | nil => exact nofun
  | cons next rest ih =>
    exact List.forall_mem_cons.mpr ⟨answer_keptBy h call next, ih (h.answer next)⟩

/-- A registration answers nothing that could be taken back. -/
theorem keptBy_of_register (provider : Provider) (entry : Call × Answer) :
    KeptBy (.register provider, .done) entry :=
  ⟨nofun, nofun⟩

theorem trace_pairwise (registry : Registry) (calls : List Call) :
    (registry.trace calls).Pairwise KeptBy := by
  induction calls generalizing registry with
  | nil => exact .nil
  | cons call rest ih =>
    refine .cons ?_ (ih _)
    obtain ⟨provider, rfl, ha⟩ | ha := answer_cases registry call
    · intro entry _
      rw [ha]
      exact keptBy_of_register provider entry
    · rw [ha]
      exact trace_keptBy (.refl registry.start_started) call rest

/-- Only custom providers stand in the list, and among them the built-in ones as soon as the
registry has started. -/
inductive Arranged (registry : Registry) : Prop
  | waiting (hs : registry.started = false)
      (hc : ∀ provider ∈ registry.providers, provider.isCustom)
  | running (hs : registry.started = true) (before after : List Provider)
      (hp : registry.providers = before ++ Provider.builtIn ++ after)
      (hc : ∀ provider ∈ before ++ after, provider.isCustom)

namespace Arranged

variable {registry : Registry}

theorem start (h : Arranged registry) : Arranged registry.start := by
  cases h with
  | waiting hs hc =>
    rw [start_of_not_started hs]
    exact .running rfl registry.providers [] (by simp) (by simpa using hc)
  | running hs before after hp hc =>
    rw [start_of_started hs]
    exact .running hs before after hp hc

theorem register (h : Arranged registry) {provider : Provider} (hn : provider.isCustom) :
    Arranged (registry.register provider) := by
  have hl : ∀ other ∈ [provider], other.isCustom := List.forall_mem_singleton.mpr hn
  cases h with
  | waiting hs hc => exact .waiting hs (List.forall_mem_append.mpr ⟨hc, hl⟩)
  | running hs before after hp hc =>
    refine .running hs before (after ++ [provider]) ?_ ?_
    · simp [Registry.register, hp]
    · rw [← List.append_assoc]
      exact List.forall_mem_append.mpr ⟨hc, hl⟩

theorem answer (h : Arranged registry) {call : Call}
    (hc : ∀ provider, call = .register provider → provider.isCustom) :
    Arranged (registry.answer call).2 := by
  obtain ⟨provider, he, ha⟩ | ha := answer_cases registry call
  · rw [ha]
    exact h.register (hc provider he)
  · rw [ha]
    exact h.start

end Arranged

/-- Both built-in languages are there once, Groovy in front of Lua. -/
structure ListsBuiltIns (providers : List Provider) : Prop where
  groovy : providers.count Provider.groovy = 1
  lua : providers.count Provider.lua = 1
  order : providers.idxOf Provider.groovy < providers.idxOf Provider.lua

theorem Arranged.listsBuiltIns {registry : Registry} (h : Arranged registry) :
    ListsBuiltIns registry.start.providers := by
  cases h.start with
  | waiting hs => simp at hs
  | running _ before after hp hc =>
    have hn : ∀ provider : Provider, provider.isCustom = false →
        provider ∉ before ∧ provider ∉ after := by
      intro provider hf
      have hm : provider ∉ before ++ after := fun hm => by simp [hc provider hm] at hf
      simpa using hm
    obtain ⟨hgb, hga⟩ := hn .groovy rfl
    obtain ⟨hlb, hla⟩ := hn .lua rfl
    have hne : Provider.groovy ≠ Provider.lua := by decide
    rw [hp]
    constructor
    · simp [Provider.builtIn, List.count_eq_zero_of_not_mem, hgb, hga, hne.symm]
    · simp [Provider.builtIn, List.count_eq_zero_of_not_mem, hlb, hla, hne]
    · simp [Provider.builtIn, List.idxOf_append, hgb, hlb, hne]

theorem trace_listsBuiltIns {registry : Registry} (h : Arranged registry) {calls : List Call}
    (hc : ∀ provider, .register provider ∈ calls → provider.isCustom) {call : Call}
    {providers : List Provider} (hm : (call, .listed providers) ∈ registry.trace calls) :
    ListsBuiltIns providers := by
  induction calls generalizing registry with
  | nil => contradiction
  | cons first rest ih =>
    obtain he | hm := List.mem_cons.mp hm
    · obtain ⟨rfl, ha⟩ := Prod.mk.inj he
      cases call with
      | register | forName | forExtension => cases ha
      | all =>
        obtain rfl := Answer.listed.inj ha
        exact h.listsBuiltIns
    · refine ih (h.answer ?_) (fun provider hr => hc provider (.tail _ hr)) hm
      rintro provider rfl
      exact hc provider (.head _)

/-- Over any run from the start, no answer is taken back: what a name or an extension has led to it
leads to ever after, and each list of all languages begins every later one. As long as only custom
providers are registered, each such list has the built-in languages once. -/
theorem answers_kept_over_runs (calls : List Call) :
    (({} : Registry).trace calls).Pairwise KeptBy ∧
    ((∀ provider, .register provider ∈ calls → provider.isCustom) →
      ∀ call providers, (call, .listed providers) ∈ ({} : Registry).trace calls →
        ListsBuiltIns providers) := by
  refine ⟨trace_pairwise {} calls, fun hc call providers hm => ?_⟩
  exact trace_listsBuiltIns (.waiting rfl (by simp)) hc hm

/-- A custom provider with all that the built-in Groovy has comes first, and another one of its
extension comes when the registry has started. -/
def rivals : List Call :=
  [.register ⟨"groovy", "groovy", .groovy, some 0⟩, .forExtension "groovy",
    .register ⟨"gradle", "groovy", .lua, some 1⟩, .forExtension "groovy", .forName "lua", .all]

theorem answers_kept_over_runs_rivals :
    let first : Provider := ⟨"groovy", "groovy", .groovy, some 0⟩
    let second : Provider := ⟨"gradle", "groovy", .lua, some 1⟩
    ({} : Registry).trace rivals =
      [(.register first, .done), (.forExtension "groovy", .found (some first)),
        (.register second, .done), (.forExtension "groovy", .found (some first)),
        (.forName "lua", .found (some .lua)),
        (.all, .listed [first, .groovy, .lua, second])] ∧
      ListsBuiltIns [first, .groovy, .lua, second] := by
  intro first second
  have ht : ({} : Registry).trace rivals =
      [(.register first, .done), (.forExtension "groovy", .found (some first)),
        (.register second, .done), (.forExtension "groovy", .found (some first)),
        (.forName "lua", .found (some .lua)),
        (.all, .listed [first, .groovy, .lua, second])] := rfl
  refine ⟨ht, (answers_kept_over_runs rivals).2 ?_ .all _ ?_⟩
  · simp [rivals, Provider.isCustom]
  · simp [ht]

end Registry

end Polyglot
