import Polyglot.Proofs.Lookups

/-! What look-ups between registrations change. The first look-up puts the built-in languages behind
what was registered by then, and no other one changes anything; so a name leads to the same provider
wherever languages are looked up, unless it is the name of a built-in language. -/
namespace Polyglot

namespace Registry

/-- What a call registers. -/
def Call.provider? : Call → Option Provider
  | .register provider => some provider
  | _ => none

def registered (calls : List Call) : List Provider :=
  calls.filterMap Call.provider?

/-- The calls in front of the first look-up. -/
def early (calls : List Call) : List Call :=
  calls.takeWhile (·.provider?.isSome)

/-- The calls from the first look-up on. -/
def late (calls : List Call) : List Call :=
  calls.dropWhile (·.provider?.isSome)

def after (registry : Registry) (calls : List Call) : Registry :=
  calls.foldl (fun registry call => (registry.answer call).2) registry

/-- Where a name leads to when the calls are over. -/
def finally? (calls : List Call) (name : String) : Option Provider :=
  ((({} : Registry).after calls).forName name).1

def named? (name : String) (providers : List Provider) : Option Provider :=
  providers.find? (·.name = name)

theorem named?_append (name : String) (first second : List Provider) :
    named? name (first ++ second) = (named? name first).or (named? name second) :=
  List.find?_append

theorem registered_early_append_late (calls : List Call) :
    registered (early calls) ++ registered (late calls) = registered calls := by
  unfold registered early late
  rw [← List.filterMap_append, List.takeWhile_append_dropWhile]

/-- Once a registry has started, look-ups leave no trace in it. -/
theorem after_of_started {registry : Registry} (h : registry.started = true) (calls : List Call) :
    registry.after calls = ⟨registry.providers ++ registered calls, true⟩ := by
  induction calls generalizing registry with
  | nil =>
    obtain ⟨providers, started⟩ := registry
    obtain rfl : started = true := h
    simp [after, registered]
  | cons call rest ih =>
    cases call with
    | register provider =>
      have hr : (registry.register provider).after rest =
          ⟨registry.providers ++ [provider] ++ registered rest, true⟩ := ih h
      rw [List.append_assoc] at hr
      exact hr
    | forName | forExtension | all =>
      have hs : registry.start.after rest = ⟨registry.providers ++ registered rest, true⟩ := by
        rw [start_of_started h]
        exact ih h
      exact hs

/-- The first look-up decides where the built-in languages stand. -/
theorem start_after_of_not_started {registry : Registry} (h : registry.started = false)
    (calls : List Call) :
    (registry.after calls).start.providers =
      registry.providers ++ registered (early calls) ++ Provider.builtIn ++
        registered (late calls) := by
  induction calls generalizing registry with
  | nil =>
    have hs : registry.start.providers = registry.providers ++ Provider.builtIn :=
      congrArg providers (start_of_not_started h)
    simpa [after, early, late, registered] using hs
  | cons call rest ih =>
    cases call with
    | register provider =>
      have hr : ((registry.register provider).after rest).start.providers =
          registry.providers ++ [provider] ++ registered (early rest) ++ Provider.builtIn ++
            registered (late rest) := ih h
      rw [List.append_assoc registry.providers] at hr
      exact hr
    | forName | forExtension | all =>
      have ha := after_of_started registry.start_started rest
      have hs : (registry.start.after rest).start.providers =
          registry.providers ++ [] ++ Provider.builtIn ++ registered rest := by
        rw [ha, start_of_started rfl, start_of_not_started h, List.append_nil]
      exact hs

theorem finally?_eq (calls : List Call) (name : String) :
    finally? calls name =
      named? name (registered (early calls) ++ Provider.builtIn ++ registered (late calls)) :=
  congrArg (named? name) (start_after_of_not_started rfl calls)

/-- A built-in language gives way to what had its name in front of the first look-up. -/
theorem finally?_builtIn (calls : List Call) {builtIn : Provider} (h : builtIn ∈ Provider.builtIn) :
    finally? calls builtIn.name =
      some ((named? builtIn.name (registered (early calls))).getD builtIn) := by
  have hb : named? builtIn.name Provider.builtIn = some builtIn := by
    simp only [Provider.builtIn, List.mem_cons, List.not_mem_nil, or_false] at h
    obtain rfl | rfl := h <;> rfl
  rw [finally?_eq, named?_append, named?_append, hb]
  cases named? builtIn.name (registered (early calls)) <;> rfl

/-- For any other name it does not matter where the built-in languages stand. -/
theorem finally?_other (calls : List Call) {name : String}
    (h : ∀ builtIn ∈ Provider.builtIn, builtIn.name ≠ name) :
    finally? calls name = named? name (registered calls) := by
  have hb : named? name Provider.builtIn = none := by simpa [named?] using h
  rw [finally?_eq, named?_append, named?_append, hb, Option.or_none, ← named?_append,
    registered_early_append_late]

/-- What is found among the early registrations is found among all of them. -/
theorem named?_early {calls : List Call} {name : String} {provider : Provider}
    (h : named? name (registered (early calls)) = some provider) :
    named? name (registered calls) = some provider := by
  rw [← registered_early_append_late, named?_append, h, Option.some_or]

/-- Registrations without a look-up. -/
def registrations (providers : List Provider) : List Call :=
  providers.map .register

@[simp] theorem registered_registrations (providers : List Provider) :
    registered (registrations providers) = providers := by
  simp [registered, registrations, Function.comp_def, Call.provider?]

@[simp] theorem early_registrations (providers : List Provider) :
    early (registrations providers) = registrations providers := by
  induction providers with
  | nil => rfl
  | cons provider rest ih => exact congrArg (.register provider :: ·) ih

theorem finally?_builtIn_iff (calls : List Call) {builtIn : Provider}
    (hb : builtIn ∈ Provider.builtIn) :
    finally? calls builtIn.name = some builtIn ↔
      ∀ provider ∈ named? builtIn.name (registered (early calls)), provider = builtIn := by
  rw [finally?_builtIn calls hb]
  cases named? builtIn.name (registered (early calls)) <;> simp

/-- Look-ups that are put between registrations make no difference to where a name leads to, just
when it is not the name of a built-in language, or nothing else is registered under it. A built-in
language is found under its name unless something else was registered under it in front of the first
look-up; what is registered later does not count. -/
theorem lookups_undisturbed_iff (providers : List Provider) (name : String) :
    ((∀ calls others, registered calls = providers → registered others = providers →
        finally? calls name = finally? others name) ↔
      ∀ builtIn ∈ Provider.builtIn, builtIn.name = name →
        ∀ provider ∈ named? name providers, provider = builtIn) ∧
    ∀ calls, ∀ builtIn ∈ Provider.builtIn, registered calls = providers → builtIn.name = name →
      (finally? calls name = some builtIn ↔
        ∀ provider ∈ named? name (registered (early calls)), provider = builtIn) := by
  refine ⟨⟨?_, ?_⟩, ?_⟩
  · rintro h builtIn hb rfl provider hp
    -- The two extremes: no look-up at all, and one in front of everything.
    have hs := h (registrations providers) (.all :: registrations providers)
      (registered_registrations providers) (registered_registrations providers)
    rw [finally?_builtIn _ hb, finally?_builtIn _ hb, early_registrations,
      registered_registrations, hp] at hs
    exact Option.some.inj hs
  · intro h calls others hc ho
    by_cases hn : ∃ builtIn ∈ Provider.builtIn, builtIn.name = name
    · obtain ⟨builtIn, hb, rfl⟩ := hn
      have hk : ∀ calls, registered calls = providers →
          finally? calls builtIn.name = some builtIn := by
        rintro calls rfl
        exact (finally?_builtIn_iff calls hb).mpr fun provider hp =>
          h builtIn hb rfl provider (named?_early hp)
      rw [hk calls hc, hk others ho]
    · have hn : ∀ builtIn ∈ Provider.builtIn, builtIn.name ≠ name := by simpa using hn
      rw [finally?_other calls hn, finally?_other others hn, hc, ho]
  · rintro calls builtIn hb - rfl
    exact finally?_builtIn_iff calls hb

/-- A custom provider under the name of a built-in language. -/
def rivalGroovy : Provider := ⟨"groovy", "gvy", .lua, some 0⟩

theorem lookups_disturbed_rivalGroovy :
    finally? [.register rivalGroovy] "groovy" = some rivalGroovy ∧
      finally? [.forName "lua", .register rivalGroovy] "groovy" = some .groovy ∧
      ¬∀ calls others, registered calls = [rivalGroovy] → registered others = [rivalGroovy] →
        finally? calls "groovy" = finally? others "groovy" := by
  refine ⟨rfl, rfl, fun h => ?_⟩
  have hr := (lookups_undisturbed_iff [rivalGroovy] "groovy").1.mp h .groovy (.head _) rfl
  exact absurd (hr rivalGroovy rfl) (by decide)

end Registry

end Polyglot
