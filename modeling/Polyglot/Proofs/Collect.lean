import Polyglot.Proofs.Stroke

/-! What a pass collects: imports grow at their end only, and what is collected depends on the
marks of a document alone, which are its references and its refusals. -/
namespace Polyglot

namespace Imports

/-- The types inserted one after the other. -/
def insertAll (imports : Imports) (types : List ClassType) : Imports :=
  types.foldl insert imports

@[simp] theorem insertAll_nil (imports : Imports) : imports.insertAll [] = imports := rfl

@[simp] theorem insertAll_cons (imports : Imports) (ty : ClassType) (types : List ClassType) :
    imports.insertAll (ty :: types) = (imports.insert ty).insertAll types := rfl

theorem insert_of_mem {imports : Imports} {ty : ClassType} (h : ty ∈ imports.types) :
    imports.insert ty = imports := by
  simp [insert, h]

theorem types_insert_of_notMem {imports : Imports} {ty : ClassType} (h : ty ∉ imports.types) :
    (imports.insert ty).types = imports.types ++ [ty] := by
  simp [insert, h]

@[simp] theorem mem_insert {imports : Imports} {ty other : ClassType} :
    other ∈ (imports.insert ty).types ↔ other ∈ imports.types ∨ other = ty := by
  by_cases h : ty ∈ imports.types
  · rw [insert_of_mem h]
    constructor
    · exact Or.inl
    · rintro (hm | rfl)
      · exact hm
      · exact h
  · rw [types_insert_of_notMem h, List.mem_append, List.mem_singleton]

theorem prefix_insert (imports : Imports) (ty : ClassType) :
    imports.types <+: (imports.insert ty).types := by
  by_cases h : ty ∈ imports.types
  · simp [insert_of_mem h]
  · rw [types_insert_of_notMem h]
    exact List.prefix_append imports.types [ty]

theorem mem_insertAll {imports : Imports} {types : List ClassType} {ty : ClassType} :
    ty ∈ (imports.insertAll types).types ↔ ty ∈ imports.types ∨ ty ∈ types := by
  induction types generalizing imports with
  | nil => simp
  | cons first rest ih => rw [insertAll_cons, ih, mem_insert, List.mem_cons, or_assoc]

end Imports

/-- What a document leaves behind apart from its text. -/
inductive Mark where
  | reference (ty : ClassType)
  | refusal (construct : Construct)
  deriving DecidableEq

namespace Mark

def referenced? : Mark → Option ClassType
  | .reference ty => some ty
  | .refusal _ => none

/-- Collects references up to the first refusal. -/
def collect : List Mark → Imports → Imports × Option Construct
  | [], imports => (imports, none)
  | .reference ty :: rest, imports => collect rest (imports.insert ty)
  | .refusal construct :: _, imports => (imports, some construct)

theorem collect_append (first second : List Mark) (imports : Imports) :
    collect (first ++ second) imports =
      match collect first imports with
      | (later, none) => collect second later
      | (later, some construct) => (later, some construct) := by
  induction first generalizing imports with
  | nil => rfl
  | cons mark rest ih =>
    cases mark with
    | reference ty => exact ih (imports.insert ty)
    | refusal construct => rfl

theorem prefix_collect (marks : List Mark) (imports : Imports) :
    imports.types <+: (collect marks imports).1.types := by
  induction marks generalizing imports with
  | nil => exact List.prefix_rfl
  | cons mark rest ih =>
    cases mark with
    | reference ty => exact (imports.prefix_insert ty).trans (ih _)
    | refusal construct => exact List.prefix_rfl

/-- Where nothing is refused, all references are collected. -/
theorem collect_of_done {marks : List Mark} {imports : Imports}
    (h : (collect marks imports).2 = none) :
    (collect marks imports).1 = imports.insertAll (marks.filterMap referenced?) := by
  induction marks generalizing imports with
  | nil => rfl
  | cons mark rest ih =>
    cases mark with
    | reference ty => exact ih h
    | refusal construct => exact absurd h (Option.some_ne_none construct)

/-- Marks that lead to the same imports and to the same refusal, whatever was there before. -/
def Agree (first second : List Mark) : Prop :=
  ∀ imports, collect first imports = collect second imports

namespace Agree

variable {first second first' second' marks : List Mark}

theorem refl (marks : List Mark) : Agree marks marks := fun _ => rfl

theorem trans (h : Agree first second) (h' : Agree second marks) : Agree first marks :=
  fun imports => (h imports).trans (h' imports)

theorem append (h : Agree first first') (h' : Agree second second') :
    Agree (first ++ second) (first' ++ second') := by
  intro imports
  rw [collect_append, collect_append, h imports]
  cases collect first' imports with
  | mk later refused =>
    cases refused with
    | none => exact h' later
    | some construct => rfl

/-- What follows a refusal does not count. -/
theorem refusal (construct : Construct) (marks : List Mark) :
    Agree [.refusal construct] (.refusal construct :: marks) := fun _ => rfl

private theorem collect_again {imports later : Imports}
    (hm : ∀ ty, .reference ty ∈ marks → ty ∈ later.types)
    (hd : (collect marks imports).2 = none) : collect marks later = (later, none) := by
  induction marks generalizing imports with
  | nil => rfl
  | cons mark rest ih =>
    cases mark with
    | reference ty =>
      rw [collect, Imports.insert_of_mem (hm ty (by simp))]
      exact ih (fun other h => hm other (List.mem_cons_of_mem _ h)) hd
    | refusal construct => exact absurd hd (Option.some_ne_none construct)

/-- Marks that are repeated at once count once: the second time every type is there already. -/
theorem twice (marks : List Mark) : Agree (marks ++ marks) marks := by
  intro imports
  rw [collect_append]
  cases hc : collect marks imports with
  | mk later refused =>
    cases refused with
    | some construct => rfl
    | none =>
      -- Nothing was refused the first time, so all references are among the imports by now.
      have hd : (collect marks imports).2 = none := by rw [hc]
      have hl : later = imports.insertAll (marks.filterMap referenced?) := by
        rw [← collect_of_done hd, hc]
      apply collect_again _ hd
      intro ty hm
      rw [hl, Imports.mem_insertAll]
      exact Or.inr (List.mem_filterMap.mpr ⟨_, hm, rfl⟩)

end Agree

end Mark

namespace Stroke

def mark? : Stroke → Option Mark
  | .refer ty => some (.reference ty)
  | .refuse construct => some (.refusal construct)
  | _ => none

/-- A run of strokes collects their marks. -/
theorem run_collect (dialect : Dialect) (strokes : List Stroke) (pass : Pass) :
    (run dialect strokes pass).pass.imports =
        (Mark.collect (strokes.filterMap mark?) pass.imports).1 ∧
      (run dialect strokes pass).error? =
        (Mark.collect (strokes.filterMap mark?) pass.imports).2.map (.unsupported · dialect) := by
  induction strokes generalizing pass with
  | nil => exact ⟨rfl, rfl⟩
  | cons stroke rest ih =>
    cases stroke with
    | write content => exact ih (pass.write content)
    | indent => exact ih { pass with page := pass.page.indent }
    | unindent => exact ih { pass with page := pass.page.unindent }
    | freshLine => exact ih { pass with page := pass.page.freshLine }
    | refer ty => exact ih (pass.refer dialect ty)
    | refuse construct => exact ⟨rfl, rfl⟩

end Stroke

end Polyglot
