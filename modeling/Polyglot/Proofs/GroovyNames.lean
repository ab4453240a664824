import Mathlib.Data.List.Nodup
import Polyglot.Proofs.Header
import Polyglot.Proofs.History

/-! The names that stand for imported types in a Groovy file. The body has their simple names,
whatever the header makes known. -/
namespace Polyglot

namespace Dialect

/-- The name by which an imported type is known: the last segment of what is imported. -/
def importedAs (ty : ClassType) : String :=
  lastSegment (groovyName ty)

/-- The name that an import line makes known. -/
def boundName? (line : String) : Option String :=
  if line.toList.take 7 = "import ".toList then
    some (lastSegment (String.ofList (line.toList.drop 7)))
  else none

theorem boundName?_groovyImport (ty : ClassType) :
    boundName? (groovyImport ty) = some (importedAs ty) := by
  have hl : ("import " ++ groovyName ty).toList = "import ".toList ++ (groovyName ty).toList :=
    String.toList_append
  have ht : (groovyImport ty).toList.take 7 = "import ".toList := by
    rw [groovyImport, hl]
    rfl
  have hd : (groovyImport ty).toList.drop 7 = (groovyName ty).toList := by
    rw [groovyImport, hl]
    rfl
  rw [boundName?, if_pos ht, hd, String.ofList_toList, importedAs]

/-- Just one line of the header makes the simple name of a type known, and it is the line of that
type. -/
def Resolves (imports : Imports) (ty : ClassType) : Prop :=
  (Dialect.groovy.header imports).filter (boundName? · = some ty.simpleName) =
    [groovyImport ty]

instance (imports : Imports) (ty : ClassType) : Decidable (Resolves imports ty) :=
  inferInstanceAs (Decidable (_ = _))

theorem header_filter (imports : Imports) (name : String) :
    (Dialect.groovy.header imports).filter (boundName? · = some name) =
      (imports.types.filter (importedAs · = name)).map groovyImport := by
  have hf : imports.types.filter
      ((fun line => decide (boundName? line = some name)) ∘ groovyImport) =
        imports.types.filter (importedAs · = name) := by
    apply List.filter_congr
    intro ty _
    simp [boundName?_groovyImport]
  rw [header, List.filter_map, hf]

variable {imports : Imports}

/-- A type is resolved if it is imported under its simple name and no other type is. -/
theorem resolves_iff {ty : ClassType} (hm : ty ∈ imports.types) :
    Resolves imports ty ↔ importedAs ty = ty.simpleName ∧
      ∀ other ∈ imports.types, other ≠ ty → importedAs other ≠ ty.simpleName := by
  rw [Resolves, header_filter]
  constructor
  · intro h
    obtain ⟨found, hf, hl⟩ := List.map_eq_singleton_iff.mp h
    -- The line is that of `ty`, so `ty` itself is imported under the name as well.
    have hfound : importedAs found = ty.simpleName := by
      have hs : found ∈ imports.types.filter (importedAs · = ty.simpleName) := by simp [hf]
      simpa using (List.mem_filter.mp hs).2
    have hty : importedAs ty = ty.simpleName := by
      have hb := congrArg boundName? hl
      rw [boundName?_groovyImport, boundName?_groovyImport] at hb
      exact (Option.some.inj hb).symm.trans hfound
    have honly : ∀ other ∈ imports.types, importedAs other = ty.simpleName → other = found := by
      intro other ho he
      have hs : other ∈ imports.types.filter (importedAs · = ty.simpleName) :=
        List.mem_filter.mpr ⟨ho, by simpa using he⟩
      simpa [hf] using hs
    refine ⟨hty, fun other ho hne he => hne ?_⟩
    exact (honly other ho he).trans (honly ty hm hty).symm
  · rintro ⟨hty, hothers⟩
    have hp : (imports.types.filter (importedAs · = ty.simpleName)).Perm [ty] := by
      rw [List.perm_ext_iff_of_nodup (imports.nodup.filter _) (List.nodup_singleton ty)]
      intro other
      rw [List.mem_filter, List.mem_singleton, decide_eq_true_iff]
      constructor
      · rintro ⟨ho, he⟩
        by_contra hne
        exact hothers other ho hne he
      · rintro rfl
        exact ⟨hm, hty⟩
    rw [List.perm_singleton.mp hp, List.map_singleton]

/-- All types are resolved if each is imported under its simple name, and the simple names are
different. -/
theorem forall_resolves_iff :
    (∀ ty ∈ imports.types, Resolves imports ty) ↔
      (∀ ty ∈ imports.types, importedAs ty = ty.simpleName) ∧
        ∀ t ∈ imports.types, ∀ u ∈ imports.types, t.simpleName = u.simpleName → t = u := by
  constructor
  · intro h
    have ho : ∀ ty ∈ imports.types, importedAs ty = ty.simpleName := fun ty hm =>
      ((resolves_iff hm).mp (h ty hm)).1
    refine ⟨ho, fun t ht u hu he => ?_⟩
    by_contra hne
    exact ((resolves_iff hu).mp (h u hu)).2 t ht hne ((ho t ht).trans he)
  · rintro ⟨ho, hi⟩ ty hm
    refine (resolves_iff hm).mpr ⟨ho ty hm, fun other hother hne he => hne ?_⟩
    exact hi other hother ty hm ((ho other hother).symm.trans he)

end Dialect

namespace Session

open Dialect in
/-- A new Groovy session writes the simple name of each type that a program refers to, and imports
each of these types once. The header resolves such a name just when the type is imported under it
and no other type is; it resolves all of them just when every type is imported under its simple
name and no two types have the same one. -/
theorem groovy_imports_resolve_iff (settings : Settings) (program : Program) :
    let session : Session := { dialect := .groovy, settings := settings }
    let imports := (session.render program).2.imports
    (∃ body, session.renderSpelled ClassType.simpleName program = .ok body ∧
      (session.render program).1 =
        .ok (String.join ((Dialect.groovy.header imports).map (· ++ "\n")) ++ body)) ∧
    (∀ ty, ty ∈ imports.types ↔ ty ∈ program.references .groovy) ∧
    (∀ ty ∈ program.references .groovy,
      Resolves imports ty ↔ importedAs ty = ty.simpleName ∧
        ∀ other ∈ program.references .groovy, other ≠ ty → importedAs other ≠ ty.simpleName) ∧
    ((∀ ty ∈ program.references .groovy, Resolves imports ty) ↔
      (∀ ty ∈ program.references .groovy, importedAs ty = ty.simpleName) ∧
        ∀ t ∈ program.references .groovy, ∀ u ∈ program.references .groovy,
          t.simpleName = u.simpleName → t = u) := by
  intro session imports
  obtain ⟨pass, hp⟩ := bodyRun_done session program (Place.firstRefused?_groovy _)
  have ht := (render_ok_iff session program _).mpr ⟨pass, hp, rfl⟩
  have hi : imports = pass.imports := by
    simp only [imports, render_session, hp, Outcome.pass]
  have hm : ∀ ty, ty ∈ imports.types ↔ ty ∈ program.references .groovy := by
    intro ty
    have hg : Dialect.groovy ≠ .plain := by decide
    have hr : imports = Imports.empty.insertAll (program.references .groovy) :=
      render_imports session program hg ht
    rw [hr, Imports.mem_insertAll]
    simp
  refine ⟨⟨pass.page.text, ?_, ?_⟩, hm, ?_, ?_⟩
  · exact renderSpelled_eq hp fun _ _ _ _ => rfl
  · rw [ht, hi]
  · intro ty hty
    simpa only [hm] using resolves_iff ((hm ty).mpr hty)
  · simpa only [hm] using @forall_resolves_iff imports

/-- Two types of one simple name. -/
def twoColors : Program where
  body := [.expr (.console (.enumConstant (.ofName .enumeration "io.a.Color") "RED")),
    .expr (.console (.enumConstant (.ofName .enumeration "io.b.Color") "BLUE"))]

open Dialect in
/-- Both go by the same name, and neither of them is resolved. -/
theorem twoColors_unresolved :
    let session : Session := { dialect := .groovy }
    let imports := (session.render twoColors).2.imports
    let red : ClassType := .ofName .enumeration "io.a.Color"
    let blue : ClassType := .ofName .enumeration "io.b.Color"
    (session.render twoColors).1 = .ok ("import io.a.Color\nimport io.b.Color\n" ++
      "println(Color.RED)\nprintln(Color.BLUE)\n") ∧
    red ∈ twoColors.references .groovy ∧ ¬ Resolves imports red ∧
    blue ∈ twoColors.references .groovy ∧ ¬ Resolves imports blue := by
  intro session imports red blue
  obtain ⟨-, -, hr, -⟩ := groovy_imports_resolve_iff {} twoColors
  have hred : red ∈ twoColors.references .groovy := by decide +kernel
  have hblue : blue ∈ twoColors.references .groovy := by decide +kernel
  refine ⟨by decide +kernel, hred, ?_, hblue, ?_⟩
  · rw [hr red hred]
    exact fun h => h.2 blue hblue (by decide +kernel) (by decide +kernel)
  · rw [hr blue hblue]
    exact fun h => h.2 red hred (by decide +kernel) (by decide +kernel)

end Session

end Polyglot
