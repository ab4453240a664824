import Mathlib.Data.List.Nodup
import Polyglot.Proofs.History
import Polyglot.Proofs.Spelling

/-! The locals that stand for imported types in a Lua file. -/
namespace Polyglot

namespace Dialect

/-- The simple name of an import has a first holder. -/
theorem exists_holder {imports : Imports} {ty : ClassType} (hm : ty ∈ imports.types) :
    ∃ first, imports.types.find? (·.simpleName = ty.simpleName) = some first :=
  Option.isSome_iff_exists.mp (List.find?_isSome.mpr ⟨ty, hm, by simp⟩)

/-- The local of an import does not change when more types are imported behind it. -/
theorem luaLocal_of_prefix {imports later : Imports} {ty : ClassType}
    (hm : ty ∈ imports.types) (hp : imports.types <+: later.types) :
    luaLocal imports ty = luaLocal later ty := by
  obtain ⟨first, hf⟩ := exists_holder hm
  obtain ⟨rest, hr⟩ := hp
  unfold luaLocal
  rw [← hr, List.find?_append, hf]
  rfl

/-- No import before the type has its simple name. -/
def Leads (imports : Imports) (ty : ClassType) : Prop :=
  ∃ earlier later, imports.types = earlier ++ ty :: later ∧
    ∀ other ∈ earlier, other.simpleName ≠ ty.simpleName

theorem leads_iff_find {imports : Imports} {ty : ClassType} :
    Leads imports ty ↔ imports.types.find? (·.simpleName = ty.simpleName) = some ty := by
  rw [List.find?_eq_some_iff_append]
  simp [Leads]

/-- At most one import leads for a simple name. -/
theorem Leads.unique {imports : Imports} {t u : ClassType} (ht : Leads imports t)
    (hu : Leads imports u) (h : t.simpleName = u.simpleName) : t = u := by
  rw [leads_iff_find] at ht hu
  rw [h, hu] at ht
  exact (Option.some.inj ht).symm

theorem luaLocal_of_leads {imports : Imports} {ty : ClassType} (h : Leads imports ty) :
    luaLocal imports ty = ty.simpleName := by
  simp [luaLocal, leads_iff_find.mp h]

theorem luaLocal_of_not_leads {imports : Imports} {ty : ClassType} (hm : ty ∈ imports.types)
    (h : ¬ Leads imports ty) : luaLocal imports ty = mangled ty.name := by
  obtain ⟨first, hf⟩ := exists_holder hm
  have hne : first ≠ ty := by
    rintro rfl
    exact h (leads_iff_find.mpr hf)
  simp [luaLocal, hf, hne]

/-- How the names of two imports can run into each other. -/
inductive Clash (imports : Imports) (t u : ClassType) : Prop where
  | mangledNames (ht : ¬ Leads imports t) (hu : ¬ Leads imports u)
      (h : mangled t.name = mangled u.name)
  | leftSimpleName (ht : Leads imports t) (hu : ¬ Leads imports u)
      (h : t.simpleName = mangled u.name)
  | rightSimpleName (ht : ¬ Leads imports t) (hu : Leads imports u)
      (h : mangled t.name = u.simpleName)

theorem luaLocal_eq_iff_clash {imports : Imports} {t u : ClassType} (ht : t ∈ imports.types)
    (hu : u ∈ imports.types) (hne : t ≠ u) :
    luaLocal imports t = luaLocal imports u ↔ Clash imports t u := by
  -- Only one of two types with the same simple name leads; any other goes by its mangled name.
  by_cases hlt : Leads imports t <;> by_cases hlu : Leads imports u
  · rw [luaLocal_of_leads hlt, luaLocal_of_leads hlu]
    constructor
    · intro h
      exact absurd (hlt.unique hlu h) hne
    · rintro (⟨h, -, -⟩ | ⟨-, h, -⟩ | ⟨h, -, -⟩) <;> contradiction
  · rw [luaLocal_of_leads hlt, luaLocal_of_not_leads hu hlu]
    constructor
    · exact .leftSimpleName hlt hlu
    · rintro (⟨h, -, -⟩ | ⟨-, -, h⟩ | ⟨-, h, -⟩)
      · contradiction
      · exact h
      · contradiction
  · rw [luaLocal_of_not_leads ht hlt, luaLocal_of_leads hlu]
    constructor
    · exact .rightSimpleName hlt hlu
    · rintro (⟨-, h, -⟩ | ⟨h, -, -⟩ | ⟨-, -, h⟩)
      · contradiction
      · contradiction
      · exact h
  · rw [luaLocal_of_not_leads ht hlt, luaLocal_of_not_leads hu hlu]
    constructor
    · exact .mangledNames hlt hlu
    · rintro (⟨-, -, h⟩ | ⟨h, -, -⟩ | ⟨-, h, -⟩)
      · exact h
      · contradiction
      · contradiction

/-- The type that a local stands for behind the header: a later declaration hides an earlier
one of the same name. -/
def declared (imports : Imports) (name : String) : Option ClassType :=
  imports.types.reverse.find? (luaLocal imports · = name)

/-- Locals lead to their own types as long as no two imports share one. -/
theorem declared_iff_injective (imports : Imports) :
    (∀ t ∈ imports.types, declared imports (luaLocal imports t) = some t) ↔
      ∀ t ∈ imports.types, ∀ u ∈ imports.types,
        luaLocal imports t = luaLocal imports u → t = u := by
  constructor
  · intro h t ht u hu he
    have hd := h t ht
    rw [he, h u hu] at hd
    exact (Option.some.inj hd).symm
  · intro h t ht
    have hs : (declared imports (luaLocal imports t)).isSome :=
      List.find?_isSome.mpr ⟨t, List.mem_reverse.mpr ht, by simp⟩
    obtain ⟨u, hu⟩ := Option.isSome_iff_exists.mp hs
    have hm : u ∈ imports.types := List.mem_reverse.mp (List.mem_of_find?_eq_some hu)
    have he : luaLocal imports u = luaLocal imports t := by
      simpa using List.find?_some hu
    rw [hu, h u hm t ht he]

end Dialect

namespace Session

/-- The class `Color` of a package. -/
def colorIn (package : String) : ClassType :=
  .ofName .enumeration (package ++ ".Color")

open Dialect in
/-- In every Lua file, two imports share a local exactly when their names clash. The header declares
no local twice, and each local leads to its own type, exactly when no names clash. -/
theorem luaLocals_distinct_iff_no_clash (imports : Imports) :
    (∀ t ∈ imports.types, ∀ u ∈ imports.types, t ≠ u →
      (luaLocal imports t = luaLocal imports u ↔ Clash imports t u)) ∧
    ((imports.types.map (luaLocal imports)).Nodup ↔
      ∀ t ∈ imports.types, ∀ u ∈ imports.types, t ≠ u → ¬ Clash imports t u) ∧
    ((∀ t ∈ imports.types, declared imports (luaLocal imports t) = some t) ↔
      ∀ t ∈ imports.types, ∀ u ∈ imports.types, t ≠ u → ¬ Clash imports t u) := by
  have hc : (∀ t ∈ imports.types, ∀ u ∈ imports.types,
      luaLocal imports t = luaLocal imports u → t = u) ↔
      ∀ t ∈ imports.types, ∀ u ∈ imports.types, t ≠ u → ¬ Clash imports t u := by
    constructor
    · intro hi t ht u hu hne hcl
      exact hne (hi t ht u hu ((luaLocal_eq_iff_clash ht hu hne).mpr hcl))
    · intro hcl t ht u hu he
      by_contra hne
      exact hcl t ht u hu hne ((luaLocal_eq_iff_clash ht hu hne).mp he)
  refine ⟨fun t ht u hu hne => luaLocal_eq_iff_clash ht hu hne, ?_, ?_⟩
  · exact (List.nodup_map_iff_inj_on imports.nodup).trans hc
  · exact (declared_iff_injective imports).trans hc

/-- The imports of a session that has met three classes of one simple name. -/
def colorImports : Imports :=
  (({ dialect := .lua } : Session).after [.render ⟨[.expr (.apiType (colorIn "io.x")),
    .expr (.apiType (colorIn "io.a_b")), .expr (.apiType (colorIn "io.a.b"))]⟩]).imports

open Dialect in
theorem colorImports_clash :
    luaLocal colorImports (colorIn "io.a_b") = luaLocal colorImports (colorIn "io.a.b") ∧
      Clash colorImports (colorIn "io.a_b") (colorIn "io.a.b") ∧
      ¬ (colorImports.types.map (luaLocal colorImports)).Nodup := by
  have ht : colorIn "io.a_b" ∈ colorImports.types := by decide +kernel
  have hu : colorIn "io.a.b" ∈ colorImports.types := by decide +kernel
  have hne : colorIn "io.a_b" ≠ colorIn "io.a.b" := by decide +kernel
  have he : luaLocal colorImports (colorIn "io.a_b") =
      luaLocal colorImports (colorIn "io.a.b") := by decide +kernel
  obtain ⟨hp, hd, -⟩ := luaLocals_distinct_iff_no_clash colorImports
  have hc := (hp _ ht _ hu hne).mp he
  exact ⟨he, hc, fun h => hd.mp h _ ht _ hu hne hc⟩

/-- The body of a Lua file is what it would be if each type had been spelled from the start by
the local that the header binds it to in the end. -/
theorem lua_body_names_are_header_names (session : Session) (program : Program) (text : String)
    (hl : session.dialect = .lua) (h : (session.render program).1 = .ok text) :
    ∃ body,
      (session.renderBody program).1 = .ok body ∧
      session.renderSpelled (Dialect.luaLocal (session.render program).2.imports) program =
        .ok body ∧
      text = String.join
        ((Dialect.lua.header (session.render program).2.imports).map (· ++ "\n")) ++ body ∧
      (session.render program).2.imports =
        session.imports.insertAll (program.references .lua) ∧
      ∀ ty ∈ program.references .lua,
        "local " ++ Dialect.luaLocal (session.render program).2.imports ty ++ " = require(\"" ++
          ty.spelling "lua" ++ "\")" ∈ Dialect.lua.header (session.render program).2.imports := by
  obtain ⟨pass, hp, ht⟩ := (render_ok_iff session program text).mp h
  have ha : (session.render program).2.imports = pass.imports := by
    rw [render_session, hp, Outcome.pass]
  have hi : pass.imports = session.imports.insertAll (program.references .lua) := by
    rw [← ha, render_imports session program (by simp [hl]) h, hl]
  rw [ha]
  refine ⟨pass.page.text, ?_, ?_, by rwa [hl] at ht, hi, ?_⟩
  · rw [renderBody_eq, hp]
    rfl
  · apply renderSpelled_eq hp
    -- A type is imported before its name is picked, and its first holder stays where it is.
    intro imports ty hm hs
    rw [hl]
    exact Dialect.luaLocal_of_prefix hm hs
  · intro ty hm
    have hty : ty ∈ pass.imports.types := by
      rw [hi, Imports.mem_insertAll]
      exact Or.inr hm
    exact List.mem_map.mpr ⟨ty, hty, rfl⟩

/-- Two types of one simple name in turns. -/
def turns : Program where
  body := [.expr (.enumConstant (colorIn "io.a") "RED"),
    .expr (.enumConstant (colorIn "io.b") "BLUE"), .expr (.apiType (colorIn "io.a"))]

theorem lua_body_names_are_header_names_turns :
    (({ dialect := .lua } : Session).render turns).1 = .ok
      ("local Color = require(\"io.a.Color\")\nlocal io_b_Color = require(\"io.b.Color\")\n" ++
        "Color.RED\nio_b_Color.BLUE\nColor\n") ∧
    ∃ body, ({ dialect := .lua } : Session).renderSpelled
      (Dialect.luaLocal (({ dialect := .lua } : Session).render turns).2.imports) turns =
        .ok body := by
  have h : (({ dialect := .lua } : Session).render turns).1 = .ok
      ("local Color = require(\"io.a.Color\")\nlocal io_b_Color = require(\"io.b.Color\")\n" ++
        "Color.RED\nio_b_Color.BLUE\nColor\n") := by decide +kernel
  obtain ⟨body, -, hb, -⟩ := lua_body_names_are_header_names { dialect := .lua } turns _ rfl h
  exact ⟨h, body, hb⟩

end Session

end Polyglot
