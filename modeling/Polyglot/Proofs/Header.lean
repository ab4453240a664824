import Polyglot.Proofs.Spelling

/-! A rendered program is its header and its body. The header is known only when all statements
have been written, and is put in front of them once. -/
namespace Polyglot

namespace Session

/-- On Groovy a type goes by its simple name, whatever else has been imported. -/
theorem renderBody_groovy {session : Session} (hg : session.dialect = .groovy)
    (imports : Imports) (program : Program) :
    ({ session with imports := imports }.renderBody program).1 =
      (session.renderBody program).1 := by
  have hn : Place.firstRefused? session.dialect (program.places session.dialect) = none := by
    rw [hg, Place.firstRefused?_groovy]
  obtain ⟨pass, hp⟩ := bodyRun_done session program hn
  obtain ⟨other, ho⟩ := bodyRun_done { session with imports := imports } program hn
  have hs : ∀ imports ty, session.dialect.spell imports ty = ty.simpleName := by
    intro imports ty
    rw [hg, Dialect.spell]
  have he := bodyRun_page_eq hp ho hs
  simp only [renderBody_eq, hp, ho, conclude, he]

/-- The header stands in front of the body, with the imports that the session has afterwards. The
body is written inside a block, and it is nothing but the strokes of its statements. -/
theorem render_eq_header_append_body (session : Session) (program : Program) (text : String)
    (h : (session.render program).1 = .ok text) :
    ∃ body,
      session.renderBody program = (.ok body, (session.render program).2) ∧
      (∃ pass, session.bodyRun program = .done pass ∧ body = pass.page.text) ∧
      text = String.join
        ((session.dialect.header (session.render program).2.imports).map (· ++ "\n")) ++ body ∧
      (session.dialect = .groovy →
        session.dialect.header (session.render program).2.imports =
          (session.render program).2.imports.types.map Dialect.groovyImport) ∧
      (session.dialect = .lua →
        session.dialect.header (session.render program).2.imports =
          (session.render program).2.imports.types.map
            (Dialect.luaImport (session.render program).2.imports)) ∧
      (session.dialect ≠ .plain →
        (session.render program).2.imports =
          session.imports.insertAll (program.references session.dialect)) ∧
      (session.dialect = .groovy → ∀ imports,
        ({ session with imports := imports }.renderBody program).1 = .ok body) := by
  obtain ⟨pass, hp, ht⟩ := (render_ok_iff session program text).mp h
  have ha : (session.render program).2 = { session with imports := pass.imports } := by
    rw [render_session, hp, Outcome.pass]
  have hb : session.renderBody program = (.ok pass.page.text, (session.render program).2) := by
    rw [renderBody_eq, hp, ha]
    rfl
  refine ⟨pass.page.text, hb, ⟨pass, hp, rfl⟩, ?_, ?_, ?_, ?_, ?_⟩
  · rw [ha]
    exact ht
  · intro hg
    rw [hg, Dialect.header]
  · intro hl
    rw [hl, Dialect.header]
  · intro hd
    exact render_imports session program hd h
  · intro hg imports
    rw [renderBody_groovy hg, hb]

/-- A session that has met a type of the same simple name before. -/
def colorSession : Session where
  dialect := .lua
  imports := Imports.empty.insert (.ofName .enumeration "io.a.Color")

/-- A loop whose body is a block. -/
def colorLoop : Program where
  body := [.whileLoop (.ident "go")
    (.block [.expr (.enumConstant (.ofName .enumeration "io.b.Color") "RED")])]

def colorText : String :=
  "local Color = require(\"io.a.Color\")\nlocal io_b_Color = require(\"io.b.Color\")\n" ++
    "while go do\n  io_b_Color.RED\nend\n"

theorem render_colorLoop :
    (colorSession.render colorLoop).1 = .ok colorText ∧
      ∃ body, colorSession.renderBody colorLoop = (.ok body, (colorSession.render colorLoop).2) ∧
        colorText = String.join
          ((Dialect.lua.header (colorSession.render colorLoop).2.imports).map (· ++ "\n")) ++
            body := by
  have h : (colorSession.render colorLoop).1 = .ok colorText := by decide +kernel
  obtain ⟨body, hb, -, ht, -⟩ := render_eq_header_append_body colorSession colorLoop colorText h
  exact ⟨h, body, hb, ht⟩

end Session

end Polyglot
