import Polyglot.Proofs.Rendering

/-! Documents in which the name of every type has been written out. A pass writes the same page
for them as long as the names are those that the pass itself picks on its way. -/
namespace Polyglot

namespace Stroke

/-- The name of a type in place of the reference to it. -/
def spelled (name : ClassType → String) : Stroke → Stroke
  | .refer ty => .write (name ty)
  | stroke => stroke

theorem run_grows {dialect : Dialect} {strokes : List Stroke} {pass last : Pass}
    (h : run dialect strokes pass = .done last) : pass.imports.types <+: last.imports.types := by
  have hc := (run_collect dialect strokes pass).1
  rw [h, Outcome.pass] at hc
  rw [hc]
  exact Mark.prefix_collect _ pass.imports

/-- The names picked on the way are right if they are those of a later list of imports. The
spelled strokes themselves look at no imports, so any may stand beside the page. -/
theorem run_spelled {dialect : Dialect} {name : ClassType → String} {strokes : List Stroke}
    {pass last : Pass} (h : run dialect strokes pass = .done last)
    (hn : ∀ imports ty, ty ∈ imports.types → imports.types <+: last.imports.types →
      dialect.spell imports ty = name ty) (other : Imports) :
    run dialect (strokes.map (spelled name)) ⟨pass.page, other⟩ = .done ⟨last.page, other⟩ := by
  induction strokes generalizing pass with
  | nil =>
    cases h
    rfl
  | cons stroke rest ih =>
    cases stroke with
    | write content => exact ih h
    | indent => exact ih h
    | unindent => exact ih h
    | freshLine => exact ih h
    | refuse construct => cases h
    | refer ty =>
      -- The name is picked from the imports so far, which begin those at the end.
      have hr : run dialect rest (pass.refer dialect ty) = .done last := h
      have hs := hn (pass.imports.insert ty) ty (by simp) (run_grows hr)
      have hi := ih hr
      simp only [Pass.refer, hs] at hi
      exact hi

end Stroke

namespace Doc

/-- The document with the name of every type written out. -/
def spelled (name : ClassType → String) : Doc → Doc
  | .append first second => .append (first.spelled name) (second.spelled name)
  | .nest body => .nest (body.spelled name)
  | .block body => .block (body.spelled name)
  | .quoted body => .quoted (body.spelled name)
  | .reference ty => .text (name ty)
  | doc => doc

theorem strokes_spelled (name : ClassType → String) (doc : Doc) :
    (doc.spelled name).strokes = doc.strokes.map (Stroke.spelled name) := by
  induction doc with
  | empty | text content | reference ty | freshLine | unsupported construct => rfl
  | append first second ihf ihs => simp only [spelled, strokes, List.map_append, ihf, ihs]
  | block body ih => exact ih
  | nest body ih | quoted body ih =>
    simp only [spelled, strokes, List.cons_append, List.map_cons, List.map_append, ih]
    rfl

end Doc

namespace Session

/-- The body of a program with the names of its types given from the start, so that nothing is
collected on the way. -/
def renderSpelled (session : Session) (name : ClassType → String) (program : Program) :
    Except RenderError String :=
  (session.conclude (((Stmt.lines session.style program.body).spelled name).playFragment
    session.dialect session.newPass)).1

/-- A body is what it would be if its names had been known from the start. -/
theorem renderSpelled_eq {session : Session} {name : ClassType → String} {program : Program}
    {pass : Pass} (h : session.bodyRun program = .done pass)
    (hn : ∀ imports ty, ty ∈ imports.types → imports.types <+: pass.imports.types →
      session.dialect.spell imports ty = name ty) :
    session.renderSpelled name program = .ok pass.page.text := by
  have hr := Stroke.run_spelled h hn session.imports
  rw [renderSpelled, Doc.playFragment_eq_run, Doc.strokes_spelled]
  exact congrArg (fun outcome => (session.conclude outcome).1) hr

/-- Where a spelling does not look at the imports, neither does the page. -/
theorem bodyRun_page_eq {session : Session} {imports : Imports} {name : ClassType → String}
    {program : Program} {pass other : Pass}
    (h : session.bodyRun program = .done pass)
    (h' : { session with imports := imports }.bodyRun program = .done other)
    (hn : ∀ imports ty, session.dialect.spell imports ty = name ty) :
    other.page = pass.page := by
  have hr := Stroke.run_spelled h (fun imports ty _ _ => hn imports ty) .empty
  have hr' := Stroke.run_spelled h' (fun imports ty _ _ => hn imports ty) .empty
  have he := Outcome.done.inj (hr'.symm.trans hr)
  exact (Pass.mk.inj he).1

end Session

end Polyglot
