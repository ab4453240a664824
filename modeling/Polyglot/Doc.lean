import Polyglot.Page
import Polyglot.RenderError

/-! Layout documents, and the pass that plays one onto a page while it collects imports. -/

namespace Polyglot

/-- Instructions to a page. A document does not depend on the page it is played on, nor on the
types met before. -/
inductive Doc where
  | empty
  | text (content : String)
  | append (first second : Doc)
  /-- One level deeper. -/
  | nest (body : Doc)
  /-- A statement list; the outermost one gets the header in front. -/
  | block (body : Doc)
  /-- Text between double quotes. -/
  | quoted (body : Doc)
  /-- A reference to a type, which becomes an import. -/
  | reference (ty : ClassType)
  /-- Ends the line unless it is empty. -/
  | freshLine
  | unsupported (construct : Construct)

namespace Doc

instance : Append Doc := ⟨Doc.append⟩

instance : Coe String Doc := ⟨Doc.text⟩

/-- The content of a quoted text. -/
def unquoted : Doc → Doc
  | .quoted body => body
  | doc => doc

/-- The documents one after the other, with `separator` between them. -/
def sepBy (separator : String) : List Doc → Doc
  | [] => .empty
  | [doc] => doc
  | doc :: docs => doc ++ (.text separator ++ sepBy separator docs)

end Doc

/-- The state of a pass. -/
structure Pass where
  page : Page
  imports : Imports

namespace Pass

def write (pass : Pass) (text : String) : Pass :=
  { pass with page := pass.page.write text }

/-- Registers the type first, so that its own entry decides on its spelling. -/
def refer (dialect : Dialect) (pass : Pass) (ty : ClassType) : Pass :=
  let imports := pass.imports.insert ty
  { page := pass.page.write (dialect.spell imports ty), imports := imports }

def withHeader (dialect : Dialect) (pass : Pass) : Pass :=
  { pass with page := pass.page.prependHeader (dialect.header pass.imports) }

theorem withHeader_eq (dialect : Dialect) (pass : Pass) :
    pass.withHeader dialect =
      { pass with page := { pass.page with
        text := String.join ((dialect.header pass.imports).map (·.push '\n')) ++
          pass.page.text } } := by
  rw [withHeader, Page.prependHeader_eq]

end Pass

/-- A pass that fails keeps what it had written and collected by then. -/
inductive Outcome where
  | done (pass : Pass)
  | failed (error : RenderError) (pass : Pass)

namespace Outcome

def pass : Outcome → Pass
  | .done pass => pass
  | .failed _ pass => pass

def error? : Outcome → Option RenderError
  | .done _ => none
  | .failed error _ => some error

def andThen : Outcome → (Pass → Outcome) → Outcome
  | .done pass, next => next pass
  | .failed error pass, _ => .failed error pass

/-- Changes the page of a pass that succeeded. -/
def onPage (change : Page → Page) : Outcome → Outcome
  | .done pass => .done { pass with page := change pass.page }
  | .failed error pass => .failed error pass

/-- Changes the page whether the pass succeeded or not. -/
def alwaysOnPage (change : Page → Page) : Outcome → Outcome
  | .done pass => .done { pass with page := change pass.page }
  | .failed error pass => .failed error { pass with page := change pass.page }

end Outcome

/-- Plays a document. A failure leaves the levels that were entered, and leaves no block open. -/
def Doc.play (dialect : Dialect) : Doc → Pass → Outcome
  | .empty, pass => .done pass
  | .text content, pass => .done (pass.write content)
  | .append first second, pass => (first.play dialect pass).andThen (second.play dialect)
  | .nest body, pass =>
    (body.play dialect { pass with page := pass.page.indent }).onPage Page.unindent
  | .block body, pass =>
    let outcome := (body.play dialect { pass with page := pass.page.enterBlock }).alwaysOnPage
      Page.leaveBlock
    if pass.page.depth = 0 then outcome.andThen fun pass => .done (pass.withHeader dialect)
    else outcome
  | .quoted body, pass =>
    (body.play dialect (pass.write "\"")).andThen fun pass => .done (pass.write "\"")
  | .reference ty, pass => .done (pass.refer dialect ty)
  | .freshLine, pass => .done { pass with page := pass.page.freshLine }
  | .unsupported construct, pass => .failed (.unsupported construct dialect) pass

/-- Plays a document inside a block of its own that gets no header. -/
def Doc.playFragment (dialect : Dialect) (doc : Doc) (pass : Pass) : Outcome :=
  (doc.play dialect { pass with page := pass.page.enterBlock }).alwaysOnPage Page.leaveBlock

end Polyglot
