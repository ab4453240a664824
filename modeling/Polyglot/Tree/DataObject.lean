import Polyglot.RenderError
import Polyglot.Tree.Datum
import Polyglot.Tree.Equality

/-! Data object literals, whose member names are all different. -/

namespace Polyglot

namespace Member

/-- A member's name in messages: the key of a string literal, else its outline. -/
def label (member : Member) : String :=
  match member.name with
  | .literal (.string key) => key
  | name => name.datum.outline

/-- The first member whose name a member before it has, `seen` being the names so far. -/
def firstRepeated? (seen : List Expr) : List Member → Option Member
  | [] => none
  | member :: rest =>
    if seen.any (·.same member.name) then some member
    else firstRepeated? (seen ++ [member.name]) rest

end Member

namespace DataObject

/-- Refuses a list of members with a repeated name. -/
def ofMembers (ty : ClassType) (members : List Member) : Except RenderError DataObject :=
  match Member.firstRepeated? [] members with
  | some member => .error (.duplicateMember member.label)
  | none => .ok ⟨ty, members⟩

def expr (object : DataObject) : Expr :=
  .dataObject object.ty object.members

end DataObject

end Polyglot
