import Polyglot.Proofs.LuaReturns
import Polyglot.Proofs.RawTexts

/-! Where a Lua statement ends and the next one begins. Ends of lines do not count on Lua, so a
statement that begins with a parenthesis is read as the arguments of a call, if the statement in
front of it ends in something that can be called. -/
namespace Polyglot

namespace Expr

/-- Whether the text of an expression begins with a parenthesis: its own, that of a function which
is called at once, or that of the part that it begins with. -/
def opensParen : Expr → Bool
  | .parens _ => true
  | .conditional test consequent _ => !consequent.isTruthy || test.opensParen
  | .binary left op _ concat => (concat || op ≠ .rem) && left.opensParen
  | .member object _ | .dataMember object _ | .assign object _ | .dataAssign object _ _
  | .jsonAssign object _ _ | .jsonMember object _ | .mapGet object _ | .valueOf _ object =>
    object.opensParen
  | .call (some receiver) _ _ => receiver.opensParen
  | _ => false

/-- Whether the text of an expression ends in a word or a closing bracket, which is always so but
for a string at its end. -/
def endsOpen : Expr → Bool
  | .literal (.string _) | .literal (.char _) => false
  | .unary _ operand => operand.endsOpen
  | .conditional _ consequent alternative => !consequent.isTruthy || alternative.endsOpen
  | .binary _ op right concat => (!concat && op = .rem) || right.endsOpen
  | .assign _ value | .dataAssign _ _ value | .jsonAssign _ _ value | .valueOf _ value =>
    value.endsOpen
  | _ => true

end Expr

mutual

/-- Whether the text of a statement begins with a parenthesis, unless it is empty. -/
def Stmt.opensParen : Stmt → Option Bool
  | .block stmts => Stmt.firstOpensParen stmts
  | .expr value => some value.opensParen
  | _ => some false

def Stmt.firstOpensParen : List Stmt → Option Bool
  | [] => none
  | stmt :: rest => stmt.opensParen.or (Stmt.firstOpensParen rest)

end

mutual

/-- Whether the text of a statement ends in a word or a closing bracket, unless it is empty. -/
def Stmt.endsOpen : Stmt → Option Bool
  | .block stmts => Stmt.lastEndsOpen stmts
  | .expr value | .declare _ _ (some value) | .returnWith (some value) => some value.endsOpen
  | _ => some true

def Stmt.lastEndsOpen : List Stmt → Option Bool
  | [] => none
  | stmt :: rest => (Stmt.lastEndsOpen rest).or stmt.endsOpen

end

namespace Lua

open Script.Number (isBlank)

/-- What a text shows: its characters but for the blanks. -/
def visible (text : String) : List Char :=
  text.toList.filter (!isBlank ·)

/-- The characters that a call may follow. -/
def isCallable (c : Char) : Bool :=
  isWordChar c || c ∈ [')', ']', '\x7d']

def begins (chars : List Char) : Option Bool :=
  chars.head?.map (· = '(')

def ends (chars : List Char) : Option Bool :=
  chars.getLast?.map isCallable

/-- Two texts that are read as a call of the first one if they follow each other. -/
def glued (first second : String) : Bool :=
  ends (visible first) = some true && begins (visible second) = some true

/-- A text that begins with something other than a parenthesis, and that a call may follow. -/
def solid (text : String) : Bool :=
  begins (visible text) = some false && ends (visible text) = some true

section Characters

@[simp] theorem visible_append (first second : String) :
    visible (first ++ second) = visible first ++ visible second := by
  simp [visible]

@[simp] theorem begins_append (first second : List Char) :
    begins (first ++ second) = (begins first).or (begins second) := by
  rw [begins, List.head?_append, Option.map_or]
  rfl

@[simp] theorem ends_append (first second : List Char) :
    ends (first ++ second) = (ends second).or (ends first) := by
  rw [ends, List.getLast?_append, Option.map_or]
  rfl

theorem begins_lead {lead : String} {paren : Bool} (h : begins (visible lead) = some paren)
    (text : String) : begins (visible (lead ++ text)) = some paren := by
  rw [visible_append, begins_append, h]
  rfl

theorem ends_tail {text : String} {callable : Bool} (h : ends (visible text) = some callable)
    (lead : String) : ends (visible (lead ++ text)) = some callable := by
  rw [visible_append, ends_append, h]
  rfl

theorem solid_iff {text : String} : solid text = true ↔
    begins (visible text) = some false ∧ ends (visible text) = some true := by
  simp [solid]

/-- A dotted name as one word begins and ends as the dotted name does. -/
theorem solid_mangled {text : String} (h : solid text = true) :
    solid (Dialect.mangled text) = true := by
  let joined (c : Char) : Char := if c = '.' then '_' else c
  have hb (c : Char) : isBlank (joined c) = isBlank c := by
    simp only [joined]
    split_ifs with hc
    · rw [hc]
      rfl
    · rfl
  have hv : visible (Dialect.mangled text) = (visible text).map joined := by
    simp only [visible, Dialect.mangled, String.toList_ofList, List.filter_map]
    congr 2
    funext c
    simp [joined, ← hb c]
  obtain ⟨ho, he⟩ := solid_iff.mp h
  obtain ⟨first, hf, hp⟩ := Option.map_eq_some_iff.mp ho
  obtain ⟨last, hl, hc⟩ := Option.map_eq_some_iff.mp he
  refine solid_iff.mpr ⟨?_, ?_⟩
  · have hj : joined first ≠ '(' := by
      simp only [joined]
      split_ifs
      · decide
      · simpa using hp
    simp [begins, hv, hf, hj]
  · have hd : last ≠ '.' := by
      rintro rfl
      exact absurd hc (by decide)
    simp [ends, hv, hl, joined, hd, hc]

/-- A reader that collects what is visible. -/
def collector : Scanner (List Char) where
  start := []
  step seen c := if isBlank c then seen else seen ++ [c]

theorem read_collector (seen : List Char) (text : String) :
    collector.read seen text = seen ++ visible text := by
  unfold Scanner.read visible
  induction text.toList generalizing seen with
  | nil => simp
  | cons c rest ih =>
    rw [List.foldl_cons, ih, List.filter_cons]
    cases hc : isBlank c <;> simp [collector, hc]

theorem scan_collector (text : String) : collector.scan text = visible text :=
  read_collector [] text

theorem overlooks_collector {unit : String} (h : unit.toList.all isBlank = true) :
    collector.Overlooks unit := by
  refine ⟨rfl, fun _ => rfl, fun seen c hc => ?_⟩
  simp [collector, List.all_eq_true.mp h c hc]

end Characters

section Documents

variable (name : ClassType → String)

/-- What strokes show, if types go by their names. -/
def shown (strokes : List Stroke) : List Char :=
  strokes.foldl (Stroke.read collector name) []

theorem shown_append (first second : List Stroke) :
    shown name (first ++ second) = shown name first ++ shown name second := by
  -- The collector adds to what it has seen, so it can start anew for each stroke.
  have hs (stroke : Stroke) (seen : List Char) :
      stroke.read collector name seen = seen ++ stroke.read collector name [] := by
    cases stroke with
    | write content | refer ty => simp [Stroke.read, read_collector]
    | freshLine | indent | unindent | refuse => exact (List.append_nil seen).symm
  have hf (strokes : List Stroke) (seen : List Char) :
      strokes.foldl (Stroke.read collector name) seen = seen ++ shown name strokes := by
    unfold shown
    induction strokes generalizing seen with
    | nil => simp
    | cons stroke rest ih =>
      rw [List.foldl_cons, List.foldl_cons, ih, ih (stroke.read collector name []), hs,
        List.append_assoc]
  rw [shown, List.foldl_append, hf second]
  rfl

/-- A document begins with a parenthesis, or with something else. -/
def BeginsAs (paren : Bool) (doc : Doc) : Prop :=
  begins (shown name doc.strokes) = some paren

/-- A document ends in something that a call may follow, or in something else. -/
def EndsAs (callable : Bool) (doc : Doc) : Prop :=
  ends (shown name doc.strokes) = some callable

/-- Types that are written go by solid names. -/
def SpellsSolid : Prop :=
  ∀ ty : ClassType, (∀ text ∈ ty.written .lua, solid text = true) → solid (name ty) = true

theorem spellsSolid_luaLocal (imports : Imports) : SpellsSolid (Dialect.luaLocal imports) := by
  intro ty h
  have hs : solid ty.simpleName = true := h _ (.head _)
  unfold Dialect.luaLocal
  split
  · split_ifs
    · exact hs
    · exact solid_mangled (h _ (.tail _ (.head _)))
  · exact hs

variable {name} {first last rest doc : Doc} {text : String} {paren callable : Bool}

/-- What a document begins with is what its first part begins with. -/
theorem BeginsAs.append (h : BeginsAs name paren first) : BeginsAs name paren (first ++ rest) := by
  rw [BeginsAs, Doc.strokes_append, shown_append, begins_append, h]
  rfl

/-- What a document ends in is what its last part ends in. -/
theorem EndsAs.append (h : EndsAs name callable last) : EndsAs name callable (rest ++ last) := by
  rw [EndsAs, Doc.strokes_append, shown_append, ends_append, h]
  rfl

theorem shown_write (text : String) : shown name [.write text] = visible text :=
  read_collector [] text

theorem begins_text (h : begins (visible text) = some paren) : BeginsAs name paren (.text text) :=
  (congrArg begins (shown_write text)).trans h

theorem ends_text (h : ends (visible text) = some callable) : EndsAs name callable (.text text) :=
  (congrArg ends (shown_write text)).trans h

theorem begins_solid (h : solid text = true) : BeginsAs name false (.text text) :=
  begins_text (solid_iff.mp h).1

theorem ends_solid (h : solid text = true) : EndsAs name true (.text text) :=
  ends_text (solid_iff.mp h).2

theorem begins_quoted : BeginsAs name false (.quoted doc) := by
  have hs : (Doc.quoted doc).strokes = [.write "\""] ++ (doc.strokes ++ [.write "\""]) := rfl
  rw [BeginsAs, hs, shown_append, begins_append]
  rfl

theorem ends_quoted : EndsAs name false (.quoted doc) := by
  have hs : (Doc.quoted doc).strokes = [.write "\""] ++ (doc.strokes ++ [.write "\""]) := rfl
  rw [EndsAs, hs, shown_append, shown_append, ends_append, ends_append]
  rfl

open Phrase

theorem begins_enclosed {opening closing : String} (h : begins (visible opening) = some paren) :
    BeginsAs name paren (enclosed opening doc closing) :=
  (begins_text (begins_lead h _)).append.append

theorem ends_enclosed {opening closing : String} (h : ends (visible closing) = some callable) :
    EndsAs name callable (enclosed opening doc closing) :=
  (ends_text h).append

theorem begins_reference (hn : SpellsSolid name) {ty : ClassType}
    (h : ∀ text ∈ ty.written .lua, solid text = true) : BeginsAs name false (reference .lua ty) :=
  begins_solid (hn ty h)

theorem ends_reference (hn : SpellsSolid name) {ty : ClassType}
    (h : ∀ text ∈ ty.written .lua, solid text = true) : EndsAs name true (reference .lua ty) :=
  ends_solid (hn ty h)

theorem begins_typeName (hn : SpellsSolid name) {ty : TypeInfo}
    (h : ∀ text ∈ ty.written .lua, solid text = true) : BeginsAs name false (typeName .lua ty) :=
  typeName_holds (fun _ => begins_reference hn) (fun _ => begins_solid) h

/-- A container, whether it is empty or not. -/
theorem begins_array (docs : List Doc) : BeginsAs name false (array .lua docs) := by
  unfold array
  split_ifs
  · exact begins_text rfl
  · exact (begins_text rfl).append.append

theorem ends_array (docs : List Doc) : EndsAs name true (array .lua docs) := by
  unfold array
  split_ifs
  · exact ends_text rfl
  · exact (ends_text rfl).append

end Documents

end Lua

/-- Places that Lua has a notation for, with solid names and numbers. -/
structure Place.AllLegible (places : List Place) : Prop where
  raw : AllRaw .lua (Lua.solid · = true) (Lua.solid · = true) places
  written : ∀ place ∈ places, place.refused? .lua = none

namespace Place.AllLegible

variable {place : Place} {places others : List Place}

theorem inside (h : AllLegible (place :: places)) : AllLegible places :=
  ⟨h.raw.inside, (List.forall_mem_cons.mp h.written).2⟩

theorem left (h : AllLegible (places ++ others)) : AllLegible places :=
  ⟨h.raw.left, (List.forall_mem_append.mp h.written).1⟩

theorem right (h : AllLegible (places ++ others)) : AllLegible others :=
  ⟨h.raw.right, (List.forall_mem_append.mp h.written).2⟩

end Place.AllLegible

section Trees

open Lua

variable {name : ClassType → String}

theorem Expr.begins_doc (hn : SpellsSolid name) (interpolate : Bool) : (value : Expr) →
    Place.AllLegible (.expr value :: value.inside .lua) →
    BeginsAs name value.opensParen (value.doc ⟨.lua, interpolate⟩)
  | .literal value, h => by
    cases value with
    | int digits | long digits | float digits | double digits =>
      exact begins_solid (h.raw.numeral _ (.head _))
    | char value | string value => exact begins_quoted
    | bool value => cases value <;> exact begins_text rfl
    | null => exact show BeginsAs name false (.text "nil") from begins_text rfl
  | .binary left op right concat, h => by
    have hl := left.begins_doc hn interpolate h.inside.left
    simp only [opensParen, doc, Phrase.binary, Phrase.infixed]
    split_ifs with hc hr
    · simpa [hc] using hl.append.append
    · simpa [hc, hr] using (begins_text rfl).append.append.append.append
    · simpa [hc, hr] using hl.append.append
  | .unary op operand, h => by
    cases op with
    | neg | not | complement => exact (begins_text rfl).append
    | preIncrement | preDecrement | postIncrement | postDecrement =>
      cases h.written _ (.head _)
  | .parens inner, h => (begins_text rfl).append.append
  | .ident text, h | .asyncResult text, h => begins_solid (h.raw.name _ (.head _))
  | .this, h => show BeginsAs name false (.text "self") from begins_text rfl
  | .member object _, h | .dataMember object _, h =>
    (object.begins_doc hn interpolate h.inside).append
  | .valueOf _ inner, h => inner.begins_doc hn interpolate h.inside
  | .assign target value, h => (target.begins_doc hn interpolate h.inside.left).append.append
  | .dataAssign object _ value, h =>
    (object.begins_doc hn interpolate h.inside.left).append.append.append
  | .jsonMember object _, h | .mapGet object _, h =>
    (object.begins_doc hn interpolate h.inside.left).append.append.append
  | .jsonAssign object _ value, h =>
    (object.begins_doc hn interpolate h.inside.left.left).append.append.append.append.append
  | .conditional test consequent alternative, h => by
    have ht := test.begins_doc hn interpolate h.inside.left.left
    simp only [opensParen, doc, Phrase.conditional]
    split_ifs with hc
    · simpa [hc] using ht.append.append.append.append
    · simpa [hc] using (begins_text rfl).append.append.append.append.append.append
  | .call none method args, h => (begins_solid (h.raw.name _ (.head _))).append.append
  | .call (some receiver) method args, h =>
    (receiver.begins_doc hn interpolate h.inside.left).append.append.append
  | .construct ty args, h => (begins_typeName hn h.raw.name).append.append
  | .lambda params body, h => begins_enclosed (begins_lead (begins_lead rfl _) _)
  | .enumConstant ty constant, h =>
    (begins_reference hn (List.forall_mem_cons.mp h.raw.name).2).append
  | .apiType ty, h => begins_reference hn h.raw.name
  | .jsonObject members, h | .dataObject _ members, h => begins_array _
  | .jsonArray values, h => begins_array _
  | .jsonObjectText inner, h | .jsonArrayText inner, h => (begins_text rfl).append.append
  | .mapForEach map key value body, h =>
    (begins_text (begins_lead (begins_lead (begins_lead (begins_lead rfl _) _) _) _)).append.append
  | .methodReference receiver method, h => (begins_text rfl).append.append
  | .console message, h =>
    (show BeginsAs name false (.text "print") from begins_text rfl).append

theorem Expr.ends_doc (hn : SpellsSolid name) (interpolate : Bool) : (value : Expr) →
    Place.AllLegible (.expr value :: value.inside .lua) →
    EndsAs name value.endsOpen (value.doc ⟨.lua, interpolate⟩)
  | .literal value, h => by
    cases value with
    | int digits | long digits | float digits | double digits =>
      exact ends_solid (h.raw.numeral _ (.head _))
    | char value | string value => exact ends_quoted
    | bool value => cases value <;> exact ends_text rfl
    | null => exact show EndsAs name true (.text "nil") from ends_text rfl
  | .binary left op right concat, h => by
    have hr := right.ends_doc hn interpolate h.inside.right
    simp only [endsOpen, doc, Phrase.binary, Phrase.infixed]
    split_ifs with hc ho
    · simpa [hc] using hr.append
    · simpa [hc, ho] using (ends_text rfl).append
    · simpa [hc, ho] using hr.append
  | .unary op operand, h => by
    have ho := operand.ends_doc hn interpolate h.inside
    cases op with
    | neg | not | complement => exact ho.append
    | preIncrement | preDecrement | postIncrement | postDecrement =>
      cases h.written _ (.head _)
  | .conditional test consequent alternative, h => by
    have ha := alternative.ends_doc hn interpolate h.inside.right
    simp only [endsOpen, doc, Phrase.conditional]
    split_ifs with hc
    · simpa [hc] using ha.append
    · simpa [hc] using (ends_text rfl).append
  | .assign _ value, h | .dataAssign _ _ value, h | .jsonAssign _ _ value, h =>
    (value.ends_doc hn interpolate h.inside.right).append
  | .valueOf _ inner, h => inner.ends_doc hn interpolate h.inside
  | .ident text, h | .asyncResult text, h => ends_solid (h.raw.name _ (.head _))
  | .this, h => show EndsAs name true (.text "self") from ends_text rfl
  | .member _ text, h | .dataMember _ text, h =>
    (ends_text (ends_tail (solid_iff.mp (h.raw.name _ (.head _))).2 _)).append
  | .enumConstant ty constant, h =>
    (ends_text (ends_tail (solid_iff.mp (h.raw.name _ (.head _))).2 _)).append
  | .apiType ty, h => ends_reference hn h.raw.name
  | .parens _, h | .jsonMember _ _, h | .mapGet _ _, h | .jsonObjectText _, h
  | .jsonArrayText _, h => (ends_text rfl).append
  | .call none _ _, h | .call (some _) _ _, h | .construct _ _, h | .console _, h =>
    (ends_text rfl).append.append
  | .lambda _ _, h => ends_enclosed rfl
  | .mapForEach _ _ _ _, h => (ends_enclosed rfl).append
  | .methodReference _ _, h => (ends_text (ends_tail rfl _)).append
  | .jsonObject _, h | .dataObject _ _, h | .jsonArray _, h => ends_array _

/-- The end of the line behind a statement does not show. -/
theorem shown_lines (style : Style) (stmt : Stmt) (rest : List Stmt) :
    shown name (Stmt.lines style (stmt :: rest)).strokes =
      shown name (stmt.doc style).strokes ++ shown name (Stmt.lines style rest).strokes := by
  have hl : (Stmt.lines style (stmt :: rest)).strokes =
      (stmt.doc style).strokes ++ ([.freshLine] ++ (Stmt.lines style rest).strokes) := by
    simp [Stmt.lines, Phrase.line, Doc.strokes]
  rw [hl, shown_append, shown_append]
  rfl

mutual

/-- What a statement shows begins as the statement does. -/
theorem Stmt.begins_doc (hn : SpellsSolid name) (interpolate : Bool) : (stmt : Stmt) →
    Place.AllLegible (.stmt stmt :: stmt.inside .lua) →
    begins (shown name (stmt.doc ⟨.lua, interpolate⟩).strokes) = stmt.opensParen
  | .block stmts, h => Stmt.begins_lines hn interpolate stmts h.inside
  | .expr value, h => value.begins_doc hn interpolate h.inside
  | .declare _ text none, h => begins_text (begins_lead rfl _)
  | .declare _ text (some value), h => (begins_text (begins_lead rfl _)).append.append
  | .forLoop init test update body, h => by
    rw [Stmt.doc_forLoop]
    exact begins_enclosed rfl
  | .forEach _ _ _, h => (begins_text (begins_lead (begins_lead rfl _) _)).append.append
  | .throwNew _ _, h => (begins_text rfl).append
  | .returnWith none, h => begins_text rfl
  | .returnWith (some _), h => (begins_text rfl).append
  | .ifElse _ _ none, h | .ifElse _ _ (some _), h => (begins_text rfl).append.append.append.append
  | .whileLoop _ _, h => (begins_text rfl).append.append
  | .breakLoop, h => begins_text rfl
  | .continueLoop, h => by cases h.written _ (.head _)

theorem Stmt.begins_lines (hn : SpellsSolid name) (interpolate : Bool) : (stmts : List Stmt) →
    Place.AllLegible (Stmt.insideAll .lua stmts) →
    begins (shown name (Stmt.lines ⟨.lua, interpolate⟩ stmts).strokes) = Stmt.firstOpensParen stmts
  | [], h => rfl
  | stmt :: rest, h => by
    have hs := stmt.begins_doc hn interpolate h.left
    have hr := Stmt.begins_lines hn interpolate rest h.right
    rw [shown_lines, begins_append, hs, hr]
    rfl

end

mutual

/-- What a statement shows ends as the statement does. -/
theorem Stmt.ends_doc (hn : SpellsSolid name) (interpolate : Bool) : (stmt : Stmt) →
    Place.AllLegible (.stmt stmt :: stmt.inside .lua) →
    ends (shown name (stmt.doc ⟨.lua, interpolate⟩).strokes) = stmt.endsOpen
  | .block stmts, h => Stmt.ends_lines hn interpolate stmts h.inside
  | .expr value, h => value.ends_doc hn interpolate h.inside
  | .declare _ text none, h => ends_text (ends_tail (solid_iff.mp (h.raw.name _ (.head _))).2 _)
  | .declare _ text (some value), h => (value.ends_doc hn interpolate h.inside).append
  | .forLoop init test update body, h => by
    rw [Stmt.doc_forLoop]
    exact ends_enclosed rfl
  | .forEach _ _ _, h | .whileLoop _ _, h => (ends_enclosed rfl).append
  | .throwNew _ _, h => (ends_text rfl).append.append
  | .returnWith none, h => ends_text rfl
  | .returnWith (some value), h => (value.ends_doc hn interpolate h.inside).append
  | .ifElse _ _ none, h => (ends_text rfl).append
  | .ifElse test consequent (some alternative), h => by
    have ha := alternative.ends_doc hn interpolate h.inside.right
    have ho : EndsAs name true (Phrase.otherwise .lua
        (some (alternative, alternative.doc ⟨.lua, interpolate⟩))) := by
      simp only [Phrase.otherwise]
      split_ifs with hi
      · cases alternative with
        | ifElse test consequent alternative => exact EndsAs.append ha
        | _ => cases hi
      · exact ends_enclosed rfl
    exact ho.append
  | .breakLoop, h => ends_text rfl
  | .continueLoop, h => by cases h.written _ (.head _)

theorem Stmt.ends_lines (hn : SpellsSolid name) (interpolate : Bool) : (stmts : List Stmt) →
    Place.AllLegible (Stmt.insideAll .lua stmts) →
    ends (shown name (Stmt.lines ⟨.lua, interpolate⟩ stmts).strokes) = Stmt.lastEndsOpen stmts
  | [], h => rfl
  | stmt :: rest, h => by
    have hs := stmt.ends_doc hn interpolate h.left
    have hr := Stmt.ends_lines hn interpolate rest h.right
    rw [shown_lines, ends_append, hs, hr]
    rfl

end

end Trees

namespace Lua

open Piece (ofPlace lines strokes)

/-- Two statements that follow each other in a list somewhere in a place, with the strokes in front
of the first one and behind the second one. -/
inductive Neighbours (style : Style) (first second : Stmt) (root : Place) :
    List Stroke → List Stroke → Prop
  | intro {whole : Place} {front back : List Piece} {earlier later : List Stmt}
    {before after : List Stroke}
    (hp : ofPlace whole = front ++ lines (earlier ++ first :: second :: later) ++ back)
    (ho : Occurs style whole root before after) :
    Neighbours style first second root (before ++ strokes style (front ++ lines earlier))
      ([.freshLine] ++ strokes style (lines later ++ back) ++ after)

namespace Neighbours

variable {style : Style} {first second : Stmt} {root : Place} {before after : List Stroke}

theorem strokes_eq (hd : style.dialect = .lua)
    (h : Neighbours style first second root before after) :
    (root.doc style).strokes = before ++ ((first.doc style).strokes ++
      ([.freshLine] ++ ((second.doc style).strokes ++ after))) := by
  obtain ⟨hp, ho⟩ := h
  rw [ho.strokes_eq hd, ← Piece.strokes_ofPlace hd, hp]
  simp [lines, Piece.line]

/-- What holds of all places of a tree holds of all places of the two statements. -/
theorem everywhere (h : Neighbours style first second root before after) {holds : Place → Prop}
    (hr : ∀ inner ∈ root :: root.inside .lua, holds inner) :
    (∀ inner ∈ .stmt first :: first.inside .lua, holds inner) ∧
      ∀ inner ∈ .stmt second :: second.inside .lua, holds inner := by
  obtain ⟨hp, ho⟩ := h
  have hc := Piece.everywhere_ofPlace (List.forall_mem_cons.mp (ho.everywhere hr)).2
  rw [hp] at hc
  exact ⟨hc (.stmt first) (by simp [lines, Piece.line, Piece.stmt]),
    hc (.stmt second) (by simp [lines, Piece.line, Piece.stmt])⟩

theorem allLegible (h : Neighbours style first second root before after)
    (hr : Place.AllLegible (root :: root.inside .lua)) :
    Place.AllLegible (.stmt first :: first.inside .lua) ∧
      Place.AllLegible (.stmt second :: second.inside .lua) := by
  have hw := h.everywhere hr.raw
  have hu := h.everywhere hr.written
  exact ⟨⟨hw.1, hu.1⟩, ⟨hw.2, hu.2⟩⟩

end Neighbours

/-- What strokes write behind a text. -/
def Writes (strokes : List Stroke) (pass next : Pass) (written : String) : Prop :=
  Stroke.run .lua strokes pass = .done next ∧ next.page.text = pass.page.text ++ written

end Lua

open Lua
open Piece (ofPlace lines)

/-- The places of a program that Lua has rendered. -/
theorem Program.allLegible {session : Session} {program : Program} {text : String}
    (hl : session.dialect = .lua) (h : (session.render program).1 = .ok text)
    (hn : ∀ name ∈ program.names .lua, solid name = true)
    (hd : ∀ digits ∈ program.numerals .lua, solid digits = true) :
    Place.AllLegible (program.root :: program.places .lua) := by
  have hr := Session.firstRefused?_of_render session program h
  rw [hl] at hr
  refine ⟨List.forall_mem_cons.mpr ⟨⟨?_, ?_⟩, Program.allRaw hn hd⟩,
    List.forall_mem_cons.mpr ⟨rfl, List.findSome?_eq_none_iff.mp hr⟩⟩
  · exact List.forall_mem_nil _
  · exact List.forall_mem_nil _

namespace Session

/-- A statement is glued to the statement in front of it exactly when it begins with a parenthesis,
and the one in front of it ends in a word or a closing bracket. -/
theorem lua_statements_glued_iff (session : Session) (program : Program) (text : String)
    (hl : session.dialect = .lua)
    (hi : session.settings.indent.toList.all Script.Number.isBlank = true)
    (h : (session.render program).1 = .ok text)
    (hn : ∀ name ∈ program.names .lua, solid name = true)
    (hd : ∀ digits ∈ program.numerals .lua, solid digits = true)
    (first second : Stmt) (before after : List Stroke)
    (hb : Neighbours session.style first second program.root before after) :
    ∃ start middle line next head firstText gap secondText tail,
      Writes before session.newPass start head ∧
      Writes (first.doc session.style).strokes start middle firstText ∧
      Writes [.freshLine] middle line gap ∧
      Writes (second.doc session.style).strokes line next secondText ∧
      visible gap = [] ∧
      text = String.join
        ((Dialect.lua.header (session.render program).2.imports).map (· ++ "\n")) ++
          (head ++ firstText ++ gap ++ secondText ++ tail) ∧
      (glued firstText secondText = true ↔
        first.endsOpen = some true ∧ second.opensParen = some true) := by
  obtain ⟨last, hr, ht, hs⟩ := lua_bodyRun hl h
  rw [hb.strokes_eq hl] at hr
  -- Each part writes what it would write alone, as the collector sees it.
  obtain ⟨start, hr₀, hr, ho, head, ht₀, -⟩ := Stroke.scan_first (overlooks_collector hi) hr hs
  obtain ⟨middle, hr₁, hr, ho, firstText, ht₁, hv₁⟩ := Stroke.scan_first ho hr hs
  obtain ⟨line, hr₂, hr, ho, gap, ht₂, hv₂⟩ := Stroke.scan_first ho hr hs
  obtain ⟨next, hr₃, hr, ho, secondText, ht₃, hv₃⟩ := Stroke.scan_first ho hr hs
  obtain ⟨-, tail, ht₄, -⟩ := Stroke.scan_written ho hr hs
  rw [scan_collector] at hv₁ hv₂ hv₃
  have hw := spellsSolid_luaLocal (session.render program).2.imports
  have hstyle : session.style = ⟨.lua, session.settings.interpolate⟩ := by rw [← hl]; rfl
  obtain ⟨hf, hg⟩ := hb.allLegible (Program.allLegible hl h hn hd)
  have he := Stmt.ends_doc hw session.settings.interpolate first hf
  have hp := Stmt.begins_doc hw session.settings.interpolate second hg
  rw [← hstyle] at he hp
  refine ⟨start, middle, line, next, head, firstText, gap, secondText, tail, ⟨hr₀, ht₀⟩,
    ⟨hr₁, ht₁⟩, ⟨hr₂, ht₂⟩, ⟨hr₃, ht₃⟩, hv₂, ?_, ?_⟩
  · have h₀ : session.newPass.page.text = "" := rfl
    rw [ht, ht₄, ht₃, ht₂, ht₁, ht₀, h₀, String.empty_append]
  · simp only [glued, Bool.and_eq_true, decide_eq_true_eq]
    rw [hv₁, hv₃, ← he, ← hp]
    rfl

/-- An assignment in front of a call on what a parenthesis holds. -/
def callBehindAssignment : Program where
  body := [.expr (.assign (.ident "f") (.ident "g")),
    .expr (.call (some (.parens (.ident "h"))) "run" [])]

theorem lua_statements_glued_iff_callBehindAssignment :
    (render ⟨.lua, {}, .empty⟩ callBehindAssignment).1 = .ok "f = g\n(h):run()\n" ∧
      ∃ head firstText gap secondText tail,
        "f = g\n(h):run()\n" = head ++ firstText ++ gap ++ secondText ++ tail ∧
          visible gap = [] ∧ glued firstText secondText = true := by
  have h : (render ⟨.lua, {}, .empty⟩ callBehindAssignment).1 = .ok "f = g\n(h):run()\n" := by
    decide +kernel
  have hb : ofPlace callBehindAssignment.root =
      [] ++ lines ([] ++ callBehindAssignment.body) ++ [] := rfl
  obtain ⟨_, _, _, _, head, firstText, gap, secondText, tail, -, -, -, -, hv, ht, hg⟩ :=
    lua_statements_glued_iff ⟨.lua, {}, .empty⟩ callBehindAssignment _ rfl (by decide) h
      (by decide +kernel) (by decide +kernel) _ _ _ _ (.intro hb .here)
  exact ⟨h, head, firstText, gap, secondText, tail, ht, hv, hg.mpr ⟨rfl, rfl⟩⟩

end Session

end Polyglot
