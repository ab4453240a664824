import Polyglot.Proofs.Escapes
import Polyglot.Proofs.Inline

/-! Joined strings that are interpolated. The text depends on the leaves of the tree of joins only,
and literals that stand next to each other count as one. -/
namespace Polyglot

namespace Expr

/-- The largest parts of a joined string that are no joins themselves, from left to right. -/
def leaves : Expr → List Expr
  | .binary left .add right true => left.leaves ++ right.leaves
  | leaf => [leaf]

/-- A text in front of leaves, as a part of the first one if that is a literal. -/
def lead (text : String) : List Expr → List Expr
  | .literal (.string next) :: rest => .literal (.string (text ++ next)) :: rest
  | rest => if text = "" then rest else .literal (.string text) :: rest

/-- Leaves with neighbouring literals put together and without empty ones. -/
def merged : List Expr → List Expr
  | [] => []
  | .literal (.string text) :: rest => lead text (merged rest)
  | leaf :: rest => leaf :: merged rest

end Expr

namespace Text

/-- Escaping goes from one character to the next. -/
theorem escapeTemplate_append (first second : String) :
    escapeTemplate (first ++ second) = escapeTemplate first ++ escapeTemplate second := by
  simp [escapeTemplate]

end Text

section Documents

variable {style : Style}

/-- A leaf as it stands in an interpolated string. -/
def Expr.piece (style : Style) (leaf : Expr) : Doc :=
  Phrase.part leaf.isStringPart (leaf.doc style)

/-- Documents one after the other. -/
def Doc.playAll (dialect : Dialect) : List Doc → Pass → Outcome
  | [], pass => .done pass
  | doc :: rest, pass => (doc.play dialect pass).andThen (playAll dialect rest)

theorem Doc.playAll_append (dialect : Dialect) (first second : List Doc) (pass : Pass) :
    playAll dialect (first ++ second) pass =
      (playAll dialect first pass).andThen (playAll dialect second) := by
  induction first generalizing pass with
  | nil => rfl
  | cons doc rest ih =>
    rw [List.cons_append, playAll, playAll, Outcome.andThen_assoc]
    congr 1
    funext next
    exact ih next

/-- A join is a piece of the pieces of its leaves. -/
theorem Expr.play_piece (hd : style.dialect = .groovy) (hi : style.interpolate = true)
    (expr : Expr) (dialect : Dialect) (pass : Pass) :
    (expr.piece style).play dialect pass =
      Doc.playAll dialect (expr.leaves.map (piece style)) pass := by
  fun_induction leaves expr generalizing pass with
  | case1 left right ihl ihr =>
    have hp : (Expr.binary left .add right true).piece style =
        left.piece style ++ right.piece style := by
      simp [piece, isStringPart, Phrase.part, Expr.doc, Phrase.binary, hd, hi, Doc.unquoted]
    have hr : (right.piece style).play dialect =
        Doc.playAll dialect (right.leaves.map (piece style)) := funext ihr
    rw [hp, List.map_append, Doc.playAll_append, ← ihl, ← hr]
    rfl
  | case2 leaf h =>
    rw [List.map_singleton, Doc.playAll]
    cases (leaf.piece style).play dialect pass <;> rfl

theorem Expr.piece_string (hd : style.dialect = .groovy) (text : String) :
    (Expr.literal (.string text)).piece style = .text (Text.escapeTemplate text) := by
  simp [piece, isStringPart, Phrase.part, Expr.doc, Phrase.literal, hd, Doc.unquoted]

theorem Expr.playAll_lead (hd : style.dialect = .groovy) (dialect : Dialect) (text : String)
    (leaves : List Expr) (pass : Pass) :
    Doc.playAll dialect ((lead text leaves).map (piece style)) pass =
      Doc.playAll dialect (leaves.map (piece style)) (pass.write (Text.escapeTemplate text)) := by
  unfold lead
  split
  · rw [List.map_cons, List.map_cons, piece_string hd, piece_string hd, Text.escapeTemplate_append]
    simp only [Doc.playAll, Doc.play, Outcome.andThen_done, Pass.write, Page.write_append]
  · split_ifs with ht
    · rw [ht]
      rfl
    · rw [List.map_cons, piece_string hd]
      rfl

/-- Merging leaves changes nothing on any page. -/
theorem Expr.playAll_merged (hd : style.dialect = .groovy) (dialect : Dialect)
    (leaves : List Expr) (pass : Pass) :
    Doc.playAll dialect ((merged leaves).map (piece style)) pass =
      Doc.playAll dialect (leaves.map (piece style)) pass := by
  fun_induction merged leaves generalizing pass with
  | case1 => rfl
  | case2 text rest ih =>
    rw [playAll_lead hd, ih, List.map_cons, piece_string hd]
    rfl
  | case3 leaf rest h ih =>
    rw [List.map_cons, List.map_cons, Doc.playAll, Doc.playAll]
    congr 1
    funext next
    exact ih next

theorem Expr.doc_concat (hd : style.dialect = .groovy) (hi : style.interpolate = true)
    (left right : Expr) :
    (Expr.concat left right).doc style = .quoted ((Expr.concat left right).piece style) := by
  simp [Expr.concat, piece, isStringPart, Phrase.part, Expr.doc, Phrase.binary, hd, hi,
    Doc.unquoted]

/-- Trees whose leaves are the same after merging are the same on every page. -/
theorem Expr.play_concat_eq (hd : style.dialect = .groovy) (hi : style.interpolate = true)
    {left right first second : Expr}
    (h : merged (Expr.concat left right).leaves = merged (Expr.concat first second).leaves)
    (dialect : Dialect) (pass : Pass) :
    ((Expr.concat left right).doc style).play dialect pass =
      ((Expr.concat first second).doc style).play dialect pass := by
  have hp (pass : Pass) : ((Expr.concat left right).piece style).play dialect pass =
      ((Expr.concat first second).piece style).play dialect pass := by
    rw [play_piece hd hi, play_piece hd hi, ← playAll_merged hd, h, playAll_merged hd]
  rw [doc_concat hd hi, doc_concat hd hi, Doc.play, Doc.play, hp]

end Documents

section Texts

variable (session : Session)

/-- The text of a leaf in an interpolated string: that of a literal without its quotes, and anything
else between a dollar sign with a brace and the closing brace. -/
def Session.pieceText : Expr → Except RenderError String
  | .literal (.string text) => .ok (Text.escapeTemplate text)
  | leaf => (session.renderExpr leaf).1.map fun text => "$\x7b" ++ text ++ "\x7d"

theorem Session.renderExpr_groovy {session : Session} (hg : session.dialect = .groovy)
    (expr : Expr) : ∃ text, (session.renderExpr expr).1 = .ok text := by
  cases hr : (session.renderExpr expr).1 with
  | ok text => exact ⟨text, rfl⟩
  | error error =>
    obtain ⟨construct, hc, -⟩ := (session.renderExpr_error_iff expr error).mp hr
    rw [hg, Place.firstRefused?_groovy] at hc
    cases hc

/-- The leaves that are spliced are literals. -/
theorem Expr.eq_string_of_mem_leaves {expr leaf : Expr} (hm : leaf ∈ expr.leaves)
    (h : leaf.isStringPart = true) : ∃ text, leaf = .literal (.string text) := by
  fun_induction leaves expr with
  | case1 left right ihl ihr =>
    rcases List.mem_append.mp hm with hl | hr
    · exact ihl hl
    · exact ihr hr
  | case2 other hn =>
    obtain rfl := List.mem_singleton.mp hm
    unfold isStringPart at h
    split at h
    · exact ⟨_, rfl⟩
    · exact absurd rfl (hn _ _)
    · cases h

variable {session}

/-- A leaf in an interpolated string adds its text. -/
theorem Session.prints_piece (hg : session.dialect = .groovy) {expr leaf : Expr}
    (hm : leaf ∈ expr.leaves) :
    ∃ text, session.pieceText leaf = .ok text ∧
      Prints session.settings.indent ((leaf.piece session.style).play .groovy) text := by
  by_cases hs : leaf.isStringPart = true
  · obtain ⟨text, rfl⟩ := Expr.eq_string_of_mem_leaves hm hs
    rw [Expr.piece_string hg]
    exact ⟨_, rfl, .write _ _⟩
  · obtain ⟨text, ht⟩ := renderExpr_groovy hg leaf
    have hp : session.pieceText leaf = .ok ("$\x7b" ++ text ++ "\x7d") := by
      unfold pieceText
      split
      · exact absurd rfl hs
      · rw [ht]
        rfl
    refine ⟨_, hp, ?_⟩
    have ho := (Prints.write session.settings.indent "$\x7b").andThen (prints_of_renderExpr hg ht)
    have hc := ho.andThen (.write session.settings.indent "\x7d")
    rw [Expr.piece, Phrase.part, if_neg hs]
    exact hc

/-- The leaves one after the other add their texts. -/
theorem Session.prints_pieces {leaves : List Expr}
    (h : ∀ leaf ∈ leaves, ∃ text, session.pieceText leaf = .ok text ∧
      Prints session.settings.indent ((leaf.piece session.style).play .groovy) text) :
    ∃ texts, leaves.mapM session.pieceText = .ok texts ∧
      Prints session.settings.indent
        (Doc.playAll .groovy (leaves.map (Expr.piece session.style))) (String.join texts) := by
  induction leaves with
  | nil => exact ⟨[], rfl, .write _ ""⟩
  | cons leaf rest ih =>
    obtain ⟨⟨text, ht, hp⟩, hr⟩ := List.forall_mem_cons.mp h
    obtain ⟨texts, hts, hps⟩ := ih hr
    refine ⟨text :: texts, ?_, ?_⟩
    · rw [List.mapM_cons, ht, hts]
      rfl
    · rw [String.join_cons]
      exact hp.andThen hps

/-- A join is rendered as the texts of its leaves between quotes. -/
theorem Session.renderExpr_concat (hg : session.dialect = .groovy)
    (hi : session.settings.interpolate = true) (left right : Expr) :
    ∃ texts, (Expr.concat left right).leaves.mapM session.pieceText = .ok texts ∧
      (session.renderExpr (Expr.concat left right)).1 =
        .ok ("\"" ++ String.join texts ++ "\"") := by
  obtain ⟨texts, ht, hp⟩ := prints_pieces fun leaf hm =>
    prints_piece hg (show leaf ∈ (Expr.concat left right).leaves from hm)
  refine ⟨texts, ht, renderExpr_of_prints ?_⟩
  have hq := ((Prints.write session.settings.indent "\"").andThen hp).andThen
    (.write session.settings.indent "\"")
  have hs := funext (@Expr.play_piece session.style hg hi (Expr.concat left right) .groovy)
  rw [← hs] at hq
  rw [@Expr.doc_concat session.style hg hi, hg]
  exact hq

end Texts

section Distinction

/-- What the text of a joined string is made of, if all its leaves are literals and names. -/
inductive Glyph where
  | char (c : Char)
  | splice (name : String)

namespace Glyph

def chars : Glyph → List Char
  | .char c => Text.escapeIn true c
  | .splice name => '$' :: '{' :: (name.toList ++ ['}'])

/-- A name in which no brace closes. -/
def Sound : Glyph → Prop
  | .char _ => True
  | .splice name => '}' ∉ name.toList

/-- The leaves that literals and names come from. -/
def leaves : List Glyph → List Expr
  | [] => []
  | .char c :: rest => Expr.lead (String.singleton c) (leaves rest)
  | .splice name :: rest => .ident name :: leaves rest

/-- A dollar sign that is no escape opens a splice. -/
theorem escapeIn_append_ne_dollar (c : Char) (rest more : List Char) :
    Text.escapeIn true c ++ rest ≠ '$' :: more := by
  intro h
  obtain ⟨code, hc, -⟩ | ⟨hc, -, hn⟩ := Text.escapeIn_cases true c
  · simp [hc] at h
  · simp only [hc, List.cons_append, List.nil_append, List.cons.injEq] at h
    exact hn rfl h.1

theorem chars_append_inj {first second : Glyph} (hf : first.Sound) (hs : second.Sound)
    {rest more : List Char} (h : first.chars ++ rest = second.chars ++ more) :
    first = second ∧ rest = more := by
  cases first with
  | char c =>
    cases second with
    | char d =>
      obtain ⟨rfl, rfl⟩ := Text.escapeIn_append_inj h
      exact ⟨rfl, rfl⟩
    | splice name => exact absurd h (escapeIn_append_ne_dollar c _ _)
  | splice name =>
    cases second with
    | char d => exact absurd h.symm (escapeIn_append_ne_dollar d _ _)
    | splice other =>
      simp only [chars, List.cons_append, List.append_assoc, List.cons.injEq, true_and,
        List.nil_append] at h
      obtain ⟨hn, rfl⟩ := Text.cut_inj hf hs h
      rw [String.toList_inj.mp hn]
      exact ⟨rfl, rfl⟩

theorem chars_ne_nil (glyph : Glyph) : glyph.chars ≠ [] := by
  cases glyph with
  | splice name => simp [chars]
  | char c =>
    obtain ⟨code, hc, -⟩ | ⟨hc, -⟩ := Text.escapeIn_cases true c <;> simp [chars, hc]

/-- A text has one reading as literals and names. -/
theorem flatMap_chars_inj {first second : List Glyph} (hf : ∀ glyph ∈ first, glyph.Sound)
    (hs : ∀ glyph ∈ second, glyph.Sound) (h : first.flatMap chars = second.flatMap chars) :
    first = second := by
  induction first generalizing second with
  | nil =>
    cases second with
    | nil => rfl
    | cons glyph rest => exact absurd (List.append_eq_nil_iff.mp h.symm).1 glyph.chars_ne_nil
  | cons glyph rest ih =>
    cases second with
    | nil => exact absurd (List.append_eq_nil_iff.mp h).1 glyph.chars_ne_nil
    | cons other more =>
      obtain ⟨hg, hr⟩ := List.forall_mem_cons.mp hf
      obtain ⟨ho, hm⟩ := List.forall_mem_cons.mp hs
      obtain ⟨rfl, he⟩ := chars_append_inj hg ho h
      rw [ih hr hm he]

end Glyph

namespace Expr

/-- A literal, or a name without a closing brace, as all names of letters, digits and underscores
are. -/
def isPlainLeaf : Expr → Bool
  | .literal (.string _) => true
  | .ident name => '}' ∉ name.toList
  | _ => false

def glyphs : Expr → List Glyph
  | .literal (.string text) => text.toList.map .char
  | .ident name => [.splice name]
  | _ => []

theorem lead_empty (leaves : List Expr) : lead "" leaves = leaves := by
  unfold lead
  split
  · rw [String.empty_append]
  · rfl

theorem lead_append (first second : String) (leaves : List Expr) :
    lead (first ++ second) leaves = lead first (lead second leaves) := by
  by_cases hs : second = ""
  · rw [hs, String.append_empty, lead_empty]
  · have hn : first ++ second ≠ "" := by simp [hs]
    rw [lead.eq_def (first ++ second), lead.eq_def second]
    split
    · rw [lead, String.append_assoc]
    · rw [if_neg hn, if_neg hs, lead]

theorem leaves_chars (chars : List Char) (rest : List Glyph) :
    Glyph.leaves (chars.map .char ++ rest) = lead (String.ofList chars) (Glyph.leaves rest) := by
  induction chars with
  | nil => exact (lead_empty _).symm
  | cons c chars ih =>
    rw [List.map_cons, List.cons_append, Glyph.leaves, ih, ← lead_append, String.ofList_cons]

/-- Merged leaves are those of the characters and names that they are made of. -/
theorem merged_eq_leaves {leaves : List Expr} (h : ∀ leaf ∈ leaves, leaf.isPlainLeaf = true) :
    merged leaves = Glyph.leaves (leaves.flatMap glyphs) := by
  induction leaves with
  | nil => rfl
  | cons leaf rest ih =>
    obtain ⟨hl, hr⟩ := List.forall_mem_cons.mp h
    rw [List.flatMap_cons]
    unfold isPlainLeaf at hl
    split at hl
    · rw [merged, glyphs, leaves_chars, ih hr, String.ofList_toList]
    · rw [merged, ih hr]
      · rfl
      · nofun
    · cases hl

theorem glyphs_sound {leaf : Expr} (h : leaf.isPlainLeaf = true) :
    ∀ glyph ∈ leaf.glyphs, glyph.Sound := by
  unfold isPlainLeaf at h
  split at h
  · intro glyph hm
    obtain ⟨c, -, rfl⟩ := List.mem_map.mp hm
    exact trivial
  · intro glyph hm
    obtain rfl := List.mem_singleton.mp hm
    have hn : '}' ∉ _ := of_decide_eq_true h
    exact hn
  · cases h

end Expr

namespace Session

variable {session : Session}

theorem pieceText_plain {leaf : Expr} (h : leaf.isPlainLeaf = true) :
    session.pieceText leaf = .ok (String.ofList (leaf.glyphs.flatMap Glyph.chars)) := by
  unfold Expr.isPlainLeaf at h
  split at h
  · next text =>
    rw [Expr.glyphs, List.flatMap_map]
    rfl
  · next name =>
    have hr : (session.renderExpr (.ident name)).1 = .ok name :=
      session.renderExpr_plain (.text name)
    rw [pieceText, hr]
    · simp [Expr.glyphs, Glyph.chars, Except.map, ← String.toList_inj]
    · nofun
  · cases h

theorem mapM_pieceText_plain {leaves : List Expr}
    (h : ∀ leaf ∈ leaves, leaf.isPlainLeaf = true) :
    ∃ texts, leaves.mapM session.pieceText = .ok texts ∧
      String.join texts = String.ofList ((leaves.flatMap Expr.glyphs).flatMap Glyph.chars) := by
  induction leaves with
  | nil => exact ⟨[], rfl, rfl⟩
  | cons leaf rest ih =>
    obtain ⟨hl, hr⟩ := List.forall_mem_cons.mp h
    obtain ⟨texts, ht, hj⟩ := ih hr
    refine ⟨String.ofList (leaf.glyphs.flatMap Glyph.chars) :: texts, ?_, ?_⟩
    · rw [List.mapM_cons, pieceText_plain hl, ht]
      rfl
    · rw [String.join_cons, hj, List.flatMap_cons, List.flatMap_append, String.ofList_append]

/-- If the leaves are literals and names, then the text shows what they are made of. -/
theorem glyphs_eq_of_renderExpr_eq (hg : session.dialect = .groovy)
    (hi : session.settings.interpolate = true) {left right first second : Expr}
    (hl : ∀ leaf ∈ (Expr.concat left right).leaves, leaf.isPlainLeaf = true)
    (hf : ∀ leaf ∈ (Expr.concat first second).leaves, leaf.isPlainLeaf = true)
    (h : (session.renderExpr (Expr.concat left right)).1 =
      (session.renderExpr (Expr.concat first second)).1) :
    (Expr.concat left right).leaves.flatMap Expr.glyphs =
      (Expr.concat first second).leaves.flatMap Expr.glyphs := by
  have ht (left right : Expr)
      (h : ∀ leaf ∈ (Expr.concat left right).leaves, leaf.isPlainLeaf = true) :
      (session.renderExpr (Expr.concat left right)).1 = .ok ("\"" ++ String.ofList
        (((Expr.concat left right).leaves.flatMap Expr.glyphs).flatMap Glyph.chars) ++ "\"") := by
    obtain ⟨texts, hm, hr⟩ := renderExpr_concat hg hi left right
    obtain ⟨others, ho, hj⟩ := mapM_pieceText_plain h
    obtain rfl := Except.ok.inj (hm.symm.trans ho)
    rw [hr, hj]
  have hs {leaves : List Expr} (h : ∀ leaf ∈ leaves, leaf.isPlainLeaf = true) :
      ∀ glyph ∈ leaves.flatMap Expr.glyphs, glyph.Sound := by
    intro glyph hm
    obtain ⟨leaf, hm, hg⟩ := List.mem_flatMap.mp hm
    exact Expr.glyphs_sound (h leaf hm) glyph hg
  rw [ht left right hl, ht first second hf] at h
  apply Glyph.flatMap_chars_inj (hs hl) (hs hf)
  simpa [← String.toList_inj] using h

/-- A joined string is the texts of its leaves between quotes. Trees with the same leaves, put
together as above, are rendered in the same way, and if the other leaves are names, then no other
trees are. -/
theorem interpolated_exact (session : Session) (hg : session.dialect = .groovy)
    (hi : session.settings.interpolate = true) (left right : Expr) :
    (∃ texts, (Expr.concat left right).leaves.mapM session.pieceText = .ok texts ∧
      (session.renderExpr (Expr.concat left right)).1 =
        .ok ("\"" ++ String.join texts ++ "\"")) ∧
    ∀ first second : Expr,
      (Expr.merged (Expr.concat left right).leaves =
          Expr.merged (Expr.concat first second).leaves →
        session.renderExpr (Expr.concat left right) =
          session.renderExpr (Expr.concat first second) ∧
        ∀ pass, ((Expr.concat left right).doc session.style).play .groovy pass =
          ((Expr.concat first second).doc session.style).play .groovy pass) ∧
      ((∀ leaf ∈ (Expr.concat left right).leaves ++ (Expr.concat first second).leaves,
          leaf.isPlainLeaf = true) →
        ((session.renderExpr (Expr.concat left right)).1 =
            (session.renderExpr (Expr.concat first second)).1 ↔
          Expr.merged (Expr.concat left right).leaves =
            Expr.merged (Expr.concat first second).leaves)) := by
  refine ⟨renderExpr_concat hg hi left right, fun first second => ⟨fun h => ?_, fun hp => ?_⟩⟩
  · have hd := @Expr.play_concat_eq session.style hg hi _ _ _ _ h
    exact ⟨renderExpr_eq_of_play (hd session.dialect), hd .groovy⟩
  · obtain ⟨hl, hf⟩ := List.forall_mem_append.mp hp
    constructor
    · intro h
      rw [Expr.merged_eq_leaves hl, Expr.merged_eq_leaves hf,
        glyphs_eq_of_renderExpr_eq hg hi hl hf h]
    · intro h
      have hd := @Expr.play_concat_eq session.style hg hi _ _ _ _ h session.dialect
      rw [renderExpr_eq_of_play hd]

/-- A literal that looks like a splice is no splice, whichever way it is put together. -/
theorem interpolated_exact_likeSplice :
    let session : Session := { dialect := .groovy }
    let halves : Expr :=
      .concat (.concat (.literal (.string "a$")) (.literal (.string "\x7bx\x7d"))) (.ident "x")
    let whole : Expr := .concat (.literal (.string "a$\x7bx\x7d"))
      (.concat (.literal (.string "")) (.ident "x"))
    let splices : Expr := .concat (.literal (.string "a")) (.concat (.ident "x") (.ident "x"))
    session.settings.interpolate = true ∧
      session.renderExpr halves = session.renderExpr whole ∧
      (session.renderExpr halves).1 ≠ (session.renderExpr splices).1 := by
  intro session halves whole splices
  obtain ⟨-, hs⟩ := interpolated_exact session rfl rfl (.concat (.literal (.string "a$"))
    (.literal (.string "\x7bx\x7d"))) (.ident "x")
  have hm : Expr.merged halves.leaves = Expr.merged whole.leaves := by
    simp [halves, whole, Expr.concat, Expr.leaves, Expr.merged, Expr.lead]
  have hn : Expr.merged halves.leaves ≠ Expr.merged splices.leaves := by
    simp [halves, splices, Expr.concat, Expr.leaves, Expr.merged, Expr.lead]
  have hp : ∀ leaf ∈ halves.leaves ++ splices.leaves, leaf.isPlainLeaf = true := by
    simp [halves, splices, Expr.concat, Expr.leaves, Expr.isPlainLeaf]
  exact ⟨rfl, ((hs _ _).1 hm).1, fun h => hn (((hs _ _).2 hp).mp h)⟩

end Session

end Distinction

end Polyglot
