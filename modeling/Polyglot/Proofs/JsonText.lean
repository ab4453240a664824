import Polyglot.Datum
import Polyglot.Proofs.JsonTree

/-! The text of a datum is read as the tree of the datum. -/
namespace Polyglot

namespace Json

namespace Piece

/-- How a character of a string is given in a text. -/
def ofChar (c : Char) : Piece :=
  match c with
  | '\n' | '\r' | '\t' | '\x08' | '\x0c' => .char c
  | c => if c.toNat < 0x20 then .unit c.toNat else .char c

def ofText (text : String) : List Piece :=
  text.toList.map ofChar

/-- A code unit that is no surrogate stands for itself, whatever follows it. -/
theorem read_unit {code : Nat} (hc : code < 0xD800) (atEnd : Fault) (rest : List Piece) :
    read atEnd (.unit code :: rest) = (Char.ofNat code :: ·) <$> read atEnd rest := by
  have ht : isTrailing code = false := by
    simp only [isTrailing, Bool.and_eq_false_iff, decide_eq_false_iff_not]
    omega
  have hl : isLeading code = false := by
    simp only [isLeading, Bool.and_eq_false_iff, decide_eq_false_iff_not]
    omega
  match rest with
  | [] => simp [read, ht, hl, Functor.map, Except.map]
  | .unit next :: rest => simp [read, ht, hl]
  | .char c :: rest => simp [read, ht, hl]

theorem read_ofChar (c : Char) (atEnd : Fault) (rest : List Piece) :
    read atEnd (ofChar c :: rest) = (c :: ·) <$> read atEnd rest := by
  unfold ofChar
  split
  case h_6 =>
    split_ifs with hc
    · rw [read_unit (by omega), Char.ofNat_toNat]
    · rw [read]
  all_goals rw [read]

theorem text_ofText (value : String) : text (ofText value) = .ok value := by
  have hr : ∀ chars : List Char, read .malformed (chars.map ofChar) = .ok chars := by
    intro chars
    induction chars with
    | nil => rfl
    | cons c rest ih =>
      rw [List.map_cons, read_ofChar, ih]
      rfl
  rw [text, ofText, hr]
  exact congrArg Except.ok String.ofList_toList

theorem hexDigit?_hexDigit : ∀ value < 16, Scan.hexDigit? (hexDigit value) = some value := by
  decide

theorem spells_unitEscape {code : Nat} (hc : code < 0x20) :
    Spells (.unit code) (unitEscape code) := by
  have hh := hexDigit?_hexDigit (code / 16 % 16) (by omega)
  have hl := hexDigit?_hexDigit (code % 16) (by omega)
  have hz : Scan.hexDigit? '0' = some 0 := rfl
  have he : Scan.codeOf [code % 16, code / 16 % 16, 0, 0] = code := by
    simp only [Scan.codeOf, List.foldr]
    omega
  have hs := Spells.unit hz hz hh hl
  rwa [he] at hs

theorem spells_escapeChar (c : Char) : Spells (ofChar c) (escapeChar c) := by
  unfold escapeChar
  split
  case h_8 hq hb hn hr ht hk hf =>
    have ho : ofChar c = if c.toNat < 0x20 then .unit c.toNat else .char c := by
      unfold ofChar
      split
      case h_6 => rfl
      all_goals contradiction
    rw [ho]
    split_ifs with hc
    · exact spells_unitEscape hc
    · exact .plain hq hb (Nat.not_lt.mp hc)
  all_goals exact .escape rfl

end Piece

/-- A string between quotes is one token. -/
theorem Lexes.quote (text : String) {rest : List Char} {tokens : List Token}
    (h : Lexes rest tokens) :
    Lexes (quote text rest) (.string (Piece.ofText text) :: tokens) := by
  have hp : List.Forall₂ Piece.Spells (Piece.ofText text) (text.toList.map escapeChar) := by
    rw [Piece.ofText, List.forall₂_map_left_iff, List.forall₂_map_right_iff, List.forall₂_same]
    exact fun c _ => Piece.spells_escapeChar c
  rw [Json.quote, List.flatMap_def]
  exact .string hp h

/-- The text of a value starts with the tokens of the tree, whatever follows it. -/
def Writes (value : Json) (tree : ParseTree) : Prop :=
  ∀ rest tokens, Lexes rest tokens → Lexes (value.write rest) (tree.tokens ++ tokens)

namespace Writes

/-- A name and a value are written as a field. -/
def Entry (entry : String × Json) (field : List Piece × ParseTree) : Prop :=
  field.1 = Piece.ofText entry.1 ∧ Writes entry.2 field.2

variable {items : List Json} {trees : List ParseTree} {entries : List (String × Json)}
  {fields : List (List Piece × ParseTree)}

theorem null : Writes .null .null :=
  fun _ _ h => .null h

theorem bool (value : Bool) : Writes (.bool value) (.bool value) :=
  fun _ _ h => .bool value h

theorem string (value : String) : Writes (.string value) (.string (Piece.ofText value)) :=
  fun _ _ h => h.quote value

theorem items_lexes (h : List.Forall₂ Writes items trees) {rest : List Char}
    {tokens : List Token} (hr : Lexes rest tokens) :
    Lexes (writeItems items rest) (ParseTree.itemTokens trees ++ tokens) := by
  induction h with
  | nil => exact hr
  | @cons item tree items trees hi h ih =>
    cases h with
    | nil => exact hi _ _ hr
    | cons _ _ =>
      rw [writeItems, ParseTree.itemTokens, List.append_assoc]
      · exact hi _ _ (.sign rfl ih)
      · exact List.cons_ne_nil _ _

theorem array (h : List.Forall₂ Writes items trees) : Writes (.array items) (.array trees) := by
  intro rest tokens hr
  rw [write, ParseTree.tokens, List.cons_append, List.append_assoc]
  exact .sign rfl (items_lexes h (.sign rfl hr))

theorem fields_lexes (h : List.Forall₂ Entry entries fields) {rest : List Char}
    {tokens : List Token} (hr : Lexes rest tokens) :
    Lexes (writeFields entries rest) (ParseTree.fieldTokens fields ++ tokens) := by
  induction h with
  | nil => exact hr
  | @cons entry field entries fields he h ih =>
    obtain ⟨name, value⟩ := entry
    obtain ⟨key, tree⟩ := field
    obtain ⟨rfl, hv⟩ := he
    cases h with
    | nil => exact .quote name (.sign rfl (hv _ _ hr))
    | cons _ _ =>
      rw [writeFields, ParseTree.fieldTokens, List.cons_append, List.cons_append, List.append_assoc]
      · exact .quote name (.sign rfl (hv _ _ (.sign rfl ih)))
      · exact List.cons_ne_nil _ _

theorem object (h : List.Forall₂ Entry entries fields) :
    Writes (.object entries) (.object fields) := by
  intro rest tokens hr
  rw [write, ParseTree.tokens, List.cons_append, List.append_assoc]
  exact .sign rfl (fields_lexes h (.sign rfl hr))

theorem spells_text {value : Json} {tree : ParseTree} (h : Writes value tree) :
    Spells value.text tree := by
  have hl := h [] [] .nil
  rw [List.append_nil] at hl
  rwa [Spells, Json.text, String.toList_ofList]

end Writes

end Json

namespace Datum

open Json (Node Piece ParseTree Writes Spells)

mutual

/-- The tree that the text of a datum is read as. -/
def node : Datum → Node
  | .text value => .leaf (.string (Piece.ofText value))
  | .flag value => .leaf (.bool value)
  | .letter value => .leaf (.string (Piece.ofText (String.singleton value)))
  | .absent => .leaf .null
  | .present value => value.node
  | .list items => .array (itemNodes items) .closed
  | .table content =>
    .object (content.entries.map fun entry =>
      (Piece.ofText entry.1, .leaf (.string (Piece.ofText entry.2)))) .closed
  | .record _ fields => .object (fieldNodes fields) .closed
  | .constant tag => .leaf (.string (Piece.ofText tag))
  | .tagged tag value => .object [(Piece.ofText tag, value.node)] .closed
  | .tuple tag fields => .object [(Piece.ofText tag, .object (fieldNodes fields) .closed)] .closed

def itemNodes : List Datum → List Node
  | [] => []
  | item :: rest => item.node :: itemNodes rest

def fieldNodes : List (String × Datum) → List (List Piece × Node)
  | [] => []
  | (name, value) :: rest => (Piece.ofText name, value.node) :: fieldNodes rest

end

mutual

/-- A datum as it stands in its text. -/
def tree : Datum → ParseTree
  | .text value => .string (Piece.ofText value)
  | .flag value => .bool value
  | .letter value => .string (Piece.ofText (String.singleton value))
  | .absent => .null
  | .present value => value.tree
  | .list items => .array (itemTrees items)
  | .table content =>
    .object (content.entries.map fun entry =>
      (Piece.ofText entry.1, .string (Piece.ofText entry.2)))
  | .record _ fields => .object (fieldTrees fields)
  | .constant tag => .string (Piece.ofText tag)
  | .tagged tag value => .object [(Piece.ofText tag, value.tree)]
  | .tuple tag fields => .object [(Piece.ofText tag, .object (fieldTrees fields))]

def itemTrees : List Datum → List ParseTree
  | [] => []
  | item :: rest => item.tree :: itemTrees rest

def fieldTrees : List (String × Datum) → List (List Piece × ParseTree)
  | [] => []
  | (name, value) :: rest => (Piece.ofText name, value.tree) :: fieldTrees rest

end

theorem node_table (content : Table String) :
    (Datum.table content).tree.node = (Datum.table content).node := by
  rw [tree, ParseTree.node, node]
  congr 1
  induction content.entries with
  | nil => rfl
  | cons entry rest ih =>
    rw [List.map_cons, List.map_cons, ParseTree.fieldNodes, ih, ParseTree.node]

mutual

theorem tree_node : (datum : Datum) → datum.tree.node = datum.node
  | .text _ | .flag _ | .letter _ | .absent | .constant _ => rfl
  | .present value => value.tree_node
  | .list items => congrArg (Node.array · .closed) (itemTrees_nodes items)
  | .table content => node_table content
  | .record _ fields => congrArg (Node.object · .closed) (fieldTrees_nodes fields)
  | .tagged tag value =>
    congrArg (fun node => Node.object [(Piece.ofText tag, node)] .closed) value.tree_node
  | .tuple tag fields =>
    congrArg (fun nodes => Node.object [(Piece.ofText tag, .object nodes .closed)] .closed)
      (fieldTrees_nodes fields)

theorem itemTrees_nodes : (items : List Datum) →
    ParseTree.itemNodes (itemTrees items) = itemNodes items
  | [] => rfl
  | item :: rest => congrArg₂ List.cons item.tree_node (itemTrees_nodes rest)

theorem fieldTrees_nodes : (fields : List (String × Datum)) →
    ParseTree.fieldNodes (fieldTrees fields) = fieldNodes fields
  | [] => rfl
  | (name, value) :: rest =>
    congrArg₂ (fun node nodes => (Piece.ofText name, node) :: nodes) value.tree_node
      (fieldTrees_nodes rest)

end

theorem writes_table (entries : List (String × String)) :
    List.Forall₂ Writes.Entry (entries.map fun entry => (entry.1, .string entry.2))
      (entries.map fun entry => (Piece.ofText entry.1, .string (Piece.ofText entry.2))) := by
  rw [List.forall₂_map_left_iff, List.forall₂_map_right_iff, List.forall₂_same]
  exact fun entry _ => ⟨rfl, .string entry.2⟩

mutual

theorem json_writes : (datum : Datum) → Writes datum.json datum.tree
  | .text value | .constant value => .string value
  | .flag value => .bool value
  | .letter value => .string (String.singleton value)
  | .absent => .null
  | .present value => value.json_writes
  | .list items => .array (jsonItems_write items)
  | .table content => .object (writes_table content.entries)
  | .record _ fields => .object (jsonFields_write fields)
  | .tagged _ value => .object (.cons ⟨rfl, value.json_writes⟩ .nil)
  | .tuple _ fields => .object (.cons ⟨rfl, .object (jsonFields_write fields)⟩ .nil)

theorem jsonItems_write : (items : List Datum) →
    List.Forall₂ Writes (jsonItems items) (itemTrees items)
  | [] => .nil
  | item :: rest => .cons item.json_writes (jsonItems_write rest)

theorem jsonFields_write : (fields : List (String × Datum)) →
    List.Forall₂ Writes.Entry (jsonFields fields) (fieldTrees fields)
  | [] => .nil
  | (_, value) :: rest => .cons ⟨rfl, value.json_writes⟩ (jsonFields_write rest)

end

theorem spells_text (datum : Datum) : Spells datum.json.text datum.tree :=
  datum.json_writes.spells_text

/-- The text of a datum is read as its tree, and nothing follows it. -/
theorem ofText_text (datum : Datum) : Node.ofText datum.json.text = (datum.node, false) := by
  rw [datum.spells_text.ofText_eq, tree_node]

end Datum

end Polyglot
