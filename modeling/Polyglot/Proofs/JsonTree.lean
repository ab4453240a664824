import Polyglot.Proofs.JsonTokens

/-! JSON values as they stand in a text, and how the reader finds them there. -/
namespace Polyglot.Json

/-- A whole value, with strings and keys by their pieces, numbers by their digits, and the fields of
an object in the order of the text. -/
inductive ParseTree where
  | null
  | bool (value : Bool)
  | number (text : NumberText)
  | string (pieces : List Piece)
  | array (items : List ParseTree)
  | object (fields : List (List Piece × ParseTree))

namespace ParseTree

mutual

def node : ParseTree → Node
  | .null => .leaf .null
  | .bool value => .leaf (.bool value)
  | .number text => .leaf (.number text)
  | .string pieces => .leaf (.string pieces)
  | .array items => .array (itemNodes items) .closed
  | .object fields => .object (fieldNodes fields) .closed

def itemNodes : List ParseTree → List Node
  | [] => []
  | item :: rest => item.node :: itemNodes rest

def fieldNodes : List (List Piece × ParseTree) → List (List Piece × Node)
  | [] => []
  | (key, value) :: rest => (key, value.node) :: fieldNodes rest

end

mutual

def tokens : ParseTree → List Token
  | .null => [.null]
  | .bool value => [.bool value]
  | .number text => [.number text]
  | .string pieces => [.string pieces]
  | .array items => .openArray :: (itemTokens items ++ [.closeArray])
  | .object fields => .openObject :: (fieldTokens fields ++ [.closeObject])

def itemTokens : List ParseTree → List Token
  | [] => []
  | [item] => item.tokens
  | item :: next :: rest => item.tokens ++ .comma :: itemTokens (next :: rest)

def fieldTokens : List (List Piece × ParseTree) → List Token
  | [] => []
  | [(key, value)] => .string key :: .colon :: value.tokens
  | (key, value) :: next :: rest =>
    .string key :: .colon :: (value.tokens ++ .comma :: fieldTokens (next :: rest))

end

mutual

/-- The number of arrays and objects inside one another. -/
def depth : ParseTree → Nat
  | .array items => depthOfItems items + 1
  | .object fields => depthOfFields fields + 1
  | _ => 0

def depthOfItems : List ParseTree → Nat
  | [] => 0
  | item :: rest => max item.depth (depthOfItems rest)

def depthOfFields : List (List Piece × ParseTree) → Nat
  | [] => 0
  | (_, value) :: rest => max value.depth (depthOfFields rest)

end

theorem depthOfItems_le {items : List ParseTree} {limit : Nat} :
    depthOfItems items ≤ limit ↔ ∀ item ∈ items, item.depth ≤ limit := by
  induction items with
  | nil => simp [depthOfItems]
  | cons item rest ih => rw [depthOfItems, Nat.max_le, ih, List.forall_mem_cons]

theorem depthOfFields_le {fields : List (List Piece × ParseTree)} {limit : Nat} :
    depthOfFields fields ≤ limit ↔ ∀ field ∈ fields, field.2.depth ≤ limit := by
  induction fields with
  | nil => simp [depthOfFields]
  | cons field rest ih => rw [depthOfFields, Nat.max_le, ih, List.forall_mem_cons]

end ParseTree

/-- A value may stand here. -/
def Phase.Awaits (phase : Phase) : Prop :=
  phase = .value ∨ phase = .firstItem

theorem Phase.Awaits.step {phase : Phase} (hp : phase.Awaits) (token : Token)
    (ht : token ≠ .closeArray) (stack : List Frame) :
    Growth.step (.growing stack phase) token = Growth.value stack token := by
  obtain rfl | rfl := hp
  · rfl
  · rw [Growth.step]
    exact fun _ _ he _ => ht he

namespace Growth

/-- What has grown behind some tokens. -/
def after (growth : Growth) (tokens : List Token) : Growth :=
  tokens.foldl step growth

theorem after_cons (growth : Growth) (token : Token) (rest : List Token) :
    growth.after (token :: rest) = (growth.step token).after rest := rfl

mutual

/-- Wherever a value may stand, its tokens put it in its place. -/
theorem after_tokens : (tree : ParseTree) → (stack : List Frame) → (phase : Phase) →
    phase.Awaits → (rest : List Token) →
    (growing stack phase).after (tree.tokens ++ rest) = (settle tree.node stack).after rest
  | .null, stack, _, hp, rest => congrArg (after · rest) (hp.step .null nofun stack)
  | .bool value, stack, _, hp, rest => congrArg (after · rest) (hp.step (.bool value) nofun stack)
  | .number text, stack, _, hp, rest =>
    congrArg (after · rest) (hp.step (.number text) nofun stack)
  | .string pieces, stack, _, hp, rest =>
    congrArg (after · rest) (hp.step (.string pieces) nofun stack)
  | .array items, stack, _, hp, rest => by
    rw [ParseTree.tokens, List.cons_append, List.append_assoc, after_cons,
      hp.step .openArray nofun]
    cases items with
    | nil => rfl
    | cons item items =>
      exact after_itemTokens (item :: items) nofun [] stack .firstItem (.inr rfl) rest
  | .object fields, stack, _, hp, rest => by
    rw [ParseTree.tokens, List.cons_append, List.append_assoc, after_cons,
      hp.step .openObject nofun]
    cases fields with
    | nil => rfl
    | cons field fields =>
      exact after_fieldTokens (field :: fields) nofun [] [] stack false rest

/-- The items of an array up to its closing bracket, `before` being those in front of them. -/
theorem after_itemTokens : (items : List ParseTree) → items ≠ [] → (before : List Node) →
    (stack : List Frame) → (phase : Phase) → phase.Awaits → (rest : List Token) →
    (growing (.array before :: stack) phase).after
        (ParseTree.itemTokens items ++ .closeArray :: rest) =
      (settle (.array (before.reverse ++ ParseTree.itemNodes items) .closed) stack).after rest
  | [], hn, _, _, _, _, _ => absurd rfl hn
  | [item], _, before, stack, phase, hp, rest => by
    rw [ParseTree.itemTokens, after_tokens item _ phase hp, ParseTree.itemNodes,
      ParseTree.itemNodes, ← List.reverse_cons]
    rfl
  | item :: next :: items, _, before, stack, phase, hp, rest => by
    -- Behind a comma any item may stand, but not the closing bracket.
    have hi := after_itemTokens (next :: items) nofun (item.node :: before) stack .value
      (.inl rfl) rest
    rw [List.reverse_cons, List.append_assoc] at hi
    rw [ParseTree.itemTokens, List.append_assoc, after_tokens item _ phase hp]
    exact hi

/-- The fields of an object up to its closing bracket, `before` being those in front of them. -/
theorem after_fieldTokens : (fields : List (List Piece × ParseTree)) → fields ≠ [] →
    (before : List (List Piece × Node)) → (key : List Piece) → (stack : List Frame) →
    (afterComma : Bool) → (rest : List Token) →
    (growing (.object before key :: stack) (.key afterComma)).after
        (ParseTree.fieldTokens fields ++ .closeObject :: rest) =
      (settle (.object (before.reverse ++ ParseTree.fieldNodes fields) .closed) stack).after rest
  | [], hn, _, _, _, _, _ => absurd rfl hn
  | [(name, value)], _, before, key, stack, afterComma, rest => by
    have hv := after_tokens value (.object before name :: stack) .value (.inl rfl)
      (.closeObject :: rest)
    rw [ParseTree.fieldNodes, ParseTree.fieldNodes, ← List.reverse_cons]
    exact hv
  | (name, value) :: next :: fields, _, before, key, stack, afterComma, rest => by
    have hv := after_tokens value (.object before name :: stack) .value (.inl rfl)
      (.comma :: (ParseTree.fieldTokens (next :: fields) ++ .closeObject :: rest))
    have hf := after_fieldTokens (next :: fields) nofun ((name, value.node) :: before) [] stack
      true rest
    rw [List.reverse_cons, List.append_assoc] at hf
    rw [ParseTree.fieldTokens, List.cons_append, List.cons_append, List.append_assoc]
    exact hv.trans hf

end

end Growth

/-- The text is that of the value, with any blanks between its tokens. -/
def Spells (text : String) (tree : ParseTree) : Prop :=
  Lexes text.toList tree.tokens

/-- Every text of a value is read as the value, and nothing follows it. -/
theorem Spells.ofText_eq {text : String} {tree : ParseTree} (h : Spells text tree) :
    Node.ofText text = (tree.node, false) := by
  have hg := Growth.after_tokens tree [] .value (.inl rfl) []
  rw [List.append_nil] at hg
  have ht : tokens text.toList = tree.tokens := h.tokens_eq
  rw [Node.ofText, ht]
  exact congrArg Growth.finish hg

end Polyglot.Json
