import Mathlib.Data.List.Chain
import Polyglot.Proofs.PlainText
import Polyglot.Proofs.Visit

/-! Chains of operators in front of a name. They are written without anything between them, so a
minus in front of another minus or of a decrement becomes a part of another token, and on Lua two of
them begin a comment. -/
namespace Polyglot

/-- An operator that stands in front of its operand. -/
inductive PrefixOp where
  | neg | not | complement | increment | decrement
  deriving DecidableEq

namespace PrefixOp

def op : PrefixOp → UnaryOp
  | .neg => .neg
  | .not => .not
  | .complement => .complement
  | .increment => .preIncrement
  | .decrement => .preDecrement

def sign : PrefixOp → String
  | .neg => "-"
  | .not => "!"
  | .complement => "~"
  | .increment => "++"
  | .decrement => "--"

/-- Lua has no steps. -/
def luaSign : PrefixOp → String
  | .neg => "-"
  | .not => "not "
  | .complement => "~"
  | .increment | .decrement => ""

/-- Letters of any language, digits, underscores and dollar signs. -/
def isNameChar (c : Char) : Bool :=
  c.isAlphanum || c = '_' || c = '$' || 128 ≤ c.toNat

def isName (text : String) : Bool :=
  text.toList.all isNameChar && text.toList.head?.any (!·.isDigit)

theorem isNameChar_of_isName {name : String} (h : isName name = true) {c : Char}
    (hc : c ∈ name.toList) : isNameChar c = true :=
  List.all_eq_true.mp (Bool.and_eq_true_iff.mp h).1 c hc

/-- A name has a first character. -/
theorem exists_cons_of_isName {name : String} (h : isName name = true) :
    ∃ c rest, name.toList = c :: rest ∧ isNameChar c = true := by
  cases hn : name.toList with
  | nil => simp [isName, hn] at h
  | cons c rest => exact ⟨c, rest, rfl, isNameChar_of_isName h (hn ▸ List.mem_cons_self ..)⟩

section Tokens

inductive Token where
  | sign (op : PrefixOp)
  | name (text : String) (valid : isName text = true)

namespace Token

def lexeme : Token → List Char
  | .sign op => op.sign.toList
  | .name text _ => text.toList

theorem lexeme_ne_nil (token : Token) : token.lexeme ≠ [] := by
  cases token with
  | sign op => cases op <;> decide
  | name text valid =>
    obtain ⟨c, rest, hn, -⟩ := exists_cons_of_isName valid
    simp [lexeme, hn]

/-- A sign begins with no character of a name. -/
theorem not_name_prefix_sign {text : String} (valid : isName text = true) (op : PrefixOp)
    (rest : List Char) : ¬ (Token.name text valid).lexeme <+: op.sign.toList ++ rest := by
  intro h
  obtain ⟨c, more, hn, hc⟩ := exists_cons_of_isName valid
  rw [lexeme, hn] at h
  have hs : op.sign.toList.head? = some c := by
    obtain ⟨more, he⟩ := h
    cases op <;> simp_all [PrefixOp.sign]
  cases op <;> (obtain rfl := Option.some.inj hs; exact absurd hc (by decide))

theorem lexeme_injective {token other : Token} (h : token.lexeme = other.lexeme) :
    token = other := by
  cases token with
  | sign first =>
    cases other with
    | sign second =>
      have hs : first = second := by
        cases first <;> cases second <;> revert h <;> decide
      rw [hs]
    | name text valid =>
      have hp : (Token.name text valid).lexeme <+: first.sign.toList ++ [] := by
        rw [List.append_nil, ← h]
        exact List.prefix_rfl
      exact absurd hp (not_name_prefix_sign valid first [])
  | name text valid =>
    cases other with
    | sign second =>
      have hp : (Token.name text valid).lexeme <+: second.sign.toList ++ [] := by
        rw [List.append_nil, h]
        exact List.prefix_rfl
      exact absurd hp (not_name_prefix_sign valid second [])
    | name another _ =>
      obtain rfl : text = another := String.toList_inj.mp h
      rfl

/-- No token that a text begins with is longer than this one. -/
def Longest (token : Token) (rest : List Char) : Prop :=
  ∀ other : Token, other.lexeme <+: token.lexeme ++ rest → other.lexeme.length ≤ token.lexeme.length

/-- A sign is the longest token unless it is a minus in front of another one. -/
theorem longest_sign (op : PrefixOp) {rest : List Char}
    (h : op = .neg → ¬ ['-'] <+: rest) : (Token.sign op).Longest rest := by
  intro other hp
  cases other with
  | name text valid => exact absurd hp (not_name_prefix_sign valid op rest)
  | sign second =>
    have ho : 1 ≤ op.sign.toList.length := by cases op <;> decide
    have hs : second.sign.toList.length ≤ 1 ∨ second = .increment ∨ second = .decrement := by
      cases second <;> decide
    obtain hs | rfl | rfl := hs
    · exact hs.trans ho
    · cases op <;> simp_all [lexeme, PrefixOp.sign]
    · cases op <;> simp_all [lexeme, PrefixOp.sign]

theorem longest_name {text : String} (valid : isName text = true) :
    (Token.name text valid).Longest [] := by
  intro other hp
  rw [List.append_nil] at hp
  exact hp.length_le

end Token

/-- A text cut into tokens from the left, each of them the longest that there is at its place. -/
inductive Munched : List Char → List Token → Prop
  | nil : Munched [] []
  | cons {token : Token} {rest : List Char} {tokens : List Token} (hl : token.Longest rest)
      (h : Munched rest tokens) : Munched (token.lexeme ++ rest) (token :: tokens)

namespace Munched

variable {chars : List Char} {token : Token} {tokens others : List Token}

theorem chars_eq (h : Munched chars tokens) : chars = tokens.flatMap Token.lexeme := by
  induction h with
  | nil => rfl
  | cons hl h ih => rw [List.flatMap_cons, ← ih]

theorem cons_iff : Munched chars (token :: tokens) ↔
    ∃ rest, chars = token.lexeme ++ rest ∧ token.Longest rest ∧ Munched rest tokens := by
  constructor
  · intro h
    cases h with
    | cons hl h => exact ⟨_, rfl, hl, h⟩
  · rintro ⟨rest, rfl, hl, h⟩
    exact .cons hl h

/-- There is one way to cut a text. -/
theorem unique (h : Munched chars tokens) (ho : Munched chars others) : tokens = others := by
  induction h generalizing others with
  | nil =>
    cases others with
    | nil => rfl
    | cons other rest =>
      obtain ⟨more, he, -, -⟩ := cons_iff.mp ho
      exact absurd (List.append_eq_nil_iff.mp he.symm).1 other.lexeme_ne_nil
  | @cons token rest tokens hl h ih =>
    cases others with
    | nil =>
      have he : token.lexeme ++ rest = [] := ho.chars_eq
      exact absurd (List.append_eq_nil_iff.mp he).1 token.lexeme_ne_nil
    | cons other others =>
      obtain ⟨more, he, hm, ho⟩ := cons_iff.mp ho
      -- Each of the two tokens is at least as long as the other one.
      have hle := hl other (he ▸ List.prefix_append ..)
      have hge := hm token (he ▸ List.prefix_append ..)
      obtain ⟨hx, rfl⟩ := List.append_inj he (by omega)
      rw [Token.lexeme_injective hx, ih ho]

end Munched

end Tokens

section Chains

variable {name : String}

/-- A chain with one more minus in front, as it is read. -/
def withMinus : List PrefixOp → List PrefixOp
  | .decrement :: rest => .decrement :: withMinus rest
  | .neg :: rest => .decrement :: rest
  | rest => .neg :: rest

/-- The chain that is read where this one is written. -/
def asRead : List PrefixOp → List PrefixOp
  | [] => []
  | .neg :: rest => withMinus (asRead rest)
  | op :: rest => op :: asRead rest

/-- The tokens of a chain and the name behind it. -/
def tokens (chain : List PrefixOp) (valid : isName name = true) : List Token :=
  chain.map .sign ++ [.name name valid]

/-- Two operators whose signs do not run into each other. -/
def Apart (first second : PrefixOp) : Prop :=
  first = .neg → second ≠ .neg ∧ second ≠ .decrement

instance : DecidableRel Apart := fun first second =>
  inferInstanceAs (Decidable (first = .neg → second ≠ .neg ∧ second ≠ .decrement))

theorem tokens_cons (op : PrefixOp) (chain : List PrefixOp) (valid : isName name = true) :
    tokens (op :: chain) valid = .sign op :: tokens chain valid := rfl

theorem tokens_injective {chain other : List PrefixOp} {second : String}
    {valid : isName name = true} {hs : isName second = true}
    (h : tokens other hs = tokens chain valid) :
    other = chain ∧ second = name := by
  obtain ⟨hm, hn⟩ := List.append_inj' h rfl
  constructor
  · exact List.map_injective_iff.mpr (fun _ _ he => Token.sign.inj he) hm
  · exact Token.name.inj (List.singleton_inj.mp hn)

theorem munched_withMinus {chars : List Char} {chain : List PrefixOp} (valid : isName name = true)
    (h : Munched chars (tokens chain valid)) :
    Munched ('-' :: chars) (tokens (withMinus chain) valid) := by
  -- A minus in front of decrements is the last of their dashes when they are read.
  fun_induction withMinus chain generalizing chars with
  | case1 rest ih =>
    obtain ⟨more, rfl, -, h⟩ := Munched.cons_iff.mp h
    have he : '-' :: ((Token.sign .decrement).lexeme ++ more) =
        (Token.sign .decrement).lexeme ++ '-' :: more := rfl
    rw [he]
    exact .cons (Token.longest_sign .decrement nofun) (ih h)
  | case2 rest =>
    obtain ⟨more, rfl, -, h⟩ := Munched.cons_iff.mp h
    have he : '-' :: ((Token.sign .neg).lexeme ++ more) =
        (Token.sign .decrement).lexeme ++ more := rfl
    rw [he]
    exact .cons (Token.longest_sign .decrement nofun) h
  | case3 chain hd hn =>
    refine .cons (Token.longest_sign .neg fun _ hp => ?_) h
    cases chain with
    | nil =>
      obtain ⟨c, rest, hc, hv⟩ := exists_cons_of_isName valid
      have he := h.chars_eq
      simp only [tokens, List.map_nil, List.nil_append, List.flatMap_cons, List.flatMap_nil,
        List.append_nil, Token.lexeme, hc] at he
      obtain rfl : '-' = c := by simpa [he] using hp
      exact absurd hv (by decide)
    | cons op rest =>
      obtain ⟨more, rfl, -, -⟩ := Munched.cons_iff.mp h
      cases op with
      | neg => exact hn rest rfl
      | decrement => exact hd rest rfl
      | not | complement | increment => simp [Token.lexeme, sign] at hp

/-- The signs of a chain and the name behind it, with nothing between them. -/
def written (sign : PrefixOp → String) (chain : List PrefixOp) (name : String) : String :=
  String.join (chain.map sign) ++ name

theorem toList_written_cons (sign : PrefixOp → String) (op : PrefixOp) (chain : List PrefixOp)
    (name : String) : (written sign (op :: chain) name).toList =
      (sign op).toList ++ (written sign chain name).toList := by
  simp [written]

theorem munched_written (chain : List PrefixOp) (valid : isName name = true) :
    Munched (written sign chain name).toList (tokens (asRead chain) valid) := by
  fun_induction asRead chain with
  | case1 =>
    have h := Munched.cons (Token.longest_name valid) .nil
    simpa [written, tokens, Token.lexeme] using h
  | case2 rest ih =>
    rw [toList_written_cons]
    exact munched_withMinus valid ih
  | case3 op rest hn ih =>
    rw [toList_written_cons, tokens_cons]
    exact .cons (Token.longest_sign op fun he => absurd he hn) ih

theorem withMinus_eq_cons_iff {chain rest : List PrefixOp} :
    withMinus chain = .neg :: rest ↔ chain = rest ∧ ∀ second ∈ chain.head?, Apart .neg second := by
  fun_cases withMinus chain with
  | case1 more => simp [Apart]
  | case2 more => simp [Apart]
  | case3 _ hd hn =>
    have ha : ∀ second ∈ chain.head?, Apart .neg second := by
      intro second hm _
      obtain ⟨more, rfl⟩ := List.head?_eq_some_iff.mp hm
      constructor
      · rintro rfl
        exact hn more rfl
      · rintro rfl
        exact hd more rfl
    rw [List.cons.injEq, and_iff_right rfl, and_iff_left ha]

/-- A chain is read as it is written where no signs run into each other. -/
theorem asRead_eq_iff (chain : List PrefixOp) : asRead chain = chain ↔ chain.IsChain Apart := by
  fun_induction asRead chain with
  | case1 => simp
  | case2 rest ih =>
    rw [withMinus_eq_cons_iff, List.isChain_cons, ih, and_comm]
    refine and_congr_left fun hr => ?_
    rw [ih.mpr hr]
  | case3 op rest hn ih =>
    have ha : ∀ second ∈ rest.head?, Apart op second := fun _ _ he => absurd he hn
    rw [List.isChain_cons, and_iff_right ha, ← ih, List.cons.injEq, and_iff_right rfl]

/-- Two chains that are read in the same way are written in the same way, and the other way
round. -/
theorem written_eq_iff {chain other : List PrefixOp} {second : String} (valid : isName name = true)
    (hs : isName second = true) :
    written sign other second = written sign chain name ↔
      asRead other = asRead chain ∧ second = name := by
  have hc := munched_written chain valid
  have ho := munched_written other hs
  constructor
  · intro h
    rw [h] at ho
    exact tokens_injective (ho.unique hc)
  · rintro ⟨h, rfl⟩
    rw [h] at ho
    rw [← String.toList_inj, ho.chars_eq, hc.chars_eq]

section Lua

variable {chain : List PrefixOp}

theorem luaSign_cases {op : PrefixOp} (h : op.op.isStep = false) :
    op = .neg ∨ op = .not ∨ op = .complement := by
  cases op <;> simp_all [op, UnaryOp.isStep]

theorem minus_prefix_luaWritten (h : ∀ op ∈ chain, op.op.isStep = false)
    (valid : isName name = true) :
    ['-'] <+: (written luaSign chain name).toList ↔ PrefixOp.neg ∈ chain.head? := by
  cases chain with
  | nil =>
    obtain ⟨c, rest, hc, hv⟩ := exists_cons_of_isName valid
    have hn : '-' ≠ c := by
      rintro rfl
      exact absurd hv (by decide)
    simp [written, hc, hn]
  | cons op rest =>
    rw [toList_written_cons]
    obtain rfl | rfl | rfl := luaSign_cases (h op (List.mem_cons_self ..)) <;> simp [luaSign]

/-- Two dashes meet where one minus stands in front of another. -/
theorem comment_infix_luaWritten_iff (h : ∀ op ∈ chain, op.op.isStep = false)
    (valid : isName name = true) :
    ['-', '-'] <:+: (written luaSign chain name).toList ↔ ¬ chain.IsChain Apart := by
  induction chain with
  | nil =>
    have hn : ¬ ['-', '-'] <:+: name.toList := by
      intro hi
      have hm : '-' ∈ name.toList := hi.subset (List.mem_cons_self ..)
      exact absurd (isNameChar_of_isName valid hm) (by decide)
    simpa [written] using hn
  | cons op rest ih =>
    obtain ⟨ho, hr⟩ := List.forall_mem_cons.mp h
    have hm := minus_prefix_luaWritten hr valid
    rw [toList_written_cons, List.isChain_cons, not_and_or, ← ih hr]
    obtain rfl | rfl | rfl := luaSign_cases ho
    · have ha : (¬ ∀ second ∈ rest.head?, Apart .neg second) ↔ PrefixOp.neg ∈ rest.head? := by
        cases rest with
        | nil => simp
        | cons second more =>
          obtain rfl | rfl | rfl := luaSign_cases (hr second (List.mem_cons_self ..)) <;>
            simp [Apart]
      rw [ha, ← hm]
      simp [luaSign, List.infix_cons_iff]
    · simp [luaSign, List.infix_cons_iff, Apart]
    · simp [luaSign, List.infix_cons_iff, Apart]

/-- Each sign on Lua has a character that names do not have. -/
theorem luaWritten_ne_name {op : PrefixOp} (h : op.op.isStep = false) (valid : isName name = true)
    (text : List Char) : (luaSign op).toList ++ text ≠ name.toList := by
  intro he
  have hc (c : Char) (hm : c ∈ (luaSign op).toList) : isNameChar c = true :=
    isNameChar_of_isName valid (he ▸ List.mem_append_left _ hm)
  obtain rfl | rfl | rfl := luaSign_cases h
  · exact absurd (hc '-' (by decide)) (by decide)
  · exact absurd (hc ' ' (by decide)) (by decide)
  · exact absurd (hc '~' (by decide)) (by decide)

theorem luaWritten_injective {other : List PrefixOp} {second : String}
    (h : ∀ op ∈ chain, op.op.isStep = false) (ho : ∀ op ∈ other, op.op.isStep = false)
    (valid : isName name = true) (hs : isName second = true)
    (he : (written luaSign other second).toList = (written luaSign chain name).toList) :
    other = chain ∧ second = name := by
  induction chain generalizing other with
  | nil =>
    cases other with
    | nil => exact ⟨rfl, String.toList_inj.mp (by simpa [written] using he)⟩
    | cons op rest =>
      have hop := ho op (List.mem_cons_self ..)
      rw [toList_written_cons] at he
      exact absurd (by simpa [written] using he)
        (luaWritten_ne_name hop valid (written luaSign rest second).toList)
  | cons op rest ih =>
    obtain ⟨hop, hr⟩ := List.forall_mem_cons.mp h
    rw [toList_written_cons] at he
    cases other with
    | nil =>
      exact absurd (by simpa [written] using he.symm)
        (luaWritten_ne_name hop hs (written luaSign rest name).toList)
    | cons first others =>
      obtain ⟨hf, hos⟩ := List.forall_mem_cons.mp ho
      rw [toList_written_cons] at he
      -- The signs differ in their first characters.
      obtain rfl : first = op := by
        obtain rfl | rfl | rfl := luaSign_cases hop <;>
          obtain rfl | rfl | rfl := luaSign_cases hf <;> simp_all [luaSign]
      obtain ⟨rfl, rfl⟩ := ih hr hos (List.append_cancel_left he)
      exact ⟨rfl, rfl⟩

end Lua

end Chains

end PrefixOp

/-- Operators one after the other in front of an operand. -/
def Expr.prefixed (chain : List PrefixOp) (operand : Expr) : Expr :=
  chain.foldr (fun op expr => .unary op.op expr) operand

theorem Expr.plain_prefixed {style : Style} {sign : PrefixOp → String} {chain : List PrefixOp}
    (h : ∀ op ∈ chain, ∀ doc, Phrase.unary style.dialect op.op doc = .text (sign op) ++ doc)
    (name : String) :
    ((Expr.prefixed chain (.ident name)).doc style).Plain (PrefixOp.written sign chain name) := by
  induction chain with
  | nil =>
    have hw : PrefixOp.written sign [] name = name := by simp [PrefixOp.written]
    rw [hw]
    exact .text name
  | cons op rest ih =>
    obtain ⟨ho, hr⟩ := List.forall_mem_cons.mp h
    have hw : PrefixOp.written sign (op :: rest) name =
        sign op ++ PrefixOp.written sign rest name := by
      simp [PrefixOp.written, String.append_assoc]
    have hd : (Expr.prefixed (op :: rest) (.ident name)).doc style =
        .text (sign op) ++ (Expr.prefixed rest (.ident name)).doc style :=
      ho _
    rw [hw, hd]
    exact .append (.text _) (ih hr)

namespace Session

open PrefixOp

variable (session : Session)

theorem renderExpr_prefixed (hd : session.dialect ≠ .lua) (chain : List PrefixOp) (name : String) :
    (session.renderExpr (.prefixed chain (.ident name))).1 = .ok (written sign chain name) := by
  refine session.renderExpr_plain (Expr.plain_prefixed (fun op _ doc => ?_) name)
  show Phrase.unary session.dialect op.op doc = _
  cases hs : session.dialect with
  | lua => exact absurd hs hd
  | plain | groovy => cases op <;> rfl

theorem renderExpr_prefixed_lua (hd : session.dialect = .lua) {chain : List PrefixOp}
    (h : ∀ op ∈ chain, op.op.isStep = false) (name : String) :
    (session.renderExpr (.prefixed chain (.ident name))).1 = .ok (written luaSign chain name) := by
  refine session.renderExpr_plain (Expr.plain_prefixed (fun op hm doc => ?_) name)
  show Phrase.unary session.dialect op.op doc = _
  rw [hd]
  obtain rfl | rfl | rfl := luaSign_cases (h op hm) <;> rfl

/-- A chain of operators in front of a name, read from its text with the longest token first. The
chain that is read is known for each chain, it is the one that was written just where no minus
stands directly in front of another minus or of a decrement, and two chains have the same text just
where they are read in the same way. On Lua the text tells all chains apart, but it holds a comment
unless the chain is one that can be read. -/
theorem operator_chain_read_iff (session : Session) (chain : List PrefixOp) (name : String)
    (valid : isName name = true) :
    (session.dialect ≠ .lua →
      ∃ text, (session.renderExpr (.prefixed chain (.ident name))).1 = .ok text ∧
        Munched text.toList ((asRead chain).map .sign ++ [.name name valid]) ∧
        (Munched text.toList (chain.map .sign ++ [.name name valid]) ↔ chain.IsChain Apart) ∧
        ∀ other second, isName second = true →
          ((session.renderExpr (.prefixed other (.ident second))).1 = .ok text ↔
            asRead other = asRead chain ∧ second = name)) ∧
    (session.dialect = .lua → (∀ op ∈ chain, op.op.isStep = false) →
      ∃ text, (session.renderExpr (.prefixed chain (.ident name))).1 = .ok text ∧
        (['-', '-'] <:+: text.toList ↔ ¬ chain.IsChain Apart) ∧
        ∀ other second, (∀ op ∈ other, op.op.isStep = false) → isName second = true →
          ((session.renderExpr (.prefixed other (.ident second))).1 = .ok text ↔
            other = chain ∧ second = name)) := by
  constructor
  · intro hd
    have hm := munched_written chain valid
    refine ⟨written sign chain name, session.renderExpr_prefixed hd chain name, hm, ?_, ?_⟩
    · rw [← asRead_eq_iff]
      constructor
      · intro h
        exact (tokens_injective (h.unique hm)).1.symm
      · intro h
        rwa [h] at hm
    · intro other second hs
      rw [session.renderExpr_prefixed hd, Except.ok.injEq]
      exact written_eq_iff valid hs
  · intro hd h
    refine ⟨written luaSign chain name, session.renderExpr_prefixed_lua hd h name,
      comment_infix_luaWritten_iff h valid, ?_⟩
    intro other second ho hs
    rw [session.renderExpr_prefixed_lua hd ho, Except.ok.injEq]
    constructor
    · intro he
      exact luaWritten_injective h ho valid hs (congrArg String.toList he)
    · rintro ⟨rfl, rfl⟩
      rfl

/-- A minus in front of a minus is read as a decrement, and on Lua as a comment. -/
theorem operator_chain_read_iff_twoMinuses :
    (renderExpr ⟨.groovy, {}, .empty⟩ (.prefixed [.neg, .neg] (.ident "x"))).1 = .ok "--x" ∧
      (∀ valid, Munched "--x".toList [.sign .decrement, .name "x" valid] ∧
        ¬ Munched "--x".toList [.sign .neg, .sign .neg, .name "x" valid]) ∧
      (renderExpr ⟨.groovy, {}, .empty⟩ (.prefixed [.decrement] (.ident "x"))).1 = .ok "--x" ∧
      (renderExpr ⟨.lua, {}, .empty⟩ (.prefixed [.neg, .neg] (.ident "x"))).1 = .ok "--x" ∧
      ['-', '-'] <:+: "--x".toList := by
  have valid : isName "x" = true := by decide
  obtain ⟨text, hr, hm, hi, ho⟩ :=
    (operator_chain_read_iff ⟨.groovy, {}, .empty⟩ [.neg, .neg] "x" valid).1 (by decide)
  obtain ⟨comment, hl, hc, -⟩ :=
    (operator_chain_read_iff ⟨.lua, {}, .empty⟩ [.neg, .neg] "x" valid).2 rfl (by decide)
  have hg : (renderExpr ⟨.groovy, {}, .empty⟩ (.prefixed [.neg, .neg] (.ident "x"))).1 =
      .ok "--x" := by
    decide +kernel
  have hn : (renderExpr ⟨.lua, {}, .empty⟩ (.prefixed [.neg, .neg] (.ident "x"))).1 =
      .ok "--x" := by
    decide +kernel
  obtain rfl : text = "--x" := Except.ok.inj (hr.symm.trans hg)
  obtain rfl : comment = "--x" := Except.ok.inj (hl.symm.trans hn)
  exact ⟨hg, fun _ => ⟨hm, fun h => absurd (hi.mp h) (by decide)⟩,
    (ho [.decrement] "x" valid).mpr (by decide), hn, hc.mpr (by decide)⟩

end Session

end Polyglot
