import Polyglot.Invocation
import Polyglot.Proofs.Accessors

/-! Calls on values. Each kind of value answers to a closed set of methods, told by name and number
of arguments, and the node of a call has the receiver and all arguments in it. -/
namespace Polyglot

def LambdaBody.operands : LambdaBody → List Expr
  | .expr value => [value]
  | .block _ => []

def Member.operands : Member → List Expr
  | .single name value => [name, value]
  | .array name values => name :: values

namespace Expr

/-- The expressions directly inside an expression, in order. -/
def operands : Expr → List Expr
  | .literal _ | .ident _ | .this | .enumConstant .. | .apiType _ | .asyncResult _ => []
  | .unary _ inner | .parens inner | .member inner _ | .valueOf _ inner | .dataMember inner _
  | .jsonObjectText inner | .jsonArrayText inner | .methodReference inner _ | .console inner =>
    [inner]
  | .binary left _ right _ | .assign left right | .dataAssign left _ right
  | .jsonMember left right | .mapGet left right => [left, right]
  | .conditional first second third | .jsonAssign first second third => [first, second, third]
  | .call receiver _ args => receiver.toList ++ args
  | .construct _ args | .jsonArray args => args
  | .lambda _ body => body.operands
  | .jsonObject members | .dataObject _ members => members.flatMap Member.operands
  | .mapForEach map _ _ body => map :: body.operands

/-- What an expression is marked to hold. -/
def valueKind? : Expr → Option ValueKind
  | .valueOf kind _ => some kind
  | _ => none

/-- The expression without its mark, if it has one. -/
def unmarked : Expr → Expr
  | .valueOf _ inner => inner
  | expr => expr

end Expr

namespace Accessor

/-- The word with more behind it, which begins with a letter of a certain sort. -/
def Opens (word : String) (isInitial : Char → Bool) (method : String) : Prop :=
  ∃ (first : Char) (rest : String), isInitial first = true ∧
    method = word ++ String.singleton first ++ rest

/-- A capital letter is all that the name of a property needs. -/
theorem opens_upperCase_iff {word method : String} :
    Opens word Text.isUpperCase method ↔
      ∃ property suffix, method = word ++ suffix ∧ Lowers suffix property := by
  constructor
  · rintro ⟨first, rest, hu, rfl⟩
    obtain ⟨lower, hl⟩ := Option.isSome_iff_exists.mp hu
    exact ⟨lower ++ rest, String.singleton first ++ rest, String.append_assoc .., first, lower,
      rest, hl, rfl, rfl⟩
  · rintro ⟨property, suffix, rfl, first, lower, rest, hl, rfl, rfl⟩
    exact ⟨first, rest, Option.isSome_of_mem hl, (String.append_assoc ..).symm⟩

end Accessor

open Accessor (Opens)

/-- The methods of a kind of value, with the number of their arguments. -/
def ValueKind.Answers (kind : ValueKind) (method : String) (arity : Nat) : Prop :=
  match kind with
  | .dataObject =>
    (Opens "get" Text.isUpperCase method ∧ arity = 0) ∨
      (Opens "set" Text.isUpperCase method ∧ arity = 1)
  | .jsonObject =>
    (method = "put" ∧ arity = 2) ∨
      ((method = "encode" ∨ method = "toString") ∧ arity = 0) ∨
      ((method = "get" ∨ Opens "get" Char.isUpper method) ∧ arity = 1)
  | .jsonArray => (method = "encode" ∨ method = "toString") ∧ arity = 0

namespace Invocation

open Accessor (behind?_eq_some_iff classify_eq_get_iff classify_eq_set_iff opens_upperCase_iff)

theorem isTextMethod_iff {method : String} :
    isTextMethod method = true ↔ method = "encode" ∨ method = "toString" := by
  simp [isTextMethod]

theorem isJsonGetter_iff {method : String} :
    isJsonGetter method = true ↔ method = "get" ∨ Opens "get" Char.isUpper method := by
  constructor
  · intro h
    unfold isJsonGetter at h
    split at h
    · next hb =>
      rw [behind?_eq_some_iff, List.append_nil, String.toList_inj] at hb
      exact .inl hb
    · next first rest hb =>
      refine .inr ⟨first, String.ofList rest, h, ?_⟩
      rw [← String.toList_inj, behind?_eq_some_iff.mp hb]
      simp
    · cases h
  · rintro (rfl | ⟨first, rest, hu, rfl⟩)
    · rfl
    · have hb : Accessor.behind? "get".toList ("get" ++ String.singleton first ++ rest).toList =
          some (first :: rest.toList) := behind?_eq_some_iff.mpr (by simp)
      unfold isJsonGetter
      rw [hb]
      exact hu

theorem answers_dataObject_iff {method : String} {arity : Nat} :
    ValueKind.Answers .dataObject method arity ↔
      (∃ property, Accessor.classify method arity = .get property) ∨
        ∃ property, Accessor.classify method arity = .set property := by
  simp only [ValueKind.Answers, opens_upperCase_iff, classify_eq_get_iff, classify_eq_set_iff,
    exists_and_left, and_comm]

/-- A call on a value: a method that the value answers to gives a node in which nothing of the call
is lost, and any other method gives an error. -/
structure Routed (kind : ValueKind) (object : Expr) (method : String) (args : List Expr)
    (result : Except RenderError Expr) : Prop where
  answered : kind.Answers method args.length →
    ∃ expr, result = .ok expr ∧ expr.operands = object :: args
  refused : ¬kind.Answers method args.length → result = .error (.unsupportedMethod method kind)

/-- One test that decides whether the value answers. -/
theorem Routed.ofTest {kind : ValueKind} {object expr : Expr} {method : String} {args : List Expr}
    {test : Prop} [Decidable test] (ht : kind.Answers method args.length ↔ test)
    (ho : expr.operands = object :: args) : Routed kind object method args
      (if test then .ok expr else .error (.unsupportedMethod method kind)) where
  answered ha := ⟨expr, if_pos (ht.mp ha), ho⟩
  refused hn := if_neg (mt ht.mpr hn)

theorem routed_onDataObject (object : Expr) (method : String) (args : List Expr) :
    Routed .dataObject object method args (onDataObject object method args) := by
  unfold onDataObject
  cases hc : Accessor.classify method args.length with
  | get property =>
    have ha := answers_dataObject_iff.mpr (.inl ⟨property, hc⟩)
    obtain rfl := List.length_eq_zero_iff.mp (classify_eq_get_iff.mp hc).1
    exact ⟨fun _ => ⟨_, rfl, rfl⟩, fun hn => absurd ha hn⟩
  | set property =>
    have ha := answers_dataObject_iff.mpr (.inr ⟨property, hc⟩)
    obtain ⟨value, rfl⟩ := List.length_eq_one_iff.mp (classify_eq_set_iff.mp hc).1
    exact ⟨fun _ => ⟨_, rfl, rfl⟩, fun hn => absurd ha hn⟩
  | unsupported =>
    refine ⟨fun ha => ?_, fun _ => rfl⟩
    obtain ⟨property, hp⟩ | ⟨property, hp⟩ := answers_dataObject_iff.mp ha
    · rw [hc] at hp
      cases hp
    · rw [hc] at hp
      cases hp

/-- The number of arguments decides which methods of a JSON object come into question. -/
theorem routed_onJsonObject (object : Expr) (method : String) (args : List Expr) :
    Routed .jsonObject object method args (onJsonObject object method args) := by
  match args with
  | [] => exact .ofTest (by simp [ValueKind.Answers, isTextMethod_iff]) rfl
  | [name] => exact .ofTest (by simp [ValueKind.Answers, isJsonGetter_iff]) rfl
  | [name, value] => exact .ofTest (by simp [ValueKind.Answers]) rfl
  | _ :: _ :: _ :: _ => exact ⟨fun ha => by simp [ValueKind.Answers] at ha, fun _ => rfl⟩

theorem routed_onJsonArray (array : Expr) (method : String) (args : List Expr) :
    Routed .jsonArray array method args (onJsonArray array method args) := by
  cases args with
  | nil => exact .ofTest (by simp [ValueKind.Answers, isTextMethod_iff]) rfl
  | cons value rest =>
    refine ⟨fun ha => by simp [ValueKind.Answers] at ha, fun _ => ?_⟩
    simp [onJsonArray]

end Invocation

namespace Expr

open Invocation (Routed routed_onDataObject routed_onJsonObject routed_onJsonArray)

/-- A call on a value is routed as its kind wants it. -/
theorem routed_invoke (kind : ValueKind) (inner : Expr) (method : String) (args : List Expr) :
    Routed kind inner method args ((valueOf kind inner).invoke method args) := by
  cases kind with
  | dataObject => exact routed_onDataObject inner method args
  | jsonObject => exact routed_onJsonObject inner method args
  | jsonArray => exact routed_onJsonArray inner method args

/-- A receiver of no known kind is called as it stands. -/
theorem invoke_of_unmarked {receiver : Expr} (h : receiver.valueKind? = none) (method : String)
    (args : List Expr) : receiver.invoke method args = .ok (.call (some receiver) method args) := by
  cases receiver with
  | valueOf kind inner => cases h
  | _ => rfl

/-- A call gets a node unless its receiver is a value that does not answer to the method with so
many arguments; then the error tells the method and the kind of the value. In the node stand the
receiver, without its mark, and all the arguments, each once and in order. -/
theorem invoke_answers (receiver : Expr) (method : String) (args : List Expr) :
    ((∃ expr, receiver.invoke method args = .ok expr) ↔
      ∀ kind, receiver.valueKind? = some kind → kind.Answers method args.length) ∧
    (∀ kind, receiver.valueKind? = some kind → ¬kind.Answers method args.length →
      receiver.invoke method args = .error (.unsupportedMethod method kind)) ∧
    ∀ expr, receiver.invoke method args = .ok expr → expr.operands = receiver.unmarked :: args := by
  cases hk : receiver.valueKind? with
  | none =>
    rw [invoke_of_unmarked hk]
    refine ⟨by simp, by simp, ?_⟩
    rintro expr ⟨⟩
    cases receiver with
    | valueOf kind inner => cases hk
    | _ => rfl
  | some kind =>
    obtain ⟨inner, rfl⟩ : ∃ inner, receiver = valueOf kind inner := by
      cases receiver with
      | valueOf other inner => exact ⟨inner, by rw [Option.some.inj hk]⟩
      | _ => cases hk
    have hr := routed_invoke kind inner method args
    simp only [Option.some.injEq, forall_eq']
    refine ⟨⟨fun ⟨expr, he⟩ => ?_, fun ha => ?_⟩, hr.refused, fun expr he => ?_⟩
    · by_contra hn
      rw [hr.refused hn] at he
      cases he
    · obtain ⟨expr, he, -⟩ := hr.answered ha
      exact ⟨expr, he⟩
    · by_cases ha : kind.Answers method args.length
      · obtain ⟨other, ho, hc⟩ := hr.answered ha
        rw [ho] at he
        cases he
        exact hc
      · rw [hr.refused ha] at he
        cases he

/-- A letter with an accent is a capital letter for a data object, but not for a JSON object. -/
theorem invoke_answers_accented :
    (∃ expr, (valueOf .dataObject (.ident "o")).invoke "getÉtat" [] = .ok expr) ∧
      (valueOf .jsonObject (.ident "o")).invoke "getÉtat" [.ident "k"] =
        .error (.unsupportedMethod "getÉtat" .jsonObject) := by
  have hd : ValueKind.Answers .dataObject "getÉtat" 0 :=
    .inl ⟨⟨'É', "tat", by decide +kernel, rfl⟩, rfl⟩
  have hj : ¬ValueKind.Answers .jsonObject "getÉtat" 1 := by
    simp only [ValueKind.Answers, ← Invocation.isJsonGetter_iff]
    decide +kernel
  exact ⟨(invoke_answers _ _ _).1.mpr fun kind hk => Option.some.inj hk ▸ hd,
    (invoke_answers _ _ _).2.1 .jsonObject rfl hj⟩

end Expr

end Polyglot
