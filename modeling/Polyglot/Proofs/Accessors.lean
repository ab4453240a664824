import Mathlib.Tactic.Common
import Polyglot.Accessor

/-! Getters and setters of properties. What stands behind the word `get` or `set` names a property,
and the two words read that name in the same way. -/
namespace Polyglot

/-- An ASCII letter has one lower case letter, which has it as its upper case. -/
theorem Text.toUpper_lowerCase? {c : Char} (h : c.toNat < 128) {lower : String}
    (hl : lowerCase? c = some lower) : lower.toList.map Char.toUpper = [c] := by
  have ha : ∀ code < 128, (lowerCase? (Char.ofNat code)).all
      (fun lower => lower.toList.map Char.toUpper = [Char.ofNat code]) = true := by
    decide +kernel
  have hc := ha c.toNat h
  rw [Char.ofNat_toNat, hl] at hc
  exact of_decide_eq_true hc

namespace Accessor

theorem behind?_eq_some_iff {start text rest : List Char} :
    behind? start text = some rest ↔ text = start ++ rest := by
  fun_induction behind? start text with
  | case1 text => simp
  | case2 c start => simp
  | case3 start d text ih => simpa using ih
  | case4 c start d text hc => simp [Ne.symm hc]

/-- The property is the suffix with its first letter, a capital one, in lower case. -/
def Lowers (suffix property : String) : Prop :=
  ∃ (first : Char) (lower rest : String), Text.lowerCase? first = some lower ∧
    suffix = String.singleton first ++ rest ∧ property = lower ++ rest

theorem property?_eq_some_iff {start method property : String} :
    property? start method = some property ↔
      ∃ suffix, method = start ++ suffix ∧ Lowers suffix property := by
  constructor
  · intro h
    unfold property? at h
    split at h
    · next first rest hb =>
      obtain ⟨lower, hl, rfl⟩ := Option.map_eq_some_iff.mp h
      refine ⟨String.singleton first ++ String.ofList rest, ?_, first, lower, _, hl, rfl, rfl⟩
      rw [← String.toList_inj, behind?_eq_some_iff.mp hb]
      simp
    · cases h
  · rintro ⟨suffix, rfl, first, lower, rest, hl, rfl, rfl⟩
    have hb : behind? start.toList (start ++ (String.singleton first ++ rest)).toList =
        some (first :: rest.toList) := behind?_eq_some_iff.mpr (by simp)
    unfold property?
    rw [hb]
    simp [hl]

theorem classify_eq_get_iff {method property : String} {arity : Nat} :
    classify method arity = .get property ↔
      arity = 0 ∧ ∃ suffix, method = "get" ++ suffix ∧ Lowers suffix property := by
  rw [← property?_eq_some_iff]
  unfold classify
  split
  · next hg => simp [hg]
  · next hg => simp
  · next hg hs => simpa using fun ha hp => hg property hp ha

theorem classify_eq_set_iff {method property : String} {arity : Nat} :
    classify method arity = .set property ↔
      arity = 1 ∧ ∃ suffix, method = "set" ++ suffix ∧ Lowers suffix property := by
  rw [← property?_eq_some_iff]
  unfold classify
  split
  · next hg => simp
  · next hs => simp [hs]
  · next hg hs => simpa using fun ha hp => hs property hp ha

/-- No getter is a setter, whatever the arities are. -/
theorem classify_ne_set_of_get {method property written : String} {arity other : Nat}
    (h : classify method arity = .get property) : classify method other ≠ .set written := by
  intro hs
  obtain ⟨-, suffix, rfl, -⟩ := classify_eq_get_iff.mp h
  obtain ⟨-, rest, he, -⟩ := classify_eq_set_iff.mp hs
  simp [← String.toList_inj] at he

theorem classify_eq_unsupported_iff {method : String} {arity : Nat} :
    classify method arity = .unsupported ↔ ∀ suffix property, Lowers suffix property →
      ¬(method = "get" ++ suffix ∧ arity = 0) ∧ ¬(method = "set" ++ suffix ∧ arity = 1) := by
  constructor
  · intro h suffix property hl
    refine ⟨fun ⟨hm, ha⟩ => ?_, fun ⟨hm, ha⟩ => ?_⟩
    · rw [classify_eq_get_iff.mpr ⟨ha, suffix, hm, hl⟩] at h
      cases h
    · rw [classify_eq_set_iff.mpr ⟨ha, suffix, hm, hl⟩] at h
      cases h
  · intro h
    cases hc : classify method arity with
    | get property =>
      obtain ⟨ha, suffix, hm, hl⟩ := classify_eq_get_iff.mp hc
      exact absurd ⟨hm, ha⟩ (h suffix property hl).1
    | set property =>
      obtain ⟨ha, suffix, hm, hl⟩ := classify_eq_set_iff.mp hc
      exact absurd ⟨hm, ha⟩ (h suffix property hl).2
    | unsupported => rfl

/-- The name behind the word can be told from the property, if it begins with an ASCII letter. -/
theorem Lowers.inj {suffix other property : String} (h : Lowers suffix property)
    (h' : Lowers other property) (hs : ∀ c ∈ suffix.toList.head?, c.toNat < 128)
    (ho : ∀ c ∈ other.toList.head?, c.toNat < 128) : suffix = other := by
  obtain ⟨first, lower, rest, hl, rfl, rfl⟩ := h
  obtain ⟨second, lower', rest', hl', rfl, he⟩ := h'
  have hu := Text.toUpper_lowerCase? (hs first (by simp)) hl
  have hu' := Text.toUpper_lowerCase? (ho second (by simp)) hl'
  have hn : lower.toList.length = lower'.toList.length := by
    have h₁ := congrArg List.length hu
    have h₂ := congrArg List.length hu'
    simp_all
  rw [← String.toList_inj, String.toList_append, String.toList_append] at he
  obtain ⟨hf, hr⟩ := List.append_inj he hn
  rw [hf, hu'] at hu
  rw [List.singleton_inj.mp hu, String.toList_inj.mp hr]

/-- The character behind the word `get` or `set`. -/
def initial? (method : String) : Option Char :=
  method.toList[3]?

theorem initial?_append {word suffix : String} (h : word.toList.length = 3) :
    initial? (word ++ suffix) = suffix.toList.head? := by
  simp [initial?, ← h, List.getElem?_append_right, List.head?_eq_getElem?]

/-- Getters and setters name properties in one and the same way, by a capital letter that becomes
a small one. Nothing else is a getter or a setter, nothing is both, and names that begin with an
ASCII letter are never mixed up. -/
theorem accessors_consistent (suffix property method other : String) (arity : Nat) :
    (classify ("get" ++ suffix) 0 = .get property ↔
      classify ("set" ++ suffix) 1 = .set property) ∧
    (classify ("get" ++ suffix) 0 = .get property ↔ Lowers suffix property) ∧
    (classify method arity = .unsupported ↔ ∀ suffix property, Lowers suffix property →
      ¬(method = "get" ++ suffix ∧ arity = 0) ∧ ¬(method = "set" ++ suffix ∧ arity = 1)) ∧
    (∀ read written more, classify method arity = .get read → classify method more ≠ .set written) ∧
    ((∀ c ∈ initial? method, c.toNat < 128) → (∀ c ∈ initial? other, c.toNat < 128) →
      (classify method 0 = .get property → classify other 0 = .get property → method = other) ∧
      (classify method 1 = .set property → classify other 1 = .set property → method = other)) := by
  have hg : classify ("get" ++ suffix) 0 = .get property ↔ Lowers suffix property := by
    simp [classify_eq_get_iff]
  have hs : classify ("set" ++ suffix) 1 = .set property ↔ Lowers suffix property := by
    simp [classify_eq_set_iff]
  refine ⟨hg.trans hs.symm, hg, classify_eq_unsupported_iff,
    fun _ _ _ h => classify_ne_set_of_get h, fun hm ho => ⟨fun h h' => ?_, fun h h' => ?_⟩⟩
  · obtain ⟨-, suffix, rfl, hl⟩ := classify_eq_get_iff.mp h
    obtain ⟨-, suffix', rfl, hl'⟩ := classify_eq_get_iff.mp h'
    rw [initial?_append rfl] at hm ho
    rw [hl.inj hl' hm ho]
  · obtain ⟨-, suffix, rfl, hl⟩ := classify_eq_set_iff.mp h
    obtain ⟨-, suffix', rfl, hl'⟩ := classify_eq_set_iff.mp h'
    rw [initial?_append rfl] at hm ho
    rw [hl.inj hl' hm ho]

theorem accessors_consistent_idleTimeout :
    classify "getIdleTimeout" 0 = .get "idleTimeout" ∧
      classify "setIdleTimeout" 1 = .set "idleTimeout" ∧
      ∀ other, (∀ c ∈ initial? other, c.toNat < 128) →
        classify other 0 = .get "idleTimeout" → other = "getIdleTimeout" := by
  have hg : classify ("get" ++ "IdleTimeout") 0 = .get "idleTimeout" := by decide +kernel
  refine ⟨hg, ?_, fun other ho h => ?_⟩
  · exact (accessors_consistent "IdleTimeout" "idleTimeout" "" "" 0).1.mp hg
  · have hi : ∀ c ∈ initial? "getIdleTimeout", c.toNat < 128 := by
      rintro c ⟨⟩
      decide
    obtain ⟨-, -, -, -, hinj⟩ := accessors_consistent "" "idleTimeout" other "getIdleTimeout" 0
    exact (hinj ho hi).1 h hg

end Accessor

end Polyglot
