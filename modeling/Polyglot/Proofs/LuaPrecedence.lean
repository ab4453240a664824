import Mathlib.Tactic.Common
import Polyglot.Proofs.LuaFormulas

/-! What the reader of Lua formulas makes of the words of a compound: an operand that is read where
something waits for it has the value that it has alone, if its connectives hold their operands
tightly enough for the place. -/
namespace Polyglot

namespace Lua

open Script (Value)

namespace Waiting

variable (setting : Setting)

/-- The value of an operand together with what waits for it. -/
def joinValue (value : Value) : Waiting → Value
  | .not => .bool !value.isTruthy
  | .left op first => setting.apply op (first.value setting) value
  | _ => value

/-- The value of an operand as taken by all that holds it so tightly. -/
def filled (strength : Nat) (waiting : List Waiting) (value : Value) : Value :=
  (waiting.takeWhile (holds strength)).foldl (joinValue setting) value

theorem value_join (operand : Formula) (waiting : Waiting) :
    (join operand waiting).value setting = joinValue setting (operand.value setting) waiting := by
  cases waiting <;> rfl

theorem value_joined (strength : Nat) (waiting : List Waiting) (operand : Formula) :
    (joined strength waiting operand).value setting =
      filled setting strength waiting (operand.value setting) := by
  unfold joined filled
  induction waiting.takeWhile (holds strength) generalizing operand with
  | nil => rfl
  | cons first rest ih => rw [List.foldl_cons, List.foldl_cons, ih, value_join]

variable {strength tighter : Nat}

theorem holds_of_le (h : strength ≤ tighter) {waiting : Waiting}
    (hw : waiting.holds tighter = true) : waiting.holds strength = true := by
  unfold holds at *
  cases hs : waiting.strength? with
  | none => simp [hs] at hw
  | some own =>
    have ht : tighter ≤ own := by simpa [hs] using hw
    simpa using Nat.le_trans h ht

theorem kept_of_not_holds {first : Waiting} (h : first.holds strength = false)
    (rest : List Waiting) : kept strength (first :: rest) = first :: rest := by
  simp [kept, h]

theorem kept_of_holds {first : Waiting} (h : first.holds strength = true) (rest : List Waiting) :
    kept strength (first :: rest) = kept strength rest := by
  simp [kept, h]

theorem filled_of_not_holds {first : Waiting} (h : first.holds strength = false)
    (rest : List Waiting) (value : Value) :
    filled setting strength (first :: rest) value = value := by
  simp [filled, h]

theorem filled_of_holds {first : Waiting} (h : first.holds strength = true)
    (rest : List Waiting) (value : Value) : filled setting strength (first :: rest) value =
      filled setting strength rest (joinValue setting value first) := by
  simp [filled, h]

theorem kept_kept (h : strength ≤ tighter) (waiting : List Waiting) :
    kept strength (kept tighter waiting) = kept strength waiting := by
  induction waiting with
  | nil => rfl
  | cons first rest ih =>
    cases ht : first.holds tighter with
    | true => rw [kept_of_holds ht, kept_of_holds (holds_of_le h ht), ih]
    | false => rw [kept_of_not_holds ht]

/-- An operand can first be taken by what holds it more tightly. -/
theorem filled_filled (h : strength ≤ tighter) (waiting : List Waiting) (value : Value) :
    filled setting strength (kept tighter waiting) (filled setting tighter waiting value) =
      filled setting strength waiting value := by
  induction waiting generalizing value with
  | nil => rfl
  | cons first rest ih =>
    cases ht : first.holds tighter with
    | true =>
      rw [kept_of_holds ht, filled_of_holds setting ht, ih,
        filled_of_holds setting (holds_of_le h ht)]
    | false => rw [kept_of_not_holds ht, filled_of_not_holds setting ht]

/-- What goes on waiting does not take the operand. -/
theorem filled_kept (strength : Nat) (waiting : List Waiting) (value : Value) :
    filled setting strength (kept strength waiting) value = value := by
  induction waiting with
  | nil => rfl
  | cons first rest ih =>
    cases h : first.holds strength with
    | true => rw [kept_of_holds h, ih]
    | false => rw [kept_of_not_holds h, filled_of_not_holds setting h]

/-- A place for an operand whose connectives have this strength or a greater one. What waits there
may hold as tightly only if it does not matter which of two equal connectives comes first. -/
def Ready (level : Nat) : List Waiting → Prop
  | .minus :: _ => False
  | .not :: _ => notStrength ≤ level
  | .left op _ :: rest =>
    op.strength < level ∨ op.strength = level ∧ level ≤ 2 ∧ kept level rest = rest
  | _ => True

theorem Ready.mono {level higher : Nat} (h : level ≤ higher) {waiting : List Waiting}
    (hr : Ready level waiting) : Ready higher waiting := by
  cases waiting with
  | nil => trivial
  | cons first rest =>
    cases first with
    | minus => exact hr
    | not => exact Nat.le_trans hr h
    | left op operand =>
      obtain hr | ⟨he, hl, hk⟩ := hr
      · exact .inl (Nat.lt_of_lt_of_le hr h)
      · obtain rfl | hn := Nat.eq_or_lt_of_le h
        · exact .inr ⟨he, hl, hk⟩
        · exact .inl (he ▸ hn)
    | paren | test | consequent | alternative => trivial

end Waiting

/-- `and` and `or` in a row can be grouped either way. -/
theorem Setting.apply_assoc (setting : Setting) {op : Connective} (h : op.strength ≤ 2)
    (first second third : Value) :
    setting.apply op first (setting.apply op second third) =
      setting.apply op (setting.apply op first second) third := by
  cases op with
  | or | and => cases hf : first.isTruthy <;> simp [apply, hf]
  | eq | ne => simp [Connective.strength] at h

theorem Connective.strength_lt_not (op : Connective) : op.strength < notStrength := by
  cases op <;> decide

theorem Connective.eq_of_strength {op other : Connective} (h : op.strength = other.strength)
    (hl : op.strength ≤ 2) : op = other := by
  cases op <;> cases other <;> simp_all [Connective.strength]

namespace Waiting

/-- In a place that is ready for it, a connective can take its left operand when that has been
taken by what waits. -/
theorem Ready.filled_apply {op : Connective} {waiting : List Waiting}
    (h : Ready op.strength waiting) (setting : Setting) (left right : Value) :
    filled setting op.strength waiting (setting.apply op left right) =
      setting.apply op (filled setting op.strength waiting left) right := by
  cases waiting with
  | nil => rfl
  | cons first rest =>
    cases first with
    | minus | paren | test | consequent | alternative => rfl
    | not => exact absurd h (Nat.not_le.mpr op.strength_lt_not)
    | left other operand =>
      obtain h | ⟨he, hl, hk⟩ := h
      · have hh : (Waiting.left other operand).holds op.strength = false := by
          simpa [holds, strength?] using h
        rw [filled_of_not_holds setting hh, filled_of_not_holds setting hh]
      · obtain rfl := Connective.eq_of_strength he (he ▸ hl)
        have hh : (Waiting.left other operand).holds other.strength = true := by
          simp [holds, strength?]
        rw [filled_of_holds setting hh, filled_of_holds setting hh, ← hk, filled_kept, filled_kept]
        exact setting.apply_assoc hl _ _ _

end Waiting

namespace Reading

@[simp] theorem run_nil (reading : Reading) : run [] reading = some reading := rfl

@[simp] theorem run_cons (word : Word) (rest : List Word) (reading : Reading) :
    run (word :: rest) reading = (reading.step word).bind (run rest) := rfl

@[simp] theorem run_append (first second : List Word) (reading : Reading) :
    run (first ++ second) reading = (run first reading).bind (run second) := by
  rw [run, List.foldlM_append]
  rfl

end Reading

open Waiting

/-- An operand with what waits for it later stands for a value where something waited before. -/
structure Stands (level : Nat) (waiting : List Waiting) (value : Setting → Value)
    (later : List Waiting) (operand : Formula) : Prop where
  kept_eq : ∀ strength ≤ level, kept strength later = kept strength waiting
  filled_eq : ∀ strength ≤ level, ∀ setting,
    filled setting strength later (operand.value setting) =
      filled setting strength waiting (value setting)

namespace Stands

variable {level : Nat} {waiting later : List Waiting} {value : Setting → Value} {operand : Formula}

theorem alone (h : ∀ setting, operand.value setting = value setting) (waiting : List Waiting) :
    Stands level waiting value waiting operand :=
  ⟨fun _ _ => rfl, fun _ _ setting => by rw [h]⟩

theorem weaken {lower : Nat} (h : Stands level waiting value later operand) (hl : lower ≤ level) :
    Stands lower waiting value later operand :=
  ⟨fun strength hs => h.kept_eq strength (Nat.le_trans hs hl),
    fun strength hs => h.filled_eq strength (Nat.le_trans hs hl)⟩

/-- A connective behind the operand. -/
theorem connective {op : Connective} (h : Stands level waiting value later operand)
    (hs : op.strength ≤ level) :
    ∃ left, Reading.step ⟨later, some operand, []⟩ (.connective op) =
        some ⟨.left op left :: kept op.strength waiting, none, []⟩ ∧
      ∀ setting, left.value setting = filled setting op.strength waiting (value setting) := by
  refine ⟨joined op.strength later operand, ?_, fun setting => ?_⟩
  · rw [← h.kept_eq _ hs]
    rfl
  · rw [value_joined, h.filled_eq _ hs]

/-- The end of a bracket behind the operand. -/
theorem closed {bracket : Waiting} (h : Stands level (bracket :: waiting) value later operand)
    (hb : bracket.strength? = none) :
    kept 0 later = bracket :: waiting ∧
      ∀ setting, (joined 0 later operand).value setting = value setting := by
  have hh : bracket.holds 0 = false := by simp [holds, hb]
  refine ⟨?_, fun setting => ?_⟩
  · rw [h.kept_eq 0 (Nat.zero_le _), kept_of_not_holds hh]
  · rw [value_joined, h.filled_eq 0 (Nat.zero_le _), filled_of_not_holds setting hh]

end Stands

/-- Words that are read as an operand with a value, in each place that is ready for it. -/
def Means (words : List Word) (level : Nat) (value : Setting → Value) : Prop :=
  ∀ waiting, Ready level waiting → ∃ later operand,
    Reading.run words ⟨waiting, none, []⟩ = some ⟨later, some operand, []⟩ ∧
      Stands level waiting value later operand

namespace Means

variable {words : List Word} {level : Nat} {value : Setting → Value}

theorem weaken {lower : Nat} (h : Means words level value) (hl : lower ≤ level) :
    Means words lower value := by
  intro waiting hw
  obtain ⟨later, operand, hr, hs⟩ := h waiting (hw.mono hl)
  exact ⟨later, operand, hr, hs.weaken hl⟩

/-- A word that is an operand. -/
theorem single {word : Word} (operand : Formula)
    (h : ∀ waiting, Ready level waiting →
      Reading.operandStep waiting word = some ⟨waiting, some operand, []⟩) :
    Means [word] level (Formula.value · operand) := by
  intro waiting hw
  refine ⟨waiting, operand, ?_, .alone (fun _ => rfl) waiting⟩
  simp [Reading.step, h waiting hw]

theorem numeral (digits : String) :
    Means [.numeral digits] level (Formula.value · (.number false digits)) := by
  refine single (.number false digits) fun waiting hw => ?_
  cases waiting with
  | nil => rfl
  | cons first rest =>
    cases first with
    | minus => exact False.elim hw
    | not | left | paren | test | consequent | alternative => rfl

theorem negative (digits : String) :
    Means [.minus, .numeral digits] level (Formula.value · (.number true digits)) :=
  fun waiting _ => ⟨waiting, .number true digits, rfl, .alone (fun _ => rfl) waiting⟩

theorem not (h : Means words notStrength value) :
    Means (.not :: words) notStrength fun setting => .bool !(value setting).isTruthy := by
  intro waiting _
  obtain ⟨later, operand, hr, hs⟩ := h (.not :: waiting) (Nat.le_refl _)
  refine ⟨later, operand, hr, fun strength hl => ?_, fun strength hl setting => ?_⟩
  all_goals have hh : Waiting.not.holds strength = true := by simpa [holds, strength?] using hl
  · rw [hs.kept_eq strength hl, kept_of_holds hh]
  · rw [hs.filled_eq strength hl, filled_of_holds setting hh]
    rfl

theorem parens (h : Means words level value) :
    Means (.openParen :: words ++ [.closeParen]) notStrength value := by
  intro waiting _
  obtain ⟨later, operand, hr, hs⟩ := h (.paren :: waiting) trivial
  obtain ⟨hk, hv⟩ := hs.closed rfl
  refine ⟨waiting, joined 0 later operand, ?_, .alone hv waiting⟩
  simp [Reading.step, Reading.operandStep, Reading.closingStep, hr, hk]

/-- A connective between operands that hold together more tightly. On its right there may be
another one of its kind, if the two can be grouped either way. -/
theorem binary (op : Connective) {right : List Word} {higher : Nat} {last : Setting → Value}
    (hl : Means words level value) (hr : Means right higher last) (hs : op.strength ≤ level)
    (ht : op.strength < higher ∨ op.strength = higher ∧ higher ≤ 2) :
    Means (words ++ [.connective op] ++ right) op.strength fun setting =>
      setting.apply op (value setting) (last setting) := by
  intro waiting hw
  obtain ⟨middle, operand, hrun, hstands⟩ := hl waiting (hw.mono hs)
  obtain ⟨left, hstep, hleft⟩ := hstands.connective hs
  have hready : Ready higher (.left op left :: kept op.strength waiting) := by
    refine ht.imp_right fun ⟨he, hb⟩ => ⟨he, hb, ?_⟩
    rw [he, kept_kept (Nat.le_refl _)]
  obtain ⟨later, operand, hrun', hstands'⟩ := hr _ hready
  have hhigher : op.strength ≤ higher := by omega
  refine ⟨later, operand, by simp [hrun, hstep, hrun'], fun strength hn => ?_,
    fun strength hn setting => ?_⟩
  all_goals
    have hh : (Waiting.left op left).holds strength = true := by simpa [holds, strength?] using hn
  · rw [hstands'.kept_eq strength (by omega), kept_of_holds hh, kept_kept hn]
  · calc filled setting strength later (operand.value setting)
      _ = filled setting strength (kept op.strength waiting)
            (setting.apply op (left.value setting) (last setting)) := by
        rw [hstands'.filled_eq strength (by omega), filled_of_holds setting hh]
        rfl
      _ = filled setting strength (kept op.strength waiting) (filled setting op.strength waiting
            (setting.apply op (value setting) (last setting))) := by
        rw [hleft, hw.filled_apply]
      _ = filled setting strength waiting (setting.apply op (value setting) (last setting)) :=
        filled_filled setting hn waiting _

/-- A function that decides between two values and is called at once. -/
theorem choice {test consequent alternative : List Word} {low middle high : Nat}
    {decides value other : Setting → Value} (ht : Means test low decides)
    (hc : Means consequent middle value) (ha : Means alternative high other) :
    Means ([.openParen, .functionWord, .openParen, .closeParen, .ifWord] ++ test ++
        [.thenWord, .returnWord] ++ consequent ++ [.elseWord, .returnWord] ++ alternative ++
        [.endWord, .endWord, .closeParen, .openParen, .closeParen]) notStrength fun setting =>
      if (decides setting).isTruthy then value setting else other setting := by
  intro waiting _
  obtain ⟨tested, test, hrt, hst⟩ := ht (.test :: waiting) trivial
  obtain ⟨hkt, hvt⟩ := hst.closed rfl
  obtain ⟨taken, consequent, hrc, hsc⟩ := hc (.consequent (joined 0 tested test) :: waiting) trivial
  obtain ⟨hkc, hvc⟩ := hsc.closed rfl
  obtain ⟨left, alternative, hra, hsa⟩ :=
    ha (.alternative (joined 0 tested test) (joined 0 taken consequent) :: waiting) trivial
  obtain ⟨hka, hva⟩ := hsa.closed rfl
  refine ⟨waiting, .choice (joined 0 tested test) (joined 0 taken consequent)
    (joined 0 left alternative), ?_, .alone (fun setting => ?_) waiting⟩
  · simp [Reading.step, Reading.operandStep, Reading.closingStep, hrt, hkt, hrc, hkc, hra, hka]
  · rw [Formula.value, hvt, hvc, hva]

/-- The words alone. -/
theorem ofWords? (h : Means words level value) :
    ∃ formula, Formula.ofWords? words = some formula ∧
      ∀ setting, formula.value setting = value setting := by
  obtain ⟨later, operand, hr, hs⟩ := h [] trivial
  have hk : kept 0 later = [] := hs.kept_eq 0 (Nat.zero_le _)
  refine ⟨joined 0 later operand, ?_, fun setting => ?_⟩
  · simp [Formula.ofWords?, hr, Reading.result?, hk]
  · rw [value_joined, hs.filled_eq 0 (Nat.zero_le _)]
    rfl

end Means

end Lua

end Polyglot
