import Polyglot.Proofs.Rendering

/-! Which trees a dialect can render. -/
namespace Polyglot

namespace Expr

/-- Expressions that the plain notation has no form for. -/
def lacksPlainForm : Expr → Bool
  | .jsonObject _ | .jsonArray _ | .dataObject .. | .jsonAssign .. | .jsonMember ..
  | .mapForEach .. => true
  | _ => false

theorem refused?_plain_isSome (value : Expr) :
    (value.refused? .plain).isSome = value.lacksPlainForm := by
  cases value <;> rfl

end Expr

namespace Place

variable {places : List Place}

/-- On Lua only steps are refused that do not update a loop, and statements that continue one. -/
theorem refused?_lua_eq_none_iff (place : Place) :
    place.refused? .lua = none ↔
      place ≠ .stmt .continueLoop ∧
        ∀ op operand, op.isStep = true → place ≠ .expr (.unary op operand) := by
  cases place with
  | expr value =>
    cases value with
    | unary op operand =>
      cases hs : op.isStep with
      | true => simp [refused?, Expr.refused?, hs]
      | false =>
        have hn : ∀ other : UnaryOp, other.isStep = true → op ≠ other := by
          rintro other ho rfl
          exact Bool.false_ne_true (hs.symm.trans ho)
        simpa [refused?, Expr.refused?, hs] using hn
    | _ => simp [refused?, Expr.refused?]
  | update value =>
    cases value <;> simp [refused?, Expr.refused?]
  | stmt value =>
    cases value <;> simp [refused?]

theorem firstRefused?_lua_eq_none_iff :
    firstRefused? .lua places = none ↔
      .stmt .continueLoop ∉ places ∧
        ∀ op operand, op.isStep = true → .expr (.unary op operand) ∉ places := by
  rw [firstRefused?, List.findSome?_eq_none_iff]
  constructor
  · intro h
    refine ⟨fun hm => ?_, fun op operand hs hm => ?_⟩
    · exact ((refused?_lua_eq_none_iff _).mp (h _ hm)).1 rfl
    · exact ((refused?_lua_eq_none_iff _).mp (h _ hm)).2 op operand hs rfl
  · rintro ⟨hc, hs⟩ place hm
    refine (refused?_lua_eq_none_iff place).mpr ⟨?_, ?_⟩
    · rintro rfl
      exact hc hm
    · rintro op operand ho rfl
      exact hs op operand ho hm

theorem refused?_plain_eq_none_iff (place : Place) :
    place.refused? .plain = none ↔
      ∀ value, place = .expr value ∨ place = .update value → value.lacksPlainForm = false := by
  have hv (value : Expr) : value.refused? .plain = none ↔ value.lacksPlainForm = false := by
    rw [← value.refused?_plain_isSome, Option.isSome_eq_false_iff, Option.isNone_iff_eq_none]
  cases place with
  | expr value => simpa [refused?] using hv value
  | update value =>
    have hu : (Place.update value).refused? .plain = value.refused? .plain := by
      cases value <;> rfl
    simpa [hu] using hv value
  | stmt value =>
    cases value <;> simp [refused?]

theorem firstRefused?_plain_eq_none_iff :
    firstRefused? .plain places = none ↔
      ∀ value, .expr value ∈ places ∨ .update value ∈ places → value.lacksPlainForm = false := by
  rw [firstRefused?, List.findSome?_eq_none_iff]
  constructor
  · rintro h value (hm | hm)
    · exact (refused?_plain_eq_none_iff _).mp (h _ hm) value (Or.inl rfl)
    · exact (refused?_plain_eq_none_iff _).mp (h _ hm) value (Or.inr rfl)
  · intro h place hm
    refine (refused?_plain_eq_none_iff place).mpr ?_
    rintro value (rfl | rfl)
    · exact h value (Or.inl hm)
    · exact h value (Or.inr hm)

end Place

/-- How the result of rendering depends on the places of a tree. -/
structure RendersExactly (dialect : Dialect) (places : List Place)
    (result : Except RenderError String) : Prop where
  groovy : dialect = .groovy → ∃ text, result = .ok text
  /-- A step that updates a loop is a place of its own kind. -/
  lua : dialect = .lua →
    ((∃ text, result = .ok text) ↔
      .stmt .continueLoop ∉ places ∧
        ∀ op operand, op.isStep = true → .expr (.unary op operand) ∉ places)
  plain : dialect = .plain →
    ((∃ text, result = .ok text) ↔
      ∀ value, .expr value ∈ places ∨ .update value ∈ places → value.lacksPlainForm = false)
  /-- The error names the first refused place, in the order in which they are visited. -/
  refusal : ∀ error, result = .error error →
    ∃ construct, places.findSome? (Place.refused? dialect) = some construct ∧
      error = .unsupported construct dialect

/-- A result whose errors are the first refusals among places is decided by them. -/
theorem RendersExactly.of_error_iff {dialect : Dialect} {places : List Place}
    {result : Except RenderError String}
    (h : ∀ error, result = .error error ↔
      ∃ construct, Place.firstRefused? dialect places = some construct ∧
        error = .unsupported construct dialect) :
    RendersExactly dialect places result := by
  have ho : (∃ text, result = .ok text) ↔ Place.firstRefused? dialect places = none := by
    cases hf : Place.firstRefused? dialect places with
    | none =>
      cases result with
      | ok text => simp
      | error error =>
        obtain ⟨construct, hc, -⟩ := (h error).mp rfl
        simp [hf] at hc
    | some construct =>
      have he := (h (.unsupported construct dialect)).mpr ⟨construct, hf, rfl⟩
      simp [he]
  refine ⟨?_, ?_, ?_, fun error => (h error).mp⟩
  · rintro rfl
    exact ho.mpr (Place.firstRefused?_groovy places)
  · rintro rfl
    exact ho.trans Place.firstRefused?_lua_eq_none_iff
  · rintro rfl
    exact ho.trans Place.firstRefused?_plain_eq_none_iff

namespace Session

/-- The trees that a session can render, and the error of those that it cannot. -/
theorem renders_exactly_supported (session : Session) :
    (∀ program : Program, RendersExactly session.dialect (program.places session.dialect)
      (session.render program).1) ∧
    (∀ expr : Expr, RendersExactly session.dialect (expr.places session.dialect)
      (session.renderExpr expr).1) :=
  ⟨fun program => .of_error_iff (render_error_iff session program),
    fun expr => .of_error_iff (renderExpr_error_iff session expr)⟩

end Session

end Polyglot
