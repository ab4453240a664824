/-! Loops that end after a given number of steps. -/

namespace Polyglot

/-- Takes at most `limit` steps, each of which goes on with a new state or ends with a result. -/
def iterate {σ α : Type} (step : σ → Option (σ ⊕ α)) : (limit : Nat) → σ → Option α
  | 0, _ => none
  | limit + 1, state =>
    match step state with
    | some (.inl next) => iterate step limit next
    | some (.inr result) => some result
    | none => none

end Polyglot
