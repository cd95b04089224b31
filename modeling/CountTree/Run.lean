/-!
Steps on a state that can fail. A failed step still leaves a state behind, so what a step has done
before its failure is part of its result.
-/

set_option autoImplicit false
set_option relaxedAutoImplicit false

namespace CountTree

/-- A step from a state of type `σ` to a value or a failure, and the state after it. -/
abbrev Run (ε σ α : Type) := EStateM ε σ α

abbrev Outcome (ε σ α : Type) := EStateM.Result ε σ α

namespace Outcome

variable {ε δ σ τ α : Type}

def state : Outcome ε σ α → σ
  | .ok _ s => s
  | .error _ s => s

/-- The state after a step, if it did not fail. -/
def stateIfOk : Outcome ε σ α → Except ε σ
  | .ok _ s => .ok s
  | .error cause _ => .error cause

def mapState (f : σ → τ) : Outcome ε σ α → Outcome ε τ α
  | .ok value s => .ok value (f s)
  | .error cause s => .error cause (f s)

def mapError (f : ε → δ) : Outcome ε σ α → Outcome δ σ α
  | .ok value s => .ok value s
  | .error cause s => .error (f cause) s

end Outcome

namespace Run

variable {ε δ σ τ α : Type}

def ofExcept (value : Except ε α) : Run ε σ α := fun s ↦
  match value with
  | .ok value => .ok value s
  | .error cause => .error cause s

def mapError (f : ε → δ) (step : Run ε σ α) : Run δ σ α := fun s ↦ Outcome.mapError f (step s)

/-- Runs a step on a part of the state, which `put` writes back whether or not it fails. -/
def onPart (part : τ → σ) (put : σ → τ → τ) (step : Run ε σ α) : Run ε τ α := fun t ↦
  Outcome.mapState (put · t) (step (part t))

/-- Runs a step on the first of two states. -/
def onFst (step : Run ε σ α) : Run ε (σ × τ) α :=
  onPart Prod.fst (fun first both ↦ (first, both.2)) step

/-- Runs a step on the second of two states. -/
def onSnd (step : Run ε τ α) : Run ε (σ × τ) α :=
  onPart Prod.snd (fun second both ↦ (both.1, second)) step

/-- Runs a step on two states as one on the second. The value, or the failure, comes with what has
become of the first. -/
def beside (first : σ) (step : Run ε (σ × τ) α) : Run (ε × σ) τ (α × σ) := fun second ↦
  match step (first, second) with
  | .ok value (first, second) => .ok (value, first) second
  | .error cause (first, second) => .error (cause, first) second

end Run

end CountTree
