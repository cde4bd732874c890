import Mathlib.Tactic

set_option autoImplicit false

namespace Reactive

variable {σ ι ο κ : Type}

-- The last state of a machine that answers each of its inputs, and all of its outputs.
def run (step : σ → ι → σ × List ο) : σ → List ι → σ × List ο
  | s, [] => (s, [])
  | s, input :: inputs =>
    ((run step (step s input).1 inputs).1, (step s input).2 ++ (run step (step s input).1 inputs).2)

-- Machines side by side: each input is for one of them, and so are its outputs.
def side [DecidableEq κ] (step : κ → σ → ι → σ × List ο) (s : κ → σ) (input : κ × ι) :
    (κ → σ) × List (κ × ο) :=
  (Function.update s input.1 (step input.1 (s input.1) input.2).1,
    (step input.1 (s input.1) input.2).2.map fun out => (input.1, out))

theorem run_append (step : σ → ι → σ × List ο) (s : σ) (before after : List ι) :
    run step s (before ++ after) =
      ((run step (run step s before).1 after).1,
        (run step s before).2 ++ (run step (run step s before).1 after).2) := by
  induction before generalizing s with
  | nil => rfl
  | cons input before ih => simp only [List.cons_append, run, ih, List.append_assoc]

theorem run_singleton (step : σ → ι → σ × List ο) (s : σ) (input : ι) :
    run step s [input] = step s input := by
  simp only [run, List.append_nil]

section Side

variable [DecidableEq κ] {α : Type}

end Side

end Reactive
