import Mathlib.Tactic

set_option autoImplicit false

namespace Greatest

variable {α : Type} (eligible : α → Prop) [DecidablePred eligible] (value : α → Int)

-- The eligible element of greatest value, if one is above the best so far.
def scan : List α → Int × α → Int × α
  | [], best => best
  | x :: rest, best => scan rest (if eligible x ∧ best.1 < value x then (value x, x) else best)

variable {eligible value} {list : List α} {best : Int × α}

theorem scan_le : best.1 ≤ (scan eligible value list best).1 := by
  induction list generalizing best with
  | nil => exact le_refl _
  | cons x rest ih =>
    rw [scan]
    refine le_trans ?_ ih
    split_ifs with better
    · exact better.2.le
    · exact le_refl _

theorem le_scan {x : α} (inside : x ∈ list) (fit : eligible x) :
    value x ≤ (scan eligible value list best).1 := by
  induction list generalizing best with
  | nil => cases inside
  | cons y rest ih =>
    rw [scan]
    cases inside with
    | tail _ later => exact ih later
    | head =>
      refine le_trans ?_ scan_le
      split_ifs with better
      · exact le_refl _
      · exact not_lt.mp fun more => better ⟨fit, more⟩

-- The scan keeps what it began with, or finds an element of the list that is better.
theorem scan_found : scan eligible value list best = best ∨
    best.1 < (scan eligible value list best).1 ∧ (scan eligible value list best).2 ∈ list ∧
      eligible (scan eligible value list best).2 ∧
      value (scan eligible value list best).2 = (scan eligible value list best).1 := by
  induction list generalizing best with
  | nil => exact .inl rfl
  | cons x rest ih =>
    rw [scan]
    by_cases better : eligible x ∧ best.1 < value x
    next =>
      rw [if_pos better]
      obtain same | ⟨more, inside, fit, is_⟩ := @ih (value x, x)
      · rw [same]
        exact .inr ⟨better.2, List.mem_cons_self, better.1, rfl⟩
      · exact .inr ⟨better.2.trans more, List.mem_cons_of_mem _ inside, fit, is_⟩
    next =>
      rw [if_neg better]
      obtain same | ⟨more, inside, fit, is_⟩ := @ih best
      · exact .inl same
      · exact .inr ⟨more, List.mem_cons_of_mem _ inside, fit, is_⟩

end Greatest
