import Mathlib.Tactic

set_option autoImplicit false

/-!
Graphs in which every node has at most one successor, and the walk along it.
-/

namespace Walk

open Relation

variable {α : Type}

def Edge (next : α → Option α) (a b : α) : Prop := next a = some b

def Acyclic (next : α → Option α) : Prop := ∀ a, ¬ TransGen (Edge next) a a

-- The nodes from `a` to the end, `none` if there are more than `fuel` of them.
def walk (next : α → Option α) : Nat → α → Option (List α)
  | 0, _ => none
  | fuel + 1, a =>
    match next a with
    | none => some [a]
    | some b => (walk next fuel b).map (a :: ·)

-- The first nodes from `a` on, no more than `n` of them.
def firstNodes (next : α → Option α) : Nat → α → List α
  | 0, _ => []
  | n + 1, a =>
    a :: match next a with
    | none => []
    | some b => firstNodes next n b

variable {next next' : α → Option α}

theorem Acyclic.mono (acyclic : Acyclic next) (fewer : ∀ a b, next' a = some b → next a = some b) :
    Acyclic next' :=
  fun a cycle => acyclic a (TransGen.mono fewer a a cycle)

theorem Acyclic.clear [DecidableEq α] (acyclic : Acyclic next) (a : α) :
    Acyclic (Function.update next a none) := by
  apply acyclic.mono
  intro b c edge
  by_cases same : b = a
  · rw [same, Function.update_self] at edge
    cases edge
  · rwa [Function.update_of_ne same] at edge

theorem cycle_forward {a b : α} (cycle : TransGen (Edge next) a a)
    (path : ReflTransGen (Edge next) a b) : TransGen (Edge next) b b := by
  induction path with
  | refl => exact cycle
  | tail _ edge ih =>
    obtain ⟨c, edge', rest⟩ := TransGen.head'_iff.mp ih
    cases edge.symm.trans edge'
    exact TransGen.tail' rest edge

section Extend

variable [DecidableEq α] {s d a b : α}

theorem reaches_update (path : ReflTransGen (Edge (Function.update next s (some d))) a s) :
    ReflTransGen (Edge next) a s := by
  induction path using ReflTransGen.head_induction_on with
  | refl => exact .refl
  | @head a c edge _ ih =>
    by_cases same : a = s
    next =>
      rw [same]
    next =>
      rw [Edge, Function.update_of_ne same] at edge
      exact .head edge ih

theorem path_update (path : TransGen (Edge (Function.update next s (some d))) a b) :
    TransGen (Edge next) a b ∨ ReflTransGen (Edge (Function.update next s (some d))) a s := by
  induction path using TransGen.head_induction_on with
  | @single a edge =>
    by_cases same : a = s
    next =>
      rw [same]
      exact .inr .refl
    next =>
      rw [Edge, Function.update_of_ne same] at edge
      exact .inl (.single edge)
  | @head a c edge _ ih =>
    rcases ih with old | new
    · by_cases same : a = s
      next =>
        rw [same]
        exact .inr .refl
      next =>
        rw [Edge, Function.update_of_ne same] at edge
        exact .inl (.head edge old)
    · exact .inr (.head edge new)

-- An edge closes no cycle when its target does not lead back to its source.
theorem Acyclic.extend (acyclic : Acyclic next) (away : ¬ ReflTransGen (Edge next) d s) :
    Acyclic (Function.update next s (some d)) := by
  intro a cycle
  rcases path_update cycle with old | new
  · exact acyclic a old
  · obtain ⟨c, edge, rest⟩ := TransGen.head'_iff.mp (cycle_forward cycle new)
    rw [Edge, Function.update_self] at edge
    cases edge
    exact away (reaches_update rest)

end Extend

theorem not_edge {a c : α} (last : next a = none) : ¬ TransGen (Edge next) a c := by
  intro path
  obtain ⟨b, edge, -⟩ := TransGen.head'_iff.mp path
  cases last.symm.trans edge

theorem transGen_edge {a b c : α} (edge : next a = some b) :
    TransGen (Edge next) a c ↔ b = c ∨ TransGen (Edge next) b c := by
  constructor
  · intro path
    obtain ⟨b', edge', rest⟩ := TransGen.head'_iff.mp path
    cases edge.symm.trans edge'
    exact (reflTransGen_iff_eq_or_transGen.mp rest).imp_left Eq.symm
  · rintro (rfl | rest)
    · exact .single edge
    · exact .head edge rest

theorem firstNodes_length (next : α → Option α) (n : Nat) (a : α) :
    (firstNodes next n a).length ≤ n := by
  induction n generalizing a with
  | zero => exact Nat.le_refl 0
  | succ n ih =>
    rw [firstNodes, List.length_cons]
    apply Nat.succ_le_succ
    cases next a with
    | none => exact Nat.zero_le n
    | some b => exact ih b

theorem walk_goes {fuel : Nat} {a : α} (acyclic : Acyclic next) (goes : walk next fuel a = none) :
    ∃ nodes : List α, nodes.length = fuel + 1 ∧ nodes.Nodup ∧
      ∀ b ∈ nodes, ReflTransGen (Edge next) a b := by
  induction fuel generalizing a with
  | zero => exact ⟨[a], rfl, List.nodup_singleton a, fun b member => by
      rw [List.mem_singleton.mp member]⟩
  | succ fuel ih =>
    rw [walk] at goes
    cases edge : next a with
    | none =>
      rw [edge] at goes
      cases goes
    | some c =>
      rw [edge] at goes
      obtain ⟨nodes, length, nodup, path⟩ := ih (Option.map_eq_none_iff.mp goes)
      refine ⟨a :: nodes, by rw [List.length_cons, length], ?_, ?_⟩
      · refine List.nodup_cons.mpr ⟨fun member => ?_, nodup⟩
        exact acyclic a (TransGen.head' edge (path a member))
      · intro b member
        rcases List.mem_cons.mp member with same | rest
        · rw [same]
        · exact .head edge (path b rest)

-- A walk inside a finite set meets each of its nodes at most once.
theorem walk_ends {nodes : Finset α} {a : α} (acyclic : Acyclic next)
    (closed : ∀ b ∈ nodes, ∀ c, next b = some c → c ∈ nodes) (member : a ∈ nodes) :
    ∃ l, walk next nodes.card a = some l := by
  classical
  have inside {b : α} (path : ReflTransGen (Edge next) a b) : b ∈ nodes := by
    induction path with
    | refl => exact member
    | tail _ edge ih => exact closed _ ih _ edge
  cases ends : walk next nodes.card a with
  | some l => exact ⟨l, rfl⟩
  | none =>
    obtain ⟨l, length, nodup, path⟩ := walk_goes acyclic ends
    have few : l.length ≤ nodes.card := by
      rw [← l.toFinset_card_of_nodup nodup]
      apply Finset.card_le_card
      intro b visited
      exact inside (path b (List.mem_toFinset.mp visited))
    omega

end Walk
