import Mathlib.Tactic

set_option autoImplicit false

namespace Chain

variable {α : Type}

def Follows (next : α → Option α) : Option α → List α → Prop
  | first, [] => first = none
  | first, a :: rest => first = some a ∧ Follows next (next a) rest

theorem follows_unique {next : α → Option α} {first : Option α} {l l' : List α}
    (left : Follows next first l) (right : Follows next first l') : l = l' := by
  induction l generalizing first l' with
  | nil =>
    cases l' with
    | nil => rfl
    | cons b rest => cases left.symm.trans right.1
  | cons a rest ih =>
    cases l' with
    | nil => cases right.symm.trans left.1
    | cons b rest' =>
      cases left.1.symm.trans right.1
      rw [ih left.2 right.2]

theorem follows_congr {next next' : α → Option α} {first : Option α} {l : List α}
    (same : ∀ a ∈ l, next' a = next a) (follows : Follows next first l) :
    Follows next' first l := by
  induction l generalizing first with
  | nil => exact follows
  | cons a rest ih =>
    refine ⟨follows.1, ?_⟩
    rw [same a List.mem_cons_self]
    exact ih (fun b member => same b (List.mem_cons_of_mem a member)) follows.2

variable [DecidableEq α]

theorem follows_update {next : α → Option α} {first : Option α} {l : List α} {b : α}
    (link : Option α) (fresh : b ∉ l) (follows : Follows next first l) :
    Follows (Function.update next b link) first l := by
  apply follows_congr _ follows
  intro a member
  have other : a ≠ b := fun same => fresh (same ▸ member)
  exact Function.update_of_ne other _ _

theorem follows_append {next : α → Option α} {first : Option α} {l : List α} {z b : α}
    (distinct : (l ++ [z]).Nodup) (fresh : b ∉ l ++ [z])
    (follows : Follows next first (l ++ [z])) :
    Follows (Function.update (Function.update next z (some b)) b none) first (l ++ [z] ++ [b]) := by
  induction l generalizing first with
  | nil =>
    have other : z ≠ b := fun same => fresh (by simp [same])
    refine ⟨follows.1, ?_, ?_⟩
    · rw [Function.update_of_ne other, Function.update_self]
    · exact Function.update_self _ _ _
  | cons a rest ih =>
    simp only [List.cons_append, List.nodup_cons, List.mem_cons, not_or] at distinct fresh
    have apart : a ≠ z := fun same => distinct.1 (by simp [same])
    refine ⟨follows.1, ?_⟩
    rw [Function.update_of_ne (Ne.symm fresh.1), Function.update_of_ne apart]
    exact ih distinct.2 fresh.2 follows.2

theorem follows_single {next : α → Option α} (b : α) :
    Follows (Function.update next b none) (some b) [b] :=
  ⟨rfl, Function.update_self _ _ _⟩

theorem follows_tail {next : α → Option α} {first : Option α} {a : α} {rest : List α}
    (distinct : (a :: rest).Nodup) (follows : Follows next first (a :: rest)) :
    Follows (Function.update next a none) (next a) rest :=
  follows_update none (List.nodup_cons.mp distinct).1 follows.2

theorem follows_remove {next : α → Option α} {first : Option α} {l rest : List α} {z a : α}
    (distinct : (l ++ z :: a :: rest).Nodup) (follows : Follows next first (l ++ z :: a :: rest)) :
    Follows (Function.update (Function.update next z (next a)) a none) first (l ++ z :: rest) := by
  induction l generalizing first with
  | nil =>
    simp only [List.nil_append, List.nodup_cons, List.mem_cons, not_or] at distinct
    refine ⟨follows.1, ?_⟩
    rw [Function.update_of_ne distinct.1.1, Function.update_self]
    exact follows_update none distinct.2.1 (follows_update (next a) distinct.1.2 follows.2.2)
  | cons b front ih =>
    simp only [List.cons_append, List.nodup_cons, List.mem_append, List.mem_cons,
      not_or] at distinct
    refine ⟨follows.1, ?_⟩
    rw [Function.update_of_ne distinct.1.2.2.1, Function.update_of_ne distinct.1.2.1]
    exact ih distinct.2 follows.2

-- `while (p->next) p = p->next;`
def lastFrom (next : α → Option α) : Nat → α → Option α
  | 0, _ => none
  | fuel + 1, p =>
    match next p with
    | none => some p
    | some p' => lastFrom next fuel p'

omit [DecidableEq α] in
theorem lastFrom_follows {next : α → Option α} {fuel : Nat} {p : α} {rest : List α}
    (follows : Follows next (some p) (p :: rest)) (enough : rest.length < fuel) :
    lastFrom next fuel p = some ((p :: rest).getLast (List.cons_ne_nil p rest)) := by
  induction rest generalizing fuel p with
  | nil =>
    cases fuel with
    | zero => omega
    | succ fuel =>
      have ends : next p = none := follows.2
      simp only [lastFrom, ends, List.getLast_singleton]
  | cons q rest ih =>
    cases fuel with
    | zero => omega
    | succ fuel =>
      have onward : next p = some q := follows.2.1
      have enough' : rest.length < fuel := Nat.lt_of_succ_lt_succ enough
      have walk := ih ⟨rfl, follows.2.2⟩ enough'
      simp only [lastFrom, onward, walk, List.getLast_cons_cons]

-- `while (p) { if (p is the one) break; prev = p; p = p->next; }`, giving the last `prev`.
def predecessor (next : α → Option α) (one : α) : Nat → Option α → Option α → Option (Option α)
  | 0, _, _ => none
  | _ + 1, none, prev => some prev
  | fuel + 1, some p, prev =>
    if p = one then some prev else predecessor next one fuel (next p) (some p)

theorem predecessor_follows {next : α → Option α} {fuel : Nat} {first prev : Option α} {one : α}
    {front rest : List α} (follows : Follows next first (front ++ one :: rest))
    (fresh : one ∉ front) (enough : front.length < fuel) :
    predecessor next one fuel first prev = some (front.getLast?.or prev) := by
  induction front generalizing fuel first prev with
  | nil =>
    cases fuel with
    | zero => omega
    | succ fuel =>
      have here : first = some one := follows.1
      simp only [here, predecessor, if_true, List.getLast?_nil, Option.none_or]
  | cons a front ih =>
    cases fuel with
    | zero => omega
    | succ fuel =>
      have here : first = some a := follows.1
      simp only [List.mem_cons, not_or] at fresh
      have other : a ≠ one := fun same => fresh.1 same.symm
      have enough' : front.length < fuel := Nat.lt_of_succ_lt_succ enough
      have walk := @ih fuel (next a) (some a) follows.2 fresh.2 enough'
      simp only [here, predecessor, other, if_false, walk]
      cases front with
      | nil => rfl
      | cons b front => simp [List.getLast?_cons]

end Chain
