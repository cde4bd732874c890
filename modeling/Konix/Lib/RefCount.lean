import Mathlib.Tactic

set_option autoImplicit false

namespace RefCounts

variable {ι κ : Type} [DecidableEq κ]

-- What the holders that refer to `k` weigh together.
def load (holders : Finset ι) (refs : ι → Option κ) (weight : ι → Int) (k : κ) : Int :=
  ∑ i ∈ holders, if refs i = some k then weight i else 0

variable {holders : Finset ι} {refs refs' : ι → Option κ} {weight weight' : ι → Int} {k : κ}

theorem load_congr (sameRefs : ∀ i ∈ holders, refs' i = refs i)
    (sameWeight : ∀ i ∈ holders, weight' i = weight i) :
    load holders refs' weight' k = load holders refs weight k := by
  apply Finset.sum_congr rfl
  intro i member
  rw [sameRefs i member, sameWeight i member]

theorem load_nonneg (nonneg : ∀ i, 0 ≤ weight i) : 0 ≤ load holders refs weight k := by
  apply Finset.sum_nonneg
  intro i _
  split
  next => exact nonneg i
  next => exact le_refl _

theorem weight_le_load (nonneg : ∀ i, 0 ≤ weight i) {i : ι} (member : i ∈ holders)
    (holds : refs i = some k) : weight i ≤ load holders refs weight k := by
  have share := Finset.single_le_sum (f := fun i => if refs i = some k then weight i else 0)
    (fun j _ => by
      split
      next => exact nonneg j
      next => exact le_refl _) member
  rw [load]
  simpa only [holds, if_true] using share

theorem load_one : load holders refs (fun _ => 1) k =
    ((holders.filter fun i => refs i = some k).card : Int) := by
  simp only [load, Finset.sum_boole]

theorem load_idle (idle : ∀ i ∈ holders, refs i = none) : load holders refs weight k = 0 := by
  apply Finset.sum_eq_zero
  intro i member
  rw [idle i member, if_neg (by simp)]

theorem load_subset {fewer : Finset ι} (sub : fewer ⊆ holders)
    (idle : ∀ i ∈ holders, i ∉ fewer → refs i = none) :
    load fewer refs weight k = load holders refs weight k := by
  apply Finset.sum_subset sub
  intro i member absent
  rw [idle i member absent, if_neg (by simp)]

theorem update_add (count : κ → Int) (i k : κ) (more : Int) :
    Function.update count i (count i + more) k =
      count k + if some i = some k then more else 0 := by
  by_cases same : k = i
  next =>
    subst same
    rw [Function.update_self, if_pos rfl]
  next =>
    have other : ¬ some i = some k := fun h => same (Option.some.inj h).symm
    rw [Function.update_of_ne same, if_neg other, Int.add_zero]

variable [DecidableEq ι]

theorem load_insert {i : ι} (new : i ∉ holders) :
    load (insert i holders) refs weight k =
      load holders refs weight k + if refs i = some k then weight i else 0 := by
  rw [load, Finset.sum_insert new, add_comm]
  rfl

theorem load_update {i : ι} (member : i ∈ holders) (ref : Option κ) (w : Int) :
    load holders (Function.update refs i ref) (Function.update weight i w) k =
      load holders refs weight k - (if refs i = some k then weight i else 0) +
        if ref = some k then w else 0 := by
  have others : load (holders.erase i) (Function.update refs i ref) (Function.update weight i w) k =
      load (holders.erase i) refs weight k :=
    load_congr (fun j inside => Function.update_of_ne (Finset.ne_of_mem_erase inside) ..)
      fun j inside => Function.update_of_ne (Finset.ne_of_mem_erase inside) ..
  have outside := Finset.notMem_erase i holders
  rw [← Finset.insert_erase member, load_insert outside, load_insert outside, others,
    Function.update_self, Function.update_self]
  ring

theorem load_update_ref {i : ι} (member : i ∈ holders) (ref : Option κ) :
    load holders (Function.update refs i ref) weight k =
      load holders refs weight k - (if refs i = some k then weight i else 0) +
        if ref = some k then weight i else 0 := by
  have changed := @load_update _ _ _ holders refs weight k _ i member ref (weight i)
  rwa [Function.update_eq_self] at changed

end RefCounts
