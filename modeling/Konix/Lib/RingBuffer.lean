import Mathlib.Tactic

set_option autoImplicit false

namespace RingBuffers

variable {α : Type}

-- A buffer of `cap` places that is used as a queue: `head` is the next free one, `tail` the oldest.
structure RingBuffer (α : Type) where
  buf : Nat → α
  head : Nat
  tail : Nat
  count : Nat

def wrap (cap place : Nat) : Nat := if place = cap then 0 else place

namespace RingBuffer

def empty (buf : Nat → α) : RingBuffer α := ⟨buf, 0, 0, 0⟩

def put (cap : Nat) (r : RingBuffer α) (x : α) : RingBuffer α :=
  { r with
    buf := Function.update r.buf r.head x
    head := wrap cap (r.head + 1)
    count := r.count + 1 }

def front (r : RingBuffer α) : α := r.buf r.tail

def drop (cap : Nat) (r : RingBuffer α) : RingBuffer α :=
  { r with tail := wrap cap (r.tail + 1), count := r.count - 1 }

structure Valid (cap : Nat) (r : RingBuffer α) : Prop where
  tail : r.tail < cap
  count : r.count ≤ cap
  head : r.head = (r.tail + r.count) % cap

-- The queue that the buffer holds.
def contents (cap : Nat) (r : RingBuffer α) : List α :=
  (List.range r.count).map fun j => r.buf ((r.tail + j) % cap)

variable {cap : Nat} {r : RingBuffer α}

theorem wrap_eq {place : Nat} (inside : place < cap) :
    wrap cap (place + 1) = (place + 1) % cap := by
  rw [wrap]
  by_cases last : place + 1 = cap
  next => rw [if_pos last, last, Nat.mod_self]
  next => rw [if_neg last, Nat.mod_eq_of_lt (by omega)]

theorem empty_valid (buf : Nat → α) (positive : 0 < cap) : (empty buf).Valid cap := by
  constructor
  · exact positive
  · exact Nat.zero_le cap
  · exact (Nat.zero_mod cap).symm

@[simp] theorem contents_length : (r.contents cap).length = r.count := by
  simp [contents]

theorem Valid.head_lt (valid : r.Valid cap) : r.head < cap := by
  rw [valid.head]
  exact Nat.mod_lt _ (by have := valid.tail; omega)

theorem Valid.put (valid : r.Valid cap) (x : α) (room : r.count < cap) :
    (r.put cap x).Valid cap := by
  constructor
  · exact valid.tail
  · exact room
  · show wrap cap (r.head + 1) = (r.tail + (r.count + 1)) % cap
    rw [wrap_eq valid.head_lt, valid.head, Nat.mod_add_mod, Nat.add_assoc]

theorem Valid.drop (valid : r.Valid cap) (some_ : 0 < r.count) : (r.drop cap).Valid cap := by
  have positive : 0 < cap := by have := valid.tail; omega
  constructor
  · show wrap cap (r.tail + 1) < cap
    rw [wrap_eq valid.tail]
    exact Nat.mod_lt _ positive
  · exact (Nat.sub_le ..).trans valid.count
  · show r.head = (wrap cap (r.tail + 1) + (r.count - 1)) % cap
    rw [wrap_eq valid.tail, Nat.mod_add_mod, valid.head]
    congr 1
    omega

theorem place_ne {tail j k : Nat} (below : j < k) (bound : k < cap) :
    (tail + j) % cap ≠ (tail + k) % cap := by
  intro same
  have step : (tail + k) % cap = ((tail + j) % cap + (k - j)) % cap := by
    rw [Nat.mod_add_mod]
    congr 1
    omega
  have small := Nat.mod_lt (tail + j) (show 0 < cap by omega)
  rw [step] at same
  generalize (tail + j) % cap = place at same small
  by_cases fits : place + (k - j) < cap
  next =>
    rw [Nat.mod_eq_of_lt fits] at same
    omega
  next =>
    rw [Nat.mod_eq_sub_mod (by omega), Nat.mod_eq_of_lt (by omega)] at same
    omega

theorem put_contents (valid : r.Valid cap) (x : α) (room : r.count < cap) :
    (r.put cap x).contents cap = r.contents cap ++ [x] := by
  show (List.range (r.count + 1)).map (fun j => Function.update r.buf r.head x
    ((r.tail + j) % cap)) = _
  rw [List.range_succ, List.map_append, List.map_singleton, ← valid.head, Function.update_self]
  congr 1
  apply List.map_congr_left
  intro j member
  rw [valid.head]
  exact Function.update_of_ne (place_ne (List.mem_range.mp member) room) _ _

theorem contents_cons (valid : r.Valid cap) (some_ : 0 < r.count) :
    r.contents cap = r.front :: (r.drop cap).contents cap := by
  obtain ⟨n, count⟩ : ∃ n, r.count = n + 1 := ⟨r.count - 1, by omega⟩
  have rest : (r.drop cap).contents cap =
      (List.range n).map fun j => r.buf ((wrap cap (r.tail + 1) + j) % cap) := by
    show (List.range (r.count - 1)).map _ = _
    rw [count]
    rfl
  rw [rest, contents, count, List.range_succ_eq_map, List.map_cons, List.map_map, Nat.add_zero,
    Nat.mod_eq_of_lt valid.tail, wrap_eq valid.tail]
  congr 1
  apply List.map_congr_left
  intro j member
  show r.buf ((r.tail + (j + 1)) % cap) = _
  rw [Nat.mod_add_mod]
  congr 2
  omega

end RingBuffer

end RingBuffers
