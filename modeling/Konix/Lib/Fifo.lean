import Konix.Lib.RingBuffer
import Konix.Lib.Run

set_option autoImplicit false

/-!
A queue of bounded length with its history, and the ring buffers that hold such queues.
-/

namespace Fifo

open RingBuffers

variable {α : Type}

inductive Event (α : Type)
  | insert (x : α)
  | remove (x : α)
  | other

-- The values that the queue has accepted and those that were removed from it, oldest first.
structure Log (α : Type) where
  accepted : List α
  removed : List α

namespace Log

def empty : Log α := ⟨[], []⟩

def held (l : Log α) : Nat := l.accepted.length - l.removed.length

end Log

-- A value is dropped only by a full queue, and the one that is removed is the oldest that it holds.
inductive Step (cap : Nat) : Log α → Event α → Log α → Prop
  | accept {l : Log α} (x : α) (room : l.held < cap) :
      Step cap l (.insert x) { l with accepted := l.accepted ++ [x] }
  | drop {l : Log α} (x : α) (full : l.held = cap) : Step cap l (.insert x) l
  | remove {l : Log α} {x : α} {rest : List α} (oldest : l.accepted = l.removed ++ x :: rest) :
      Step cap l (.remove x) { l with removed := l.removed ++ [x] }
  | other {l : Log α} : Step cap l .other l

-- The ring is in order and holds the values that were accepted and not removed.
structure Holds (cap : Nat) (r : RingBuffer α) (l : Log α) : Prop where
  valid : r.Valid cap
  head : r.head < cap
  queue : l.accepted = l.removed ++ r.contents cap

variable {cap : Nat} {r : RingBuffer α} {l : Log α}

theorem holds_empty (buf : Nat → α) (positive : 0 < cap) : Holds cap (.empty buf) .empty := by
  have valid := RingBuffer.empty_valid buf positive
  exact ⟨valid, valid.head_lt, rfl⟩

theorem Holds.held (holds : Holds cap r l) : l.held = r.count := by
  simp [Log.held, holds.queue]

theorem Holds.insert (holds : Holds cap r l) (x : α) :
    ∃ l', Step cap l (.insert x) l' ∧
      Holds cap (if r.count < cap then r.put cap x else r) l' := by
  by_cases room : r.count < cap
  next =>
    have valid := holds.valid.put x room
    refine ⟨_, .accept x (by rwa [holds.held]), ?_⟩
    rw [if_pos room]
    refine ⟨valid, valid.head_lt, ?_⟩
    simp [RingBuffer.put_contents holds.valid x room, holds.queue]
  next =>
    have full : l.held = cap := by
      have bound := holds.valid.count
      rw [holds.held]
      omega
    rw [if_neg room]
    exact ⟨l, .drop x full, holds⟩

theorem Holds.remove (holds : Holds cap r l) (some_ : r.count ≠ 0) :
    ∃ l', Step cap l (.remove r.front) l' ∧ Holds cap (r.drop cap) l' := by
  have positive : 0 < r.count := Nat.pos_of_ne_zero some_
  have valid := holds.valid.drop positive
  have queue := holds.queue
  rw [RingBuffer.contents_cons holds.valid positive] at queue
  refine ⟨_, .remove queue, valid, valid.head_lt, ?_⟩
  simp [queue]

end Fifo
