import Konix.Lib.Splice

set_option autoImplicit false

open Splice

@[ext] structure OpenFile (α : Type) where
  cells : Nat → α
  size : Nat
  pos : Nat → Nat

inductive Access (α : Type)
  | read (desc len : Nat)
  | write (desc len : Nat) (data : Nat → α)

namespace Access

variable {α : Type}

def desc : Access α → Nat
  | .read desc _ => desc
  | .write desc _ _ => desc

def len : Access α → Nat
  | .read _ len => len
  | .write _ len _ => len

end Access

namespace OpenFile

variable {α : Type}

def moved (file : OpenFile α) (access : Access α) : Nat → Nat :=
  Function.update file.pos access.desc (file.pos access.desc + access.len)

def step (file : OpenFile α) (access : Access α) : OpenFile α :=
  match access with
  | .read _ _ => { file with pos := file.moved access }
  | .write desc len data =>
    { cells := splice file.cells (file.pos desc) len data
      size := max file.size (file.pos desc + len)
      pos := file.moved access }

def cellsAt (cells : Nat → α) (start len : Nat) : List α :=
  (List.range len).map (window cells start)

def answer (file : OpenFile α) : Access α → List α
  | .read desc len => cellsAt file.cells (file.pos desc) len
  | .write _ _ _ => []

-- A read ends within the size, a write within the space the file has.
def Fits (space : Nat) (file : OpenFile α) : Access α → Prop
  | .read desc len => file.pos desc + len ≤ file.size
  | .write desc len _ => file.pos desc + len ≤ space

def run (file : OpenFile α) (accesses : List (Access α)) : OpenFile α := accesses.foldl step file

def answers : OpenFile α → List (Access α) → List (List α)
  | _, [] => []
  | file, access :: rest => file.answer access :: answers (file.step access) rest

def FitsAll (space : Nat) : OpenFile α → List (Access α) → Prop
  | _, [] => True
  | file, access :: rest => file.Fits space access ∧ FitsAll space (file.step access) rest

def Covers (file : OpenFile α) (b : Nat) : Access α → Prop
  | .read _ _ => False
  | .write desc len _ => file.pos desc ≤ b ∧ b < file.pos desc + len

def Written (b : Nat) : OpenFile α → List (Access α) → Prop
  | _, [] => False
  | file, access :: rest => file.Covers b access ∨ Written b (file.step access) rest

-- Where the writes end, one after the other.
def ends : OpenFile α → List (Access α) → List Nat
  | _, [] => []
  | file, .read desc len :: rest => ends (file.step (.read desc len)) rest
  | file, .write desc len data :: rest =>
    (file.pos desc + len) :: ends (file.step (.write desc len data)) rest

theorem cellsAt_congr {f g : Nat → α} {start start' len : Nat}
    (agree : ∀ j, j < len → f (start + j) = g (start' + j)) :
    cellsAt f start len = cellsAt g start' len := by
  apply List.map_congr_left
  intro j member
  exact agree j (List.mem_range.mp member)

@[simp] theorem step_pos (file : OpenFile α) (access : Access α) :
    (file.step access).pos = file.moved access := by
  cases access <;> rfl

theorem step_kept (file : OpenFile α) (access : Access α) {b : Nat}
    (kept : ¬ file.Covers b access) : (file.step access).cells b = file.cells b := by
  cases access with
  | read desc len => rfl
  | write desc len data =>
    apply splice_outside
    simp only [Covers] at kept
    omega

theorem run_kept (file : OpenFile α) (accesses : List (Access α)) {b : Nat}
    (kept : ¬ Written b file accesses) : (file.run accesses).cells b = file.cells b := by
  induction accesses generalizing file with
  | nil => rfl
  | cons access rest ih =>
    simp only [Written, not_or] at kept
    exact (ih (file.step access) kept.2).trans (file.step_kept access kept.1)

theorem run_size (file : OpenFile α) (accesses : List (Access α)) :
    (file.run accesses).size = (file.ends accesses).foldl max file.size := by
  induction accesses generalizing file with
  | nil => rfl
  | cons access rest ih =>
    cases access with
    | read desc len => exact ih (file.step (.read desc len))
    | write desc len data => exact ih (file.step (.write desc len data))

end OpenFile
