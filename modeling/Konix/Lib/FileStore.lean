import Konix.Lib.OpenFile
import Konix.Lib.Run

set_option autoImplicit false

namespace FileStores

open Splice Runs

variable {κ α : Type}

-- The cells of a file, of which as many count as its size says.
@[ext] structure File (α : Type) where
  cells : Nat → α
  size : Nat

abbrev Store (κ α : Type) := κ → Option (File α)

inductive Op (κ α : Type)
  | quiet
  | create (x : κ)
  | remove (x : κ)
  | read (x : κ) (off : Nat) (seen : List α)
  | write (x : κ) (off len : Nat) (data : Nat → α)

def File.written (file : File α) (off len : Nat) (data : Nat → α) : File α :=
  ⟨splice file.cells off len data, max file.size (off + len)⟩

/--
A new file is empty, whatever its cells hold. A read stays inside the size of its file, and a write
begins there.
-/
inductive Step [DecidableEq κ] : Store κ α → Op κ α → Store κ α → Prop
  | quiet (st : Store κ α) : Step st .quiet st
  | create {st : Store κ α} {x : κ} (cells : Nat → α) (absent : st x = none) :
      Step st (.create x) (Function.update st x (some ⟨cells, 0⟩))
  | remove {st : Store κ α} {x : κ} {file : File α} (there : st x = some file) :
      Step st (.remove x) (Function.update st x none)
  | read {st : Store κ α} {x : κ} {file : File α} {off len : Nat} (there : st x = some file)
      (inside : off + len ≤ file.size) :
      Step st (.read x off (OpenFile.cellsAt file.cells off len)) st
  | write {st : Store κ α} {x : κ} {file : File α} {off len : Nat} {data : Nat → α}
      (there : st x = some file) (inside : off ≤ file.size) :
      Step st (.write x off len data) (Function.update st x (some (file.written off len data)))

def Op.Writes (op : Op κ α) (x : κ) (b : Nat) (v : α) : Prop :=
  ∃ off len data, op = .write x off len data ∧ off ≤ b ∧ b < off + len ∧ v = data (b - off)

theorem Op.not_writes {op : Op κ α} {x : κ} {b : Nat}
    (other : ∀ y off len data, op ≠ .write y off len data) (v : α) : ¬ op.Writes x b v := by
  rintro ⟨off, len, data, same, -⟩
  exact other x off len data same

section Runs

variable [DecidableEq κ] {init : Store κ α → Prop} {st st' : Store κ α} {op : Op κ α} {x : κ}
  {b : Nat}

/--
What cell `b` holds before step `t` was written by one step, since which the file has been there
and the cell has not been written.
-/
def LastWritten (run : Run init (Step (κ := κ) (α := α))) (x : κ) (b : Nat) (v : α) (t : Nat) :
    Prop :=
  ∃ t₀, t₀ < t ∧ (run.act t₀).Writes x b v ∧
    ∀ u, t₀ < u → u < t → (run.state u x).isSome ∧ ∀ w, ¬ (run.act u).Writes x b w

theorem Step.inside {file' : File α} (step : Step st op st') (there : st' x = some file')
    (inside : b < file'.size) : op.Writes x b (file'.cells b) ∨
      (∀ v, ¬ op.Writes x b v) ∧ ∃ file, st x = some file ∧ b < file.size ∧
        file'.cells b = file.cells b := by
  have elsewhere {y : κ} {new : Option (File α)} (different : x ≠ y)
      (now : Function.update st y new x = some file') : st x = some file' := by
    rwa [Function.update_of_ne different] at now
  cases step with
  | quiet => exact .inr ⟨Op.not_writes (by simp), file', there, inside, rfl⟩
  | @create y cells absent =>
    by_cases here : x = y
    next =>
      subst here
      rw [Function.update_self, Option.some.injEq] at there
      subst there
      exact absurd inside (Nat.not_lt_zero b)
    next =>
      exact .inr ⟨Op.not_writes (by simp), file', elsewhere here there, inside, rfl⟩
  | @remove y file gone =>
    by_cases here : x = y
    next =>
      subst here
      rw [Function.update_self] at there
      cases there
    next =>
      exact .inr ⟨Op.not_writes (by simp), file', elsewhere here there, inside, rfl⟩
  | @read y file off len there' fits =>
    exact .inr ⟨Op.not_writes (by simp), file', there, inside, rfl⟩
  | @write y file off len data there' begins =>
    by_cases here : x = y
    next =>
      subst here
      rw [Function.update_self, Option.some.injEq] at there
      subst there
      by_cases covered : off ≤ b ∧ b < off + len
      next =>
        exact .inl ⟨off, len, data, rfl, covered.1, covered.2,
          splice_inside _ _ covered.1 covered.2⟩
      next =>
        have grown : b < max file.size (off + len) := inside
        refine .inr ⟨?_, file, there', by omega, splice_outside _ _ (by omega)⟩
        rintro v ⟨_, _, _, same, lower, upper, -⟩
        cases same
        exact covered ⟨lower, upper⟩
    next =>
      refine .inr ⟨?_, file', elsewhere here there, inside, rfl⟩
      rintro v ⟨_, _, _, same, -⟩
      cases same
      exact here rfl

theorem Step.size_le {bound : Nat} (step : Step st op st')
    (fits : ∀ x off len data, op = .write x off len data → off + len ≤ bound)
    (sizes : ∀ x file, st x = some file → file.size ≤ bound) (x : κ) (file : File α)
    (there : st' x = some file) : file.size ≤ bound := by
  have here {y : κ} {new : Option (File α)} (now : Function.update st y new x = some file)
      (small : ∀ made, new = some made → made.size ≤ bound) : file.size ≤ bound := by
    by_cases same : x = y
    next =>
      rw [same, Function.update_self] at now
      exact small file now
    next =>
      rw [Function.update_of_ne same] at now
      exact sizes x file now
  cases step with
  | quiet => exact sizes x file there
  | create cells absent =>
    refine here there ?_
    rintro made ⟨⟩
    exact Nat.zero_le _
  | remove gone => exact here there (by rintro made ⟨⟩)
  | read there' inside => exact sizes x file there
  | @write y old off len data there' begins =>
    refine here there ?_
    rintro made ⟨⟩
    exact Nat.max_le.mpr ⟨sizes y old there', fits y off len data rfl⟩

-- Each cell inside the size of a file was written since the file was created.
theorem last_written (run : Run (fun st : Store κ α => ∀ x, st x = none) Step) :
    ∀ t, t ≤ run.length → ∀ x file b, run.state t x = some file → b < file.size →
      LastWritten run x b (file.cells b) t := by
  apply run.timed_invariant (P := fun t st => ∀ x file b, st x = some file → b < file.size →
    LastWritten run x b (file.cells b) t)
  · intro st empty x file b there
    rw [empty x] at there
    cases there
  · intro t within before x file' b there inside
    rcases (run.steps t within).inside there inside with now | ⟨none_, file, was, old, same⟩
    · exact ⟨t, Nat.lt_succ_self t, now, fun u after below => by omega⟩
    · obtain ⟨t₀, earlier, wrote, since⟩ := before x file b was old
      rw [same]
      refine ⟨t₀, by omega, wrote, fun u after below => ?_⟩
      by_cases last : u = t
      next =>
        subst last
        rw [was]
        exact ⟨rfl, none_⟩
      next => exact since u after (by omega)

-- What a read sees is what was written last, cell by cell.
theorem read_last_written (run : Run (fun st : Store κ α => ∀ x, st x = none) Step) {t off : Nat}
    {seen : List α} (within : t < run.length) (reads : run.act t = .read x off seen) (j : Nat)
    (inside : j < seen.length) : LastWritten run x (off + j) (seen.get ⟨j, inside⟩) t := by
  have step := run.steps t within
  rw [reads] at step
  generalize hs : run.state t = st at step
  generalize hs' : run.state (t + 1) = st' at step
  cases step with
  | @read _ file _ len there fits =>
    simp only [OpenFile.cellsAt, List.length_map, List.length_range] at inside
    have written := last_written run t (le_of_lt within) x file (off + j) (hs ▸ there) (by omega)
    simpa [OpenFile.cellsAt] using written

end Runs

end FileStores
