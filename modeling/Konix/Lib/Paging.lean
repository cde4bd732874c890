import Konix.Lib.Words

set_option autoImplicit false

namespace Paging

open Words

def pageSize : Nat := 4096
def tableEntries : Nat := 1024

def tableSpan : Nat := tableEntries * pageSize

def frameOf (entry : Nat) : Nat := entry / pageSize * pageSize

def present (entry : Nat) : Bool := entry.testBit 0

-- The present, write and user bits.
def rights (entry : Nat) : Nat := entry % 8

-- The walk of the processor through the directory and a table, to an address and what both allow.
def walk (mem : Nat → UInt8) (cr3 la : Nat) : Option (Nat × Nat) :=
  let pde := wordAt mem (cr3 + 4 * (la / tableSpan))
  let pte := wordAt mem (frameOf pde + 4 * (la / pageSize % tableEntries))
  if present pde && present pte then
    some (frameOf pte + la % pageSize, rights pde &&& rights pte)
  else none

-- What is read at a linear address, and what a write there makes of memory; else there is a page
-- fault.
def read (mem : Nat → UInt8) (cr3 la : Nat) : Option UInt8 :=
  (walk mem cr3 la).map fun page => mem page.1

def write (mem : Nat → UInt8) (cr3 la : Nat) (byte : UInt8) : Option (Nat → UInt8) :=
  (walk mem cr3 la).map fun page => Function.update mem page.1 byte

-- The first `n` entries of the directory at `dir` lead to tables that lie behind each other, and
-- the entries of these to the frames in their order, all with full rights.
structure Identity (mem : Nat → UInt8) (dir tables n : Nat) : Prop where
  directory : ∀ i, i < n → wordAt mem (dir + 4 * i) = tables + pageSize * i + 7
  pages : ∀ k, k < n * tableEntries → wordAt mem (tables + 4 * k) = pageSize * k + 7

variable {mem mem' : Nat → UInt8} {dir tables n la : Nat}

theorem frameOf_entry (base : Nat) (aligned : base % pageSize = 0) :
    frameOf (base + 7) = base ∧ present (base + 7) = true ∧ rights (base + 7) = 7 := by
  unfold pageSize at aligned
  have odd : (base + 7) % 2 = 1 := by omega
  have present_ : present (base + 7) = true := by
    rw [present, Nat.testBit_zero, decide_eq_true_eq]
    exact odd
  unfold frameOf rights pageSize
  exact ⟨by omega, present_, by omega⟩

theorem Identity.walk (identity : Identity mem dir tables n) (aligned : tables % pageSize = 0)
    (inside : la < n * tableSpan) : walk mem dir la = some (la, 7) := by
  have table : la / tableSpan < n := Nat.div_lt_of_lt_mul (by rwa [Nat.mul_comm])
  have place : tables + pageSize * (la / tableSpan) + 4 * (la / pageSize % tableEntries) =
      tables + 4 * (la / pageSize) := by
    unfold tableSpan pageSize tableEntries
    omega
  have page : la / pageSize < n * tableEntries := by
    unfold tableSpan at inside
    exact Nat.div_lt_of_lt_mul (by rwa [Nat.mul_comm, Nat.mul_assoc])
  obtain ⟨toTable, there, full⟩ := frameOf_entry (tables + pageSize * (la / tableSpan)) (by
    unfold pageSize at aligned ⊢
    omega)
  obtain ⟨toPage, there', full'⟩ := frameOf_entry (pageSize * (la / pageSize))
    (Nat.mul_mod_right ..)
  rw [Paging.walk]
  simp only [identity.directory _ table, toTable, place, identity.pages _ page, toPage, there,
    there', full, full', Bool.and_self, if_true]
  rw [Nat.div_add_mod]
  rfl

theorem Identity.read (identity : Identity mem dir tables n) (aligned : tables % pageSize = 0)
    (inside : la < n * tableSpan) : read mem dir la = some (mem la) := by
  rw [Paging.read, identity.walk aligned inside]
  rfl

theorem Identity.write (identity : Identity mem dir tables n) (aligned : tables % pageSize = 0)
    (inside : la < n * tableSpan) (byte : UInt8) :
    write mem dir la byte = some (Function.update mem la byte) := by
  rw [Paging.write, identity.walk aligned inside]
  rfl

theorem Identity.congr (identity : Identity mem dir tables n)
    (sameDir : ∀ a, dir ≤ a → a < dir + 4 * n → mem' a = mem a)
    (sameTables : ∀ a, tables ≤ a → a < tables + pageSize * n → mem' a = mem a) :
    Identity mem' dir tables n := by
  constructor
  next =>
    intro i inside
    rw [← identity.directory i inside]
    exact wordAt_congr fun j small => sameDir _ (by omega) (by omega)
  next =>
    intro k inside
    rw [← identity.pages k inside]
    unfold tableEntries at inside
    exact wordAt_congr fun j small => sameTables _ (by omega) (by unfold pageSize; omega)

end Paging
