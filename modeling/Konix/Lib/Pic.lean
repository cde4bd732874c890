import Konix.Lib.Bits

set_option autoImplicit false

namespace Pics

open Bits

-- The word that an interrupt controller takes next at its data port.
inductive Expects
  | icw2 | icw3 | icw4 | ocw
deriving DecidableEq, Repr

structure Pic where
  expects : Expects
  single : Bool
  fourth : Bool
  base : UInt8
  cascade : UInt8
  imr : UInt8
deriving DecidableEq, Repr

def Pic.last (p : Pic) : Expects := if p.fourth then .icw4 else .ocw

-- The command port: bit 4 begins an initialization. The other commands, such as the end of an
-- interrupt, do not concern what is modelled here.
def Pic.command (p : Pic) (v : UInt8) : Pic :=
  if v.toNat.testBit 4 then
    { p with
      expects := .icw2, single := v.toNat.testBit 1, fourth := v.toNat.testBit 0, imr := 0 }
  else p

def Pic.data (p : Pic) (v : UInt8) : Pic :=
  match p.expects with
  | .icw2 => { p with base := v &&& 0xF8, expects := if p.single then p.last else .icw3 }
  | .icw3 => { p with cascade := v, expects := p.last }
  | .icw4 => { p with expects := .ocw }
  | .ocw => { p with imr := v }

theorem Pic.data_ocw {p : Pic} (initialized : p.expects = .ocw) (v : UInt8) :
    p.data v = { p with imr := v } := by
  cases p
  subst initialized
  rfl

-- A master and its slave, which is at one of the master's lines.
structure Pair where
  master : Pic
  slave : Pic
deriving DecidableEq, Repr

def Pair.masked (p : Pair) (line : Nat) : Bool :=
  if line < 8 then p.master.imr.toNat.testBit line else p.slave.imr.toNat.testBit (line - 8)

-- The number of the interrupt that a line's request gets to the processor as, if it gets there.
def Pair.delivers (p : Pair) (line : Nat) : Option Nat :=
  if line < 8 then
    if p.master.expects = .ocw ∧ p.master.cascade.toNat.testBit line = false ∧
        p.masked line = false then
      some (p.master.base.toNat + line)
    else none
  else
    if p.master.expects = .ocw ∧ p.slave.expects = .ocw ∧
        p.master.cascade.toNat.testBit p.slave.cascade.toNat = true ∧
        p.masked p.slave.cascade.toNat = false ∧ p.masked line = false then
      some (p.slave.base.toNat + (line - 8))
    else none

-- Both are initialized, and this is what from.
structure Pair.Ready (p : Pair) (first second : UInt8) (at_ : Nat) : Prop where
  master : p.master.expects = .ocw
  slave : p.slave.expects = .ocw
  first : p.master.base = first
  second : p.slave.base = second
  wired : p.master.cascade.toNat = 2 ^ at_
  identity : p.slave.cascade.toNat = at_
  place : at_ < 8

variable {p : Pair} {first second : UInt8} {at_ line : Nat}

/-- A line's request gets through if neither it nor the slave's line is masked. -/
theorem Pair.Ready.delivers (ready : p.Ready first second at_) (other : line ≠ at_) :
    p.delivers line =
      if p.masked line = false ∧ (8 ≤ line → p.masked at_ = false) then
        some (if line < 8 then first.toNat + line else second.toNat + (line - 8))
      else none := by
  have wire (k : Nat) : p.master.cascade.toNat.testBit k = decide (at_ = k) := by
    rw [ready.wired, Nat.testBit_two_pow]
  rw [Pair.delivers]
  simp only [ready.master, ready.slave, ready.first, ready.second, ready.identity, wire, true_and,
    decide_true]
  by_cases low : line < 8
  next =>
    have away : decide (at_ = line) = false := decide_eq_false other.symm
    have notSlave : ¬ 8 ≤ line := by omega
    simp only [if_pos low, away, notSlave, false_imp_iff, true_and, and_true]
  next =>
    have slave : 8 ≤ line := by omega
    simp only [if_neg low, slave, true_imp_iff, and_comm]

end Pics
