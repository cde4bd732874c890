import Mathlib.Tactic

set_option autoImplicit false

namespace Konix

def nrTasks : Nat := 5
def nrProcs : Nat := 32
def nrNativeProcs : Nat := 4

def taskTty : Int := 0
def taskSys : Int := 1
def taskHd : Int := 2
def taskFs : Int := 3
def taskMm : Int := 4
def initPid : Int := 5

def invalidDriver : Int := -20
def interrupt : Int := -10
def any : Int := nrTasks + nrProcs + 10
def noTask : Int := nrTasks + nrProcs + 20
def maxTicks : Int := 0x7FFFABCD

def sectorSize : Nat := 512

def nrFiles : Nat := 64
def nrFileDesc : Nat := 64
def nrInode : Nat := 64
def nrSuperBlock : Nat := 8
def nrConsoles : Nat := 3

def noDev : Nat := 0
def devHd : Nat := 3
def devCharTty : Nat := 4
def makeDev (a b : Nat) : Nat := a <<< 8 ||| b
def major (dev : Nat) : Nat := dev >>> 8 &&& 0xFF
def minor (dev : Nat) : Nat := dev &&& 0xFF

def minorHd1a : Nat := 0x10
def minorHd2a : Nat := 0x20
def minorBoot : Nat := minorHd2a
def rootDev : Nat := makeDev devHd minorBoot

def invalidInode : Nat := 0
def rootInodeNr : Nat := 1
def nrDefaultFileSects : Nat := 2048
def inodeSize : Nat := 32
def dirEntrySize : Nat := 16
def maxFilenameLen : Nat := 12
def maxPath : Nat := 128
def fsbufSize : Nat := 0x100000
def magicV1 : Nat := 0x111

def iTypeMask : Nat := 0o170000
def iRegular : Nat := 0o100000
def iDirectory : Nat := 0o040000
def iCharSpecial : Nat := 0o020000

def oCreat : Nat := 1
def oRdwr : Nat := 2

-- `dd_map[]`: the task that drives a major device.
def ddMap (dev : Nat) : Int :=
  if dev = devHd then taskHd else if dev = devCharTty then taskTty else invalidDriver

inductive MsgType
  | hardInt | getTicks | getPid
  | open_ | close | read | write | lseek | stat | unlink
  | suspendProc | resumeProc
  | exec | wait
  | fork | exit
  | syscallRet
  | devOpen | devClose | devRead | devWrite | devIoctl
  | diskLog
  | other (code : Int)
deriving DecidableEq, Repr

-- The integer fields of `struct mess3` share their storage between the macros of const.h.
structure Message where
  source : Int
  type : MsgType
  m3i1 : Int
  m3i2 : Int
  m3i3 : Int
  m3i4 : Int
  m3l1 : Nat
  m3p1 : Nat
  m3p2 : Nat
deriving DecidableEq, Repr

namespace Message

def fd (m : Message) : Int := m.m3i1
def flags (m : Message) : Int := m.m3i1
def retval (m : Message) : Int := m.m3i1
def status (m : Message) : Int := m.m3i1
def nameLen (m : Message) : Int := m.m3i2
def cnt (m : Message) : Int := m.m3i2
def request (m : Message) : Int := m.m3i2
def pid (m : Message) : Int := m.m3i2
def procNr (m : Message) : Int := m.m3i3
def device (m : Message) : Int := m.m3i4
def position (m : Message) : Nat := m.m3l1
def pathname (m : Message) : Nat := m.m3p1
def buf (m : Message) : Nat := m.m3p2

end Message

-- `reset_msg()`: every byte of the message is zero.
def resetMsg : Message := ⟨0, .other 0, 0, 0, 0, 0, 0, 0, 0⟩

-- The value of an `int` expression converted to `u32`, and back.
def u32 (x : Int) : Nat := (x % 4294967296).toNat

def i32 (x : Nat) : Int :=
  if x % 4294967296 < 2147483648 then (x % 4294967296 : Nat)
  else (x % 4294967296 : Nat) - 4294967296

theorem u32_of_bounds {x : Int} (nonneg : 0 ≤ x) (bound : x < 4294967296) : (u32 x : Int) = x := by
  unfold u32
  omega

theorem i32_of_bounds {x : Nat} (bound : x < 2147483648) : i32 x = x := by
  unfold i32
  split <;> omega

theorem i32_cases (x : Nat) :
    x % 4294967296 < 2147483648 ∧ i32 x = (x % 4294967296 : Nat) ∨
      2147483648 ≤ x % 4294967296 ∧ i32 x = (x % 4294967296 : Nat) - 4294967296 := by
  unfold i32
  split
  next small => exact .inl ⟨small, rfl⟩
  next large => exact .inr ⟨by omega, rfl⟩

theorem i32_range (x : Nat) : -2147483648 ≤ i32 x ∧ i32 x < 2147483648 := by
  rcases i32_cases x with ⟨bound, value⟩ | ⟨bound, value⟩ <;> omega

theorem u32_value (x : Int) : (u32 x : Int) = x % 4294967296 :=
  Int.toNat_of_nonneg (Int.emod_nonneg x (by decide))

theorem u32_natCast {n : Nat} (bound : n < 4294967296) : u32 n = n := by
  unfold u32
  omega

theorem u32_i32 {x : Nat} (bound : x < 4294967296) : u32 (i32 x) = x := by
  unfold u32
  have := i32_cases x
  omega

theorem i32_u32 (n : Nat) : i32 (u32 n) = i32 n := by
  have same : u32 (n : Int) % 4294967296 = n % 4294967296 := by
    unfold u32
    omega
  rw [i32, i32, same]

theorem i32_u32_of_bounds {x : Int} (low : -2147483648 ≤ x) (high : x < 2147483648) :
    i32 (u32 x) = x := by
  have value := u32_value x
  rcases i32_cases (u32 x) with ⟨side, same⟩ | ⟨side, same⟩ <;> omega

theorem i32_u32_add (x m : Int) : i32 (u32 (x + 4294967296 * m)) = i32 (u32 x) := by
  have same : u32 (x + 4294967296 * m) = u32 x := by
    rw [u32, u32, Int.add_mul_emod_self_left]
  rw [same]

theorem bind_ok {ε α β : Type} {x : Except ε α} {f : α → Except ε β} {r : β}
    (done : (x >>= f) = .ok r) : ∃ a, x = .ok a ∧ f a = .ok r := by
  cases x with
  | error stop => cases done
  | ok a => exact ⟨a, rfl, done⟩

theorem bind_of_ok {ε α β : Type} {x : Except ε α} {a : α} (f : α → Except ε β)
    (done : x = .ok a) : (x >>= f) = f a := by
  rw [done]
  rfl

end Konix
