import Konix.Mm.Segments
import Mathlib.Data.Nat.Bitwise

set_option autoImplicit false

namespace Konix.Mm

open Kernel

def seg2phys (gdt : Nat → Descriptor) (seg : Nat) : Nat :=
  let pDest := gdt (seg >>> 3)
  pDest.baseHigh <<< 24 ||| pDest.baseMid <<< 16 ||| pDest.baseLow

def storedAttr (d : Descriptor) : Nat := d.attr1 ||| (d.limitHighAttr2 &&& 0xF0) <<< 8

structure Decoded (d : Descriptor) (base limit attr : Nat) : Prop where
  linear : ldtSegLinear d = base
  phys : ∀ gdt seg, gdt (seg >>> 3) = d → seg2phys gdt seg = base
  reassembled : u32 (segBase d) = base
  codeLimit : reassembly 0 0 (d.limitHighAttr2 &&& 0xF) 16 d.limitLow = limit
  dataLimit : reassembly (d.limitHighAttr2 &&& 0xF) 16 0 0 d.limitLow = limit
  granular : d.limitHighAttr2 &&& daLimit4K >>> 8 ≠ 0 ↔ attr.testBit 15 = true
  stored : storedAttr d = attr &&& 0xF0FF
  translates : ∀ (k : Kernel.State) (pid : Int) (va : Nat), nrTasks + nrNativeProcs ≤ pid →
    (k.procTable pid).ldtRw = d → va2la k pid va = .ok ((base + va) % 4294967296)

section

variable {base limit attr : Nat}

theorem or_fields {high mid low : Nat} (midByte : mid < 256) (lowHalf : low < 65536) :
    high <<< 24 ||| mid <<< 16 ||| low = high <<< 24 + mid <<< 16 + low := by
  have midFits : mid <<< 16 < 2 ^ 24 := by
    rw [Nat.shiftLeft_eq]
    omega
  have upper : high <<< 24 + mid <<< 16 = (high * 256 + mid) <<< 16 := by
    simp only [Nat.shiftLeft_eq]
    omega
  rw [← Nat.shiftLeft_add_eq_or_of_lt midFits, upper, ← Nat.shiftLeft_add_eq_or_of_lt lowHalf]

theorem and_byte (x : Nat) : x &&& 0xFF = x % 256 := Nat.and_two_pow_sub_one_eq_mod x 8

theorem and_half (x : Nat) : x &&& 0xFFFF = x % 65536 := Nat.and_two_pow_sub_one_eq_mod x 16

theorem base_sum (baseWord : base < 4294967296) :
    (base >>> 24 &&& 0xFF) <<< 24 + (base >>> 16 &&& 0xFF) <<< 16 + (base &&& 0xFFFF) = base := by
  rw [and_byte, and_byte, and_half]
  simp only [Nat.shiftLeft_eq, Nat.shiftRight_eq_div_pow]
  omega

theorem base_or (baseWord : base < 4294967296) :
    (base >>> 24 &&& 0xFF) <<< 24 ||| (base >>> 16 &&& 0xFF) <<< 16 ||| (base &&& 0xFFFF) =
      base := by
  have midByte : base >>> 16 &&& 0xFF < 256 := Nat.lt_of_le_of_lt Nat.and_le_right (by decide)
  have lowHalf : base &&& 0xFFFF < 65536 := Nat.lt_of_le_of_lt Nat.and_le_right (by decide)
  rw [or_fields midByte lowHalf, base_sum baseWord]

theorem limit_part : (limit >>> 16 &&& 0x0F ||| (attr >>> 8 &&& 0xF0)) &&& 0xF =
    limit >>> 16 &&& 0xF := by
  rw [Nat.and_or_distrib_right, Nat.and_assoc, Nat.and_assoc]
  simp

theorem attr_part (mask : Nat) (upper : 0x0F &&& mask = 0) :
    (limit >>> 16 &&& 0x0F ||| (attr >>> 8 &&& 0xF0)) &&& mask =
      attr >>> 8 &&& (0xF0 &&& mask) := by
  rw [Nat.and_or_distrib_right, Nat.and_assoc, Nat.and_assoc, upper]
  simp

theorem limit_sum (limitBits : limit < 1048576) :
    (limit >>> 16 &&& 0xF) <<< 16 + (limit &&& 0xFFFF) = limit := by
  have nibble : limit >>> 16 &&& 0xF = limit >>> 16 % 16 := Nat.and_two_pow_sub_one_eq_mod _ 4
  rw [nibble, and_half]
  simp only [Nat.shiftLeft_eq, Nat.shiftRight_eq_div_pow]
  omega

theorem granularity_bit :
    attr >>> 8 &&& (0xF0 &&& daLimit4K >>> 8) ≠ 0 ↔ attr.testBit 15 = true := by
  have bit : 0xF0 &&& daLimit4K >>> 8 = 2 ^ 7 := by decide
  rw [bit, Nat.and_two_pow, Nat.testBit_shiftRight]
  cases attr.testBit (8 + 7) <;> simp

theorem shifted_back (mask : Nat) : (attr >>> 8 &&& mask) <<< 8 = attr &&& mask <<< 8 := by
  apply Nat.eq_of_testBit_eq
  intro i
  rw [Nat.testBit_shiftLeft, Nat.testBit_and, Nat.testBit_and, Nat.testBit_shiftLeft,
    Nat.testBit_shiftRight]
  by_cases upper : 8 ≤ i
  next =>
    have place : 8 + (i - 8) = i := by omega
    simp [upper, place]
  next => simp [upper]

theorem stored_bits : attr &&& 0xFF ||| (attr >>> 8 &&& 0xF0) <<< 8 = attr &&& 0xF0FF := by
  rw [shifted_back, ← Nat.and_or_distrib_left]
  rfl

/--
Whatever `init_descriptor()` is given, `ldt_seg_linear()`, `seg2phys()`, both halves of `do_fork()`
and `va2la()` get the same base, limit and attributes back out of the descriptor.
-/
theorem descriptors_agree (baseWord : base < 4294967296) (limitBits : limit < 1048576)
    (attr : Nat) : Decoded (initDescriptor base limit attr) base limit attr := by
  have linear : ldtSegLinear (initDescriptor base limit attr) = base := base_or baseWord
  have limits : ((initDescriptor base limit attr).limitHighAttr2 &&& 0xF) <<< 16 +
      (initDescriptor base limit attr).limitLow = limit := by
    simp only [initDescriptor, limit_part, limit_sum limitBits]
  constructor
  case linear => exact linear
  case phys =>
    intro gdt seg here
    rw [seg2phys, here]
    exact linear
  case reassembled =>
    have sum : (initDescriptor base limit attr).baseHigh <<< 24 +
        (initDescriptor base limit attr).baseMid <<< 16 +
        (initDescriptor base limit attr).baseLow = base := base_sum baseWord
    rw [segBase, reassembly, sum, u32_i32 baseWord]
  case codeLimit =>
    rw [reassembly, Nat.zero_shiftLeft, Nat.zero_add, limits, i32_of_bounds (by omega)]
  case dataLimit =>
    rw [reassembly, Nat.zero_shiftLeft, Nat.add_zero, limits, i32_of_bounds (by omega)]
  case granular =>
    simp only [initDescriptor]
    rw [attr_part _ (by decide)]
    exact granularity_bit
  case stored =>
    simp only [storedAttr, initDescriptor]
    rw [attr_part _ (by decide)]
    exact stored_bits
  case translates =>
    intro k pid va forked segment
    have notNative : ¬ pid < nrTasks + nrNativeProcs := not_lt.mpr forked
    rw [va2la, segment, linear]
    simp only [if_neg notNative]
    rfl

-- The descriptor that `do_fork()` gives its first child.
theorem descriptors_agree_child :
    Decoded (initDescriptor 0xA00000 0xFF (daLimit4K ||| da32 ||| daDRW ||| privilegeUser <<< 5))
      0xA00000 0xFF (daLimit4K ||| da32 ||| daDRW ||| privilegeUser <<< 5) :=
  descriptors_agree (by decide) (by decide) _

end

end Konix.Mm
