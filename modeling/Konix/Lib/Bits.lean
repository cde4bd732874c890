import Mathlib.Tactic

set_option autoImplicit false

namespace Bits

-- Bit `i` of a map that starts at byte `base`, the lowest bit of each byte first.
def bitAt (f : Nat → UInt8) (base i : Nat) : Bool := (f (base + i / 8)).toNat.testBit (i % 8)

def setBit (byte : UInt8) (k : Nat) : UInt8 := byte ||| UInt8.ofNat (1 <<< k)

def clearBit (byte : UInt8) (k : Nat) : UInt8 := byte &&& ~~~UInt8.ofNat (1 <<< k)

def byteOf (p : Nat → Bool) : UInt8 := UInt8.ofNat (Nat.ofBits fun i : Fin 8 => p i)

-- The memory with each bit of the map replaced by what `g` makes of it.
def mapBits (f : Nat → UInt8) (base : Nat) (g : Nat → Bool → Bool) : Nat → UInt8 := fun a =>
  if a < base then f a
  else byteOf fun i => g (8 * (a - base) + i) ((f a).toNat.testBit i)

def inside (b e j : Nat) : Bool := decide (b ≤ j) && decide (j < e)

def setBits (f : Nat → UInt8) (base b e : Nat) : Nat → UInt8 :=
  mapBits f base fun j old => old || inside b e j

def clearBits (f : Nat → UInt8) (base b e : Nat) : Nat → UInt8 :=
  mapBits f base fun j old => old && !inside b e j

theorem inside_iff {b e j : Nat} : inside b e j = true ↔ b ≤ j ∧ j < e := by
  simp [inside]

theorem inside_eq_false {b e j : Nat} (out : j < b ∨ e ≤ j) : inside b e j = false := by
  by_contra hit
  have := inside_iff.mp (Bool.eq_true_of_not_eq_false hit)
  omega

theorem byte_ext {x y : UInt8} (same : ∀ i, i < 8 → x.toNat.testBit i = y.toNat.testBit i) :
    x = y := by
  apply UInt8.toNat_inj.mp
  apply Nat.eq_of_testBit_eq
  intro i
  by_cases small : i < 8
  · exact same i small
  · have big : 2 ^ 8 ≤ 2 ^ i := Nat.pow_le_pow_right (by omega) (by omega)
    have hx := x.toNat_lt
    have hy := y.toNat_lt
    rw [Nat.testBit_lt_two_pow (by omega), Nat.testBit_lt_two_pow (by omega)]

theorem testBit_byteOf (p : Nat → Bool) {i : Nat} (bound : i < 8) :
    (byteOf p).toNat.testBit i = p i := by
  have small := Nat.ofBits_lt_two_pow fun i : Fin 8 => p i
  rw [byteOf, UInt8.toNat_ofNat', Nat.mod_eq_of_lt small]
  exact Nat.testBit_ofBits_lt _ i bound

theorem testBit_setBit (byte : UInt8) {k i : Nat} (lower : k < 8) :
    (setBit byte k).toNat.testBit i = (byte.toNat.testBit i || decide (i = k)) := by
  simp only [setBit, UInt8.toNat_or, UInt8.toNat_ofNat', Nat.testBit_or, Nat.one_shiftLeft]
  rw [Nat.mod_eq_of_lt (Nat.pow_lt_pow_right (by omega) lower), Nat.testBit_two_pow]
  simp only [eq_comm]

theorem testBit_clearBit (byte : UInt8) {k i : Nat} (lower : k < 8) (bound : i < 8) :
    (clearBit byte k).toNat.testBit i = (byte.toNat.testBit i && !decide (i = k)) := by
  have small : (2 : Nat) ^ k < 2 ^ 8 := Nat.pow_lt_pow_right (by omega) lower
  simp only [clearBit, UInt8.toNat_and, UInt8.toNat_not, UInt8.toNat_ofNat', Nat.testBit_and,
    Nat.one_shiftLeft]
  rw [Nat.mod_eq_of_lt small, show UInt8.size - 1 - 2 ^ k = 2 ^ 8 - (2 ^ k + 1) by
    simp only [UInt8.size]; omega, Nat.testBit_two_pow_sub_succ small, Nat.testBit_two_pow]
  simp only [bound, decide_true, Bool.true_and, eq_comm]

theorem bitAt_byte (f : Nat → UInt8) (base j : Nat) {i : Nat} (bound : i < 8) :
    bitAt f base (8 * j + i) = (f (base + j)).toNat.testBit i := by
  have byte : (8 * j + i) / 8 = j := by omega
  have bit : (8 * j + i) % 8 = i := by omega
  rw [bitAt, byte, bit]

theorem mapBits_below (f : Nat → UInt8) {base a : Nat} (g : Nat → Bool → Bool) (below : a < base) :
    mapBits f base g a = f a := by
  simp [mapBits, below]

theorem testBit_mapBits (f : Nat → UInt8) (base j : Nat) (g : Nat → Bool → Bool) {i : Nat}
    (bound : i < 8) : (mapBits f base g (base + j)).toNat.testBit i =
      g (8 * j + i) ((f (base + j)).toNat.testBit i) := by
  have above : ¬ base + j < base := by omega
  rw [mapBits, if_neg above, testBit_byteOf _ bound, Nat.add_sub_cancel_left]

theorem bitAt_mapBits (f : Nat → UInt8) (base i : Nat) (g : Nat → Bool → Bool) :
    bitAt (mapBits f base g) base i = g i (bitAt f base i) := by
  have split : 8 * (i / 8) + i % 8 = i := by omega
  rw [bitAt, testBit_mapBits _ _ _ _ (by omega), split, bitAt]

@[simp] theorem bitAt_setBits (f : Nat → UInt8) (base b e i : Nat) :
    bitAt (setBits f base b e) base i = (bitAt f base i || inside b e i) :=
  bitAt_mapBits ..

@[simp] theorem bitAt_clearBits (f : Nat → UInt8) (base b e i : Nat) :
    bitAt (clearBits f base b e) base i = (bitAt f base i && !inside b e i) :=
  bitAt_mapBits ..

theorem map_ext (base : Nat) {f g : Nat → UInt8} (before : ∀ a, a < base → f a = g a)
    (bits : ∀ i, bitAt f base i = bitAt g base i) : f = g := by
  funext a
  by_cases below : a < base
  · exact before a below
  · apply byte_ext
    intro i bound
    have same := bits (8 * (a - base) + i)
    have place : base + (a - base) = a := by omega
    rwa [bitAt_byte _ _ _ bound, bitAt_byte _ _ _ bound, place] at same

theorem mapBits_same (f : Nat → UInt8) {base a : Nat} {g : Nat → Bool → Bool}
    (kept : base ≤ a → ∀ i old, i < 8 → g (8 * (a - base) + i) old = old) :
    mapBits f base g a = f a := by
  by_cases below : a < base
  · exact mapBits_below f g below
  · apply byte_ext
    intro i bound
    have place : base + (a - base) = a := by omega
    have bit := testBit_mapBits f base (a - base) g bound
    rw [place] at bit
    rw [bit, kept (by omega) i _ bound]

theorem setBits_same (f : Nat → UInt8) {base b e a : Nat}
    (out : a < base + b / 8 ∨ base + (e + 7) / 8 ≤ a) : setBits f base b e a = f a := by
  apply mapBits_same
  intro lower i old bound
  rw [inside_eq_false (by omega), Bool.or_false]

theorem clearBits_same (f : Nat → UInt8) {base b e a : Nat}
    (out : a < base + b / 8 ∨ base + (e + 7) / 8 ≤ a) : clearBits f base b e a = f a := by
  apply mapBits_same
  intro lower i old bound
  rw [inside_eq_false (by omega), Bool.not_false, Bool.and_true]

theorem setBits_empty (f : Nat → UInt8) {base b e : Nat} (empty : e ≤ b) :
    setBits f base b e = f := by
  funext a
  apply mapBits_same
  intro lower i old bound
  rw [inside_eq_false (by omega), Bool.or_false]

theorem clearBits_empty (f : Nat → UInt8) {base b e : Nat} (empty : e ≤ b) :
    clearBits f base b e = f := by
  funext a
  apply mapBits_same
  intro lower i old bound
  rw [inside_eq_false (by omega), Bool.not_false, Bool.and_true]

theorem mapBits_update (f : Nat → UInt8) (base j : Nat) {g h : Nat → Bool → Bool} {byte : UInt8}
    (others : ∀ i old, i < 8 * j ∨ 8 * j + 8 ≤ i → g i old = h i old)
    (here : ∀ i, i < 8 → byte.toNat.testBit i = h (8 * j + i) ((f (base + j)).toNat.testBit i)) :
    Function.update (mapBits f base g) (base + j) byte = mapBits f base h := by
  funext a
  by_cases same : a = base + j
  · subst same
    rw [Function.update_self]
    apply byte_ext
    intro i bound
    rw [here i bound, testBit_mapBits _ _ _ _ bound]
  · rw [Function.update_of_ne same]
    by_cases below : a < base
    · rw [mapBits_below f g below, mapBits_below f h below]
    · have place : base + (a - base) = a := by omega
      apply byte_ext
      intro i bound
      have left := testBit_mapBits f base (a - base) g bound
      have right := testBit_mapBits f base (a - base) h bound
      rw [place] at left right
      rw [left, right, others _ _ (by omega)]

theorem setBits_extend (f : Nat → UInt8) (base b e e' j : Nat) {byte : UInt8}
    (others : ∀ i, i < 8 * j ∨ 8 * j + 8 ≤ i → inside b e i = inside b e' i)
    (here : ∀ i, i < 8 → byte.toNat.testBit i =
      ((f (base + j)).toNat.testBit i || inside b e' (8 * j + i))) :
    Function.update (setBits f base b e) (base + j) byte = setBits f base b e' :=
  mapBits_update f base j (fun i old out => by rw [others i out]) here

theorem clearBits_extend (f : Nat → UInt8) (base b e e' j : Nat) {byte : UInt8}
    (others : ∀ i, i < 8 * j ∨ 8 * j + 8 ≤ i → inside b e i = inside b e' i)
    (here : ∀ i, i < 8 → byte.toNat.testBit i =
      ((f (base + j)).toNat.testBit i && !inside b e' (8 * j + i))) :
    Function.update (clearBits f base b e) (base + j) byte = clearBits f base b e' :=
  mapBits_update f base j (fun i old out => by rw [others i out]) here

theorem full_byte {byte : UInt8} : byte = 0xFF ↔ ∀ i, i < 8 → byte.toNat.testBit i = true := by
  constructor
  · rintro rfl i bound
    interval_cases i <;> rfl
  · intro all
    apply byte_ext
    intro i bound
    rw [all i bound]
    interval_cases i <;> rfl

end Bits
