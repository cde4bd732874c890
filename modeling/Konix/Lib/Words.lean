import Konix.Lib.Splice

set_option autoImplicit false

namespace Words

-- Thirty-two bit words stored in byte memory, least significant byte first.
def wordAt (f : Nat → UInt8) (base : Nat) : Nat :=
  (f base).toNat + 256 * (f (base + 1)).toNat + 65536 * (f (base + 2)).toNat +
    16777216 * (f (base + 3)).toNat

def wordByte (value j : Nat) : UInt8 := UInt8.ofNat (value / 256 ^ j)

def putWord (f : Nat → UInt8) (base value : Nat) : Nat → UInt8 :=
  Splice.splice f base 4 (wordByte value)

def halfAt (f : Nat → UInt8) (base : Nat) : Nat := (f base).toNat + 256 * (f (base + 1)).toNat

theorem wordAt_lt (f : Nat → UInt8) (a : Nat) : wordAt f a < 2 ^ 32 := by
  have h0 := (f a).toNat_lt
  have h1 := (f (a + 1)).toNat_lt
  have h2 := (f (a + 2)).toNat_lt
  have h3 := (f (a + 3)).toNat_lt
  unfold wordAt
  omega

theorem wordAt_agree {f g : Nat → UInt8} {a b : Nat} (agree : ∀ j, j < 4 → f (a + j) = g (b + j)) :
    wordAt f a = wordAt g b := by
  have h0 := agree 0 (by omega)
  rw [Nat.add_zero, Nat.add_zero] at h0
  simp only [wordAt, h0, agree 1 (by omega), agree 2 (by omega), agree 3 (by omega)]

theorem wordAt_congr {f g : Nat → UInt8} {a : Nat} (agree : ∀ j, j < 4 → f (a + j) = g (a + j)) :
    wordAt f a = wordAt g a :=
  wordAt_agree agree

theorem putWord_outside (f : Nat → UInt8) {a b : Nat} (value : Nat) (out : b < a ∨ a + 4 ≤ b) :
    putWord f a value b = f b :=
  Splice.splice_outside _ _ out

theorem wordAt_putWord (f : Nat → UInt8) (a value : Nat) :
    wordAt (putWord f a value) a = value % 2 ^ 32 := by
  have byte (j : Nat) (bound : j < 4) :
      (putWord f a value (a + j)).toNat = value / 256 ^ j % 256 := by
    rw [putWord, Splice.splice_inside _ _ (by omega) (by omega)]
    simp [wordByte]
  have h0 := byte 0 (by omega)
  rw [Nat.add_zero] at h0
  rw [wordAt, h0, byte 1 (by omega), byte 2 (by omega), byte 3 (by omega)]
  omega

theorem wordAt_putWord_outside (f : Nat → UInt8) {a b : Nat} (value : Nat)
    (out : b + 4 ≤ a ∨ a + 4 ≤ b) : wordAt (putWord f a value) b = wordAt f b := by
  apply wordAt_congr
  intro j bound
  exact putWord_outside f value (by omega)

end Words
