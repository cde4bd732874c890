import Konix.Klib.Vsprintf

set_option autoImplicit false

namespace Konix.Klib

open CString

-- The value of a `char`.
def charValue (c : UInt8) : Int := if c < 128 then c.toNat else c.toNat - 256

def strcmpFrom (mem : Nat → UInt8) : Nat → Nat → Nat → Option Int
  | 0, _, _ => none
  | fuel + 1, p1, p2 =>
    if mem p1 ≠ 0 ∧ mem p2 ≠ 0 ∧ mem p1 = mem p2 then strcmpFrom mem fuel (p1 + 1) (p2 + 1)
    else some (charValue (mem p1) - charValue (mem p2))

def strcmp (mem : Nat → UInt8) (fuel s1 s2 : Nat) : Option Int :=
  if s1 = 0 ∨ s2 = 0 then some (s1 - s2) else strcmpFrom mem fuel s1 s2

theorem charValue_inj {c d : UInt8} : charValue c - charValue d = 0 ↔ c = d := by
  have hc := c.toNat_lt
  have hd := d.toNat_lt
  have small (x : UInt8) : x < 128 ↔ x.toNat < 128 := UInt8.lt_iff_toNat_lt
  rw [charValue, charValue, ← UInt8.toNat_inj]
  simp only [small]
  split <;> split <;> omega

variable {mem : Nat → UInt8} {fuel p1 p2 : Nat} {str1 str2 : List UInt8}

theorem strcmpFrom_strings (string1 : StringAt mem p1 str1) (string2 : StringAt mem p2 str2)
    (enough : str1.length < fuel) :
    ∃ d, strcmpFrom mem fuel p1 p2 = some d ∧ (d = 0 ↔ str1 = str2) := by
  induction fuel generalizing p1 p2 str1 str2 with
  | zero => omega
  | succ fuel ih =>
    rw [strcmpFrom]
    by_cases same : mem p1 ≠ 0 ∧ mem p2 ≠ 0 ∧ mem p1 = mem p2
    next =>
      rw [if_pos same]
      cases str1 with
      | nil => exact absurd string1 same.1
      | cons c rest1 =>
        cases str2 with
        | nil => exact absurd string2 same.2.1
        | cons d rest2 =>
          have head : c = d := string1.1.symm.trans (same.2.2.trans string2.1)
          obtain ⟨r, done, zero⟩ := ih string1.2.2 string2.2.2
            (by rw [List.length_cons] at enough; omega)
          refine ⟨r, done, zero.trans ?_⟩
          rw [head, List.cons.injEq, eq_self_iff_true, true_and]
    next =>
      rw [if_neg same]
      refine ⟨_, rfl, charValue_inj.trans ⟨fun equal => ?_, fun equal => ?_⟩⟩
      · have ended1 : mem p1 = 0 := by
          by_contra more
          exact same ⟨more, equal ▸ more, equal⟩
        have empty1 : StringAt mem p1 [] := ended1
        have empty2 : StringAt mem p2 [] := equal.symm.trans ended1
        rw [string1.unique empty1, string2.unique empty2]
      · subst equal
        cases str1 with
        | nil => exact string1.trans string2.symm
        | cons c rest => exact string1.1.trans string2.1.symm

theorem strcmp_strings (string1 : StringAt mem p1 str1) (string2 : StringAt mem p2 str2)
    (notNull1 : p1 ≠ 0) (notNull2 : p2 ≠ 0) (enough : str1.length < fuel) :
    ∃ d, strcmp mem fuel p1 p2 = some d ∧ (d = 0 ↔ str1 = str2) := by
  rw [strcmp, if_neg (not_or.mpr ⟨notNull1, notNull2⟩)]
  exact strcmpFrom_strings string1 string2 enough

end Konix.Klib
