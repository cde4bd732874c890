import Mathlib.Tactic

set_option autoImplicit false

/-!
Numbers written as texts of digits, the most significant one first.
-/

namespace Numerals

def digitChar (d : Nat) : UInt8 := UInt8.ofNat (if d < 10 then d + 48 else d + 55)

def digitOf (base : Nat) (c : UInt8) : Option Nat :=
  let d := if 48 ≤ c ∧ c ≤ 57 then c.toNat - 48 else if 65 ≤ c ∧ c ≤ 70 then c.toNat - 55 else base
  if d < base then some d else none

def readFrom (base : Nat) : Nat → List UInt8 → Option Nat
  | acc, [] => some acc
  | acc, c :: rest =>
    match digitOf base c with
    | none => none
    | some d => readFrom base (acc * base + d) rest

def read (base : Nat) (text : List UInt8) : Option Nat :=
  if text = [] then none else readFrom base 0 text

variable {base : Nat}

theorem digitOf_digitChar {d : Nat} (bound : d < base) (few : base ≤ 16) :
    digitOf base (digitChar d) = some d := by
  have small : d < 16 := lt_of_lt_of_le bound few
  rw [digitOf, digitChar]
  interval_cases d <;> exact if_pos bound

theorem readFrom_append (acc : Nat) (front rest : List UInt8) :
    readFrom base acc (front ++ rest) = (readFrom base acc front).bind (readFrom base · rest) := by
  induction front generalizing acc with
  | nil => rfl
  | cons c front ih =>
    rw [List.cons_append, readFrom, readFrom]
    cases digitOf base c with
    | none => rfl
    | some d => exact ih _

theorem readFrom_other {acc : Nat} {c : UInt8} {text : List UInt8} (member : c ∈ text)
    (other : digitOf base c = none) : readFrom base acc text = none := by
  induction text generalizing acc with
  | nil => cases member
  | cons first rest ih =>
    rw [readFrom]
    cases digit : digitOf base first with
    | none => rfl
    | some d =>
      rcases List.mem_cons.mp member with rfl | later
      · cases other.symm.trans digit
      · exact ih later

theorem read_other {c : UInt8} {text : List UInt8} (member : c ∈ text)
    (other : digitOf base c = none) : read base text = none := by
  rw [read]
  split
  · rfl
  · exact readFrom_other member other

theorem readFrom_le (positive : 0 < base) {acc n : Nat} {text : List UInt8}
    (reads : readFrom base acc text = some n) : acc ≤ n := by
  induction text generalizing acc with
  | nil =>
    cases reads
    exact le_refl _
  | cons c rest ih =>
    rw [readFrom] at reads
    cases digit : digitOf base c with
    | none =>
      rw [digit] at reads
      cases reads
    | some d =>
      rw [digit] at reads
      calc
        acc ≤ acc * base := Nat.le_mul_of_pos_right acc positive
        _ ≤ acc * base + d := Nat.le_add_right _ d
        _ ≤ n := ih reads

theorem readFrom_zeros (positive : 0 < base) (few : base ≤ 16) (n : Nat) (rest : List UInt8) :
    readFrom base 0 (List.replicate n (digitChar 0) ++ rest) = readFrom base 0 rest := by
  induction n with
  | zero => rfl
  | succ n ih =>
    rw [List.replicate_succ, List.cons_append, readFrom, digitOf_digitChar positive few]
    simpa using ih

theorem read_zeros (positive : 0 < base) (few : base ≤ 16) (n : Nat) {text : List UInt8}
    (nonempty : text ≠ []) :
    read base (List.replicate n (digitChar 0) ++ text) = read base text := by
  have nonempty' : List.replicate n (digitChar 0) ++ text ≠ [] :=
    List.append_ne_nil_of_right_ne_nil _ nonempty
  rw [read, read, if_neg nonempty, if_neg nonempty', readFrom_zeros positive few]

def padded (base : Nat) : Nat → Nat → List UInt8
  | 0, _ => []
  | k + 1, n => padded base k (n / base) ++ [digitChar (n % base)]

def numeral (base n : Nat) : List UInt8 := padded base (Nat.log base n + 1) n

@[simp] theorem padded_length (k n : Nat) : (padded base k n).length = k := by
  induction k generalizing n with
  | zero => rfl
  | succ k ih => rw [padded, List.length_append, ih, List.length_singleton]

theorem numeral_ne_nil (n : Nat) : numeral base n ≠ [] :=
  List.append_ne_nil_of_right_ne_nil _ (List.cons_ne_nil _ _)

theorem padded_succ (k n : Nat) :
    padded base (k + 1) n = digitChar (n / base ^ k % base) :: padded base k n := by
  induction k generalizing n with
  | zero => simp [padded]
  | succ k ih =>
    have higher : n / base / base ^ k = n / base ^ (k + 1) := by
      rw [Nat.div_div_eq_div_mul, ← pow_succ']
    rw [padded, ih, higher, List.cons_append, padded]

theorem numeral_step (two : 2 ≤ base) (n : Nat) :
    numeral base n =
      (if n / base ≠ 0 then numeral base (n / base) else []) ++ [digitChar (n % base)] := by
  by_cases more : base ≤ n
  next =>
    have quotient : n / base ≠ 0 := (Nat.div_pos more (by omega)).ne'
    rw [if_pos quotient, numeral, Nat.log_of_one_lt_of_le two more]
    rfl
  next =>
    have quotient : ¬ n / base ≠ 0 := not_not.mpr (Nat.div_eq_of_lt (not_le.mp more))
    rw [if_neg quotient, numeral, Nat.log_of_lt (not_le.mp more)]
    rfl

theorem numeral_of_leading {k n : Nat} (leading : n / base ^ k % base ≠ 0)
    (bound : n < base ^ (k + 1)) : numeral base n = padded base (k + 1) n := by
  have nonzero : n / base ^ k ≠ 0 := fun zero => leading (by rw [zero, Nat.zero_mod])
  have lower : base ^ k ≤ n := by
    by_contra below
    exact nonzero (Nat.div_eq_of_lt (not_le.mp below))
  rw [numeral, (Nat.log_eq_iff (Or.inr ⟨?_, ?_⟩)).mpr ⟨lower, bound⟩]
  · by_contra small
    have cases : base = 0 ∨ base = 1 := by omega
    rcases cases with rfl | rfl
    · simp at bound
    · exact leading (Nat.mod_one _)
  · rintro rfl
    exact nonzero (Nat.zero_div _)

theorem padded_digits (positive : 0 < base) (k n : Nat) :
    ∀ c ∈ padded base k n, ∃ d < base, c = digitChar d := by
  induction k generalizing n with
  | zero =>
    intro c member
    cases member
  | succ k ih =>
    intro c member
    rcases List.mem_append.mp member with higher | last
    · exact ih _ c higher
    · exact ⟨n % base, Nat.mod_lt _ positive, List.mem_singleton.mp last⟩

theorem readFrom_padded (positive : 0 < base) (few : base ≤ 16) (k acc n : Nat) :
    readFrom base acc (padded base k n) = some (acc * base ^ k + n % base ^ k) := by
  induction k generalizing n with
  | zero => simp [padded, readFrom, Nat.mod_one]
  | succ k ih =>
    have lowest : digitOf base (digitChar (n % base)) = some (n % base) :=
      digitOf_digitChar (Nat.mod_lt _ positive) few
    have split : n % base ^ (k + 1) = n / base % base ^ k * base + n % base := by
      rw [pow_succ', Nat.mod_mul, Nat.add_comm, Nat.mul_comm base]
    rw [padded, readFrom_append, ih, Option.bind_some, readFrom, lowest, split, pow_succ]
    exact congrArg some (by ring)

theorem read_numeral (two : 2 ≤ base) (few : base ≤ 16) (n : Nat) :
    read base (numeral base n) = some n := by
  have bound : n < base ^ (Nat.log base n + 1) := Nat.lt_pow_succ_log_self two n
  rw [read, if_neg (numeral_ne_nil n), numeral, readFrom_padded (by omega) few, Nat.zero_mul,
    Nat.zero_add, Nat.mod_eq_of_lt bound]

end Numerals
