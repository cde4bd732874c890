import Konix.Klib.Vsprintf
import Konix.Lib.Numerals
import Mathlib.Data.List.GetD
import Mathlib.Data.List.TakeWhile

set_option autoImplicit false

namespace Konix.Klib

open CString Words Numerals

def hexChar (ch : UInt8) : UInt8 :=
  let ch := ch + 48
  if ch > 57 then ch + 7 else ch

-- The loop of `itoa()` when `k` nibbles are left; `flag` is set once one of them was not zero.
def itoaFrom (num : Int) : Nat → Bool → List UInt8
  | 0, _ => []
  | k + 1, flag =>
    let ch := (num >>> (4 * k)) % 16
    if flag = true ∨ ch > 0 then hexChar (UInt8.ofNat ch.toNat) :: itoaFrom num k true
    else itoaFrom num k flag

def itoa (num : Int) : List UInt8 :=
  ascii ['0', 'x'] ++ if num = 0 then ascii ['0'] else itoaFrom num 8 false

def readHex (text : List UInt8) : Option Nat := read 16 (text.dropWhile (· = chSpace))

def readDecimal (text : List UInt8) : Option Int :=
  let text := text.dropWhile (· = chSpace)
  if text.head? = some chMinus then (read 10 text.tail).map fun n => -(n : Int)
  else (read 10 text).map fun n => (n : Int)

def directive (digits : List UInt8) (conversion : UInt8) : Nat → UInt8 :=
  fun j => (chPercent :: digits ++ [conversion]).getD j 0

section

variable {base : Nat}

theorem digit_digitChar {d : Nat} (bound : d < 16) : digit d = digitChar d := by
  interval_cases d <;> rfl

theorem i2aDigits_numeral (two : 2 ≤ base) (few : base ≤ 16) {room n : Nat}
    (bound : n < base ^ (room + 1)) : i2aDigits base (room + 1) n = numeral base n := by
  induction room generalizing n with
  | zero =>
    have small : n < base := by simpa using bound
    have quotient : n / base = 0 := Nat.div_eq_of_lt small
    have last : n % base < 16 := lt_of_lt_of_le (Nat.mod_lt _ (by omega)) few
    rw [i2aDigits, numeral_step two, ← Int.ofNat_tdiv, ← Int.ofNat_tmod, quotient,
      digit_digitChar last]
    rfl
  | succ room ih =>
    have lower : n / base < base ^ (room + 1) :=
      Nat.div_lt_of_lt_mul (by rwa [pow_succ'] at bound)
    have last : n % base < 16 := lt_of_lt_of_le (Nat.mod_lt _ (by omega)) few
    rw [i2aDigits, numeral_step two, ← Int.ofNat_tdiv, ← Int.ofNat_tmod, digit_digitChar last,
      ih lower]
    simp only [ne_eq, Int.natCast_eq_zero]

theorem i2a_numeral (two : 2 ≤ base) (few : base ≤ 16) {n : Nat} (bound : n < 2147483648) :
    i2a n base = numeral base n :=
  i2aDigits_numeral two few (lt_of_lt_of_le bound
    (le_trans (by norm_num) (Nat.pow_le_pow_left two 32)))

-- A negative number has a digit that is none: the remainders of C are negative too.
theorem digit_negative {d : Nat} (positive : 0 < d) (bound : d < base) (few : base ≤ 16) :
    digitOf base (digit (-d)) = none ∧ digit (-d) ≠ chSpace := by
  have small : d < 16 := lt_of_lt_of_le bound few
  have none' (c : UInt8) (low : ¬ 48 ≤ c) : digitOf base c = none := by
    have fortyEight : (48 : UInt8) ≤ 65 := by decide
    have notDecimal : ¬ (48 ≤ c ∧ c ≤ 57) := fun both => low both.1
    have notHex : ¬ (65 ≤ c ∧ c ≤ 70) := fun both => low (UInt8.le_trans fortyEight both.1)
    rw [digitOf, if_neg notDecimal, if_neg notHex]
    exact if_neg (lt_irrefl base)
  interval_cases d <;> exact ⟨none' _ (by decide), by decide⟩

theorem i2aDigits_negative (two : 2 ≤ base) (few : base ≤ 16) {room n : Nat} (positive : 0 < n)
    (bound : n < base ^ room) :
    ∃ c ∈ i2aDigits base room (-n), digitOf base c = none ∧ c ≠ chSpace := by
  induction room generalizing n with
  | zero =>
    rw [pow_zero] at bound
    omega
  | succ room ih =>
    rw [i2aDigits, Int.neg_tdiv, Int.neg_tmod, ← Int.ofNat_tdiv, ← Int.ofNat_tmod]
    by_cases last : 0 < n % base
    next =>
      refine ⟨digit (-(n % base : Nat)), List.mem_append_right _ (List.mem_singleton_self _), ?_⟩
      exact digit_negative last (Nat.mod_lt _ (by omega)) few
    next =>
      have higher : 0 < n / base := by
        have whole := Nat.div_add_mod n base
        rcases Nat.eq_zero_or_pos (n / base) with none' | some'
        · rw [none', Nat.mul_zero] at whole
          omega
        · exact some'
      have lower : n / base < base ^ room := Nat.div_lt_of_lt_mul (by rwa [pow_succ'] at bound)
      obtain ⟨c, member, other⟩ := ih higher lower
      have quotient : -((n / base : Nat) : Int) ≠ 0 := by omega
      refine ⟨c, List.mem_append_left _ ?_, other⟩
      rwa [if_pos quotient]

theorem i2a_negative (two : 2 ≤ base) (few : base ≤ 16) {n : Nat} (positive : 0 < n)
    (bound : n ≤ 2147483648) :
    ∃ c ∈ i2a (-n) base, digitOf base c = none ∧ c ≠ chSpace :=
  i2aDigits_negative two few positive (lt_of_lt_of_le (lt_of_le_of_lt bound (by norm_num))
    (Nat.pow_le_pow_left two 32))

theorem i2aDigits_nonzero (two : 2 ≤ base) (few : base ≤ 16) (room : Nat) (m : Int) :
    ∀ c ∈ i2aDigits base room m, c ≠ 0 := by
  induction room generalizing m with
  | zero =>
    intro c member
    cases member
  | succ room ih =>
    intro c member
    rcases List.mem_append.mp member with higher | last
    · split at higher
      · exact ih _ c higher
      · cases higher
    · rw [List.mem_singleton.mp last]
      have below : m.tmod base < base := Int.tmod_lt_of_pos m (by omega)
      have above : -(base : Int) < m.tmod base := by
        have := Int.lt_tmod_of_pos m (b := (base : Int)) (by omega)
        omega
      have low : -16 < m.tmod base := by omega
      have high : m.tmod base < 16 := by omega
      generalize m.tmod base = d at low high
      interval_cases d <;> decide

theorem i2a_nonzero (two : 2 ≤ base) (few : base ≤ 16) (m : Int) : ∀ c ∈ i2a m base, c ≠ 0 :=
  i2aDigits_nonzero two few 32 m

end

section

variable {m : Int}

theorem nibble (low : -2147483648 ≤ m) (high : m < 2147483648) {k : Nat} (bound : k < 8) :
    (m >>> (4 * k)) % 16 = (u32 m / 16 ^ k % 16 : Nat) := by
  rw [Int.shiftRight_eq_div_pow]
  unfold u32
  interval_cases k <;> norm_num <;> omega

theorem hexChar_digitChar {d : Nat} (bound : d < 16) :
    hexChar (UInt8.ofNat d) = digitChar d := by
  interval_cases d <;> rfl

theorem itoaFrom_set (low : -2147483648 ≤ m) (high : m < 2147483648) {k : Nat} (bound : k ≤ 8) :
    itoaFrom m k true = padded 16 k (u32 m) := by
  induction k with
  | zero => rfl
  | succ k ih =>
    have small : u32 m / 16 ^ k % 16 < 16 := Nat.mod_lt _ (by decide)
    rw [itoaFrom, nibble low high bound, if_pos (Or.inl rfl), ih (Nat.le_of_succ_le bound),
      padded_succ, Int.toNat_natCast, hexChar_digitChar small]

theorem itoaFrom_clear (low : -2147483648 ≤ m) (high : m < 2147483648) {k : Nat} (bound : k ≤ 8)
    (positive : 0 < u32 m) (below : u32 m < 16 ^ k) :
    itoaFrom m k false = numeral 16 (u32 m) := by
  induction k with
  | zero =>
    rw [pow_zero] at below
    omega
  | succ k ih =>
    have small : u32 m / 16 ^ k % 16 < 16 := Nat.mod_lt _ (by decide)
    rw [itoaFrom, nibble low high bound, Int.toNat_natCast]
    by_cases leading : u32 m / 16 ^ k % 16 = 0
    next =>
      have clear : ¬ (false = true ∨ ((u32 m / 16 ^ k % 16 : Nat) : Int) > 0) := by
        simp [leading]
      have quotient : u32 m / 16 ^ k < 16 := Nat.div_lt_of_lt_mul (by rwa [pow_succ] at below)
      have zero : u32 m / 16 ^ k = 0 := by rwa [Nat.mod_eq_of_lt quotient] at leading
      have lower : u32 m < 16 ^ k :=
        (Nat.div_eq_zero_iff_lt (Nat.pow_pos (by decide))).mp zero
      rw [if_neg clear]
      exact ih (Nat.le_of_succ_le bound) lower
    next =>
      have set : false = true ∨ ((u32 m / 16 ^ k % 16 : Nat) : Int) > 0 := by omega
      rw [if_pos set, itoaFrom_set low high (Nat.le_of_succ_le bound),
        numeral_of_leading leading below, padded_succ, hexChar_digitChar small]

-- `itoa()` writes every number as the numeral of its two's complement.
theorem itoa_numeral (low : -2147483648 ≤ m) (high : m < 2147483648) :
    itoa m = ascii ['0', 'x'] ++ numeral 16 (u32 m) := by
  by_cases zero : m = 0
  next =>
    subst zero
    rfl
  next =>
    have positive : 0 < u32 m := by
      unfold u32
      omega
    have below : u32 m < 16 ^ 8 := by
      unfold u32
      omega
    rw [itoa, if_neg zero, itoaFrom_clear low high (le_refl 8) positive below]

end

section

variable {digits inner : List UInt8} {mem : Nat → UInt8} {args w fuel : Nat}

theorem digitOf_decimal {c : UInt8} {d : Nat} (isDigit : digitOf 10 c = some d) :
    widthDigit c = true ∧ c.toNat = d + 48 := by
  simp only [digitOf] at isDigit
  by_cases decimal : 48 ≤ c ∧ c ≤ 57
  next =>
    rw [if_pos decimal] at isDigit
    have low : 48 ≤ c.toNat := decimal.1
    split at isDigit
    · cases isDigit
      exact ⟨decide_eq_true decimal, by omega⟩
    · cases isDigit
  next =>
    rw [if_neg decimal] at isDigit
    by_cases hex : 65 ≤ c ∧ c ≤ 70
    next =>
      have low : 65 ≤ c.toNat := hex.1
      rw [if_pos hex, if_neg (by omega)] at isDigit
      cases isDigit
    next =>
      rw [if_neg hex] at isDigit
      cases isDigit

theorem widthFrom_value {acc : Nat} (width : readFrom 10 acc digits = some w)
    (small : w < 2147483648) : widthFrom acc digits = w ∧ ∀ c ∈ digits, widthDigit c = true := by
  induction digits generalizing acc with
  | nil =>
    cases width
    refine ⟨rfl, ?_⟩
    intro c member
    cases member
  | cons c digits ih =>
    rw [readFrom] at width
    cases digit : digitOf 10 c with
    | none =>
      rw [digit] at width
      cases width
    | some d =>
      rw [digit] at width
      have isDigit := digitOf_decimal digit
      have next := readFrom_le (by decide) width
      have step : i32 (u32 ((acc : Int) * 10 + (c.toNat - 48))) = (acc * 10 + d : Nat) := by
        have value : (acc : Int) * 10 + (c.toNat - 48) = (acc * 10 + d : Nat) := by
          rw [isDigit.2]
          push_cast
          ring
        rw [value, u32_natCast (by omega), i32_of_bounds (lt_of_le_of_lt next small)]
      have rest := ih width
      constructor
      next =>
        rw [widthFrom, List.foldl_cons, step]
        exact rest.1
      next =>
        intro e member
        rcases List.mem_cons.mp member with rfl | later
        · exact isDigit.1
        · exact rest.2 e later

theorem stringAt_directive {conversion : UInt8} (nonzero : ∀ c ∈ digits, c ≠ 0)
    (notEnd : conversion ≠ 0) :
    StringAt (directive digits conversion) 0 (chPercent :: digits ++ [conversion]) := by
  apply stringAt_of_chars
  · intro j inside
    rw [directive, Nat.zero_add]
    exact (List.getD_eq_getElem _ _ inside)
  · intro c member
    rcases List.mem_cons.mp member with rfl | later
    · decide
    · rcases List.mem_append.mp later with digit | last
      · exact nonzero c digit
      · rwa [List.mem_singleton.mp last]
  · rw [directive, Nat.zero_add]
    exact List.getD_eq_default _ _ (le_refl _)

theorem vsprintf_directive {conversion : UInt8} {next : Nat}
    (width : readFrom 10 0 digits = some w) (small : w < strDefaultLen)
    (letter : conversion = 100 ∨ conversion = 120)
    (converted : convert mem conversion args = .ok (inner, next))
    (nonzero : ∀ c ∈ inner, c ≠ 0) (covers : digits.length + 2 < fuel) :
    vsprintf fuel (directive digits conversion) mem args =
      .ok ⟨List.replicate (w - inner.length)
        (if digits.head? = some chZero then chZero else chSpace) ++ inner, digits.length + 2⟩ := by
  obtain ⟨value, allDigits⟩ := widthFrom_value width (lt_trans small (by decide))
  have notEnd : conversion ≠ 0 := by rcases letter with rfl | rfl <;> decide
  have notPercent : conversion ≠ chPercent := by rcases letter with rfl | rfl <;> decide
  have notDigit : widthDigit conversion = false := by rcases letter with rfl | rfl <;> decide
  have zero : widthDigit 0 = false := by decide
  have percentDigit : widthDigit chPercent = false := by decide
  have digitsNonzero : ∀ c ∈ digits, c ≠ 0 := by
    rintro c member rfl
    exact Bool.false_ne_true (zero.symm.trans (allDigits 0 member))
  have string := stringAt_directive digitsNonzero notEnd
  have first : (digits ++ [conversion]).headD 0 ≠ chPercent := by
    cases digits with
    | nil => exact notPercent
    | cons c digits =>
      intro same
      have isDigit := allDigits c List.mem_cons_self
      rw [show c = chPercent from same, percentDigit] at isDigit
      cases isDigit
  obtain ⟨fuel, rfl⟩ : ∃ n, fuel = n + 2 := ⟨fuel - 2, by omega⟩
  have ended : directive digits conversion (digits.length + 2) = 0 :=
    List.getD_eq_default _ _ (by simp)
  have place : 0 + 1 + digits.length + 1 = digits.length + 2 := by omega
  have whole : inner.takeWhile (· ≠ 0) = inner :=
    List.takeWhile_eq_self_iff.mpr fun c member => decide_eq_true (nonzero c member)
  rw [vsprintf, vsprintfFrom_directive string.1 string.2.2 allDigits notDigit first (by omega),
    List.headD_cons, bind_of_ok _ converted]
  simp only [whole, place]
  rw [vsprintfFrom, if_pos ended, List.nil_append, padding, ← Int.natCast_zero, value,
    ← Int.toNat_sub]

end

section

variable {text : List UInt8} {base : Nat}

theorem digitChar_plain {d : Nat} (bound : d < 16) :
    digitChar d ≠ 0 ∧ digitChar d ≠ chSpace ∧ digitChar d ≠ chMinus := by
  interval_cases d <;> decide

theorem numeral_plain (positive : 0 < base) (few : base ≤ 16) (n : Nat) :
    ∀ c ∈ numeral base n, c ≠ 0 ∧ c ≠ chSpace ∧ c ≠ chMinus := by
  intro c member
  obtain ⟨d, bound, rfl⟩ := padded_digits positive _ n c member
  exact digitChar_plain (lt_of_lt_of_le bound few)

theorem dropWhile_blanks (p : Nat) (text : List UInt8) :
    (List.replicate p chSpace ++ text).dropWhile (· = chSpace) =
      text.dropWhile (· = chSpace) := by
  induction p with
  | zero => rfl
  | succ p ih => exact ih

theorem dropWhile_plain (plain : ∀ c ∈ text, c ≠ chSpace) :
    text.dropWhile (· = chSpace) = text := by
  cases text with
  | nil => rfl
  | cons c rest =>
    rw [List.dropWhile_cons_of_neg]
    exact fun blank => plain c List.mem_cons_self (of_decide_eq_true blank)

theorem mem_dropWhile {c : UInt8} (member : c ∈ text) (notBlank : c ≠ chSpace) :
    c ∈ text.dropWhile (· = chSpace) := by
  induction text with
  | nil => cases member
  | cons first rest ih =>
    by_cases blank : first = chSpace
    next =>
      rw [List.dropWhile_cons, if_pos (decide_eq_true blank)]
      rcases List.mem_cons.mp member with rfl | later
      · exact absurd blank notBlank
      · exact ih later
    next =>
      rw [List.dropWhile_cons, if_neg fun isBlank => blank (of_decide_eq_true isBlank)]
      exact member

theorem readDecimal_unsigned (unsigned : ∀ c ∈ text, c ≠ chMinus) :
    readDecimal text = (read 10 (text.dropWhile (· = chSpace))).map fun n => (n : Int) := by
  have noMinus : (text.dropWhile (· = chSpace)).head? ≠ some chMinus := by
    intro minus
    have member := (List.dropWhile_sublist _).subset (List.mem_of_head? minus)
    exact unsigned _ member rfl
  simp only [readDecimal]
  rw [if_neg noMinus]

theorem readDecimal_minus (text : List UInt8) :
    readDecimal (chMinus :: text) = (read 10 text).map fun n => -(n : Int) := rfl

theorem readDecimal_blanks (p : Nat) (text : List UInt8) :
    readDecimal (List.replicate p chSpace ++ text) = readDecimal text := by
  simp only [readDecimal]
  rw [dropWhile_blanks]

-- Zeros are no blanks: a sign behind them is not read.
theorem readDecimal_zeros_minus {p : Nat} (some' : 0 < p) (text : List UInt8) :
    readDecimal (List.replicate p chZero ++ chMinus :: text) = none := by
  obtain ⟨p, rfl⟩ : ∃ n, p = n + 1 := ⟨p - 1, by omega⟩
  have member : chMinus ∈ List.replicate (p + 1) chZero ++ chMinus :: text :=
    List.mem_append_right _ List.mem_cons_self
  have unread : read 10 (List.replicate (p + 1) chZero ++ chMinus :: text) = none :=
    read_other member (by decide)
  have zeroFirst : readDecimal (List.replicate (p + 1) chZero ++ chMinus :: text) =
      (read 10 (List.replicate (p + 1) chZero ++ chMinus :: text)).map fun n => (n : Int) := rfl
  rw [zeroFirst, unread]
  rfl

theorem read_padded (two : 2 ≤ base) (few : base ≤ 16) (p n : Nat) {fill : UInt8}
    (either : fill = chZero ∨ fill = chSpace) :
    read base ((List.replicate p fill ++ numeral base n).dropWhile (· = chSpace)) = some n := by
  have plain := numeral_plain (by omega) few n
  rcases either with rfl | rfl
  · rw [dropWhile_plain, show chZero = digitChar 0 from rfl,
      read_zeros (by omega) few p (numeral_ne_nil n), read_numeral two few]
    intro c member
    rcases List.mem_append.mp member with zero | digit
    · rw [List.eq_of_mem_replicate zero]
      decide
    · exact (plain c digit).2.1
  · rw [dropWhile_blanks, dropWhile_plain fun c member => (plain c member).2.1,
      read_numeral two few]

end

section

variable {digits : List UInt8} {mem : Nat → UInt8} {args w fuel : Nat}

theorem fill_cases (digits : List UInt8) :
    (if digits.head? = some chZero then chZero else chSpace) = chZero ∨
      (if digits.head? = some chZero then chZero else chSpace) = chSpace := by
  split
  · exact Or.inl rfl
  · exact Or.inr rfl

theorem directive_natural {conversion : UInt8} {base n : Nat} (two : 2 ≤ base) (few : base ≤ 16)
    (width : readFrom 10 0 digits = some w) (small : w < strDefaultLen)
    (letter : conversion = 100 ∨ conversion = 120) (covers : digits.length + 2 < fuel)
    (converted : convert mem conversion args = .ok (numeral base n, args + 4)) :
    ∃ p fill, (fill = chZero ∨ fill = chSpace) ∧
      vsprintf fuel (directive digits conversion) mem args =
        .ok ⟨List.replicate p fill ++ numeral base n, digits.length + 2⟩ :=
  ⟨_, _, fill_cases digits, vsprintf_directive width small letter converted
    (fun c member => (numeral_plain (by omega) few n c member).1) covers⟩

theorem convert_hex_natural {n : Nat} (value : i32 (wordAt mem args) = n)
    (bound : n < 2147483648) :
    convert mem 120 args = .ok (numeral 16 n, args + 4) := by
  have numeral16 : i2a (n : Int) 16 = numeral 16 n := i2a_numeral (by decide) (by decide) bound
  rw [convert, value, if_neg (by decide), if_pos rfl, numeral16]

theorem convert_decimal_natural {n : Nat} (value : i32 (wordAt mem args) = n)
    (bound : n < 2147483648) :
    convert mem 100 args = .ok (numeral 10 n, args + 4) := by
  have numeral10 : i2a (n : Int) 10 = numeral 10 n := i2a_numeral (by decide) (by decide) bound
  have nonneg : ¬ (n : Int) < 0 := by omega
  rw [convert, value, if_neg (by decide), if_neg (by decide), if_pos rfl, if_neg nonneg,
    numeral10]

theorem convert_decimal_negative {n : Nat} (value : i32 (wordAt mem args) = -n)
    (positive : 0 < n) (bound : n < 2147483648) :
    convert mem 100 args = .ok (chMinus :: numeral 10 n, args + 4) := by
  have numeral10 : i2a (n : Int) 10 = numeral 10 n := i2a_numeral (by decide) (by decide) bound
  have negative : -(n : Int) < 0 := by omega
  have turned : -(n : Int) * -1 = n := by ring
  rw [convert, value, if_neg (by decide), if_neg (by decide), if_pos rfl, if_pos negative,
    turned, u32_natCast (by omega), i32_of_bounds bound, numeral10]

-- The most negative number has no counterpart: it stays what it is.
theorem convert_decimal_lowest (value : i32 (wordAt mem args) = -2147483648) :
    convert mem 100 args = .ok (chMinus :: i2a (-2147483648) 10, args + 4) := by
  have turned : i32 (u32 (-2147483648 * -1)) = -2147483648 := by decide
  rw [convert, value, if_neg (by decide), if_neg (by decide), if_pos rfl, if_pos (by decide),
    turned]

theorem hex_reads (width : readFrom 10 0 digits = some w) (small : w < strDefaultLen)
    (covers : digits.length + 2 < fuel) :
    (∃ f, vsprintf fuel (directive digits 120) mem args = .ok f ∧
      readHex f.text = some (u32 (i32 (wordAt mem args)))) ↔ 0 ≤ i32 (wordAt mem args) := by
  obtain ⟨low, high⟩ := i32_range (wordAt mem args)
  rcases lt_or_ge (i32 (wordAt mem args)) 0 with negative | nonneg
  · refine iff_of_false ?_ (not_le.mpr negative)
    obtain ⟨n, value⟩ : ∃ n : Nat, i32 (wordAt mem args) = -n :=
      ⟨(-i32 (wordAt mem args)).toNat, by omega⟩
    rw [value] at low negative
    obtain ⟨c, member, other, notBlank⟩ := i2a_negative (by decide : 2 ≤ 16) (by decide)
      (by omega : 0 < n) (by omega)
    have printed := vsprintf_directive width small (Or.inr rfl) (convert_hex mem args)
      (i2a_nonzero (by decide : 2 ≤ 16) (by decide) _) covers
    rintro ⟨f, done, reads⟩
    rw [printed] at done
    cases done
    rw [readHex, read_other (mem_dropWhile (List.mem_append_right _ ?_) notBlank) other] at reads
    · cases reads
    · rw [value]
      exact member
  · refine iff_of_true ?_ nonneg
    obtain ⟨n, value⟩ := Int.eq_ofNat_of_zero_le nonneg
    have bound : n < 2147483648 := by omega
    obtain ⟨p, fill, either, printed⟩ := directive_natural (by decide) (by decide) width small
      (Or.inr rfl) covers (convert_hex_natural value bound)
    refine ⟨_, printed, ?_⟩
    rw [readHex, read_padded (by decide) (by decide) p n either, value,
      u32_natCast (by omega)]

theorem decimal_reads_sign {text : List UInt8} {m : Int} (width : readFrom 10 0 digits = some w)
    (small : w < strDefaultLen) (covers : digits.length + 2 < fuel)
    (converted : convert mem 100 args = .ok (chMinus :: text, args + 4))
    (nonzero : ∀ c ∈ text, c ≠ 0) :
    (∃ f, vsprintf fuel (directive digits 100) mem args = .ok f ∧ readDecimal f.text = some m) ↔
      (digits.head? = some chZero → w ≤ text.length + 1) ∧
        (read 10 text).map (fun n => -(n : Int)) = some m := by
  have nonzero' : ∀ c ∈ chMinus :: text, c ≠ 0 := by
    intro c member
    rcases List.mem_cons.mp member with rfl | later
    · decide
    · exact nonzero c later
  have printed := vsprintf_directive width small (Or.inl rfl) converted nonzero' covers
  rw [List.length_cons] at printed
  have reading : (∃ f, vsprintf fuel (directive digits 100) mem args = .ok f ∧
      readDecimal f.text = some m) ↔ readDecimal (List.replicate (w - (text.length + 1))
        (if digits.head? = some chZero then chZero else chSpace) ++ chMinus :: text) = some m := by
    rw [printed]
    constructor
    next =>
      rintro ⟨f, done, reads⟩
      cases done
      exact reads
    next =>
      intro reads
      exact ⟨_, rfl, reads⟩
  rw [reading]
  by_cases flag : digits.head? = some chZero
  next =>
    rw [if_pos flag]
    by_cases short : w ≤ text.length + 1
    next =>
      have none' : w - (text.length + 1) = 0 := by omega
      rw [none', List.replicate_zero, List.nil_append, readDecimal_minus]
      exact ⟨fun reads => ⟨fun _ => short, reads⟩, fun both => both.2⟩
    next =>
      rw [readDecimal_zeros_minus (by omega)]
      refine iff_of_false (fun reads => by cases reads) ?_
      exact fun both => short (both.1 flag)
  next =>
    rw [if_neg flag, readDecimal_blanks, readDecimal_minus]
    exact ⟨fun reads => ⟨fun isFlag => absurd isFlag flag, reads⟩, fun both => both.2⟩

theorem decimal_reads (width : readFrom 10 0 digits = some w) (small : w < strDefaultLen)
    (covers : digits.length + 2 < fuel) {m : Int} (value : i32 (wordAt mem args) = m) :
    (∃ f, vsprintf fuel (directive digits 100) mem args = .ok f ∧ readDecimal f.text = some m) ↔
      0 ≤ m ∨ -2147483648 < m ∧
        (digits.head? = some chZero → w ≤ Nat.log 10 m.natAbs + 2) := by
  obtain ⟨low, high⟩ := i32_range (wordAt mem args)
  rw [value] at low high
  rcases lt_or_ge m 0 with negative | nonneg
  · obtain ⟨n, rfl⟩ : ∃ n : Nat, m = -n := ⟨(-m).toNat, by omega⟩
    have size : (-(n : Int)).natAbs = n := by omega
    rcases lt_or_ge n 2147483648 with bound | lowest
    · rw [decimal_reads_sign width small covers
        (convert_decimal_negative value (by omega) bound)
        fun c member => (numeral_plain (by decide) (by decide) n c member).1,
        read_numeral (by decide) (by decide), size, numeral, padded_length]
      constructor
      next =>
        rintro ⟨fits, -⟩
        exact Or.inr ⟨by omega, fits⟩
      next =>
        rintro (nonneg | ⟨-, fits⟩)
        · omega
        · exact ⟨fits, rfl⟩
    · have same : n = 2147483648 := by omega
      subst same
      obtain ⟨c, member, other, -⟩ := i2a_negative (by decide : 2 ≤ 10) (by decide)
        (by decide : 0 < 2147483648) (le_refl _)
      rw [decimal_reads_sign width small covers (convert_decimal_lowest value)
        (i2a_nonzero (by decide : 2 ≤ 10) (by decide) _)]
      refine iff_of_false ?_ (by omega)
      rintro ⟨-, reads⟩
      have unread : read 10 (i2a (-2147483648) 10) = none := read_other member other
      rw [unread] at reads
      cases reads
  · refine iff_of_true ?_ (Or.inl nonneg)
    obtain ⟨n, rfl⟩ := Int.eq_ofNat_of_zero_le nonneg
    obtain ⟨p, fill, either, printed⟩ := directive_natural (by decide) (by decide) width small
      (Or.inl rfl) covers (convert_decimal_natural value (by omega))
    refine ⟨_, printed, ?_⟩
    have unsigned : ∀ c ∈ List.replicate p fill ++ numeral 10 n, c ≠ chMinus := by
      intro c member
      rcases List.mem_append.mp member with filled | digit
      · rw [List.eq_of_mem_replicate filled]
        rcases either with rfl | rfl <;> decide
      · exact (numeral_plain (by decide) (by decide) n c digit).2.2
    rw [readDecimal_unsigned unsigned, read_padded (by decide) (by decide) p n either]
    rfl

theorem itoa_agrees (covers : 2 < fuel) {m : Int} (value : i32 (wordAt mem args) = m) :
    (∃ f, vsprintf fuel (directive [] 120) mem args = .ok f ∧
      itoa m = ascii ['0', 'x'] ++ f.text) ↔ 0 ≤ m := by
  obtain ⟨low, high⟩ := i32_range (wordAt mem args)
  have converted := convert_hex mem args
  rw [value] at low high converted
  have noWidth : readFrom 10 0 [] = some 0 := rfl
  have printed := vsprintf_directive noWidth (by decide) (Or.inr rfl) converted
    (i2a_nonzero (by decide : 2 ≤ 16) (by decide) m) covers
  rw [printed, Nat.zero_sub, List.replicate_zero, List.nil_append, itoa_numeral low high]
  constructor
  next =>
    rintro ⟨f, done, same⟩
    cases done
    by_contra negative
    obtain ⟨n, rfl⟩ : ∃ n : Nat, m = -n := ⟨(-m).toNat, by omega⟩
    obtain ⟨c, member, other, -⟩ := i2a_negative (by decide : 2 ≤ 16) (by decide)
      (by omega : 0 < n) (by omega)
    have unread : read 16 (i2a (-n) 16) = none := read_other member other
    have reads : read 16 (numeral 16 (u32 (-n))) = some (u32 (-n)) :=
      read_numeral (by decide) (by decide) _
    rw [List.append_cancel_left same] at reads
    exact Option.some_ne_none _ (reads.symm.trans unread)
  next =>
    intro nonneg
    obtain ⟨n, rfl⟩ := Int.eq_ofNat_of_zero_le nonneg
    have numeral16 : i2a (n : Int) 16 = numeral 16 n :=
      i2a_numeral (by decide) (by decide) (by omega)
    exact ⟨_, rfl, by rw [u32_natCast (by omega), numeral16]⟩

/--
Which numbers `m` read back: `%d` fails at the most negative one and where zeros are put in front of
a sign; `%x` and `itoa()` agree, and `%x` writes hexadecimal digits, where `m` is not negative.
-/
theorem numbers_read_back (width : readFrom 10 0 digits = some w) (small : w < strDefaultLen)
    (covers : digits.length + 2 < fuel) {m : Int} (value : i32 (wordAt mem args) = m) :
    ((∃ f, vsprintf fuel (directive digits 100) mem args = .ok f ∧
        readDecimal f.text = some m) ↔
      0 ≤ m ∨ -2147483648 < m ∧ (digits.head? = some chZero → w ≤ Nat.log 10 m.natAbs + 2)) ∧
    ((∃ f, vsprintf fuel (directive digits 120) mem args = .ok f ∧
        readHex f.text = some (u32 m)) ↔ 0 ≤ m) ∧
    ((∃ f, vsprintf fuel (directive [] 120) mem args = .ok f ∧
        itoa m = ascii ['0', 'x'] ++ f.text) ↔ 0 ≤ m) := by
  refine ⟨decimal_reads width small covers value, ?_, itoa_agrees (by omega) value⟩
  rw [← value]
  exact hex_reads width small covers

end

-- `%05d` of -5 in the memory behind the format.
def minusFive : Nat → UInt8 := putWord (fun _ => 0) 0x1000 (u32 (-5))

theorem numbers_read_back_minusFive :
    ((∃ f, vsprintf 5 (directive (ascii ['0', '5']) 100) minusFive 0x1000 = .ok f ∧
        readDecimal f.text = some (-5)) ↔
      (0 : Int) ≤ -5 ∨ (-2147483648 : Int) < -5 ∧ ((ascii ['0', '5']).head? = some chZero →
        5 ≤ Nat.log 10 (-5 : Int).natAbs + 2)) ∧
    ((∃ f, vsprintf 5 (directive (ascii ['0', '5']) 120) minusFive 0x1000 = .ok f ∧
        readHex f.text = some (u32 (-5))) ↔ (0 : Int) ≤ -5) ∧
    ((∃ f, vsprintf 5 (directive [] 120) minusFive 0x1000 = .ok f ∧
        itoa (-5) = ascii ['0', 'x'] ++ f.text) ↔ (0 : Int) ≤ -5) :=
  numbers_read_back (by decide) (by decide) (by decide) (by decide)

-- The text is `000-5`, and `%x` writes `+`.
theorem numbers_unread :
    vsprintf 5 (directive (ascii ['0', '5']) 100) minusFive 0x1000 =
        .ok ⟨ascii ['0', '0', '0', '-', '5'], 4⟩ ∧
      readDecimal (ascii ['0', '0', '0', '-', '5']) ≠ some (-5) ∧
      vsprintf 5 (directive [] 120) minusFive 0x1000 = .ok ⟨ascii ['+'], 2⟩ ∧
      readHex (ascii ['+']) ≠ some (u32 (-5)) ∧
      itoa (-5) = ascii ['0', 'x', 'F', 'F', 'F', 'F', 'F', 'F', 'F', 'B'] := by
  refine ⟨?_, ?_, ?_, ?_, ?_⟩ <;> decide +kernel

end Konix.Klib
