import Konix.Const
import Konix.Lib.CString
import Konix.Lib.Words

set_option autoImplicit false

namespace Konix.Klib

open CString Words

def strDefaultLen : Nat := 1024

def ascii (text : List Char) : List UInt8 := text.map fun c => UInt8.ofNat c.toNat

def chPercent : UInt8 := 37
def chSpace : UInt8 := 32
def chZero : UInt8 := 48
def chMinus : UInt8 := 45

-- Why a call of `vsprintf()` does not return: a format that is longer than assumed, or an argument
-- that does not fit `inner_buf`.
inductive FormatStop
  | runsOn
  | overflow
deriving DecidableEq, Repr

def digit (m : Int) : UInt8 := UInt8.ofNat (if m < 10 then m + 48 else m - 10 + 65).toNat

-- `i2a()`; the division of C rounds towards zero, and no number has more digits than bits.
def i2aDigits (base : Int) : Nat → Int → List UInt8
  | 0, _ => []
  | room + 1, val =>
    let q := val.tdiv base
    (if q ≠ 0 then i2aDigits base room q else []) ++ [digit (val.tmod base)]

def i2a (val base : Int) : List UInt8 := i2aDigits base 32 val

-- The field width, from the first digit on, and the place behind it.
def scanWidth (fmt : Nat → UInt8) : Nat → Nat → Int → Except FormatStop (Int × Nat)
  | 0, _, _ => .error .runsOn
  | fuel + 1, pos, alignNr =>
    if 48 ≤ fmt pos ∧ fmt pos ≤ 57 then
      scanWidth fmt fuel (pos + 1) (i32 (u32 (alignNr * 10 + ((fmt pos).toNat - 48))))
    else .ok (alignNr, pos)

/--
What a directive writes to `inner_buf`, and where the next argument is then. The arguments are words
in memory, one behind the other.
-/
def convert (mem : Nat → UInt8) (conversion : UInt8) (nextArg : Nat) :
    Except FormatStop (List UInt8 × Nat) :=
  let m := i32 (wordAt mem nextArg)
  if conversion = 99 then .ok ([mem nextArg], nextArg + 4)
  else if conversion = 120 then .ok (i2a m 16, nextArg + 4)
  else if conversion = 100 then
    if m < 0 then .ok (chMinus :: i2a (i32 (u32 (m * -1))) 10, nextArg + 4)
    else .ok (i2a m 10, nextArg + 4)
  else if conversion = 115 then
    match readString mem strDefaultLen (wordAt mem nextArg) with
    | none => .error .overflow
    | some str => .ok (str, nextArg + 4)
  else .ok ([], nextArg)

structure Formatted where
  text : List UInt8
  last : Nat
deriving DecidableEq, Repr

def vsprintfFrom (fmt mem : Nat → UInt8) :
    Nat → Nat → Nat → List UInt8 → Except FormatStop Formatted
  | 0, _, _, _ => .error .runsOn
  | fuel + 1, pos, nextArg, out =>
    if fmt pos = 0 then .ok ⟨out, pos⟩
    else if fmt pos ≠ chPercent then vsprintfFrom fmt mem fuel (pos + 1) nextArg (out ++ [fmt pos])
    else if fmt (pos + 1) = chPercent then
      vsprintfFrom fmt mem fuel (pos + 1 + 1) nextArg (out ++ [fmt (pos + 1)])
    else do
      let cs := if fmt (pos + 1) = chZero then chZero else chSpace
      let pos := if fmt (pos + 1) = chZero then pos + 1 + 1 else pos + 1
      let (alignNr, pos) ← scanWidth fmt fuel pos 0
      let (inner, nextArg) ← convert mem (fmt pos) nextArg
      -- `inner_buf` was zeroed: it ends at the first zero byte
      let inner := inner.takeWhile (· ≠ 0)
      let padding := List.replicate (alignNr - inner.length).toNat cs
      vsprintfFrom fmt mem fuel (pos + 1) nextArg (out ++ padding ++ inner)

-- `vsprintf()`, which answers the length of the text; `fuel` bounds the length of the format.
def vsprintf (fuel : Nat) (fmt mem : Nat → UInt8) (args : Nat) : Except FormatStop Formatted :=
  vsprintfFrom fmt mem fuel 0 args []

theorem scanWidth_last {fmt : Nat → UInt8} {fuel pos : Nat} {alignNr : Int} {r : Int × Nat}
    (done : scanWidth fmt fuel pos alignNr = .ok r) : pos ≤ r.2 := by
  induction fuel generalizing pos alignNr with
  | zero => cases done
  | succ fuel ih =>
    rw [scanWidth] at done
    split at done
    · exact Nat.le_of_succ_le (ih done)
    · cases done
      exact le_refl pos

theorem vsprintfFrom_grows {fmt mem : Nat → UInt8} {fuel pos nextArg : Nat} {out : List UInt8}
    {f : Formatted} (done : vsprintfFrom fmt mem fuel pos nextArg out = .ok f) :
    out <+: f.text ∧ pos ≤ f.last := by
  induction fuel generalizing pos nextArg out with
  | zero => cases done
  | succ fuel ih =>
    rw [vsprintfFrom] at done
    by_cases ended : fmt pos = 0
    next =>
      rw [if_pos ended] at done
      cases done
      exact ⟨List.prefix_refl out, le_refl pos⟩
    next =>
      rw [if_neg ended] at done
      by_cases plain : fmt pos ≠ chPercent
      next =>
        rw [if_pos plain] at done
        obtain ⟨written, further⟩ := ih done
        exact ⟨(List.prefix_append _ _).trans written, by omega⟩
      next =>
        rw [if_neg plain] at done
        by_cases percent : fmt (pos + 1) = chPercent
        next =>
          rw [if_pos percent] at done
          obtain ⟨written, further⟩ := ih done
          exact ⟨(List.prefix_append _ _).trans written, by omega⟩
        next =>
          rw [if_neg percent] at done
          obtain ⟨⟨alignNr, pos'⟩, scanned, done⟩ := bind_ok done
          obtain ⟨⟨inner, nextArg'⟩, -, done⟩ := bind_ok done
          have start := scanWidth_last scanned
          obtain ⟨written, further⟩ := ih done
          rw [List.append_assoc] at written
          refine ⟨(List.prefix_append _ _).trans written, ?_⟩
          split at start <;> omega

theorem convert_hex (mem : Nat → UInt8) (args : Nat) :
    convert mem 120 args = .ok (i2a (i32 (wordAt mem args)) 16, args + 4) := by
  rw [convert, if_neg (by decide), if_pos rfl]

def widthDigit (c : UInt8) : Bool := 48 ≤ c ∧ c ≤ 57

-- The width that digits in front of a conversion ask for; a `0` flag counts as one of them.
def widthFrom (alignNr : Int) (digits : List UInt8) : Int :=
  digits.foldl (fun alignNr c => i32 (u32 (alignNr * 10 + (c.toNat - 48)))) alignNr

def padding (digits inner : List UInt8) : List UInt8 :=
  List.replicate (widthFrom 0 digits - inner.length).toNat
    (if digits.head? = some chZero then chZero else chSpace)

section

variable {fmt mem : Nat → UInt8} {digits rest : List UInt8} {fuel pos nextArg : Nat}

theorem stringAt_head (string : StringAt fmt pos rest) : fmt pos = rest.headD 0 := by
  cases rest with
  | nil => exact string
  | cons c rest => exact string.1

theorem stringAt_append (string : StringAt fmt pos (digits ++ rest)) :
    StringAt fmt (pos + digits.length) rest := by
  induction digits generalizing pos with
  | nil => exact string
  | cons c digits ih =>
    have moved : pos + (c :: digits).length = pos + 1 + digits.length := by
      rw [List.length_cons]
      omega
    rw [moved]
    exact ih string.2.2

theorem scanWidth_digits (string : StringAt fmt pos (digits ++ rest))
    (allDigits : ∀ c ∈ digits, widthDigit c = true) (behind : widthDigit (rest.headD 0) = false)
    (room : digits.length < fuel) (alignNr : Int) :
    scanWidth fmt fuel pos alignNr = .ok (widthFrom alignNr digits, pos + digits.length) := by
  induction digits generalizing fuel pos alignNr with
  | nil =>
    obtain ⟨fuel, rfl⟩ := Nat.exists_eq_add_of_lt room
    have stops : ¬ (48 ≤ fmt pos ∧ fmt pos ≤ 57) := by
      rw [stringAt_head string]
      exact of_decide_eq_false behind
    rw [scanWidth, if_neg stops]
    rfl
  | cons c digits ih =>
    obtain ⟨fuel, rfl⟩ : ∃ n, fuel = n + 1 := ⟨fuel - 1, by omega⟩
    have isDigit : 48 ≤ c ∧ c ≤ 57 := of_decide_eq_true (allDigits c List.mem_cons_self)
    have later : ∀ c ∈ digits, widthDigit c = true :=
      fun d member => allDigits d (List.mem_cons_of_mem c member)
    have moved : pos + 1 + digits.length = pos + (c :: digits).length := by
      rw [List.length_cons]
      omega
    rw [scanWidth, string.1, if_pos isDigit,
      ih string.2.2 later (by rw [List.length_cons] at room; omega), moved]
    rfl

-- A directive writes the padding and the text of its conversion.
theorem vsprintfFrom_directive {out : List UInt8} (percent : fmt pos = chPercent)
    (string : StringAt fmt (pos + 1) (digits ++ rest))
    (allDigits : ∀ c ∈ digits, widthDigit c = true) (behind : widthDigit (rest.headD 0) = false)
    (directive : (digits ++ rest).headD 0 ≠ chPercent) (room : digits.length < fuel) :
    vsprintfFrom fmt mem (fuel + 1) pos nextArg out = (do
      let (inner, nextArg) ← convert mem (rest.headD 0) nextArg
      let inner := inner.takeWhile (· ≠ 0)
      vsprintfFrom fmt mem fuel (pos + 1 + digits.length + 1) nextArg
        (out ++ padding digits inner ++ inner)) := by
  have first : fmt (pos + 1) = (digits ++ rest).headD 0 := stringAt_head string
  have conversion : fmt (pos + 1 + digits.length) = rest.headD 0 :=
    stringAt_head (stringAt_append string)
  have notZero : chPercent ≠ 0 := by decide
  rw [vsprintfFrom, percent, if_neg notZero, if_neg (not_not.mpr rfl), first, if_neg directive]
  by_cases zero : (digits ++ rest).headD 0 = chZero
  next =>
    cases digits with
    | nil =>
      have isZero : rest.headD 0 = chZero := zero
      rw [isZero] at behind
      exact absurd behind (by decide)
    | cons c digits =>
      have flag : c = chZero := zero
      subst flag
      have short : digits.length < fuel := lt_trans (Nat.lt_succ_self _) room
      have later : ∀ c ∈ digits, widthDigit c = true :=
        fun d member => allDigits d (List.mem_cons_of_mem _ member)
      have scanned := scanWidth_digits string.2.2 later behind short 0
      have moved : pos + 1 + 1 + digits.length = pos + 1 + (chZero :: digits).length := by
        rw [List.length_cons]
        omega
      rw [moved] at scanned
      simp only [if_pos zero]
      rw [bind_of_ok _ scanned]
      simp only [conversion]
      rfl
  next =>
    have scanned := scanWidth_digits string allDigits behind room 0
    have noFlag : digits.head? ≠ some chZero := by
      intro flag
      cases digits with
      | nil => cases flag
      | cons c digits => exact zero (Option.some.inj flag)
    simp only [if_neg zero]
    rw [bind_of_ok _ scanned]
    simp only [conversion, padding, if_neg noFlag]

end

end Konix.Klib
