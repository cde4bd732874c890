import Konix.Klib.Vsprintf
import Mathlib.Data.List.TakeWhile

set_option autoImplicit false

namespace Konix.Klib

open CString Words

-- Where the scan of a format stands: outside a directive, behind its `%`, or in its field width.
inductive Scan
  | plain
  | percent
  | width
deriving DecidableEq, Repr

def Scan.next : Scan → UInt8 → Scan
  | .plain, c => if c = chPercent then .percent else .plain
  | .percent, c =>
    if c = chPercent then .plain else if widthDigit c = true then .width else .plain
  | .width, c => if widthDigit c = true then .width else .plain

-- No directive of the format is cut off.
def Complete (text : List UInt8) : Prop := text.foldl Scan.next .plain = .plain

instance (text : List UInt8) : Decidable (Complete text) :=
  inferInstanceAs (Decidable (text.foldl Scan.next .plain = .plain))

def takesArg (conversion : UInt8) : Prop :=
  conversion = 99 ∨ conversion = 120 ∨ conversion = 100 ∨ conversion = 115

instance (conversion : UInt8) : Decidable (takesArg conversion) :=
  inferInstanceAs (Decidable (_ ∨ _))

-- The arguments match the format: for a `%s` there is a string that fits `inner_buf`.
def Matching (mem : Nat → UInt8) : Scan → List UInt8 → Nat → Prop
  | _, [], _ => True
  | scan, c :: rest, nextArg =>
    -- `c` is a conversion
    if scan ≠ .plain ∧ scan.next c = .plain then
      (c = 115 → ∃ str, StringAt mem (wordAt mem nextArg) str ∧ str.length < strDefaultLen) ∧
        Matching mem .plain rest (if takesArg c then nextArg + 4 else nextArg)
    else Matching mem (scan.next c) rest nextArg

def strlen (buf : List UInt8) : Nat := (buf.takeWhile (· ≠ 0)).length

def EndsAt (result : Except FormatStop Formatted) (out : List UInt8) (last : Nat) : Prop :=
  ∃ written, (∀ c ∈ written, c ≠ 0) ∧ result = .ok ⟨out ++ written, last⟩

def RunsPast (result : Except FormatStop Formatted) (last : Nat) : Prop :=
  ∀ f, result = .ok f → last < f.last

structure Scanned (scan : Scan) (result : Except FormatStop Formatted) (out : List UInt8)
    (last : Nat) : Prop where
  complete : scan = .plain → EndsAt result out last
  cutOff : scan ≠ .plain → RunsPast result last

variable {fmt mem : Nat → UInt8} {text digits rest : List UInt8} {fuel pos nextArg : Nat}
  {out : List UInt8}

theorem Scanned.append {scan : Scan} {result : Except FormatStop Formatted}
    {written : List UInt8} {last : Nat} (scanned : Scanned scan result (out ++ written) last)
    (nonzero : ∀ c ∈ written, c ≠ 0) : Scanned scan result out last := by
  refine ⟨?_, scanned.cutOff⟩
  intro plain
  obtain ⟨more, nonzero', done⟩ := scanned.complete plain
  refine ⟨written ++ more, ?_, ?_⟩
  · intro c member
    rcases List.mem_append.mp member with first | later
    · exact nonzero c first
    · exact nonzero' c later
  · rw [done, List.append_assoc]

theorem next_digit {scan : Scan} (inside : scan ≠ .plain) {c : UInt8}
    (digit : widthDigit c = true) : scan.next c = .width := by
  have notPercent : c ≠ chPercent := by
    rintro rfl
    exact absurd digit (by decide)
  cases scan with
  | plain => exact absurd rfl inside
  | percent => rw [Scan.next, if_neg notPercent, if_pos digit]
  | width => rw [Scan.next, if_pos digit]

theorem next_other {scan : Scan} (inside : scan ≠ .plain) {c : UInt8}
    (other : widthDigit c = false) : scan.next c = .plain := by
  have notDigit : ¬ widthDigit c = true := by simp [other]
  cases scan with
  | plain => exact absurd rfl inside
  | percent =>
    rw [Scan.next, if_neg notDigit]
    split <;> rfl
  | width => rw [Scan.next, if_neg notDigit]

theorem scan_digits {scan : Scan} (inside : scan ≠ .plain)
    (allDigits : ∀ c ∈ digits, widthDigit c = true) (mem : Nat → UInt8) (rest : List UInt8)
    (nextArg : Nat) :
    ∃ scan' : Scan, scan' ≠ .plain ∧
      (digits ++ rest).foldl Scan.next scan = rest.foldl Scan.next scan' ∧
      (Matching mem scan (digits ++ rest) nextArg → Matching mem scan' rest nextArg) := by
  induction digits generalizing scan with
  | nil => exact ⟨scan, inside, rfl, id⟩
  | cons c digits ih =>
    have digit := next_digit inside (allDigits c List.mem_cons_self)
    have later : ∀ d ∈ digits, widthDigit d = true :=
      fun d member => allDigits d (List.mem_cons_of_mem c member)
    obtain ⟨scan', inside', folds, matching⟩ := ih (by decide : Scan.width ≠ .plain) later
    refine ⟨scan', inside', ?_, ?_⟩
    · rw [List.cons_append, List.foldl_cons, digit, folds]
    · intro whole
      have noConversion : ¬ (scan ≠ .plain ∧ scan.next c = .plain) := by
        rw [digit]
        exact fun both => Scan.noConfusion both.2
      rw [List.cons_append, Matching, if_neg noConversion, digit] at whole
      exact matching whole

theorem convert_decimal (mem : Nat → UInt8) (nextArg : Nat) :
    ∃ inner, convert mem 100 nextArg = .ok (inner, nextArg + 4) := by
  rw [convert, if_neg (by decide), if_neg (by decide), if_pos rfl]
  split
  · exact ⟨_, rfl⟩
  · exact ⟨_, rfl⟩

theorem convert_matching {conversion : UInt8} (matching : conversion = 115 →
    ∃ str, StringAt mem (wordAt mem nextArg) str ∧ str.length < strDefaultLen) :
    ∃ inner, convert mem conversion nextArg =
      .ok (inner, if takesArg conversion then nextArg + 4 else nextArg) := by
  by_cases character : conversion = 99
  next =>
    subst character
    exact ⟨[mem nextArg], rfl⟩
  next =>
    by_cases hex : conversion = 120
    next =>
      subst hex
      exact ⟨_, convert_hex mem nextArg⟩
    next =>
      by_cases decimal : conversion = 100
      next =>
        subst decimal
        exact convert_decimal mem nextArg
      next =>
        by_cases string : conversion = 115
        next =>
          subst string
          obtain ⟨str, read⟩ := matching rfl
          rw [← readString_eq_some] at read
          refine ⟨str, ?_⟩
          rw [convert, if_neg (by decide), if_neg (by decide), if_neg (by decide), if_pos rfl, read]
          rfl
        next =>
          have noArg : ¬ takesArg conversion := by
            simp [takesArg, character, hex, decimal, string]
          refine ⟨[], ?_⟩
          rw [convert, if_neg character, if_neg hex, if_neg decimal, if_neg string, if_neg noArg]

theorem written_nonzero (digits inner : List UInt8) :
    ∀ c ∈ padding digits (inner.takeWhile (· ≠ 0)) ++ inner.takeWhile (· ≠ 0), c ≠ 0 := by
  intro c member
  rcases List.mem_append.mp member with fill | shown
  · rw [padding] at fill
    rw [List.eq_of_mem_replicate fill]
    split <;> decide
  · have nonzero := List.mem_takeWhile_imp shown
    exact of_decide_eq_true nonzero

theorem split_digits (text : List UInt8) : ∃ digits rest, text = digits ++ rest ∧
    (∀ c ∈ digits, widthDigit c = true) ∧ widthDigit (rest.headD 0) = false := by
  induction text with
  | nil => exact ⟨[], [], rfl, List.forall_mem_nil _, by decide⟩
  | cons c text ih =>
    cases digit : widthDigit c with
    | false => exact ⟨[], c :: text, rfl, List.forall_mem_nil _, digit⟩
    | true =>
      obtain ⟨digits, rest, rfl, allDigits, behind⟩ := ih
      refine ⟨c :: digits, rest, rfl, ?_, behind⟩
      intro d member
      rcases List.mem_cons.mp member with rfl | later
      · exact digit
      · exact allDigits d later

theorem matching_conversion {scan : Scan} {c : UInt8}
    (matching : Matching mem scan (c :: rest) nextArg) (inside : scan ≠ .plain)
    (ends : scan.next c = .plain) :
    (c = 115 → ∃ str, StringAt mem (wordAt mem nextArg) str ∧ str.length < strDefaultLen) ∧
      Matching mem .plain rest (if takesArg c then nextArg + 4 else nextArg) := by
  rwa [Matching, if_pos ⟨inside, ends⟩] at matching

theorem matching_plain {c : UInt8} (matching : Matching mem .plain (c :: rest) nextArg) :
    Matching mem (Scan.next .plain c) rest nextArg := by
  rwa [Matching, if_neg fun both => both.1 rfl] at matching

theorem vsprintfFrom_digits (mem : Nat → UInt8) (nextArg : Nat) (out : List UInt8)
    (percent : fmt pos = chPercent)
    (string : StringAt fmt (pos + 1) (digits ++ rest))
    (allDigits : ∀ c ∈ digits, widthDigit c = true) (behind : widthDigit (rest.headD 0) = false)
    (directive : (digits ++ rest).headD 0 ≠ chPercent) (room : digits.length < fuel)
    (matching : rest.headD 0 = 115 →
      ∃ str, StringAt mem (wordAt mem nextArg) str ∧ str.length < strDefaultLen) :
    ∃ written, (∀ c ∈ written, c ≠ 0) ∧
      vsprintfFrom fmt mem (fuel + 1) pos nextArg out =
        vsprintfFrom fmt mem fuel (pos + 1 + digits.length + 1)
          (if takesArg (rest.headD 0) then nextArg + 4 else nextArg) (out ++ written) := by
  obtain ⟨inner, converted⟩ := convert_matching matching
  refine ⟨_, written_nonzero digits inner, ?_⟩
  rw [vsprintfFrom_directive percent string allDigits behind directive room,
    bind_of_ok _ converted]
  simp only [List.append_assoc]

-- A format whose directives are complete is read up to its end, any other one past it.
theorem vsprintfFrom_scan (string : StringAt fmt pos text)
    (matching : Matching mem .plain text nextArg) (covers : text.length < fuel) :
    Scanned (text.foldl Scan.next .plain) (vsprintfFrom fmt mem fuel pos nextArg out) out
      (pos + text.length) := by
  induction fuel generalizing pos nextArg text out with
  | zero => omega
  | succ fuel ih =>
    cases text with
    | nil =>
      refine ⟨fun _ => ⟨[], ?_, ?_⟩, fun cut => absurd rfl cut⟩
      · intro c member
        cases member
      · have ended : fmt pos = 0 := string
        rw [vsprintfFrom, if_pos ended, List.append_nil]
        rfl
    | cons c rest =>
      obtain ⟨here, nonzero, string⟩ := string
      have notEnd : fmt pos ≠ 0 := by rwa [here]
      rw [List.length_cons] at covers
      have matching := matching_plain matching
      have length : pos + (c :: rest).length = pos + 1 + rest.length := by
        rw [List.length_cons]
        omega
      rw [List.foldl_cons, length]
      by_cases percent : c = chPercent
      next =>
        have percent' : fmt pos = chPercent := here.trans percent
        have begins : Scan.next .plain c = .percent := if_pos percent
        have inside : Scan.percent ≠ .plain := by decide
        rw [begins] at matching ⊢
        by_cases second : rest.headD 0 = chPercent
        next =>
          cases rest with
          | nil => exact absurd second (by decide)
          | cons d rest =>
            have isPercent : d = chPercent := second
            subst isPercent
            have matching := (matching_conversion matching inside rfl).2
            rw [List.length_cons] at covers
            have length : pos + 1 + (chPercent :: rest).length = pos + 1 + 1 + rest.length := by
              rw [List.length_cons]
              omega
            rw [vsprintfFrom, if_neg notEnd, if_neg (not_not.mpr percent'), if_pos string.1,
              string.1, length]
            exact (ih string.2.2 matching (by omega)).append (by simp [chPercent])
        next =>
          obtain ⟨digits, behind, rfl, allDigits, ends⟩ := split_digits rest
          obtain ⟨scan, inside', folds, through⟩ :=
            scan_digits inside allDigits mem behind nextArg
          have matching := through matching
          rw [folds]
          rw [List.length_append] at covers
          have short : digits.length < fuel := by omega
          cases behind with
          | nil =>
            obtain ⟨written, -, step⟩ := vsprintfFrom_digits mem nextArg out percent' string
              allDigits ends second short (fun conversion => absurd conversion (by decide))
            refine ⟨fun plain => absurd plain inside', fun _ f done => ?_⟩
            rw [step] at done
            have further := (vsprintfFrom_grows done).2
            rw [List.append_nil]
            omega
          | cons d behind =>
            have conversion : scan.next d = .plain := next_other inside' ends
            obtain ⟨fits, matching⟩ := matching_conversion matching inside' conversion
            obtain ⟨written, nonzero', step⟩ := vsprintfFrom_digits mem nextArg out percent' string
              allDigits ends second short fits
            have string := (stringAt_append string).2.2
            rw [List.length_cons] at covers
            have length : pos + 1 + (digits ++ d :: behind).length =
                pos + 1 + digits.length + 1 + behind.length := by
              rw [List.length_append, List.length_cons]
              omega
            rw [step, List.foldl_cons, conversion, length]
            exact (ih string matching (by omega)).append nonzero'
      next =>
        have stays : Scan.next .plain c = .plain := if_neg percent
        rw [stays] at matching ⊢
        have notPercent : fmt pos ≠ chPercent := by rwa [here]
        rw [vsprintfFrom, if_neg notEnd, if_pos notPercent, here]
        exact (ih string matching (by omega)).append (by simpa using nonzero)

theorem strlen_text (nonzero : ∀ c ∈ text, c ≠ 0) : strlen (text ++ [0]) = text.length := by
  have whole : text.takeWhile (· ≠ 0) = text :=
    List.takeWhile_eq_self_iff.mpr fun c member => decide_eq_true (nonzero c member)
  rw [strlen, List.takeWhile_append_of_pos fun c member => decide_eq_true (nonzero c member)]
  simp

/--
`vsprintf()` stops at the end of its format, with the length of the string it has produced, if and
only if no directive of the format is cut off: behind a `%` or a width the loop steps over the zero
byte.
-/
theorem vsprintf_bounded {fuel : Nat} {fmt mem : Nat → UInt8} {text : List UInt8} {args : Nat}
    (string : StringAt fmt 0 text) (matching : Matching mem .plain text args)
    (covers : text.length < fuel) :
    (∃ f, vsprintf fuel fmt mem args = .ok f ∧ f.last ≤ text.length ∧
      strlen (f.text ++ [0]) = f.text.length) ↔ Complete text := by
  have scanned : Scanned (text.foldl Scan.next .plain) (vsprintf fuel fmt mem args) []
      (0 + text.length) := vsprintfFrom_scan string matching covers
  rw [Nat.zero_add] at scanned
  constructor
  next =>
    rintro ⟨f, done, inside, -⟩
    by_contra cut
    exact absurd (scanned.cutOff cut f done) (not_lt.mpr inside)
  next =>
    intro complete
    obtain ⟨written, nonzero, done⟩ := scanned.complete complete
    exact ⟨_, done, le_refl _, strlen_text nonzero⟩

-- `100%` with two more strings behind it in memory.
def cutOffFormat : Nat → UInt8 :=
  fun j => (ascii ['1', '0', '0', '%', '\x00', '%', 'd', '\x00']).getD j 0

theorem cutOffFormat_string : StringAt cutOffFormat 0 (ascii ['1', '0', '0', '%']) := by decide

theorem vsprintf_bounded_cutOff :
    (∃ f, vsprintf 9 cutOffFormat (fun _ => 0) 0x1000 = .ok f ∧ f.last ≤ 4 ∧
      strlen (f.text ++ [0]) = f.text.length) ↔ Complete (ascii ['1', '0', '0', '%']) :=
  vsprintf_bounded cutOffFormat_string True.intro (by decide)

-- The directive in the next string is carried out.
theorem vsprintf_unbounded :
    StringAt cutOffFormat 0 (ascii ['1', '0', '0', '%']) ∧
      vsprintf 9 cutOffFormat (fun _ => 0) 0x1000 = .ok ⟨ascii ['1', '0', '0', '0'], 7⟩ ∧
      ¬ ∃ f, vsprintf 9 cutOffFormat (fun _ => 0) 0x1000 = .ok f ∧ f.last ≤ 4 ∧
        strlen (f.text ++ [0]) = f.text.length := by
  have read : vsprintf 9 cutOffFormat (fun _ => 0) 0x1000 =
      .ok ⟨ascii ['1', '0', '0', '0'], 7⟩ := by decide +kernel
  refine ⟨cutOffFormat_string, read, ?_⟩
  rintro ⟨f, done, inside, -⟩
  rw [read] at done
  cases done
  exact absurd inside (by decide)

end Konix.Klib
