import Konix.Klib.Vsprintf

set_option autoImplicit false

namespace Konix.Klib

open CString Splice Words

def magChPanic : UInt8 := 2
def magChAssert : UInt8 := 3

def panicFormat : List UInt8 :=
  ascii ['r', 'e', 't', 'u', 'r', 'n', ' ', '%', 'i', ' ', '\n', ' ', '%', 'c', ' ', '!', '!',
    'p', 'a', 'n', 'i', 'c', '!', '!', ' ', '%', 's']

/--
The memory in which `panic()` calls `printl()`: its buffer holds the formatted text, and behind the
format on the stack are the length, `MAG_CH_PANIC` and the buffer.
-/
def panicFrame (mem : Nat → UInt8) (text : List UInt8) (buf args : Nat) : Nat → UInt8 :=
  let mem := splice mem buf (text.length + 1) fun j => text.getD j 0
  let mem := putWord mem args text.length
  let mem := putWord mem (args + 4) magChPanic.toNat
  putWord mem (args + 8) buf

-- The string that `panic()` has `printl()` pass to `printx()`, for a format in memory at `fmt`.
def panicText (fuel : Nat) (mem : Nat → UInt8) (fmt nextArg buf args : Nat) :
    Except FormatStop (List UInt8) := do
  let f ← vsprintf fuel (window mem fmt) mem nextArg
  let printed ← vsprintf fuel (fun j => panicFormat.getD j 0) (panicFrame mem f.text buf args) args
  return printed.text

inductive Printx
  | halts
  | prints (text : List UInt8)
deriving DecidableEq, Repr

-- `sys_printx()` of a string while `procReady` runs.
def sysPrintx (str : List UInt8) (procReady : Int) : Printx :=
  if str.headD 0 = magChPanic ∨ str.headD 0 = magChAssert ∧ procReady < nrTasks then .halts
  else .prints (str.filter fun ch => ch ≠ magChPanic ∧ ch ≠ magChAssert)

-- The panic that a format and its arguments ask for is taken for one, whoever is running.
def RecognisedPanic (fuel : Nat) (mem : Nat → UInt8) (fmt nextArg buf args : Nat) : Prop :=
  ∃ f str, vsprintf fuel (window mem fmt) mem nextArg = .ok f ∧
    panicText fuel mem fmt nextArg buf args = .ok str ∧ str.head? = some magChPanic ∧
    f.text <:+: str ∧ ∀ procReady, sysPrintx str procReady = .halts

theorem panicText_head {fuel : Nat} {mem : Nat → UInt8} {fmt nextArg buf args : Nat}
    {str : List UInt8} (done : panicText fuel mem fmt nextArg buf args = .ok str) :
    str.head? = some 114 := by
  obtain ⟨f, -, done⟩ := bind_ok done
  obtain ⟨printed, formatted, done⟩ := bind_ok done
  cases done
  cases fuel with
  | zero => cases formatted
  | succ fuel =>
    have first : (panicFormat.getD 0 0 : UInt8) = 114 := by decide
    rw [vsprintf, vsprintfFrom, first, if_neg (by decide), if_pos (by decide)] at formatted
    obtain ⟨⟨rest, text⟩, -⟩ := vsprintfFrom_grows formatted
    rw [← text]
    rfl

theorem sysPrintx_text {str : List UInt8} (head : str.head? = some 114) (procReady : Int) :
    sysPrintx str procReady ≠ .halts := by
  have first : str.headD 0 = 114 := by
    rw [List.headD_eq_head?_getD, head]
    rfl
  have notMagic : ¬ ((114 : UInt8) = magChPanic ∨ (114 : UInt8) = magChAssert ∧
      procReady < nrTasks) := by
    rintro (panics | ⟨asserts, -⟩)
    · exact absurd panics (by decide)
    · exact absurd asserts (by decide)
  rw [sysPrintx, first, if_neg notMagic]
  intro same
  cases same

/--
No panic is recognised: the string begins with the text in front of `MAG_CH_PANIC`, and `%i`, which
`vsprintf()` does not know, leaves the length to `%c` and the magic character to `%s`.
-/
theorem panic_never_recognised (fuel : Nat) (mem : Nat → UInt8) (fmt nextArg buf args : Nat) :
    ¬ RecognisedPanic fuel mem fmt nextArg buf args := by
  rintro ⟨f, str, -, done, magic, -, -⟩
  rw [panicText_head done] at magic
  cases magic

-- Whoever panics, the string is printed and the system is not halted.
theorem panic_goes_on {fuel : Nat} {mem : Nat → UInt8} {fmt nextArg buf args : Nat}
    {str : List UInt8} (done : panicText fuel mem fmt nextArg buf args = .ok str)
    (procReady : Int) : ∃ text, sysPrintx str procReady = .prints text := by
  cases printx : sysPrintx str procReady with
  | halts => exact absurd printx (sysPrintx_text (panicText_head done) procReady)
  | prints text => exact ⟨text, rfl⟩

-- `panic("in TTY")` with the format at 0x100.
def ttyPanic : Nat → UInt8 :=
  fun a => if 0x100 ≤ a then (ascii ['i', 'n', ' ', 'T', 'T', 'Y']).getD (a - 0x100) 0 else 0

theorem panic_in_tty :
    vsprintf 40 (window ttyPanic 0x100) ttyPanic 0x1000 =
        .ok ⟨ascii ['i', 'n', ' ', 'T', 'T', 'Y'], 6⟩ ∧
      panicText 40 ttyPanic 0x100 0x1000 0x2000 0x3000 =
        .ok (ascii ['r', 'e', 't', 'u', 'r', 'n', ' ', ' ', '\n', ' ', '\x06', ' ', '!', '!', 'p',
          'a', 'n', 'i', 'c', '!', '!', ' ']) ∧
      ¬ RecognisedPanic 40 ttyPanic 0x100 0x1000 0x2000 0x3000 := by
  have text : panicText 40 ttyPanic 0x100 0x1000 0x2000 0x3000 =
      .ok (ascii ['r', 'e', 't', 'u', 'r', 'n', ' ', ' ', '\n', ' ', '\x06', ' ', '!', '!', 'p',
        'a', 'n', 'i', 'c', '!', '!', ' ']) := by decide +kernel
  refine ⟨by decide, text, ?_⟩
  rintro ⟨f, str, -, done, magic, -, -⟩
  rw [text] at done
  cases done
  cases magic

end Konix.Klib
