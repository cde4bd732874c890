import Konix.Terminal.Keyboard
import Konix.Terminal.Tty
import Konix.Lib.Fifo

set_option autoImplicit false

namespace Konix.Terminal

open Fifo RingBuffers Runs

-- What happens to the keyboard's buffer; everything else leaves it alone.
def KeyboardStep (k : Keyboard) : Event UInt8 → Keyboard → Prop
  | .insert scanCode, k' => k' = k.keyboardHandler scanCode
  | .remove scanCode, k' => k.kbIn.count ≠ 0 ∧ k.getByteFromKbuf = some (scanCode, k')
  | .other, k' => k'.kbIn = k.kbIn

-- The keys are words, of which `tty_dev_write()` takes the lowest byte for its character.
def TtyStep (w : Session) : Event Nat → Session → Prop
  | .insert key, w' => w' = w.putKey key
  | .remove key, w' =>
    w.tty.inBuf.count ≠ 0 ∧ key = w.tty.inBuf.front ∧ w.ttyDevWriteChar = some w'
  | .other, w' => w'.tty.inBuf = w.tty.inBuf

def KeyboardInitialised (k : Keyboard) : Prop := ∃ k₀ : Keyboard, k = k₀.initKeyboard

def TtyInitialised (w : Session) : Prop := ∃ w₀ : Session, w = w₀.initTty

variable {k k' : Keyboard} {w w' : Session}

theorem keyboardHandler_kbIn (k : Keyboard) (scanCode : UInt8) :
    (k.keyboardHandler scanCode).kbIn =
      if k.kbIn.count < kbInBytes then k.kbIn.put kbInBytes scanCode else k.kbIn := by
  rw [Keyboard.keyboardHandler]
  split <;> rfl

theorem getByteFromKbuf_kbIn {scanCode : UInt8} (some_ : k.kbIn.count ≠ 0)
    (done : k.getByteFromKbuf = some (scanCode, k')) :
    scanCode = k.kbIn.front ∧ k'.kbIn = k.kbIn.drop kbInBytes := by
  rw [Keyboard.getByteFromKbuf, if_neg some_] at done
  cases done
  exact ⟨rfl, rfl⟩

theorem putKey_inBuf (w : Session) (key : Nat) :
    (w.putKey key).tty.inBuf =
      if w.tty.inBuf.count < ttyInBytes then w.tty.inBuf.put ttyInBytes key else w.tty.inBuf := by
  rw [Session.putKey]
  split <;> rfl

theorem outChar_tty {ch : UInt8} (done : w.outChar ch = some w') : w'.tty = w.tty := by
  obtain ⟨screen, -, rfl⟩ := Option.map_eq_some_iff.mp done
  rfl

theorem edit_inBuf {ch : UInt8} (done : w.edit ch = some w') : w'.tty.inBuf = w.tty.inBuf := by
  rw [Session.edit] at done
  split at done
  · obtain ⟨w₁, written, done⟩ := Option.bind_eq_some_iff.mp done
    cases done
    rw [← outChar_tty written]
  · split at done
    · obtain ⟨w₁, written, done⟩ := Option.bind_eq_some_iff.mp done
      cases done
      rw [← outChar_tty written]
      rfl
    · cases done
      rfl

theorem finish_inBuf {ch : UInt8} (done : w.finish ch = some w') : w'.tty.inBuf = w.tty.inBuf := by
  rw [Session.finish] at done
  split at done
  · obtain ⟨w₁, written, done⟩ := Option.bind_eq_some_iff.mp done
    cases done
    rw [← outChar_tty written]
    rfl
  · cases done
    rfl

-- A turn of `tty_dev_write()` removes a key, whatever it does with the character.
theorem ttyDevWriteChar_inBuf (done : w.ttyDevWriteChar = some w') :
    w'.tty.inBuf = w.tty.inBuf.drop ttyInBytes := by
  rw [Session.ttyDevWriteChar] at done
  split at done
  · obtain ⟨w₁, edited, done⟩ := Option.bind_eq_some_iff.mp done
    rw [finish_inBuf done, edit_inBuf edited]
    rfl
  · cases done
    rfl

theorem KeyboardStep.follows {e : Event UInt8} {l : Log UInt8} (holds : Holds kbInBytes k.kbIn l)
    (step : KeyboardStep k e k') :
    ∃ l', Step kbInBytes l e l' ∧ Holds kbInBytes k'.kbIn l' := by
  cases e with
  | insert scanCode =>
    have inserted : k' = k.keyboardHandler scanCode := step
    rw [inserted, keyboardHandler_kbIn]
    exact holds.insert scanCode
  | remove scanCode =>
    obtain ⟨front, dropped⟩ := getByteFromKbuf_kbIn step.1 step.2
    rw [front, dropped]
    exact holds.remove step.1
  | other =>
    have kept : k'.kbIn = k.kbIn := step
    rw [kept]
    exact ⟨l, .other, holds⟩

theorem TtyStep.follows {e : Event Nat} {l : Log Nat} (holds : Holds ttyInBytes w.tty.inBuf l)
    (step : TtyStep w e w') :
    ∃ l', Step ttyInBytes l e l' ∧ Holds ttyInBytes w'.tty.inBuf l' := by
  cases e with
  | insert key =>
    have inserted : w' = w.putKey key := step
    rw [inserted, putKey_inBuf]
    exact holds.insert key
  | remove key =>
    obtain ⟨some_, front, done⟩ := step
    rw [front, ttyDevWriteChar_inBuf done]
    exact holds.remove some_
  | other =>
    have kept : w'.tty.inBuf = w.tty.inBuf := step
    rw [kept]
    exact ⟨l, .other, holds⟩

/--
The two ring buffers are queues: each of their runs is one of the queue of the same capacity, with
the same values inserted and removed, and every state of it holds the values that the queue holds.
-/
theorem rings_are_queues :
    (∀ run : Run KeyboardInitialised KeyboardStep,
      ∃ queue : Run (· = .empty) (Step kbInBytes), queue.length = run.length ∧
        (∀ t, queue.act t = run.act t) ∧
        ∀ t, t ≤ run.length → Holds kbInBytes (run.state t).kbIn (queue.state t)) ∧
    (∀ run : Run TtyInitialised TtyStep,
      ∃ queue : Run (· = .empty) (Step ttyInBytes), queue.length = run.length ∧
        (∀ t, queue.act t = run.act t) ∧
        ∀ t, t ≤ run.length → Holds ttyInBytes (run.state t).tty.inBuf (queue.state t)) := by
  constructor
  next =>
    intro run
    refine run.simulated id ?_ fun k e k' l holds step => step.follows holds
    rintro k ⟨k₀, rfl⟩
    exact ⟨.empty, rfl, holds_empty _ (by decide)⟩
  next =>
    intro run
    refine run.simulated id ?_ fun w e w' l holds step => step.follows holds
    rintro w ⟨w₀, rfl⟩
    exact ⟨.empty, rfl, holds_empty _ (by decide)⟩

end Konix.Terminal
