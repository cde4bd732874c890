import Konix.Lib.Splice

set_option autoImplicit false

namespace AtaDrives

open Splice

def sectorWords : Nat := 256
def sectorBytes : Nat := 512

-- What the data register is for; `left` counts the words that the command has still to move.
inductive Phase
  | idle
  | sends (cells : Nat → UInt8) (done left : Nat)
  | takes (start done left : Nat)

-- The bytes of all sectors in a row, those of the identification, and the interrupt line.
structure Drive where
  media : Nat → UInt8
  ident : Nat → UInt8
  phase : Phase
  irq : Bool

inductive Command
  | readSectors (lba count : Nat)
  | writeSectors (lba count : Nat)
  | identify
  | unknown
deriving DecidableEq, Repr

namespace Drive

-- A drive interrupts when a sector can be read, and asks for the first sector to write without one.
def execute (d : Drive) : Command → Drive
  | .readSectors lba count =>
    { d with
      phase := .sends (window d.media (lba * sectorBytes)) 0 (count * sectorWords)
      irq := true }
  | .writeSectors lba count =>
    { d with phase := .takes (lba * sectorBytes) 0 (count * sectorWords), irq := false }
  | .identify => { d with phase := .sends d.ident 0 sectorWords, irq := true }
  | .unknown => { d with phase := .idle, irq := true }

def dataRequest (d : Drive) : Bool :=
  match d.phase with
  | .idle => false
  | .sends .. => true
  | .takes .. => true

-- A word has been moved; after the last one of a sector the drive may interrupt.
def wordDone (d : Drive) (next : Phase) (left : Nat) (interrupts : Bool) : Drive :=
  if left % sectorWords ≠ 0 then { d with phase := next }
  else { d with phase := if left = 0 then .idle else next, irq := d.irq || interrupts }

-- Nothing drives the data lines of a drive that has nothing to send.
def readWord (d : Drive) : (Nat → UInt8) × Drive :=
  match d.phase with
  | .sends cells done left =>
    (window cells (2 * done),
      d.wordDone (.sends cells (done + 1) (left - 1)) (left - 1) (decide (left ≠ 1)))
  | .idle => (fun _ => 0xFF, d)
  | .takes .. => (fun _ => 0xFF, d)

def writeWord (d : Drive) (word : Nat → UInt8) : Drive :=
  match d.phase with
  | .takes start done left =>
    { d with media := splice d.media (start + 2 * done) 2 word }.wordDone
      (.takes start (done + 1) (left - 1)) (left - 1) true
  | .idle => d
  | .sends .. => d

-- So many words from the data register to memory, and from memory to the data register.
def readWords : Nat → Drive → (Nat → UInt8) → Nat → (Nat → UInt8) × Drive
  | 0, d, mem, _ => (mem, d)
  | n + 1, d, mem, addr => readWords n d.readWord.2 (splice mem addr 2 d.readWord.1) (addr + 2)

def writeWords : Nat → Drive → (Nat → UInt8) → Nat → Drive
  | 0, d, _, _ => d
  | n + 1, d, mem, addr => writeWords n (d.writeWord (window mem addr)) mem (addr + 2)

variable {d : Drive} {cells mem : Nat → UInt8} {start done m n : Nat}

theorem readWord_inside (sends : d.phase = .sends cells done (sectorWords * m + (n + 2)))
    (small : n + 1 < sectorWords) :
    d.readWord = (window cells (2 * done),
      { d with phase := .sends cells (done + 1) (sectorWords * m + (n + 1)) }) := by
  have left : sectorWords * m + (n + 2) - 1 = sectorWords * m + (n + 1) := by omega
  have within : (sectorWords * m + (n + 1)) % sectorWords ≠ 0 := by
    rw [Nat.mul_add_mod, Nat.mod_eq_of_lt small]
    omega
  rw [readWord, sends]
  simp only [left, wordDone, if_pos within]

theorem readWord_last (sends : d.phase = .sends cells done (sectorWords * m + 1)) :
    d.readWord = (window cells (2 * done),
      { d with
        phase := if m = 0 then .idle else .sends cells (done + 1) (sectorWords * m)
        irq := d.irq || decide (m ≠ 0) }) := by
  have left : sectorWords * m + 1 - 1 = sectorWords * m := Nat.add_sub_cancel ..
  have ended : ¬ sectorWords * m % sectorWords ≠ 0 := not_not.mpr (Nat.mul_mod_right ..)
  have whole : sectorWords * m = 0 ↔ m = 0 := by
    simp only [sectorWords]
    omega
  have more : sectorWords * m + 1 ≠ 1 ↔ m ≠ 0 := by
    simp only [sectorWords]
    omega
  rw [readWord, sends]
  simp only [left, wordDone, if_neg ended, whole, more]

theorem readWords_rest (addr : Nat)
    (sends : d.phase = .sends cells done (sectorWords * m + (n + 1)))
    (small : n < sectorWords) :
    readWords (n + 1) d mem addr = (splice mem addr (2 * (n + 1)) (window cells (2 * done)),
      { d with
        phase := if m = 0 then .idle else .sends cells (done + (n + 1)) (sectorWords * m)
        irq := d.irq || decide (m ≠ 0) }) := by
  induction n generalizing d mem addr done with
  | zero => rw [readWords, readWord_last sends, readWords]
  | succ n ih =>
    have glued : splice (splice mem addr 2 (window cells (2 * done))) (addr + 2) (2 * (n + 1))
        (window cells (2 * (done + 1))) =
          splice mem addr (2 * (n + 1 + 1)) (window cells (2 * done)) := by
      have later : window cells (2 * (done + 1)) = window (window cells (2 * done)) 2 := by
        funext j
        rw [window_apply, window_apply, window_apply]
        congr 1
        omega
      rw [later, splice_append]
      congr 1
      omega
    have words : done + 1 + (n + 1) = done + (n + 1 + 1) := by omega
    rw [readWords, readWord_inside sends small]
    rw [ih (addr + 2) rfl (by omega)]
    simp only [glued, words]

-- A host that reads a sector gets its bytes, and an interrupt if another one follows.
theorem readWords_sector (addr : Nat)
    (sends : d.phase = .sends cells done (sectorWords * (m + 1))) :
    readWords sectorWords d mem addr =
      (splice mem addr sectorBytes (window cells (2 * done)),
        { d with
          phase := if m = 0 then .idle else .sends cells (done + sectorWords) (sectorWords * m)
          irq := d.irq || decide (m ≠ 0) }) :=
  readWords_rest addr (n := 255) (m := m) (by rw [sends]; rfl) (by decide)

theorem writeWord_inside {word : Nat → UInt8}
    (takes : d.phase = .takes start done (sectorWords * m + (n + 2)))
    (small : n + 1 < sectorWords) :
    d.writeWord word =
      { d with
        media := splice d.media (start + 2 * done) 2 word
        phase := .takes start (done + 1) (sectorWords * m + (n + 1)) } := by
  have left : sectorWords * m + (n + 2) - 1 = sectorWords * m + (n + 1) := by omega
  have within : (sectorWords * m + (n + 1)) % sectorWords ≠ 0 := by
    rw [Nat.mul_add_mod, Nat.mod_eq_of_lt small]
    omega
  rw [writeWord, takes]
  simp only [left, wordDone, if_pos within]

theorem writeWord_last {word : Nat → UInt8}
    (takes : d.phase = .takes start done (sectorWords * m + 1)) :
    d.writeWord word =
      { d with
        media := splice d.media (start + 2 * done) 2 word
        phase := if m = 0 then .idle else .takes start (done + 1) (sectorWords * m)
        irq := true } := by
  have left : sectorWords * m + 1 - 1 = sectorWords * m := Nat.add_sub_cancel ..
  have ended : ¬ sectorWords * m % sectorWords ≠ 0 := not_not.mpr (Nat.mul_mod_right ..)
  have whole : sectorWords * m = 0 ↔ m = 0 := by
    simp only [sectorWords]
    omega
  rw [writeWord, takes]
  simp only [left, wordDone, if_neg ended, whole, Bool.or_true]

theorem writeWords_rest (addr : Nat)
    (takes : d.phase = .takes start done (sectorWords * m + (n + 1))) (small : n < sectorWords) :
    writeWords (n + 1) d mem addr =
      { d with
        media := splice d.media (start + 2 * done) (2 * (n + 1)) (window mem addr)
        phase := if m = 0 then .idle else .takes start (done + (n + 1)) (sectorWords * m)
        irq := true } := by
  induction n generalizing d addr done with
  | zero => rw [writeWords, writeWord_last takes, writeWords]
  | succ n ih =>
    have glued : splice (splice d.media (start + 2 * done) 2 (window mem addr))
        (start + 2 * (done + 1)) (2 * (n + 1)) (window mem (addr + 2)) =
          splice d.media (start + 2 * done) (2 * (n + 1 + 1)) (window mem addr) := by
      have later : window mem (addr + 2) = window (window mem addr) 2 := by
        funext j
        rw [window_apply, window_apply, window_apply, Nat.add_assoc]
      have place : start + 2 * (done + 1) = start + 2 * done + 2 := by omega
      rw [later, place, splice_append]
      congr 1
      omega
    have words : done + 1 + (n + 1) = done + (n + 1 + 1) := by omega
    rw [writeWords, writeWord_inside takes small]
    rw [ih (addr + 2) rfl (by omega)]
    simp only [glued, words]

-- A host that writes a sector puts its bytes on the drive, which interrupts.
theorem writeWords_sector (mem : Nat → UInt8) (addr : Nat)
    (takes : d.phase = .takes start done (sectorWords * (m + 1))) :
    writeWords sectorWords d mem addr =
      { d with
        media := splice d.media (start + 2 * done) sectorBytes (window mem addr)
        phase := if m = 0 then .idle else .takes start (done + sectorWords) (sectorWords * m)
        irq := true } :=
  writeWords_rest addr (n := 255) (m := m) (by rw [takes]; rfl) (by decide)

end Drive

end AtaDrives
