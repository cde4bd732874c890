import Konix.Hd.Task

set_option autoImplicit false

namespace Konix.Hd

open Splice Words AtaDrives Fallible

structure Task.Ready (h : Task) : Prop where
  idle : h.drive.phase = .idle
  quiet : h.drive.irq = false

theorem Task.Ready.drive {h : Task} (ready : h.Ready) :
    { h.drive with phase := .idle, irq := false } = h.drive := by
  rw [← ready.idle, ← ready.quiet]

def sectorsOf (media : Nat → UInt8) (s b : Nat) : UInt8 := media (s * sectorBytes + b)

section Commands

variable {h : Task}

theorem decode_lba (cmd : HdCmd) {n : Nat}
    (device : cmd.device = UInt8.ofNat (makeDeviceReg 1 0 (n >>> 24 &&& 0xF)))
    (other : cmd.command ≠ ataIdentify) :
    cmd.decode =
      if cmd.command = ataRead then .readSectors (lbaOf cmd) (sectorsProgrammed cmd.count)
      else if cmd.command = ataWrite then .writeSectors (lbaOf cmd) (sectorsProgrammed cmd.count)
      else .unknown := by
  have small : (n >>> 24 &&& 0xF) < 16 := by
    rw [show (0xF : Nat) = 2 ^ 4 - 1 from rfl, Nat.and_two_pow_sub_one_eq_mod]
    omega
  have selected : cmd.device &&& 0x10 = 0 ∧ cmd.device &&& 0x40 ≠ 0 := by
    rw [device]
    generalize n >>> 24 &&& 0xF = high at small
    interval_cases high <;> decide
  rw [HdCmd.decode, if_neg (not_not.mpr selected.1), if_neg other, if_neg selected.2]

theorem decode_partTableCmd (s : Nat) :
    (partTableCmd 0 s).decode = .readSectors (s % 268435456) 1 := by
  have address := lbaOf_registers (partTableCmd 0 s) rfl rfl rfl rfl
  have reads : (partTableCmd 0 s).command = ataRead := rfl
  have one : sectorsProgrammed (partTableCmd 0 s).count = 1 := rfl
  rw [decode_lba _ rfl (by rw [reads]; decide), if_pos reads, address, one]

theorem hdCmdOut_ok (h : Task) (cmd : HdCmd) :
    h.hdCmdOut cmd = .ok { h with drive := h.drive.execute cmd.decode } := by
  have ready : h.waitfor statusBsy 0 = true := by
    rw [Task.waitfor, statusOf]
    cases h.drive.dataRequest <;> rfl
  exact if_pos ready

theorem portRead_sector (cells : Nat → UInt8) (done m : Nat)
    (sends : h.drive.phase = .sends cells done (sectorWords * (m + 1))) :
    h.portRead sectorSize =
      { h with
        hdbuf := splice h.hdbuf 0 sectorBytes (window cells (2 * done))
        drive := { h.drive with
          phase := if m = 0 then .idle else .sends cells (done + sectorWords) (sectorWords * m)
          irq := h.drive.irq || decide (m ≠ 0) } } := by
  have words : sectorSize >>> 1 = sectorWords := rfl
  rw [Task.portRead, words, Drive.readWords_sector 0 sends]

theorem interruptWait_ok (irq : h.drive.irq = true) :
    h.interruptWait = .ok { h with drive := { h.drive with irq := false } } :=
  if_pos irq

end Commands

section PartTable

variable {h : Task}

theorem one_sector (ready : h.Ready) (cmd : HdCmd) (cells : Nat → UInt8)
    (executes : h.drive.execute cmd.decode =
      { h.drive with phase := .sends cells 0 (sectorWords * (0 + 1)), irq := true }) :
    ∃ h₁ h₂, h.hdCmdOut cmd = .ok h₁ ∧ h₁.interruptWait = .ok h₂ ∧
      h₂.portRead sectorSize = { h with hdbuf := splice h.hdbuf 0 sectorBytes cells } := by
  have first : window cells (2 * 0) = cells := by
    funext j
    rw [window_apply, Nat.mul_zero, Nat.zero_add]
  have out := hdCmdOut_ok h cmd
  rw [executes] at out
  refine ⟨_, _, out, interruptWait_ok rfl, ?_⟩
  rw [portRead_sector cells 0 0 rfl, first]
  simp only [if_true, Bool.false_or, ne_eq, not_true_eq_false, decide_false, ready.drive]

theorem getPartTable_ready (ready : h.Ready) (s : Nat) :
    h.getPartTable 0 s =
      .ok (partEnts (splice h.hdbuf 0 sectorBytes (sectorsOf h.drive.media (s % 268435456))),
        { h with
          hdbuf := splice h.hdbuf 0 sectorBytes (sectorsOf h.drive.media (s % 268435456)) }) := by
  obtain ⟨h₁, h₂, out, waits, reads⟩ := one_sector ready (partTableCmd 0 s)
    (sectorsOf h.drive.media (s % 268435456)) (by rw [decode_partTableCmd]; rfl)
  rw [Task.getPartTable, bind_of_ok _ out, bind_of_ok _ waits, reads]
  rfl

theorem partEnts_read (buf sector : Nat → UInt8) {i : Nat} (bound : i < nrPartPerDrive) :
    partEnts (splice buf 0 sectorBytes sector) i = partEnts sector i := by
  have same (j : Nat) (inside : j < sectorBytes) : splice buf 0 sectorBytes sector j = sector j :=
    splice_inside _ _ (Nat.zero_le j) (by omega)
  simp only [nrPartPerDrive] at bound
  simp only [sectorBytes] at same
  have word (a : Nat) (inside : a + 4 ≤ 512) :
      wordAt (splice buf 0 sectorBytes sector) a = wordAt sector a :=
    wordAt_congr fun j small => same (a + j) (by omega)
  simp only [partEnts, partitionTableOffset, word _ (show 0x1BE + 16 * i + 8 + 4 ≤ 512 by omega),
    word _ (show 0x1BE + 16 * i + 12 + 4 ≤ 512 by omega)]
  congr 1
  exact same _ (by omega)

-- The tables are what the scan without a drive has made of them; the rest is as before.
def Scans (h : Task) (info : HdInfo) (h' : Task) : Prop :=
  ∃ buf, h' = { h with info := info, hdbuf := buf }

theorem Scans.ready {info : HdInfo} {h' : Task} (scans : Scans h info h') (ready : h.Ready) :
    h'.Ready := by
  obtain ⟨buf, rfl⟩ := scans
  exact ⟨ready.idle, ready.quiet⟩

theorem scanner_simulates (ready : h.Ready) :
    Scanner.Simulates (onDisk (sectorsOf h.drive.media)) Task.scanner (Scans h) Stuck.fault where
  info := by
    rintro info _ ⟨buf, rfl⟩
    rfl
  setInfo := by
    rintro info _ info' ⟨buf, rfl⟩
    exact ⟨buf, rfl⟩
  fault _ := rfl
  getPartTable := by
    rintro info _ s ⟨buf, rfl⟩
    have reads := getPartTable_ready (h := { h with info := info, hdbuf := buf })
      ⟨ready.idle, ready.quiet⟩ s
    rw [onDisk_reads]
    refine ⟨_, reads, fun i bound => ?_, ⟨_, rfl⟩⟩
    exact partEnts_read buf (sectorsOf h.drive.media (s % 268435456)) bound

/-- The scan that talks to the drive finds what the scan of the drive's sectors finds. -/
theorem partition_follows (ready : h.Ready) :
    Follows (Scans h) Stuck.fault (partition (sectorsOf h.drive.media) h.info 0 pPrimary)
      (Task.scanner.partition h 0 pPrimary) :=
  (scanner_simulates ready).partition ⟨h.hdbuf, rfl⟩

end PartTable

def identified (ident : Nat → UInt8) (info : HdInfo) : HdInfo :=
  { info with
    primary := Function.update info.primary 0
      ⟨0, (halfAt ident (2 * 61) <<< 16) + halfAt ident (2 * 60)⟩ }

section Open

variable {h : Task}

theorem hdIdentify_ready (ready : h.Ready) :
    ∃ buf, h.hdIdentify 0 =
      .ok { h with info := identified h.drive.ident h.info, hdbuf := buf } := by
  obtain ⟨h₁, h₂, out, waits, reads⟩ := one_sector ready
    ⟨0, 0, 0, 0, 0, UInt8.ofNat (makeDeviceReg 0 0 0), ataIdentify⟩ h.drive.ident rfl
  have half (a : Nat) (inside : a + 2 ≤ sectorBytes) :
      halfAt (splice h.hdbuf 0 sectorBytes h.drive.ident) a = halfAt h.drive.ident a := by
    rw [halfAt, halfAt, splice_inside _ _ (by omega) (by omega),
      splice_inside _ _ (by omega) (by omega), Nat.sub_zero, Nat.sub_zero]
  refine ⟨splice h.hdbuf 0 sectorBytes h.drive.ident, ?_⟩
  rw [Task.hdIdentify, bind_of_ok _ out, bind_of_ok _ waits, reads]
  dsimp only
  rw [half _ (by decide), half _ (by decide)]
  rfl

end Open

def sending (cells : Nat → UInt8) (done n : Nat) : Phase :=
  if n = 0 then .idle else .sends cells done (sectorWords * n)

def taking (start done n : Nat) : Phase :=
  if n = 0 then .idle else .takes start done (sectorWords * n)

section Transfer

variable {h : Task} {la n : Nat}

theorem turn_rest (la : Nat) {n : Nat} (small : n < 4194304)
    (fits : la + (n + 1) * sectorBytes ≤ 4294967296) :
    min (sectorSize : Int) (((n + 1) * sectorSize : Nat) : Int) = (sectorBytes : Nat) ∧
      i32 (u32 ((((n + 1) * sectorSize : Nat) : Int) - (sectorSize : Nat))) =
        (n * sectorSize : Nat) ∧
      (((n + 1) * sectorSize : Nat) : Int) ≠ 0 ∧
      (la + sectorSize) % 4294967296 + n * sectorBytes ≤ 4294967296 ∧
      (n ≠ 0 → (la + sectorSize) % 4294967296 = la + sectorBytes) := by
  simp only [sectorBytes, sectorSize] at fits ⊢
  have words : u32 ((((n + 1) * 512 : Nat) : Int) - (512 : Nat)) = n * 512 := by
    unfold u32
    omega
  rw [words, i32_of_bounds (by omega)]
  omega

theorem splice_turns (f g : Nat → UInt8) {la next n : Nat}
    (follows : n ≠ 0 → next = la + sectorBytes) :
    splice (splice f la sectorBytes g) next (n * sectorBytes) (window g sectorBytes) =
      splice f la ((n + 1) * sectorBytes) g := by
  by_cases last : n = 0
  next =>
    subst last
    rw [Nat.zero_mul, splice_empty, Nat.zero_add, Nat.one_mul]
  next =>
    rw [follows last, splice_append, Nat.succ_mul, Nat.add_comm]

theorem rdwtTurn_read {cells : Nat → UInt8} {done : Nat}
    (sends : h.drive.phase = sending cells done (n + 1)) (irq : h.drive.irq = true) (la : Nat) :
    h.rdwtTurn .devRead la (sectorBytes : Nat) =
      .ok { h with
        hdbuf := splice h.hdbuf 0 sectorBytes (window cells (2 * done))
        mem := splice h.mem la sectorBytes (window cells (2 * done))
        drive := { h.drive with
          phase := sending cells (done + sectorWords) n
          irq := decide (n ≠ 0) } } := by
  have reads := portRead_sector (h := { h with drive := { h.drive with irq := false } })
    cells done n (by rw [sends, sending, if_neg (Nat.succ_ne_zero n)])
  have copied : splice h.mem la sectorBytes
      (splice h.hdbuf 0 sectorBytes (window cells (2 * done))) =
      splice h.mem la sectorBytes (window cells (2 * done)) :=
    splice_congr _ fun j inside => splice_inside _ _ (Nat.zero_le j) (by omega)
  rw [Task.rdwtTurn, if_pos rfl, bind_of_ok _ (interruptWait_ok irq), reads, Task.physCopy,
    if_neg (by omega), Int.toNat_natCast]
  dsimp only
  rw [copied, Bool.false_or]
  rfl

theorem rdwtTurn_write {start done : Nat} (takes : h.drive.phase = taking start done (n + 1))
    (type : MsgType) (writes : type ≠ .devRead) (la : Nat) :
    h.rdwtTurn type la (sectorBytes : Nat) =
      .ok { h with
        drive := { h.drive with
          media := splice h.drive.media (start + 2 * done) sectorBytes (window h.mem la)
          phase := taking start (done + sectorWords) n
          irq := false } } := by
  have phase : h.drive.phase = .takes start done (sectorWords * (n + 1)) := by
    rw [takes, taking, if_neg (Nat.succ_ne_zero n)]
  have busy : h.drive.dataRequest = true := by rw [Drive.dataRequest, phase]
  have requested : h.waitfor statusDrq statusDrq = true := by
    rw [Task.waitfor, statusOf, if_pos busy]
    decide
  have words : u32 ((sectorBytes : Nat) : Int) >>> 1 = sectorWords := by decide
  have moved := Drive.writeWords_sector h.mem la phase
  rw [Task.rdwtTurn, if_neg writes, if_pos requested, Task.portWrite, words, moved]
  exact interruptWait_ok rfl

theorem rdwtLoop_reads {cells : Nat → UInt8} {done fuel : Nat} (enough : n ≤ fuel)
    (small : n < 4194304) (fits : la + n * sectorBytes ≤ 4294967296)
    (sends : h.drive.phase = sending cells done n) (irq : h.drive.irq = decide (n ≠ 0)) :
    ∃ buf, Task.rdwtLoop .devRead fuel la (n * sectorSize : Nat) h =
      .ok { h with
        hdbuf := buf
        mem := splice h.mem la (n * sectorBytes) (window cells (2 * done))
        drive := { h.drive with phase := .idle, irq := false } } := by
  induction n generalizing h la done fuel with
  | zero =>
    have phase : h.drive.phase = .idle := sends
    refine ⟨h.hdbuf, ?_⟩
    have drive : { h.drive with phase := .idle, irq := false } = h.drive := by
      rw [← phase, ← show h.drive.irq = false from irq]
    rw [Nat.zero_mul, Nat.zero_mul, splice_empty, drive]
    cases fuel <;> rfl
  | succ n ih =>
    obtain ⟨fuel, rfl⟩ : ∃ fuel', fuel = fuel' + 1 := ⟨fuel - 1, by omega⟩
    obtain ⟨bytes, left, running, fits', next⟩ := turn_rest la (by omega) fits
    have turn := rdwtTurn_read sends irq la
    obtain ⟨buf, rest⟩ := ih (h := { h with
        hdbuf := splice h.hdbuf 0 sectorBytes (window cells (2 * done))
        mem := splice h.mem la sectorBytes (window cells (2 * done))
        drive := { h.drive with
          phase := sending cells (done + sectorWords) n
          irq := decide (n ≠ 0) } }) (show n ≤ fuel by omega) (by omega) fits' rfl rfl
    have later : window cells (2 * (done + sectorWords)) =
        window (window cells (2 * done)) sectorBytes := by
      funext j
      rw [window_apply, window_apply, window_apply]
      congr 1
      simp only [sectorWords, sectorBytes]
      omega
    rw [later, splice_turns _ _ next] at rest
    refine ⟨buf, ?_⟩
    rw [Task.rdwtLoop, Hd.rdwtLoop, if_neg running, bytes, bind_of_ok _ turn, left]
    exact rest

theorem rdwtLoop_writes {start done fuel : Nat} {type : MsgType} (writes : type ≠ .devRead)
    (enough : n ≤ fuel) (small : n < 4194304) (fits : la + n * sectorBytes ≤ 4294967296)
    (takes : h.drive.phase = taking start done n) (quiet : h.drive.irq = false) :
    Task.rdwtLoop type fuel la (n * sectorSize : Nat) h =
      .ok { h with
        drive := { h.drive with
          media := splice h.drive.media (start + 2 * done) (n * sectorBytes) (window h.mem la)
          phase := .idle
          irq := false } } := by
  induction n generalizing h la done fuel with
  | zero =>
    have phase : h.drive.phase = .idle := takes
    have drive : { h.drive with phase := .idle, irq := false } = h.drive := by
      rw [← phase, ← quiet]
    rw [Nat.zero_mul, Nat.zero_mul, splice_empty, drive]
    cases fuel <;> rfl
  | succ n ih =>
    obtain ⟨fuel, rfl⟩ : ∃ fuel', fuel = fuel' + 1 := ⟨fuel - 1, by omega⟩
    obtain ⟨bytes, left, running, fits', next⟩ := turn_rest la (by omega) fits
    have turn := rdwtTurn_write takes type writes la
    have rest := ih (h := { h with
        drive := { h.drive with
          media := splice h.drive.media (start + 2 * done) sectorBytes (window h.mem la)
          phase := taking start (done + sectorWords) n
          irq := false } }) (show n ≤ fuel by omega) (by omega) fits' rfl rfl
    have place : start + 2 * (done + sectorWords) = start + 2 * done + sectorBytes := by
      simp only [sectorWords, sectorBytes]
      omega
    have later : splice (splice h.drive.media (start + 2 * done) sectorBytes (window h.mem la))
        (start + 2 * done + sectorBytes) (n * sectorBytes)
        (window h.mem ((la + sectorSize) % 4294967296)) =
          splice h.drive.media (start + 2 * done) ((n + 1) * sectorBytes) (window h.mem la) := by
      rw [← splice_turns h.drive.media (window h.mem la) (fun _ => rfl)]
      by_cases last : n = 0
      next =>
        subst last
        rw [Nat.zero_mul, splice_empty, splice_empty]
      next =>
        rw [next last]
        congr 1
        funext j
        rw [window_apply, window_apply, window_apply, Nat.add_assoc]
    rw [place] at rest
    dsimp only at rest
    rw [later] at rest
    rw [Task.rdwtLoop, Hd.rdwtLoop, if_neg running, bytes, bind_of_ok _ turn, left]
    exact rest

end Transfer

/--
What the driver is for: the tables of partitions, the bytes of the drive and its identification, and
the memory of those who use it.
-/
structure Contents where
  info : HdInfo
  openCnt : Int
  media : Nat → UInt8
  ident : Nat → UInt8
  mem : Nat → UInt8

def Task.contents (h : Task) : Contents where
  info := h.info
  openCnt := h.openCnt
  media := h.drive.media
  ident := h.drive.ident
  mem := h.mem

structure Extent where
  la : Nat
  start : Nat
  sects : Nat
deriving DecidableEq, Repr

namespace Contents

-- A request for 1 to 256 whole sectors, which have numbers of 28 bits and a buffer below 4 GB.
def extent (k : Kernel.State) (c : Contents) (p : Message) : Option Extent :=
  match partOf c.info p.device, va2la k p.procNr p.buf with
  | .ok part, .ok la =>
    let sects := p.cnt.toNat / sectorSize
    let first := p.position / sectorSize + part.base
    if drvOfDev p.device = 0 ∧ p.position % sectorSize = 0 ∧ p.cnt = (sects * sectorSize : Nat) ∧
        1 ≤ sects ∧ sects ≤ 256 ∧ first + sects ≤ 268435456 ∧
        la + sects * sectorBytes ≤ 4294967296 then
      some ⟨la, first * sectorBytes, sects⟩
    else none
  | _, _ => none

def read (c : Contents) (e : Extent) : Contents :=
  { c with mem := splice c.mem e.la (e.sects * sectorBytes) (window c.media e.start) }

def write (c : Contents) (e : Extent) : Contents :=
  { c with media := splice c.media e.start (e.sects * sectorBytes) (window c.mem e.la) }

-- The first user finds the drive's partitions.
def open_ (c : Contents) : Option Contents :=
  let info := identified c.ident c.info
  let openCnt := i32 (u32 (c.openCnt + 1))
  if c.openCnt = 0 then
    match partition (sectorsOf c.media) info 0 pPrimary with
    | .ok info => some { c with info, openCnt }
    | .error _ => none
  else some { c with info, openCnt }

def geometry (k : Kernel.State) (c : Contents) (p : Message) : Option Contents :=
  match partOf c.info p.device, va2la k p.procNr p.buf with
  | .ok part, .ok dst => some { c with mem := splice c.mem dst partInfoSize (partInfoBytes part) }
  | _, _ => none

-- What the message does to the contents, if it is one that the driver is made for.
def serve (k : Kernel.State) (c : Contents) (p : Message) : Option Contents :=
  match p.type with
  | .devOpen => if drvOfDev p.device = 0 then c.open_ else none
  | .devClose =>
    if drvOfDev p.device = 0 then some { c with openCnt := i32 (u32 (c.openCnt - 1)) } else none
  | .devRead => (c.extent k p).map c.read
  | .devWrite => (c.extent k p).map c.write
  | .devIoctl =>
    if p.request = diocltGetGeo ∧ drvOfDev p.device = 0 then c.geometry k p else none
  | _ => none

theorem extent_some {k : Kernel.State} {c : Contents} {p : Message} {e : Extent}
    (extent : c.extent k p = some e) :
    ∃ part, partOf c.info p.device = .ok part ∧ va2la k p.procNr p.buf = .ok e.la ∧
      drvOfDev p.device = 0 ∧ p.position % sectorSize = 0 ∧ p.cnt = (e.sects * sectorSize : Nat) ∧
      1 ≤ e.sects ∧ e.sects ≤ 256 ∧ e.start = (p.position / sectorSize + part.base) * sectorBytes ∧
      p.position / sectorSize + part.base + e.sects ≤ 268435456 ∧
      e.la + e.sects * sectorBytes ≤ 4294967296 := by
  rw [Contents.extent] at extent
  split at extent
  next part la isPart isLa =>
    dsimp only at extent
    split at extent
    next fits =>
      obtain ⟨drive, aligned, cnt, some_, few, inside, below⟩ := fits
      cases extent
      exact ⟨part, isPart, isLa, drive, aligned, cnt, some_, few, rfl, inside, below⟩
    next => cases extent
  next => cases extent

theorem serve_read {k : Kernel.State} {c : Contents} {p : Message} {e : Extent}
    (type : p.type = .devRead) (extent : c.extent k p = some e) :
    c.serve k p = some (c.read e) := by
  rw [Contents.serve, type]
  simp only [extent, Option.map_some]

theorem serve_write {k : Kernel.State} {c : Contents} {p : Message} {e : Extent}
    (type : p.type = .devWrite) (extent : c.extent k p = some e) :
    c.serve k p = some (c.write e) := by
  rw [Contents.serve, type]
  simp only [extent, Option.map_some]

end Contents

section Serve

variable {h : Task} {k : Kernel.State} {m : Message}

theorem partOf_base {info : HdInfo} {device : Int} {part : PartInfo}
    (found : partOf info device = .ok part) : part.base = partBase info device := by
  rw [partOf] at found
  rw [partBase]
  split at found
  next primary =>
    rw [if_pos primary]
    split at found <;> cases found
    rfl
  next logical =>
    rw [if_neg logical]
    dsimp only at found
    split at found <;> cases found
    rfl

theorem sectorsProgrammed_whole {m : Message} {n : Nat} (cnt : m.cnt = (n * sectorSize : Nat))
    (some_ : 1 ≤ n) (few : n ≤ 256) :
    sectorsProgrammed (UInt8.ofNat (u32 ((m.cnt + sectorSize - 1).tdiv sectorSize))) = n := by
  have count : u32 ((m.cnt + sectorSize - 1).tdiv sectorSize) = n := by
    have rounded : m.cnt + (sectorSize : Nat) - 1 = ((n * 512 + 511 : Nat) : Int) := by
      rw [cnt]
      simp only [sectorSize]
      omega
    have divided : ((n * 512 + 511 : Nat) : Int).tdiv ((512 : Nat) : Int) = (n : Nat) := by
      rw [← Int.ofNat_tdiv]
      omega
    rw [rounded]
    show u32 (((n * 512 + 511 : Nat) : Int).tdiv ((512 : Nat) : Int)) = n
    rw [divided]
    exact u32_natCast (by omega)
  have zero : UInt8.ofNat n = 0 ↔ n % 256 = 0 := by
    rw [← UInt8.toNat_inj]
    simp
  rw [count, sectorsProgrammed]
  simp only [zero]
  split
  next => omega
  next =>
    rw [UInt8.toNat_ofNat']
    omega

theorem decode_rdwtCmd {info : HdInfo} {part : PartInfo} {n : Nat}
    (found : partOf info m.device = .ok part) (cnt : m.cnt = (n * sectorSize : Nat))
    (some_ : 1 ≤ n) (few : n ≤ 256)
    (inside : m.position / sectorSize + part.base + n ≤ 268435456) :
    (rdwtCmd info 0 m).decode =
      if m.type = .devRead then .readSectors (m.position / sectorSize + part.base) n
      else .writeSectors (m.position / sectorSize + part.base) n := by
  have low : m.position % 18446744073709551616 = m.position := by
    simp only [sectorSize] at inside
    omega
  have address : lbaOf (rdwtCmd info 0 m) = m.position / sectorSize + part.base := by
    rw [lbaOf_rdwtCmd, ← partOf_base found, low]
    exact Nat.mod_eq_of_lt (by omega)
  have count : sectorsProgrammed (rdwtCmd info 0 m).count = n :=
    sectorsProgrammed_whole cnt some_ few
  have command : (rdwtCmd info 0 m).command = if m.type = .devRead then ataRead else ataWrite := rfl
  have other : (rdwtCmd info 0 m).command ≠ ataIdentify := by
    rw [command]
    split <;> decide
  have different : ataWrite ≠ ataRead := by decide
  rw [decode_lba _ rfl other, address, count, command]
  by_cases reads : m.type = .devRead
  next => rw [if_pos reads, if_pos rfl, if_pos reads]
  next => rw [if_neg reads, if_neg different, if_pos rfl, if_neg reads]

theorem hdRdwt_starts {e : Extent} (extent : h.contents.extent k m = some e) (fuel : Nat) :
    h.hdRdwt fuel k m =
      Task.rdwtLoop m.type fuel e.la (e.sects * sectorSize : Nat)
        { h with
          drive := h.drive.execute
            (if m.type = .devRead then .readSectors (e.start / sectorBytes) e.sects
              else .writeSectors (e.start / sectorBytes) e.sects) } := by
  obtain ⟨part, isPart, isLa, drive, aligned, cnt, some_, few, start, inside, below⟩ :=
    Contents.extent_some extent
  have isPart' : partOf h.info m.device = .ok part := isPart
  have low : m.position % 18446744073709551616 = m.position := by
    simp only [sectorSize] at inside
    omega
  have first : e.start / sectorBytes = m.position / sectorSize + part.base := by
    rw [start]
    exact Nat.mul_div_cancel _ (by decide)
  have few' : m.position / sectorSize < 18446744071562067968 := by omega
  have lbas : (decide (m.position / sectorSize < 18446744071562067968)) = true :=
    decide_eq_true few'
  have whole : (decide (m.position % sectorSize = 0)) = true := decide_eq_true aligned
  rw [Task.hdRdwt]
  simp only [low, lbas, whole, assertThat, if_true, drive, infoOf, isPart', Except.mapError]
  rw [bind_of_ok _ rfl, bind_of_ok _ rfl, bind_of_ok _ rfl, bind_of_ok _ rfl,
    bind_of_ok _ (hdCmdOut_ok h _), bind_of_ok _ isLa, cnt, Int.toNat_zero,
    decode_rdwtCmd isPart' cnt some_ few inside, first]

theorem hdRdwt_served {e : Extent} {fuel : Nat} (extent : h.contents.extent k m = some e)
    (enough : 256 ≤ fuel) :
    ∃ h', h.hdRdwt fuel k m = .ok h' ∧ h'.Ready ∧
      h'.contents = if m.type = .devRead then h.contents.read e else h.contents.write e := by
  obtain ⟨part, -, -, -, -, -, some_, few, start, -, below⟩ := Contents.extent_some extent
  have running : e.sects ≠ 0 := by omega
  have place : e.start / sectorBytes * sectorBytes = e.start := by
    rw [start, Nat.mul_div_cancel _ (by decide)]
  have words : e.sects * sectorWords = sectorWords * e.sects := Nat.mul_comm ..
  have start' : e.start + 2 * 0 = e.start := rfl
  have first : ∀ cells : Nat → UInt8, window cells (2 * 0) = cells := by
    intro cells
    funext j
    rw [window_apply, Nat.mul_zero, Nat.zero_add]
  rw [hdRdwt_starts extent]
  by_cases reads : m.type = .devRead
  next =>
    rw [if_pos reads, if_pos reads, reads]
    have sends : (h.drive.execute (.readSectors (e.start / sectorBytes) e.sects)).phase =
        sending (window h.drive.media e.start) 0 e.sects := by
      simp only [Drive.execute, sending, if_neg running, place, words]
    obtain ⟨buf, done⟩ := rdwtLoop_reads
      (h := { h with drive := h.drive.execute (.readSectors (e.start / sectorBytes) e.sects) })
      (show e.sects ≤ fuel by omega) (by omega) below sends
      (by simp only [Drive.execute, running, ne_eq, not_false_eq_true, decide_true])
    rw [first] at done
    exact ⟨_, done, ⟨rfl, rfl⟩, rfl⟩
  next =>
    rw [if_neg reads, if_neg reads]
    have takes : (h.drive.execute (.writeSectors (e.start / sectorBytes) e.sects)).phase =
        taking e.start 0 e.sects := by
      simp only [Drive.execute, taking, if_neg running, place, words]
    have done := rdwtLoop_writes
      (h := { h with drive := h.drive.execute (.writeSectors (e.start / sectorBytes) e.sects) })
      reads (show e.sects ≤ fuel by omega) (by omega) below takes rfl
    rw [start'] at done
    exact ⟨_, done, ⟨rfl, rfl⟩, rfl⟩

theorem hdOpen_served {c : Contents} (ready : h.Ready) {device : Int}
    (drive : drvOfDev device = 0) (opened : h.contents.open_ = some c) :
    ∃ h', h.hdOpen device = .ok h' ∧ h'.Ready ∧ h'.contents = c := by
  obtain ⟨buf, identifies⟩ := hdIdentify_ready ready
  rw [Task.hdOpen, drive]
  simp only [decide_true, assertThat, if_true, Int.toNat_zero, Int.zero_mul]
  rw [bind_of_ok _ rfl, bind_of_ok _ identifies]
  rw [Contents.open_] at opened
  have ready' : ({ h with
      info := identified h.drive.ident h.info
      openCnt := i32 (u32 (h.openCnt + 1))
      hdbuf := buf } : Task).Ready := ⟨ready.idle, ready.quiet⟩
  by_cases first : h.openCnt = 0
  next =>
    have follows := partition_follows ready'
    rw [if_pos (show h.contents.openCnt = 0 from first)] at opened
    rw [if_pos first]
    split at opened
    next info scanned =>
      have scanned' : partition (sectorsOf h.drive.media) (identified h.drive.ident h.info) 0
          pPrimary = .ok info := scanned
      dsimp only at follows
      rw [scanned'] at follows
      obtain ⟨h', done, scans⟩ := follows
      refine ⟨h', done, scans.ready ready', ?_⟩
      obtain ⟨buf', rfl⟩ := scans
      cases opened
      rfl
    next => cases opened
  next =>
    rw [if_neg (show ¬ h.contents.openCnt = 0 from first)] at opened
    rw [if_neg first]
    cases opened
    exact ⟨_, rfl, ready', rfl⟩

theorem hdIoctl_served {c : Contents} (ready : h.Ready) (geo : m.request = diocltGetGeo)
    (drive : drvOfDev m.device = 0) (geometry : h.contents.geometry k m = some c) :
    ∃ h', h.hdIoctl k m = .ok h' ∧ h'.Ready ∧ h'.contents = c := by
  rw [Contents.geometry] at geometry
  split at geometry
  next part dst isPart isDst =>
    have isPart' : partOf h.info m.device = .ok part := isPart
    rw [Task.hdIoctl, geo, drive]
    simp only [decide_true, assertThat, if_true, infoOf, isPart', Except.mapError]
    rw [bind_of_ok _ rfl, bind_of_ok _ isDst, bind_of_ok _ rfl, bind_of_ok _ rfl]
    cases geometry
    exact ⟨_, rfl, ⟨ready.idle, ready.quiet⟩, rfl⟩
  next => cases geometry

-- One message: the driver does what it is for, and is ready for the next one.
theorem serve_served {c : Contents} {fuel : Nat} (enough : 256 ≤ fuel) (ready : h.Ready)
    (served : h.contents.serve k m = some c) :
    ∃ h', h.serve fuel k m = .ok h' ∧ h'.Ready ∧ h'.contents = c := by
  have quiet : ¬ h.drive.irq = true := by
    rw [ready.quiet]
    exact Bool.false_ne_true
  rw [Task.serve, if_neg quiet]
  rw [Contents.serve] at served
  cases type : m.type with
  | devOpen =>
    simp only [type] at served
    split at served
    next drive => exact hdOpen_served ready drive served
    next => cases served
  | devClose =>
    simp only [type] at served
    split at served
    next drive =>
      cases served
      have closed : h.hdClose m.device =
          .ok { h with openCnt := i32 (u32 (h.openCnt - 1)) } := by
        simp only [Task.hdClose, drive, decide_true, assertThat, if_true]
        rfl
      exact ⟨_, closed, ⟨ready.idle, ready.quiet⟩, rfl⟩
    next => cases served
  | devRead =>
    simp only [type] at served
    obtain ⟨e, extent, rfl⟩ := Option.map_eq_some_iff.mp served
    have done := hdRdwt_served extent enough
    rwa [if_pos type] at done
  | devWrite =>
    simp only [type] at served
    obtain ⟨e, extent, rfl⟩ := Option.map_eq_some_iff.mp served
    have done := hdRdwt_served extent enough
    rwa [if_neg (by rw [type]; exact fun same => nomatch same)] at done
  | devIoctl =>
    simp only [type] at served
    split at served
    next both => exact hdIoctl_served ready both.1 both.2 served
    next => cases served
  | _ => simp only [type, reduceCtorEq] at served

end Serve

/--
Every run of requests that the driver is made for is served to its end: no interrupt is missed and
none is left over to be taken for a message, a read hands over the bytes of the partition's sectors,
and a write changes these bytes and no others.
-/
theorem requests_served (k : Kernel.State) {h : Task} (ready : h.Ready) {fuel : Nat}
    (enough : 256 ≤ fuel) {ms : List Message} {c : Contents}
    (served : ms.foldlM (Contents.serve k) h.contents = some c) :
    ∃ h', ms.foldlM (Task.serve fuel k) h = .ok h' ∧ h'.Ready ∧ h'.contents = c := by
  induction ms generalizing h with
  | nil =>
    cases served
    exact ⟨h, rfl, ready, rfl⟩
  | cons m ms ih =>
    rw [List.foldlM_cons] at served
    obtain ⟨c₁, first, rest⟩ := Option.bind_eq_some_iff.mp served
    obtain ⟨h₁, done, ready₁, same⟩ := serve_served enough ready first
    rw [← same] at rest
    obtain ⟨h', done', ready', same'⟩ := ih ready₁ rest
    refine ⟨h', ?_, ready', same'⟩
    rw [List.foldlM_cons, bind_of_ok _ done]
    exact done'

-- A drive of 2^20 sectors with one primary partition, of the 1000 sectors from sector 63 on.
def smallDrive : Drive where
  media b :=
    if b = 0x1C2 then 0x83 else if b = 0x1C6 then 63 else if b = 0x1CA then 0xE8
    else if b = 0x1CB then 3 else 0
  ident b := if b = 122 then 16 else 0
  phase := .idle
  irq := false

def freshTask : Task where
  info := ⟨fun _ => ⟨0, 0⟩, fun _ => ⟨0, 0⟩⟩
  openCnt := 0
  hdbuf := fun _ => 0
  drive := smallDrive
  mem := fun a => UInt8.ofNat a

def writeThenRead : List Message :=
  [{ resetMsg with type := .devOpen, m3i4 := 1 },
    { resetMsg with
      type := .devWrite, m3i4 := 1, m3l1 := 1024, m3i2 := 1024, m3i3 := 3, m3p2 := 4097 },
    { resetMsg with
      type := .devRead, m3i4 := 1, m3l1 := 1536, m3i2 := 512, m3i3 := 3, m3p2 := 8192 }]

-- The second of the two sectors written comes back.
theorem requests_served_back : ∃ h', writeThenRead.foldlM
    (Task.serve 256 (Kernel.kernelMain 0 0 fun _ => resetMsg)) freshTask = .ok h' ∧ h'.Ready ∧
      h'.contents.mem 8192 = 1 := by
  have accepted : ((writeThenRead.foldlM
      (Contents.serve (Kernel.kernelMain 0 0 fun _ => resetMsg)) freshTask.contents).map
        fun c => c.mem 8192) = some 1 := by decide +kernel
  obtain ⟨c, served, byte⟩ := Option.map_eq_some_iff.mp accepted
  obtain ⟨h', done, ready, same⟩ := requests_served (Kernel.kernelMain 0 0 fun _ => resetMsg)
    ⟨rfl, rfl⟩ (le_refl 256) served
  exact ⟨h', done, ready, by rw [same, byte]⟩

end Konix.Hd
