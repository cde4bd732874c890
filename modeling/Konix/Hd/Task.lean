import Konix.Hd.Partition
import Konix.Kernel.Proc
import Konix.Lib.AtaDrive
import Konix.Lib.Fallible

set_option autoImplicit false

namespace Konix.Hd

open Splice Words AtaDrives Fallible

def ataIdentify : UInt8 := 0xEC
def statusBsy : Nat := 0x80
def statusDrdy : Nat := 0x40
def statusDrq : Nat := 0x08
def diocltGetGeo : Int := 1
def partInfoSize : Nat := 8

-- Why the driver does not get back to its main loop: among others it may wait for an interrupt that
-- never comes, or find a message that it does not know.
inductive Stuck
  | fault (fault : Fault)
  | panic
  | blocked
  | diverges
  | runaway
  | unknownMsg
deriving DecidableEq, Repr

def assertThat (holds : Bool) : Except Stuck Unit :=
  if holds then .ok () else .error (.fault .assertion)

-- The driver's variables, the drive that it programs, and memory under linear addresses. Nobody
-- passes a buffer that overlaps `hdbuf[]`.
structure Task where
  info : HdInfo
  openCnt : Int
  hdbuf : Nat → UInt8
  drive : Drive
  mem : Nat → UInt8

-- What the drive makes of its registers: there is no second drive, and sectors are numbered, not
-- given by cylinder and head.
def HdCmd.decode (cmd : HdCmd) : Command :=
  if cmd.device &&& 0x10 ≠ 0 then .unknown
  else if cmd.command = ataIdentify then .identify
  else if cmd.device &&& 0x40 = 0 then .unknown
  else if cmd.command = ataRead then .readSectors (lbaOf cmd) (sectorsProgrammed cmd.count)
  else if cmd.command = ataWrite then .writeSectors (lbaOf cmd) (sectorsProgrammed cmd.count)
  else .unknown

-- The status register of a drive that is done before it is polled.
def statusOf (d : Drive) : Nat := if d.dataRequest then statusDrdy ||| statusDrq else statusDrdy

-- `hd_info[]` has one entry, and both of its tables their length.
def partOf (info : HdInfo) (device : Int) : Except Fault PartInfo :=
  if device < maxPrim then
    if 0 ≤ device ∧ device < nrPrimPerDrive then .ok (info.primary device.toNat)
    else .error .outOfRange
  else
    let logidx := (device - minorHd1a).tmod nrSubPerDrive
    if 0 ≤ logidx then .ok (info.logical logidx.toNat) else .error .outOfRange

-- A `part_info` as it lies in memory.
def partInfoBytes (part : PartInfo) : Nat → UInt8 :=
  putWord (putWord (fun _ => 0) 0 part.base) 4 part.size

-- `va2la()` in the tables of the kernel.
def va2la (k : Kernel.State) (pid : Int) (va : Nat) : Except Stuck Nat :=
  (Kernel.va2la k pid va).mapError fun _ => .panic

namespace Task

def waitfor (h : Task) (mask val : Nat) : Bool := statusOf h.drive &&& mask == val

def hdCmdOut (h : Task) (cmd : HdCmd) : Except Stuck Task :=
  if h.waitfor statusBsy 0 then .ok { h with drive := h.drive.execute cmd.decode }
  else .error .panic

-- The handler of the interrupt reads the status register, which ends it, and informs the driver.
def interruptWait (h : Task) : Except Stuck Task :=
  if h.drive.irq then .ok { h with drive := { h.drive with irq := false } } else .error .blocked

-- `port_read(REG_DATA, hdbuf, n)`
def portRead (h : Task) (n : Nat) : Task :=
  let (hdbuf, drive) := Drive.readWords (n >>> 1) h.drive h.hdbuf 0
  { h with hdbuf, drive }

-- `port_write(REG_DATA, la, n)`
def portWrite (h : Task) (la : Nat) (n : Int) : Task :=
  { h with drive := Drive.writeWords (u32 n >>> 1) h.drive h.mem la }

-- `phys_copy()` to a caller's memory; a negative size runs away.
def physCopy (h : Task) (la : Nat) (src : Nat → UInt8) (bytes : Int) : Except Stuck Task :=
  if bytes < 0 then .error .runaway else .ok { h with mem := splice h.mem la bytes.toNat src }

-- The fields of the command that are not set are zero here; a drive to identify ignores them.
def hdIdentify (h : Task) (drive : Nat) : Except Stuck Task := do
  let h ← h.hdCmdOut
    { features := 0, count := 0, lbaLow := 0, lbaMid := 0, lbaHigh := 0
      device := UInt8.ofNat (makeDeviceReg 0 drive 0)
      command := ataIdentify }
  let h ← h.interruptWait
  let h := h.portRead sectorSize
  let size := (halfAt h.hdbuf (2 * 61) <<< 16) + halfAt h.hdbuf (2 * 60)
  return { h with info := { h.info with primary := Function.update h.info.primary 0 ⟨0, size⟩ } }

def getPartTable (h : Task) (drive sectNr : Nat) : Except Stuck ((Nat → PartEnt) × Task) := do
  let h ← h.hdCmdOut (partTableCmd drive sectNr)
  let h ← h.interruptWait
  let h := h.portRead sectorSize
  return (partEnts h.hdbuf, h)

def scanner : Scanner Task Stuck where
  info := Task.info
  setInfo h info := { h with info }
  fault := .fault
  getPartTable := getPartTable

def hdOpen (h : Task) (device : Int) : Except Stuck Task := do
  let drive := drvOfDev device
  assertThat (drive = 0)
  let h ← h.hdIdentify drive.toNat
  let openCnt := h.openCnt
  let h := { h with openCnt := i32 (u32 (openCnt + 1)) }
  if openCnt = 0 then scanner.partition h (drive * (nrPartPerDrive + 1)) pPrimary else .ok h

def hdClose (h : Task) (device : Int) : Except Stuck Task := do
  assertThat (drvOfDev device = 0)
  return { h with openCnt := i32 (u32 (h.openCnt - 1)) }

-- One turn of `while (bytes_left)`.
def rdwtTurn (h : Task) (type : MsgType) (la : Nat) (bytes : Int) : Except Stuck Task :=
  if type = .devRead then do
    let h ← h.interruptWait
    let h := h.portRead sectorSize
    h.physCopy la h.hdbuf bytes
  else if h.waitfor statusDrq statusDrq then (h.portWrite la bytes).interruptWait
  else .error .panic

def rdwtLoop (type : MsgType) : Nat → Nat → Int → Task → Except Stuck Task :=
  Hd.rdwtLoop .diverges fun h => h.rdwtTurn type

def hdRdwt (fuel : Nat) (k : Kernel.State) (h : Task) (p : Message) : Except Stuck Task := do
  let pos := p.position % 18446744073709551616
  -- `1 << 31` is a negative `int`, converted to `u64` for the comparison
  assertThat (pos / sectorSize < 18446744071562067968)
  assertThat (pos % sectorSize = 0)
  let drive := drvOfDev p.device
  (infoOf drive).mapError .fault
  let _ ← (partOf h.info p.device).mapError Stuck.fault
  let h ← h.hdCmdOut (rdwtCmd h.info drive.toNat p)
  let la ← va2la k p.procNr p.buf
  rdwtLoop p.type fuel la p.cnt h

def hdIoctl (k : Kernel.State) (h : Task) (p : Message) : Except Stuck Task := do
  assertThat (p.request = diocltGetGeo)
  let dst ← va2la k p.procNr p.buf
  (infoOf (drvOfDev p.device)).mapError .fault
  let part ← (partOf h.info p.device).mapError Stuck.fault
  h.physCopy dst (partInfoBytes part) partInfoSize

-- `task_hd()` from one message to the next. An interrupt that nobody waited for is received as a
-- message, before any other.
def serve (fuel : Nat) (k : Kernel.State) (h : Task) (msg : Message) : Except Stuck Task :=
  if h.drive.irq then .error .unknownMsg
  else
    match msg.type with
    | .devOpen => h.hdOpen msg.device
    | .devClose => h.hdClose msg.device
    | .devRead => h.hdRdwt fuel k msg
    | .devWrite => h.hdRdwt fuel k msg
    | .devIoctl => h.hdIoctl k msg
    | _ => .error .unknownMsg

end Task

end Konix.Hd
