import Konix.Hd.Addressing
import Konix.Lib.Fallible
import Konix.Lib.Walk
import Konix.Lib.Words

set_option autoImplicit false

namespace Konix.Hd

open Fallible Walk Words

def partitionTableOffset : Nat := 0x1BE

def pPrimary : Int := 0
def pExtended : Int := 1

def noPart : UInt8 := 0x00
def extPart : UInt8 := 0x05

structure PartEnt where
  sysId : UInt8
  startSect : Nat
  nrSects : Nat
deriving DecidableEq, Repr

-- Why `partition()` does not return: a failed assertion, or an index outside of its table.
inductive Fault
  | assertion
  | outOfRange
deriving DecidableEq, Repr

def partEnts (sector : Nat → UInt8) (i : Nat) : PartEnt where
  sysId := sector (partitionTableOffset + 16 * i + 4)
  startSect := wordAt sector (partitionTableOffset + 16 * i + 8)
  nrSects := wordAt sector (partitionTableOffset + 16 * i + 12)

def partTableCmd (drive sectNr : Nat) : HdCmd where
  features := 0
  count := 1
  lbaLow := UInt8.ofNat (sectNr &&& 0xFF)
  lbaMid := UInt8.ofNat (sectNr >>> 8 &&& 0xFF)
  lbaHigh := UInt8.ofNat (sectNr >>> 16 &&& 0xFF)
  device := UInt8.ofNat (makeDeviceReg 1 drive (sectNr >>> 24 &&& 0xF))
  command := ataRead

namespace HdInfo

def setPrimary (info : HdInfo) (devNr : Int) (part : PartInfo) : Except Fault HdInfo :=
  if 0 ≤ devNr ∧ devNr < nrPrimPerDrive then
    .ok { info with primary := Function.update info.primary devNr.toNat part }
  else .error .outOfRange

def setLogical (info : HdInfo) (devNr : Int) (part : PartInfo) : Except Fault HdInfo :=
  if 0 ≤ devNr ∧ devNr < nrSubPerDrive then
    .ok { info with logical := Function.update info.logical devNr.toNat part }
  else .error .outOfRange

end HdInfo

-- `hd_info[]` has one entry.
def infoOf (drive : Int) : Except Fault Unit :=
  if drive = 0 then .ok () else .error .outOfRange

/--
What `partition()` works on: the entry of `hd_info[]`, the sectors of the drives, and what comes of
a fault.
-/
structure Scanner (σ ε : Type) where
  info : σ → HdInfo
  setInfo : σ → HdInfo → σ
  fault : Fault → ε
  getPartTable : σ → Nat → Nat → Except ε ((Nat → PartEnt) × σ)

namespace Scanner

section

variable {σ ε : Type} (S : Scanner σ ε)

def set (h : σ) (info : Except Fault HdInfo) : Except ε σ := do
  let info ← info.mapError S.fault
  return S.setInfo h info

-- The loop over the logical partitions from the `i`-th on; the boot record of that is in sector
-- `s`.
def scanLogical (drive extStartSect : Nat) (nr1stSub : Int) : Nat → Nat → Nat → σ → Except ε σ
  | 0, _, _, h => .ok h
  | turns + 1, i, s, h => do
    let (partTbl, h) ← S.getPartTable h drive s
    let h ← S.set h ((S.info h).setLogical (nr1stSub + i)
      ⟨(s + (partTbl 0).startSect) % 4294967296, (partTbl 0).nrSects⟩)
    if (partTbl 1).sysId = noPart then return h
    scanLogical drive extStartSect nr1stSub turns (i + 1)
      ((extStartSect + (partTbl 1).startSect) % 4294967296) h

-- `partition()` of style `P_EXTENDED`.
def partitionExtended (h : σ) (device : Int) : Except ε σ := do
  let drive := drvOfDev device
  (infoOf drive).mapError S.fault
  let j := device.tmod nrPrimPerDrive
  if j < 0 then .error (S.fault .outOfRange)
  let extStartSect := ((S.info h).primary j.toNat).base
  let nr1stSub := (j - 1) * nrSubPerPart
  S.scanLogical drive.toNat extStartSect nr1stSub nrSubPerPart 0 extStartSect h

-- One turn of the loop over the primary partitions; the number of used ones comes first.
def scanPrimary (device : Int) (partTbl : Nat → PartEnt) (found : Nat × σ) (i : Nat) :
    Except ε (Nat × σ) :=
  if (partTbl i).sysId = noPart then .ok found
  else do
    let devNr : Int := i + 1
    let h ← S.set found.2 ((S.info found.2).setPrimary devNr
      ⟨(partTbl i).startSect, (partTbl i).nrSects⟩)
    let h ← if (partTbl i).sysId = extPart then S.partitionExtended h (device + devNr) else .ok h
    return (found.1 + 1, h)

def partition (h : σ) (device style : Int) : Except ε σ :=
  if style = pPrimary then do
    let drive := drvOfDev device
    (infoOf drive).mapError S.fault
    let (partTbl, h) ← S.getPartTable h drive.toNat drive.toNat
    let (nrPrimParts, h) ←
      (List.range nrPartPerDrive).foldlM (S.scanPrimary device partTbl) (0, h)
    if nrPrimParts ≠ 0 then .ok h else .error (S.fault .assertion)
  else if style = pExtended then S.partitionExtended h device
  else .error (S.fault .assertion)

end

/--
One scanner does what the other one does: related states have the same tables, which are set alike,
and the same part of a partition table is read.
-/
structure Simulates {σ σ' ε ε' : Type} (S : Scanner σ ε) (S' : Scanner σ' ε') (R : σ → σ' → Prop)
    (E : ε → ε') : Prop where
  info : ∀ {h h'}, R h h' → S'.info h' = S.info h
  setInfo : ∀ {h h'} (info), R h h' → R (S.setInfo h info) (S'.setInfo h' info)
  fault : ∀ fault, S'.fault fault = E (S.fault fault)
  getPartTable : ∀ {h h'} (s), R h h' →
    Follows (fun x x' => (∀ i, i < nrPartPerDrive → x'.1 i = x.1 i) ∧ R x.2 x'.2) E
      (S.getPartTable h 0 s) (S'.getPartTable h' 0 s)

namespace Simulates

variable {σ σ' ε ε' : Type} {S : Scanner σ ε} {S' : Scanner σ' ε'} {R : σ → σ' → Prop} {E : ε → ε'}
  {h : σ} {h' : σ'}

theorem set (simulates : Simulates S S' R E) (related : R h h') (info : Except Fault HdInfo) :
    Follows R E (S.set h info) (S'.set h' info) := by
  cases info with
  | ok info => exact Follows.ok (simulates.setInfo info related)
  | error fault =>
    show Except.error (S'.fault fault) = _
    rw [simulates.fault]

theorem scanLogical (simulates : Simulates S S' R E) (base : Nat) (first : Int) (turns i s : Nat)
    (related : R h h') :
    Follows R E (S.scanLogical 0 base first turns i s h)
      (S'.scanLogical 0 base first turns i s h') := by
  induction turns generalizing i s h h' with
  | zero => exact Follows.ok related
  | succ turns ih =>
    rw [Scanner.scanLogical, Scanner.scanLogical]
    refine Follows.bind (simulates.getPartTable s related) ?_
    rintro ⟨partTbl, h⟩ ⟨partTbl', h'⟩ ⟨same, related⟩
    dsimp only at same related ⊢
    rw [same 0 (by decide), same 1 (by decide), simulates.info related]
    refine Follows.bind (simulates.set related _) fun h h' related => ?_
    split
    next => exact Follows.ok related
    next => exact ih _ _ related

theorem partitionExtended (simulates : Simulates S S' R E) {device : Int}
    (drive : drvOfDev device = 0) (related : R h h') :
    Follows R E (S.partitionExtended h device) (S'.partitionExtended h' device) := by
  rw [Scanner.partitionExtended, Scanner.partitionExtended, drive, simulates.info related]
  simp only [infoOf, if_true, Except.mapError, bind, Except.bind]
  split
  next =>
    rw [simulates.fault]
    exact Follows.error _
  next => exact simulates.scanLogical _ _ _ _ _ related

-- The same, with the number of entries counted so far.
def Counted (R : σ → σ' → Prop) (found : Nat × σ) (found' : Nat × σ') : Prop :=
  found'.1 = found.1 ∧ R found.2 found'.2

theorem scanPrimary (simulates : Simulates S S' R E) {partTbl partTbl' : Nat → PartEnt} {i : Nat}
    (bound : i < nrPartPerDrive) (same : partTbl' i = partTbl i) {found : Nat × σ}
    {found' : Nat × σ'} (counted : Counted R found found') :
    Follows (Counted R) E (S.scanPrimary 0 partTbl found i)
      (S'.scanPrimary 0 partTbl' found' i) := by
  obtain ⟨count, h⟩ := found
  obtain ⟨count', h'⟩ := found'
  obtain ⟨rfl, related⟩ := counted
  rw [Scanner.scanPrimary, Scanner.scanPrimary, same]
  split
  next => exact Follows.ok ⟨rfl, related⟩
  next =>
    dsimp only at related ⊢
    rw [simulates.info related]
    refine Follows.bind (simulates.set related _) fun h h' related => ?_
    have counted : ∀ h h', R h h' →
        Follows (Counted R) E (pure (count' + 1, h)) (pure (count' + 1, h')) :=
      fun h h' related => Follows.ok ⟨rfl, related⟩
    split
    next =>
      refine Follows.bind (simulates.partitionExtended ?_ related) counted
      simp only [nrPartPerDrive] at bound
      interval_cases i <;> decide
    next => exact Follows.bind (Follows.ok related) counted

/-- `partition()` of the one scanner ends as that of the other one does. -/
theorem partition (simulates : Simulates S S' R E) (related : R h h') :
    Follows R E (S.partition h 0 pPrimary) (S'.partition h' 0 pPrimary) := by
  have drive : drvOfDev 0 = 0 := rfl
  rw [Scanner.partition, Scanner.partition, if_pos rfl, if_pos rfl, drive]
  simp only [infoOf, if_true, Except.mapError, Int.toNat_zero]
  rw [bind_of_ok _ rfl, bind_of_ok _ rfl]
  refine Follows.bind (simulates.getPartTable 0 related) ?_
  rintro ⟨partTbl, h⟩ ⟨partTbl', h'⟩ ⟨same, related⟩
  refine Follows.bind (R := Counted R) (Follows.foldlM ⟨rfl, related⟩ ?_) ?_
  · intro found found' i member counted
    have bound := List.mem_range.mp member
    exact simulates.scanPrimary bound (same i bound) counted
  · rintro ⟨count, h⟩ ⟨count', h'⟩ ⟨rfl, related⟩
    dsimp only
    split
    next => exact Follows.ok related
    next =>
      rw [simulates.fault]
      exact Follows.error _

end Simulates

end Scanner

-- `get_part_table()` on a drive that delivers the bytes of the sector in its address registers.
def getPartTable (disk : Nat → Nat → UInt8) (drive sectNr : Nat) : Nat → PartEnt :=
  partEnts (disk (lbaOf (partTableCmd drive sectNr)))

-- The code by itself: nothing but the tables changes.
def onDisk (disk : Nat → Nat → UInt8) : Scanner HdInfo Fault where
  info := id
  setInfo _ info := info
  fault := id
  getPartTable info drive sectNr := .ok (getPartTable disk drive sectNr, info)

def partition (disk : Nat → Nat → UInt8) : HdInfo → Int → Int → Except Fault HdInfo :=
  (onDisk disk).partition

-- The boot record that follows the one in sector `s`; the start of the chain is in sector `base`.
def nextRecord (disk : Nat → Nat → UInt8) (base s : Nat) : Option Nat :=
  let second := partEnts (disk (s % 268435456)) 1
  if second.sysId = noPart then none else some ((base + second.startSect) % 4294967296)

def bootRecords (disk : Nat → Nat → UInt8) (base : Nat) : List Nat :=
  firstNodes (nextRecord disk base) nrSubPerPart base

def logicalPart (disk : Nat → Nat → UInt8) (s : Nat) : PartInfo :=
  let first := partEnts (disk (s % 268435456)) 0
  ⟨(s + first.startSect) % 4294967296, first.nrSects⟩

/--
The first `m` primary entries have been scanned, and nothing else is changed. Sector numbers have
32 bits, and a drive reads the lowest 28 of them.
-/
structure Scanned (disk : Nat → Nat → UInt8) (m : Nat) (info info' : HdInfo) : Prop where
  primary : ∀ i, i < m → (partEnts (disk 0) i).sysId ≠ noPart →
    info'.primary (i + 1) = ⟨(partEnts (disk 0) i).startSect, (partEnts (disk 0) i).nrSects⟩
  primaryKept : ∀ nr, (∀ i, i < m → (partEnts (disk 0) i).sysId ≠ noPart → nr ≠ i + 1) →
    info'.primary nr = info.primary nr
  logical : ∀ i, i < m → (partEnts (disk 0) i).sysId = extPart →
    ∀ n s, (bootRecords disk (partEnts (disk 0) i).startSect)[n]? = some s →
      info'.logical (i * nrSubPerPart + n) = logicalPart disk s
  logicalKept : ∀ nr, (∀ i, i < m → (partEnts (disk 0) i).sysId = extPart →
    ∀ n, n < (bootRecords disk (partEnts (disk 0) i).startSect).length →
      nr ≠ i * nrSubPerPart + n) → info'.logical nr = info.logical nr

section Scan

variable {disk : Nat → Nat → UInt8} {info : HdInfo}

theorem getPartTable_eq (disk : Nat → Nat → UInt8) (s : Nat) :
    getPartTable disk 0 s = partEnts (disk (s % 268435456)) := by
  rw [getPartTable, lbaOf_registers (partTableCmd 0 s) rfl rfl rfl rfl]

theorem onDisk_reads (info : HdInfo) (s : Nat) :
    (onDisk disk).getPartTable info 0 s = .ok (partEnts (disk (s % 268435456)), info) :=
  congrArg (fun partTbl => Except.ok (partTbl, info)) (getPartTable_eq disk s)

theorem onDisk_set (info : HdInfo) (new : Except Fault HdInfo) :
    (onDisk disk).set info new = new := by
  cases new <;> rfl

theorem setLogical_ok (info : HdInfo) {nr : Nat} (bound : nr < nrSubPerDrive) (part : PartInfo) :
    info.setLogical nr part = .ok { info with logical := Function.update info.logical nr part } :=
  if_pos ⟨Int.natCast_nonneg nr, Int.ofNat_lt.mpr bound⟩

theorem setPrimary_ok (info : HdInfo) {nr : Nat} (bound : nr < nrPrimPerDrive) (part : PartInfo) :
    info.setPrimary nr part = .ok { info with primary := Function.update info.primary nr part } :=
  if_pos ⟨Int.natCast_nonneg nr, Int.ofNat_lt.mpr bound⟩

theorem scanLogical_turn (info : HdInfo) (base : Nat) {first i : Nat}
    (inside : first + i < nrSubPerDrive) (turns s : Nat) :
    (onDisk disk).scanLogical 0 base first (turns + 1) i s info =
      let info := { info with
        logical := Function.update info.logical (first + i) (logicalPart disk s) }
      if (partEnts (disk (s % 268435456)) 1).sysId = noPart then .ok info
      else (onDisk disk).scanLogical 0 base first turns (i + 1)
        ((base + (partEnts (disk (s % 268435456)) 1).startSect) % 4294967296) info := by
  have slot : ((first : Nat) : Int) + (i : Nat) = ((first + i : Nat) : Int) := by omega
  have filled := setLogical_ok info inside (logicalPart disk s)
  rw [logicalPart, ← slot] at filled
  rw [Scanner.scanLogical, bind_of_ok _ (onDisk_reads info s)]
  dsimp only
  rw [onDisk_set, show (onDisk disk).info info = info from rfl, bind_of_ok _ filled]
  split <;> rfl

theorem scanLogical_ok {base first turns i s : Nat} (fits : first + i + turns ≤ nrSubPerDrive) :
    ∃ info', (onDisk disk).scanLogical 0 base first turns i s info = .ok info' ∧
      info'.primary = info.primary ∧
      (∀ n s', (firstNodes (nextRecord disk base) turns s)[n]? = some s' →
        info'.logical (first + i + n) = logicalPart disk s') ∧
      ∀ nr, (∀ n, n < (firstNodes (nextRecord disk base) turns s).length → nr ≠ first + i + n) →
        info'.logical nr = info.logical nr := by
  induction turns generalizing i s info with
  | zero =>
    refine ⟨info, rfl, rfl, fun n s' here => ?_, fun _ _ => rfl⟩
    rw [firstNodes, List.getElem?_nil] at here
    cases here
  | succ turns ih =>
    rw [scanLogical_turn info base (show first + i < nrSubPerDrive by omega)]
    by_cases last : (partEnts (disk (s % 268435456)) 1).sysId = noPart
    next =>
      have nodes : firstNodes (nextRecord disk base) (turns + 1) s = [s] := by
        rw [firstNodes, nextRecord, if_pos last]
      rw [if_pos last, nodes]
      refine ⟨_, rfl, rfl, fun n s' here => ?_, fun nr outside => ?_⟩
      · cases n with
        | zero =>
          cases here
          exact Function.update_self ..
        | succ n => cases here
      · exact Function.update_of_ne (outside 0 Nat.one_pos) ..
    next =>
      have nodes : firstNodes (nextRecord disk base) (turns + 1) s =
          s :: firstNodes (nextRecord disk base) turns
            ((base + (partEnts (disk (s % 268435456)) 1).startSect) % 4294967296) := by
        rw [firstNodes, nextRecord, if_neg last]
      rw [if_neg last, nodes]
      obtain ⟨info', scans, primary, logical, kept⟩ := @ih
        { info with logical := Function.update info.logical (first + i) (logicalPart disk s) }
        (i + 1) ((base + (partEnts (disk (s % 268435456)) 1).startSect) % 4294967296) (by omega)
      refine ⟨info', scans, primary, fun n s' here => ?_, fun nr outside => ?_⟩
      · cases n with
        | zero =>
          cases here
          rw [Nat.add_zero, kept (first + i) fun n _ => by omega]
          exact Function.update_self ..
        | succ n =>
          rw [← logical n s' here]
          congr 1
          omega
      · rw [kept nr fun n below => ?_]
        · exact Function.update_of_ne (outside 0 (Nat.succ_pos _)) ..
        · have other := outside (n + 1) (Nat.succ_lt_succ below)
          omega

theorem partitionExtended_ok (disk : Nat → Nat → UInt8) (info : HdInfo) {i : Nat}
    (bound : i < nrPartPerDrive) :
    ∃ info', (onDisk disk).partitionExtended info ((0 : Int) + (i + 1)) = .ok info' ∧
      info'.primary = info.primary ∧
      (∀ n s, (bootRecords disk (info.primary (i + 1)).base)[n]? = some s →
        info'.logical (i * nrSubPerPart + n) = logicalPart disk s) ∧
      ∀ nr, (∀ n, n < (bootRecords disk (info.primary (i + 1)).base).length →
        nr ≠ i * nrSubPerPart + n) → info'.logical nr = info.logical nr := by
  have fits : i * nrSubPerPart + 0 + nrSubPerPart ≤ nrSubPerDrive := by
    simp only [nrSubPerDrive, nrSubPerPart, nrPartPerDrive] at bound ⊢
    omega
  obtain ⟨info', scans, primary, logical, kept⟩ := @scanLogical_ok disk info
    (info.primary (i + 1)).base (i * nrSubPerPart) nrSubPerPart 0 (info.primary (i + 1)).base fits
  refine ⟨info', ?_, primary, logical, kept⟩
  have device : (0 : Int) + (i + 1) = ((i + 1 : Nat) : Int) := by omega
  have drive : drvOfDev ((i + 1 : Nat) : Int) = 0 := by
    simp only [nrPartPerDrive] at bound
    interval_cases i <;> decide
  have index : ((i + 1 : Nat) : Int).tmod nrPrimPerDrive = ((i + 1 : Nat) : Int) := by
    simp only [nrPartPerDrive] at bound
    interval_cases i <;> decide
  have inside : ¬ ((i + 1 : Nat) : Int) < 0 := by omega
  have firstSub : (((i + 1 : Nat) : Int) - 1) * nrSubPerPart =
      ((i * nrSubPerPart : Nat) : Int) := by
    simp only [nrSubPerPart]
    omega
  simp only [Scanner.partitionExtended, device, drive, index, infoOf, if_true, inside, if_false,
    firstSub, Int.toNat_natCast, Int.toNat_zero, Except.mapError, bind, Except.bind]
  exact scans

def usedParts (disk : Nat → Nat → UInt8) (m : Nat) : Nat :=
  ((List.range m).filter fun i => (partEnts (disk 0) i).sysId ≠ noPart).length

theorem usedParts_succ (disk : Nat → Nat → UInt8) (m : Nat) : usedParts disk (m + 1) =
    usedParts disk m + if (partEnts (disk 0) m).sysId = noPart then 0 else 1 := by
  rw [usedParts, usedParts, List.range_succ, List.filter_append, List.length_append]
  by_cases unused : (partEnts (disk 0) m).sysId = noPart <;> simp [unused]

theorem usedParts_pos (disk : Nat → Nat → UInt8) (m : Nat) :
    usedParts disk m ≠ 0 ↔ ∃ i, i < m ∧ (partEnts (disk 0) i).sysId ≠ noPart := by
  rw [usedParts, Ne, List.length_eq_zero_iff, List.filter_eq_nil_iff]
  simp

theorem scanned_zero (disk : Nat → Nat → UInt8) (info : HdInfo) : Scanned disk 0 info info := by
  constructor
  case primary => exact fun i below => absurd below (Nat.not_lt_zero i)
  case primaryKept => exact fun _ _ => rfl
  case logical => exact fun i below => absurd below (Nat.not_lt_zero i)
  case logicalKept => exact fun _ _ => rfl

theorem Scanned.unused {info' : HdInfo} {m : Nat} (scanned : Scanned disk m info info')
    (unused : (partEnts (disk 0) m).sysId = noPart) : Scanned disk (m + 1) info info' := by
  have earlier {i : Nat} (below : i < m + 1) (used : (partEnts (disk 0) i).sysId ≠ noPart) :
      i < m := by
    have other : i ≠ m := by
      rintro rfl
      exact used unused
    omega
  have extended {i : Nat} (isExt : (partEnts (disk 0) i).sysId = extPart) :
      (partEnts (disk 0) i).sysId ≠ noPart := by
    rw [isExt]
    decide
  constructor
  case primary => exact fun i below used => scanned.primary i (earlier below used) used
  case primaryKept =>
    exact fun nr outside => scanned.primaryKept nr fun i below => outside i (by omega)
  case logical => exact fun i below isExt =>
    scanned.logical i (earlier below (extended isExt)) isExt
  case logicalKept =>
    exact fun nr outside => scanned.logicalKept nr fun i below => outside i (by omega)

-- An entry that is used has a slot of its own, and one for each boot record if it is extended.
theorem Scanned.used {info' info'' : HdInfo} {m : Nat} (scanned : Scanned disk m info info')
    (isUsed : (partEnts (disk 0) m).sysId ≠ noPart)
    (primary : info''.primary = Function.update info'.primary (m + 1)
      ⟨(partEnts (disk 0) m).startSect, (partEnts (disk 0) m).nrSects⟩)
    (logical : (partEnts (disk 0) m).sysId = extPart →
      ∀ n s, (bootRecords disk (partEnts (disk 0) m).startSect)[n]? = some s →
        info''.logical (m * nrSubPerPart + n) = logicalPart disk s)
    (kept : ∀ nr, ((partEnts (disk 0) m).sysId = extPart →
      ∀ n, n < (bootRecords disk (partEnts (disk 0) m).startSect).length →
        nr ≠ m * nrSubPerPart + n) → info''.logical nr = info'.logical nr) :
    Scanned disk (m + 1) info info'' := by
  constructor
  case primary =>
    intro i below isUsed'
    rw [primary]
    by_cases here : i = m
    next =>
      subst here
      exact Function.update_self ..
    next =>
      rw [← scanned.primary i (by omega) isUsed']
      exact Function.update_of_ne (by omega) ..
  case primaryKept =>
    intro nr outside
    rw [primary, ← scanned.primaryKept nr fun i below => outside i (by omega)]
    exact Function.update_of_ne (outside m (Nat.lt_succ_self m) isUsed) ..
  case logical =>
    intro i below isExt n s here
    by_cases same : i = m
    next =>
      subst same
      exact logical isExt n s here
    next =>
      rw [← scanned.logical i (by omega) isExt n s here]
      refine kept _ fun _ n' inside' => ?_
      have inside : n < nrSubPerPart :=
        lt_of_lt_of_le (List.getElem?_eq_some_iff.mp here).1 (firstNodes_length ..)
      simp only [nrSubPerPart] at inside ⊢
      omega
  case logicalKept =>
    intro nr outside
    rw [kept nr fun isExt => outside m (Nat.lt_succ_self m) isExt]
    exact scanned.logicalKept nr fun i below => outside i (by omega)

theorem scanPrimary_ok {info' : HdInfo} {m : Nat} (bound : m < nrPartPerDrive)
    (scanned : Scanned disk m info info') :
    ∃ info'', (onDisk disk).scanPrimary 0 (partEnts (disk 0)) (usedParts disk m, info') m =
        .ok (usedParts disk (m + 1), info'') ∧ Scanned disk (m + 1) info info'' := by
  rw [Scanner.scanPrimary, usedParts_succ]
  by_cases unused : (partEnts (disk 0) m).sysId = noPart
  next =>
    rw [if_pos unused, if_pos unused]
    exact ⟨info', rfl, scanned.unused unused⟩
  next =>
    have slot : ((m : Nat) : Int) + 1 = ((m + 1 : Nat) : Int) := by omega
    have inside : m + 1 < nrPrimPerDrive := Nat.succ_lt_succ bound
    obtain ⟨info₁, filled, primary₁, logical₁⟩ : ∃ info₁, info'.setPrimary ((m + 1 : Nat) : Int)
        ⟨(partEnts (disk 0) m).startSect, (partEnts (disk 0) m).nrSects⟩ = .ok info₁ ∧
        info₁.primary = Function.update info'.primary (m + 1)
          ⟨(partEnts (disk 0) m).startSect, (partEnts (disk 0) m).nrSects⟩ ∧
        info₁.logical = info'.logical := ⟨_, setPrimary_ok info' inside _, rfl, rfl⟩
    rw [if_neg unused, if_neg unused]
    dsimp only
    rw [onDisk_set, show (onDisk disk).info info' = info' from rfl, slot, bind_of_ok _ filled]
    by_cases isExt : (partEnts (disk 0) m).sysId = extPart
    next =>
      obtain ⟨info₂, scans, primary, logical, kept⟩ := partitionExtended_ok disk info₁ bound
      rw [slot] at scans
      rw [primary₁, Function.update_self] at logical kept
      refine ⟨info₂, ?_, scanned.used unused (primary.trans primary₁) (fun _ => logical) ?_⟩
      · simp only [isExt, if_true, scans]
        rfl
      · intro nr outside
        rw [kept nr (outside isExt), logical₁]
    next =>
      refine ⟨info₁, ?_, scanned.used unused primary₁ (fun isExt' => absurd isExt' isExt) ?_⟩
      · simp only [isExt, if_false]
        rfl
      · intro nr _
        rw [logical₁]

theorem scanPrimaries_ok (disk : Nat → Nat → UInt8) {m : Nat} (bound : m ≤ nrPartPerDrive)
    (info : HdInfo) :
    ∃ info', (List.range m).foldlM ((onDisk disk).scanPrimary 0 (partEnts (disk 0))) (0, info) =
        .ok (usedParts disk m, info') ∧ Scanned disk m info info' := by
  induction m with
  | zero => exact ⟨info, rfl, scanned_zero disk info⟩
  | succ m ih =>
    obtain ⟨info', done, scanned⟩ := ih (by omega)
    obtain ⟨info'', turn, scanned'⟩ := scanPrimary_ok (by omega) scanned
    refine ⟨info'', ?_, scanned'⟩
    rw [List.range_succ, List.foldlM_append, done]
    simp only [bind, Except.bind, List.foldlM_cons, turn, List.foldlM_nil]
    rfl

end Scan

/--
Whatever the disk holds, `partition()` scans it if one of its primary entries is used, and stops at
its assertion if none is.
-/
theorem partition_scans (disk : Nat → Nat → UInt8) (info : HdInfo) :
    ((∃ i, i < nrPartPerDrive ∧ (partEnts (disk 0) i).sysId ≠ noPart) →
      ∃ info', partition disk info 0 pPrimary = .ok info' ∧
        Scanned disk nrPartPerDrive info info') ∧
      ((¬ ∃ i, i < nrPartPerDrive ∧ (partEnts (disk 0) i).sysId ≠ noPart) →
        partition disk info 0 pPrimary = .error .assertion) := by
  obtain ⟨info', done, scanned⟩ := scanPrimaries_ok disk (le_refl nrPartPerDrive) info
  have scans : partition disk info 0 pPrimary =
      if usedParts disk nrPartPerDrive ≠ 0 then .ok info' else .error .assertion := by
    have table : (onDisk disk).getPartTable info 0 0 = .ok (partEnts (disk 0), info) :=
      onDisk_reads info 0
    have drive : drvOfDev 0 = 0 := rfl
    simp only [partition, Scanner.partition, if_true, infoOf, drive, Int.toNat_zero, table, done,
      Except.mapError, bind, Except.bind]
    rfl
  rw [scans, ← usedParts_pos]
  constructor
  · intro used
    exact ⟨info', if_pos used, scanned⟩
  · intro unused
    exact if_neg unused

-- A primary partition, and an extended one with a chain of two logical partitions.
def chainedDisk : Nat → Nat → UInt8 := fun s b =>
  if b = 0x1C2 then 0x83
  else if b = 0x1C6 then 63
  else if b = 0x1CA then if s = 0 then 0xE8 else if s = 2000 then 0xF4 else 0xC8
  else if b = 0x1CB then if s = 0 then 3 else if s = 2000 then 1 else 0
  else if b = 0x1D2 then if s = 0 ∨ s = 2000 then 5 else 0
  else if b = 0x1D6 then if s = 0 then 0xD0 else 0x58
  else if b = 0x1D7 then if s = 0 then 7 else 2
  else if b = 0x1DA then 0xB8
  else if b = 0x1DB then 0x0B
  else 0

theorem partition_scans_chained :
    ∃ info', partition chainedDisk ⟨fun _ => ⟨0, 0⟩, fun _ => ⟨0, 0⟩⟩ 0 pPrimary = .ok info' ∧
      info'.primary 1 = ⟨63, 1000⟩ ∧ info'.primary 2 = ⟨2000, 3000⟩ ∧
      info'.logical 16 = ⟨2063, 500⟩ ∧ info'.logical 17 = ⟨2663, 200⟩ ∧
      info'.logical 18 = ⟨0, 0⟩ := by
  obtain ⟨info', done, scanned⟩ := (partition_scans chainedDisk _).1 ⟨0, by decide, by decide⟩
  have records : bootRecords chainedDisk (partEnts (chainedDisk 0) 1).startSect = [2000, 2600] := by
    decide +kernel
  have isExt : (partEnts (chainedDisk 0) 1).sysId = extPart := by decide
  refine ⟨info', done, scanned.primary 0 (by decide) (by decide),
    scanned.primary 1 (by decide) (by decide), ?_, ?_, ?_⟩
  · exact (scanned.logical 1 (by decide) isExt 0 2000 (by rw [records]; rfl)).trans
      (by decide +kernel)
  · exact (scanned.logical 1 (by decide) isExt 1 2600 (by rw [records]; rfl)).trans
      (by decide +kernel)
  · refine scanned.logicalKept 18 fun i bound isExt' n inside => ?_
    have one : i = 1 := by
      simp only [nrPartPerDrive] at bound
      interval_cases i
      · exact absurd isExt' (by decide)
      · rfl
      · exact absurd isExt' (by decide)
      · exact absurd isExt' (by decide)
    subst one
    rw [records] at inside
    simp only [List.length_cons, List.length_nil] at inside
    simp only [nrSubPerPart]
    omega

-- A new disk has no partitions.
theorem partition_blank :
    partition (fun _ _ => 0) ⟨fun _ => ⟨0, 0⟩, fun _ => ⟨0, 0⟩⟩ 0 pPrimary = .error .assertion :=
  rfl

end Konix.Hd
