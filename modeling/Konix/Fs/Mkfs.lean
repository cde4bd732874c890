import Konix.Fs.Create

set_option autoImplicit false

namespace Konix.Fs

open Splice Words Bits

def putWords (f : Nat → UInt8) (base : Nat) : List Nat → Nat → UInt8
  | [] => f
  | w :: ws => putWords (putWord f base w) (base + 4) ws

-- The super block `mkfs()` makes for a partition of so many sectors, as it is kept in memory.
def mkfsSuper (size : Nat) : SuperBlock where
  magic := magicV1
  nrInodes := bitsPerSect
  nrSects := size
  nrImapSects := 1
  nrSmapSects := size / bitsPerSect + 1
  n1stSect := 1 + 1 + 1 + (size / bitsPerSect + 1) + bitsPerSect * inodeSize / sectorSize
  nrInodeSects := bitsPerSect * inodeSize / sectorSize
  rootInode := rootInodeNr
  inodeSize := inodeSize
  inodeIsizeOff := 4
  inodeStartOff := 8
  dirEntSize := dirEntrySize
  dirEntInodeOff := 0
  dirEntFnameOff := 4
  sbDev := rootDev

-- The part of `struct super_block` that is on the disk.
def superWords (sb : SuperBlock) : List Nat :=
  [sb.magic, sb.nrInodes, sb.nrSects, sb.nrImapSects, sb.nrSmapSects, sb.n1stSect, sb.nrInodeSects,
    sb.rootInode, sb.inodeSize, sb.inodeIsizeOff, sb.inodeStartOff, sb.dirEntSize,
    sb.dirEntInodeOff, sb.dirEntFnameOff]

def parseSuper (buf : Nat → UInt8) (dev : Nat) : SuperBlock where
  magic := wordAt buf 0
  nrInodes := wordAt buf 4
  nrSects := wordAt buf 8
  nrImapSects := wordAt buf 12
  nrSmapSects := wordAt buf 16
  n1stSect := wordAt buf 20
  nrInodeSects := wordAt buf 24
  rootInode := wordAt buf 28
  inodeSize := wordAt buf 32
  inodeIsizeOff := wordAt buf 36
  inodeStartOff := wordAt buf 40
  dirEntSize := wordAt buf 44
  dirEntInodeOff := wordAt buf 48
  dirEntFnameOff := wordAt buf 52
  sbDev := dev

-- The sectors `mkfs()` puts together in `fsbuf`, each after a `memset()` of the whole sector.
def superSector (sb : SuperBlock) : Nat → UInt8 := putWords (fun _ => 0x90) 0 (superWords sb)

def imapSector : Nat → UInt8 :=
  Function.update (fun _ => 0) 0 ((List.range (nrConsoles + 2)).foldl setBit 0)

def smapSector : Nat → UInt8 :=
  let nrSects := nrDefaultFileSects + 1
  Function.update (splice (fun _ => 0) 0 (nrSects / 8) fun _ => 0xFF) (nrSects / 8)
    ((List.range (nrSects % 8)).foldl setBit 0)

def rootRecord (sb : SuperBlock) : Inode :=
  ⟨iDirectory, dirEntrySize * 4, sb.n1stSect, nrDefaultFileSects, rootDev, 1, rootInodeNr⟩

def ttyRecord (i : Nat) : Inode :=
  ⟨iCharSpecial, 0, makeDev devCharTty i, 0, rootDev, 0, i + 2⟩

def inodeSector (sb : SuperBlock) : Nat → UInt8 :=
  (List.range nrConsoles).foldl (fun buf i => storeInode buf (inodeSize * (i + 1)) (ttyRecord i))
    (storeInode (fun _ => 0) 0 (rootRecord sb))

-- "." and "dev_tty0" to "dev_tty2"
def dotName : List UInt8 := [46]

def ttyName (i : Nat) : List UInt8 := [100, 101, 118, 95, 116, 116, 121, 48 + UInt8.ofNat i]

def dirSector : Nat → UInt8 :=
  (List.range nrConsoles).foldl
    (fun buf i => putEntry buf ((i + 1) * dirEntrySize) (i + 2) (ttyName i))
    (putEntry (fun _ => 0) 0 rootInodeNr dotName)

def State.fill (s : State) (sector : Nat → UInt8) : State :=
  { s with fsbuf := splice s.fsbuf 0 sectorSize sector }

-- The rest of the sector map.
def zeroSmap (sb : SuperBlock) : Nat → Nat → State → Except Stop State
  | 0, _, s => .ok s
  | fuel + 1, i, s => do
    let s ← s.wrSect rootDev (2 + sb.nrImapSects + i)
    zeroSmap sb fuel (i + 1) s

-- `size` is the geometry the driver answers; the message that asks for it is left out.
def mkfs (s : State) (size : Nat) : Except Stop State := do
  let sb := mkfsSuper size
  let s ← (s.fill (superSector sb)).wrSect rootDev 1
  assertThat (imapSector 0 = 0x1F) .assertion
  let s ← (s.fill imapSector).wrSect rootDev 2
  let s ← (s.fill smapSector).wrSect rootDev (2 + sb.nrImapSects)
  let s ← zeroSmap sb (sb.nrSmapSects - 1) 1 (s.fill fun _ => 0)
  let s ← (s.fill (inodeSector sb)).wrSect rootDev (2 + sb.nrImapSects + sb.nrSmapSects)
  (s.fill dirSector).wrSect rootDev sb.n1stSect

def freeSuperSlot (table : Nat → SuperBlock) : Nat → Nat → Option Nat
  | 0, _ => none
  | fuel + 1, i => if (table i).sbDev = noDev then some i else freeSuperSlot table fuel (i + 1)

def readSuperBlock (s : State) (dev : Nat) : Except Stop State := do
  let s ← s.rdSect dev 1
  match freeSuperSlot s.superBlock nrSuperBlock 0 with
  | none => .error .panic
  | some i => do
    assertThat (i = 0) .assertion
    return { s with superBlock := Function.update s.superBlock i (parseSuper s.fsbuf dev) }

def initFs (s : State) (size : Nat) : Except Stop State := do
  let s := { s with
    fDescTable := fun _ => ⟨0, 0, 0, none⟩
    inodeTable := fun _ => ⟨0, 0, 0, 0, 0, 0, 0⟩
    superBlock := fun i => { s.superBlock i with sbDev := noDev } }
  let s ← mkfs s size
  let s ← readSuperBlock s rootDev
  let sb ← getSuperBlock s rootDev
  assertThat (sb.magic = magicV1) .assertion
  match ← getInode s rootDev rootInodeNr with
  | (none, _) => .error .outOfBounds
  | (some p, s) => return { s with rootInode := p }

def mkfsDisk (disk : Nat → UInt8) (size : Nat) : Nat → UInt8 :=
  let sb := mkfsSuper size
  let disk := splice disk (1 * sectorSize) sectorSize (superSector sb)
  let disk := splice disk imapBase sectorSize imapSector
  let disk := splice disk (smapBase sb) sectorSize smapSector
  let disk := splice disk (smapBase sb + sectorSize) ((sb.nrSmapSects - 1) * sectorSize) fun _ => 0
  let disk := splice disk (smapBase sb + sb.nrSmapSects * sectorSize) sectorSize (inodeSector sb)
  splice disk (sb.n1stSect * sectorSize) sectorSize dirSector

theorem State.fill_held (s : State) (sector : Nat → UInt8) (pos : Nat) :
    (s.fill sector).held pos = splice s.disk pos sectorSize sector := by
  apply splice_congr
  intro j bound
  simp only [State.fill]
  rw [splice_inside _ _ (Nat.zero_le _) (by omega), Nat.sub_zero]

theorem fill_wrSect (s : State) (sector : Nat → UInt8) (sect : Nat) :
    ∃ s', (s.fill sector).wrSect rootDev sect = .ok s' ∧ DiskOnly s s' ∧
      s'.disk = splice s.disk (sect * sectorSize) sectorSize sector :=
  ⟨_, State.wrSect_rootDev .., (DiskOnly.buffer s _).trans (DiskOnly.transfer ..),
    State.fill_held s sector _⟩

theorem zeroSmap_spec (sb : SuperBlock) (fuel i : Nat) (s : State)
    (zero : ∀ j, j < sectorSize → s.fsbuf j = 0) :
    ∃ s', zeroSmap sb fuel i s = .ok s' ∧ DiskOnly s s' ∧
      s'.disk = splice s.disk (smapBase sb + i * sectorSize) (fuel * sectorSize) fun _ => 0 := by
  induction fuel generalizing i s with
  | zero => exact ⟨s, rfl, DiskOnly.refl s, by rw [Nat.zero_mul, splice_empty]⟩
  | succ fuel ih =>
    have place : (2 + sb.nrImapSects + i) * sectorSize = smapBase sb + i * sectorSize :=
      Nat.add_mul ..
    obtain ⟨s', done, only, disk⟩ := ih (i + 1)
      (s.transfer .devWrite rootDev (smapBase sb + i * sectorSize) sectorSize) zero
    refine ⟨s', ?_, (DiskOnly.transfer ..).trans only, ?_⟩
    · simp only [zeroSmap, State.wrSect_rootDev, place, bind, Except.bind]
      exact done
    · have first_ : s.held (smapBase sb + i * sectorSize) =
          splice s.disk (smapBase sb + i * sectorSize) sectorSize fun _ => 0 := splice_congr _ zero
      rw [disk, State.transfer_write_disk, first_,
        show smapBase sb + (i + 1) * sectorSize = smapBase sb + i * sectorSize + sectorSize by
          rw [Nat.succ_mul, Nat.add_assoc],
        show (fuel + 1) * sectorSize = sectorSize + fuel * sectorSize by
          rw [Nat.succ_mul, Nat.add_comm]]
      exact splice_append s.disk (fun _ => 0) _ _ _

theorem imapSector_first : imapSector 0 = 0x1F := by decide

theorem mkfs_spec (s : State) (size : Nat) :
    ∃ s', mkfs s size = .ok s' ∧ DiskOnly s s' ∧ s'.disk = mkfsDisk s.disk size := by
  obtain ⟨s₁, done₁, only₁, disk₁⟩ := fill_wrSect s (superSector (mkfsSuper size)) 1
  obtain ⟨s₂, done₂, only₂, disk₂⟩ := fill_wrSect s₁ imapSector 2
  obtain ⟨s₃, done₃, only₃, disk₃⟩ := fill_wrSect s₂ smapSector (2 + (mkfsSuper size).nrImapSects)
  obtain ⟨s₄, done₄, only₄, disk₄⟩ := zeroSmap_spec (mkfsSuper size)
    ((mkfsSuper size).nrSmapSects - 1) 1 (s₃.fill fun _ => 0) fun j bound => by
      simp only [State.fill]
      rw [splice_inside _ _ (Nat.zero_le _) (by omega)]
  obtain ⟨s₅, done₅, only₅, disk₅⟩ := fill_wrSect s₄ (inodeSector (mkfsSuper size))
    (2 + (mkfsSuper size).nrImapSects + (mkfsSuper size).nrSmapSects)
  obtain ⟨s₆, done₆, only₆, disk₆⟩ := fill_wrSect s₅ dirSector (mkfsSuper size).n1stSect
  have imap : assertThat (imapSector 0 = 0x1F) .assertion = .ok () := by
    simp only [imapSector_first, decide_true, assertThat_true]
  refine ⟨s₆, ?_, ?_, ?_⟩
  · rw [mkfs, bind_of_ok _ done₁, bind_of_ok _ imap, bind_of_ok _ done₂, bind_of_ok _ done₃,
      bind_of_ok _ done₄, bind_of_ok _ done₅]
    exact done₆
  · exact only₁.trans (only₂.trans (only₃.trans ((DiskOnly.buffer s₃ _).trans (only₄.trans
      (only₅.trans only₆)))))
  · have filled : (s₃.fill fun _ => 0).disk = s₃.disk := rfl
    rw [disk₆, disk₅, disk₄, filled, disk₃, disk₂, disk₁, Nat.one_mul sectorSize,
      Nat.add_mul (2 + (mkfsSuper size).nrImapSects)]
    simp only [mkfsDisk, imapBase, smapBase, smapBlk0Nr, imapBlk0Nr, Nat.reduceAdd, Nat.one_mul]

theorem putWords_below (f : Nat → UInt8) {base b : Nat} (ws : List Nat) (below : b < base) :
    putWords f base ws b = f b := by
  induction ws generalizing f base with
  | nil => rfl
  | cons w ws ih =>
    rw [putWords, ih _ (by omega)]
    exact putWord_outside _ _ (.inl below)

theorem wordAt_putWords (f : Nat → UInt8) (base : Nat) (ws : List Nat) (i w : Nat)
    (here : ws[i]? = some w) : wordAt (putWords f base ws) (base + 4 * i) = w % 2 ^ 32 := by
  induction ws generalizing f base i with
  | nil => cases here
  | cons v ws ih =>
    cases i with
    | zero =>
      cases here
      rw [Nat.mul_zero, Nat.add_zero, ← wordAt_putWord f base w]
      exact wordAt_congr fun j bound =>
        putWords_below (putWord f base w) ws (by omega : base + j < base + 4)
    | succ i =>
      have rest := ih (putWord f base v) (base + 4) i here
      rwa [show base + 4 + 4 * i = base + 4 * (i + 1) by omega] at rest

theorem inodeSects_eq : bitsPerSect * inodeSize / sectorSize = 256 := by decide

theorem parseSuper_superSector {f : Nat → UInt8} {size : Nat} (small : size < 2 ^ 32)
    (bytes : ∀ j, j < 56 → f j = superSector (mkfsSuper size) j) :
    parseSuper f rootDev = mkfsSuper size := by
  have word (i w : Nat) (bound : i < 14) (fits : w < 2 ^ 32)
      (here : (superWords (mkfsSuper size))[i]? = some w) : wordAt f (4 * i) = w := by
    have stored := wordAt_putWords (fun _ => 0x90) 0 (superWords (mkfsSuper size)) i w here
    rw [Nat.zero_add, Nat.mod_eq_of_lt fits] at stored
    rw [← stored]
    exact wordAt_congr fun j below => bytes _ (by omega)
  have blocks : size / bitsPerSect < 2 ^ 20 := by
    simp only [bitsPerSect, sectorSize]
    omega
  simp only [parseSuper, mkfsSuper, SuperBlock.mk.injEq]
  refine ⟨word 0 _ ?_ ?_ rfl, word 1 _ ?_ ?_ rfl, word 2 _ ?_ ?_ rfl, word 3 _ ?_ ?_ rfl,
    word 4 _ ?_ ?_ rfl, word 5 _ ?_ ?_ rfl, word 6 _ ?_ ?_ rfl, word 7 _ ?_ ?_ rfl,
    word 8 _ ?_ ?_ rfl, word 9 _ ?_ ?_ rfl, word 10 _ ?_ ?_ rfl, word 11 _ ?_ ?_ rfl,
    word 12 _ ?_ ?_ rfl, word 13 _ ?_ ?_ rfl, trivial⟩ <;>
    first
      | decide
      | exact small
      | (rw [inodeSects_eq]; omega)
      | omega

structure Formatted (f : Nat → UInt8) (sb : SuperBlock) : Prop where
  imap : ∀ i, i < bitsPerSect → bitAt f imapBase i = decide (i < nrConsoles + 2)
  smap : ∀ i, i < smapBitCount sb →
    bitAt f (smapBase sb) i = decide (i < nrDefaultFileSects + 1)
  root : OnDisk f (recordPos sb rootInodeNr) (rootRecord sb)
  tty : ∀ i, i < nrConsoles → OnDisk f (recordPos sb (i + 2)) (ttyRecord i)
  dir : ∀ a, a < sectorSize → f (sb.n1stSect * sectorSize + a) = dirSector a

section Format

variable {disk : Nat → UInt8} {size : Nat}

theorem smapBase_mkfs (size : Nat) : smapBase (mkfsSuper size) = 3 * sectorSize := rfl

theorem imapBase_eq : imapBase = 2 * sectorSize := rfl

theorem nrSmapSects_mkfs (size : Nat) :
    (mkfsSuper size).nrSmapSects = size / bitsPerSect + 1 := rfl

theorem n1stSect_mkfs (size : Nat) :
    (mkfsSuper size).n1stSect = 3 + (size / bitsPerSect + 1) + 256 := by
  simp only [mkfsSuper, inodeSects_eq]

theorem n1stSect_small (small : size < 2 ^ 32) : (mkfsSuper size).n1stSect < 2 ^ 32 := by
  rw [n1stSect_mkfs]
  simp only [bitsPerSect, sectorSize]
  omega

theorem mkfsDisk_super {a : Nat} (bound : a < sectorSize) :
    mkfsDisk disk size (1 * sectorSize + a) = superSector (mkfsSuper size) a := by
  simp only [mkfsDisk, smapBase_mkfs, imapBase_eq, nrSmapSects_mkfs, n1stSect_mkfs, sectorSize]
    at bound ⊢
  generalize size / bitsPerSect = q at *
  rw [splice_outside _ _ (by omega), splice_outside _ _ (by omega), splice_outside _ _ (by omega),
    splice_outside _ _ (by omega), splice_outside _ _ (by omega), splice_inside _ _ (by omega)
    (by omega), Nat.add_sub_cancel_left]

theorem mkfsDisk_imap {a : Nat} (bound : a < sectorSize) :
    mkfsDisk disk size (imapBase + a) = imapSector a := by
  simp only [mkfsDisk, smapBase_mkfs, imapBase_eq, nrSmapSects_mkfs, n1stSect_mkfs, sectorSize]
    at bound ⊢
  generalize size / bitsPerSect = q at *
  rw [splice_outside _ _ (by omega), splice_outside _ _ (by omega), splice_outside _ _ (by omega),
    splice_outside _ _ (by omega), splice_inside _ _ (by omega) (by omega), Nat.add_sub_cancel_left]

theorem mkfsDisk_smap {a : Nat} (bound : a < sectorSize) :
    mkfsDisk disk size (smapBase (mkfsSuper size) + a) = smapSector a := by
  simp only [mkfsDisk, smapBase_mkfs, imapBase_eq, nrSmapSects_mkfs, n1stSect_mkfs, sectorSize]
    at bound ⊢
  generalize size / bitsPerSect = q at *
  rw [splice_outside _ _ (by omega), splice_outside _ _ (by omega), splice_outside _ _ (by omega),
    splice_inside _ _ (by omega) (by omega), Nat.add_sub_cancel_left]

theorem mkfsDisk_smapRest {a : Nat} (lower : sectorSize ≤ a)
    (bound : a < (mkfsSuper size).nrSmapSects * sectorSize) :
    mkfsDisk disk size (smapBase (mkfsSuper size) + a) = 0 := by
  simp only [mkfsDisk, smapBase_mkfs, imapBase_eq, nrSmapSects_mkfs, n1stSect_mkfs, sectorSize]
    at lower bound ⊢
  generalize size / bitsPerSect = q at *
  rw [splice_outside _ _ (by omega), splice_outside _ _ (by omega),
    splice_inside _ _ (by omega) (by omega)]

theorem mkfsDisk_inodes {a : Nat} (bound : a < sectorSize) :
    mkfsDisk disk size (smapBase (mkfsSuper size) +
      (mkfsSuper size).nrSmapSects * sectorSize + a) = inodeSector (mkfsSuper size) a := by
  simp only [mkfsDisk, smapBase_mkfs, imapBase_eq, nrSmapSects_mkfs, n1stSect_mkfs, sectorSize]
    at bound ⊢
  generalize size / bitsPerSect = q at *
  rw [splice_outside _ _ (by omega), splice_inside _ _ (by omega) (by omega),
    Nat.add_sub_cancel_left]

theorem mkfsDisk_dir {a : Nat} (bound : a < sectorSize) :
    mkfsDisk disk size ((mkfsSuper size).n1stSect * sectorSize + a) = dirSector a := by
  rw [mkfsDisk, splice_inside _ _ (by omega) (by omega), Nat.add_sub_cancel_left]

end Format

theorem imapSector_bits {i : Nat} (bound : i < bitsPerSect) :
    (imapSector (i / 8)).toNat.testBit (i % 8) = decide (i < nrConsoles + 2) := by
  simp only [bitsPerSect, sectorSize, nrConsoles] at bound ⊢
  by_cases first_ : i / 8 = 0
  · have small : i < 8 := by omega
    rw [first_, imapSector_first]
    interval_cases i <;> decide
  · rw [imapSector, Function.update_of_ne first_]
    simp only [UInt8.toNat_zero, Nat.zero_testBit]
    exact (decide_eq_false (by omega)).symm

theorem smapSector_bits {i : Nat} (bound : i < bitsPerSect) :
    (smapSector (i / 8)).toNat.testBit (i % 8) = decide (i < nrDefaultFileSects + 1) := by
  have count : nrDefaultFileSects + 1 = 2049 := rfl
  have last : (List.range (2049 % 8)).foldl setBit 0 = 1 := by decide
  simp only [bitsPerSect, sectorSize] at bound
  simp only [smapSector]
  rw [count]
  by_cases here : i / 8 = 2049 / 8
  · rw [here, Function.update_self, last]
    have small : i % 8 < 8 := by omega
    by_cases start : i = 2048
    · subst start
      decide
    · rw [decide_eq_false (by omega)]
      have other : i % 8 ≠ 0 := by omega
      generalize i % 8 = k at other small
      interval_cases k <;> first | (exact absurd rfl other) | rfl
  · rw [Function.update_of_ne here]
    by_cases low : i < 2048
    · rw [splice_inside _ _ (Nat.zero_le _) (by omega), decide_eq_true (by omega)]
      exact full_byte.mp rfl _ (by omega)
    · rw [splice_outside _ _ (by omega), decide_eq_false (by omega)]
      exact Nat.zero_testBit _

theorem inodeSector_records (sb : SuperBlock) (small : sb.n1stSect < 2 ^ 32) :
    OnDisk (inodeSector sb) 0 (rootRecord sb) ∧
      ∀ i, i < nrConsoles → OnDisk (inodeSector sb) (inodeSize * (i + 1)) (ttyRecord i) := by
  have range : List.range nrConsoles = [0, 1, 2] := rfl
  have root : Stored (rootRecord sb) := by
    constructor <;> simp only [rootRecord] <;> first | exact small | decide
  have tty (i : Nat) (bound : i < nrConsoles) : Stored (ttyRecord i) := by
    simp only [nrConsoles] at bound
    interval_cases i <;> constructor <;> decide
  simp only [inodeSector, range, List.foldl_cons, List.foldl_nil, inodeSize]
  refine ⟨?_, fun i bound => ?_⟩
  · have first_ := storeInode_onDisk (fun _ => 0) 0 root
    exact ((first_.store _ (by omega)).store _ (by omega)).store _ (by omega)
  · have stored (f : Nat → UInt8) := storeInode_onDisk f (32 * (i + 1)) (tty i bound)
    simp only [nrConsoles] at bound
    interval_cases i
    · exact ((stored _).store _ (by omega)).store _ (by omega)
    · exact (stored _).store _ (by omega)
    · exact stored _

theorem recordPos_mkfs (size num : Nat) :
    recordPos (mkfsSuper size) num = smapBase (mkfsSuper size) +
      (mkfsSuper size).nrSmapSects * sectorSize + inodeSize * (num - 1) := by
  simp only [recordPos, inodeBlk, inodeOff, smapBase_mkfs, sectorSize, inodeSize,
    show (mkfsSuper size).nrImapSects = 1 from rfl]
  omega

theorem formatted_mkfs (disk : Nat → UInt8) {size : Nat} (small : size < 2 ^ 32) :
    Formatted (mkfsDisk disk size) (mkfsSuper size) where
  imap := by
    intro i bound
    have inside : i / 8 < sectorSize := by
      simp only [bitsPerSect, sectorSize] at bound ⊢
      omega
    rw [bitAt, mkfsDisk_imap inside, imapSector_bits bound]
  smap := by
    intro i bound
    rw [smapBitCount_eq] at bound
    by_cases first_ : i / 8 < sectorSize
    · have inside : i < bitsPerSect := by
        simp only [bitsPerSect]
        omega
      rw [bitAt, mkfsDisk_smap first_, smapSector_bits inside]
    · rw [bitAt, mkfsDisk_smapRest (by omega) (by omega), decide_eq_false]
      · exact Nat.zero_testBit _
      · simp only [sectorSize, nrDefaultFileSects] at first_ ⊢
        omega
  root := by
    have records := (inodeSector_records (mkfsSuper size) (n1stSect_small small)).1
    rw [recordPos_mkfs]
    refine records.congr fun j bound => ?_
    have inSect : j < sectorSize := by
      simp only [sectorSize]
      omega
    rw [rootInodeNr, Nat.sub_self, Nat.mul_zero, Nat.add_zero, mkfsDisk_inodes inSect, Nat.zero_add]
  tty := by
    intro i bound
    have records := (inodeSector_records (mkfsSuper size) (n1stSect_small small)).2 i bound
    simp only [nrConsoles] at bound
    rw [recordPos_mkfs]
    refine records.congr fun j below => ?_
    have inSect : inodeSize * (i + 1) + j < sectorSize := by
      simp only [sectorSize, inodeSize]
      omega
    rw [Nat.add_assoc, show i + 2 - 1 = i + 1 by omega, mkfsDisk_inodes inSect]
  dir := fun a bound => mkfsDisk_dir bound

def freeInode : Inode := ⟨0, 0, 0, 0, 0, 0, 0⟩

def freeDesc : FileDesc := ⟨0, 0, 0, none⟩

-- FS after `init_fs()`, nobody having opened a file: all there is in memory is the root directory.
def mounted (disk : Nat → UInt8) (sb : SuperBlock) (root : Inode) : State where
  disk := disk
  fsbuf := fun _ => 0
  inodeTable := Function.update (fun _ => freeInode) 0 root
  fDescTable := fun _ => freeDesc
  superBlock := Function.update (fun _ => { sb with sbDev := noDev }) 0 sb
  rootInode := 0
  filp := fun _ _ => none
  userMem := fun _ _ => 0
  fsMsg := resetMsg
  driverMsgs := []

theorem mounted_super (disk : Nat → UInt8) (size : Nat) (root : Inode) :
    getSuperBlock (mounted disk (mkfsSuper size) root) rootDev = .ok (mkfsSuper size) := by
  have here : ((mounted disk (mkfsSuper size) root).superBlock 0).sbDev = rootDev := rfl
  rw [getSuperBlock, nrSuperBlock, findSuperBlock, if_pos here]
  rfl

structure Started (s s' : State) (size : Nat) : Prop where
  disk : s'.disk = mkfsDisk s.disk size
  super : getSuperBlock s' rootDev = .ok (mkfsSuper size)
  inodes : s'.inodeTable = Function.update (fun _ => freeInode) 0 (rootRecord (mkfsSuper size))
  root : s'.rootInode = 0
  descs : s'.fDescTable = fun _ => freeDesc
  filp : s'.filp = s.filp
  userMem : s'.userMem = s.userMem

theorem OnDisk.eq {f : Nat → UInt8} {pos : Nat} {x y : Inode} (left : OnDisk f pos x)
    (right : OnDisk f pos y) (dev : x.iDev = y.iDev) (cnt : x.iCnt = y.iCnt)
    (num : x.iNum = y.iNum) : x = y := by
  cases x
  cases y
  simp only [Inode.mk.injEq] at dev cnt num ⊢
  exact ⟨left.mode.symm.trans right.mode, left.size.symm.trans right.size,
    left.start.symm.trans right.start, left.sects.symm.trans right.sects, dev, cnt, num⟩

theorem readSuperBlock_spec (s : State) {size : Nat} (small : size < 2 ^ 32)
    (free : ∀ i, (s.superBlock i).sbDev = noDev)
    (bytes : ∀ a, a < sectorSize → s.disk (1 * sectorSize + a) = superSector (mkfsSuper size) a) :
    ∃ s', readSuperBlock s rootDev = .ok s' ∧ s'.disk = s.disk ∧
      getSuperBlock s' rootDev = .ok (mkfsSuper size) ∧ s'.inodeTable = s.inodeTable ∧
      s'.fDescTable = s.fDescTable ∧ s'.filp = s.filp ∧ s'.userMem = s.userMem := by
  have slot : freeSuperSlot s.superBlock nrSuperBlock 0 = some 0 := by
    rw [nrSuperBlock, freeSuperSlot, if_pos (free 0)]
  have parsed : parseSuper (s.transfer .devRead rootDev (1 * sectorSize) sectorSize).fsbuf rootDev =
      mkfsSuper size := by
    apply parseSuper_superSector small
    intro j below
    have inSect : j < sectorSize := by
      simp only [sectorSize]
      omega
    rw [State.transfer_read_fsbuf _ _ _ inSect, bytes j inSect]
  have only := DiskOnly.transfer s .devRead rootDev (1 * sectorSize) sectorSize
  have same : (s.transfer .devRead rootDev (1 * sectorSize) sectorSize).disk = s.disk := rfl
  generalize hr : s.transfer .devRead rootDev (1 * sectorSize) sectorSize = r at parsed only same
  refine ⟨{ r with superBlock := Function.update r.superBlock 0 (mkfsSuper size) }, ?_, same, ?_,
    only.inodeTable, only.fDescTable, only.filp, only.userMem⟩
  · rw [readSuperBlock, bind_of_ok _ (State.rdSect_rootDev ..), hr, only.superBlock, slot]
    simp only [decide_true, assertThat_true, parsed, bind, Except.bind]
    rfl
  · have here : (Function.update r.superBlock 0 (mkfsSuper size) 0).sbDev = rootDev := by
      rw [Function.update_self]
      rfl
    rw [getSuperBlock, nrSuperBlock, findSuperBlock, if_pos here]
    simp only [Function.update_self]

theorem initFs_spec (s : State) {size : Nat} (small : size < 2 ^ 32) :
    ∃ s', initFs s size = .ok s' ∧ Started s s' size := by
  generalize blank : ({ s with
    fDescTable := fun _ => ⟨0, 0, 0, none⟩
    inodeTable := fun _ => ⟨0, 0, 0, 0, 0, 0, 0⟩
    superBlock := fun i => { s.superBlock i with sbDev := noDev } } : State) = s₀
  obtain ⟨s₁, made, only₁, disk₁⟩ := mkfs_spec s₀ size
  obtain ⟨s₂, read, disk₂, super, inodes, descs, filp, userMem⟩ := readSuperBlock_spec s₁ small
    (fun i => by rw [only₁.superBlock, ← blank])
    (fun a bound => by rw [disk₁, mkfsDisk_super bound])
  have table : s₂.inodeTable = fun _ => freeInode := by
    rw [inodes, only₁.inodeTable, ← blank]
    rfl
  have free : findSlot s₂.inodeTable rootDev rootInodeNr nrInode 0 none = .free 0 := by
    rw [table]
    decide
  have loaded := loadInode_onDisk s₂ (s₂.inodeTable 0) (mkfsSuper size) rootInodeNr
  have disk : s₂.disk = mkfsDisk s.disk size := by
    rw [disk₂, disk₁, ← blank]
  have get : getInode s₂ rootDev rootInodeNr = .ok (some 0,
      (s₂.transfer .devRead rootDev (inodeBlk (mkfsSuper size) rootInodeNr * sectorSize)
        sectorSize).setInode 0 (rootRecord (mkfsSuper size))) := by
    have root := (formatted_mkfs s.disk small).root
    rw [← disk] at root
    have same := loaded.eq root rfl rfl rfl
    have positive : ¬ rootInodeNr = 0 := by decide
    rw [getInode, if_neg positive, free]
    simp only
    rw [bind_of_ok _ super]
    have fits : assertThat (rootInodeNr < 2147483648) .outOfBounds = .ok () := rfl
    rw [bind_of_ok _ fits, bind_of_ok _ (State.rdSect_rootDev ..), ← same]
    rfl
  have magic : assertThat ((mkfsSuper size).magic = magicV1) .assertion = .ok () := rfl
  refine ⟨{ (s₂.transfer .devRead rootDev (inodeBlk (mkfsSuper size) rootInodeNr * sectorSize)
      sectorSize).setInode 0 (rootRecord (mkfsSuper size)) with rootInode := 0 }, ?_, ?_⟩
  · simp only [initFs, blank]
    rw [bind_of_ok _ made, bind_of_ok _ read, bind_of_ok _ super, bind_of_ok _ magic,
      bind_of_ok _ get]
    rfl
  · constructor
    case disk => exact disk
    case super => exact super
    case inodes =>
      rw [← table]
      rfl
    case root => rfl
    case descs =>
      show s₂.fDescTable = _
      rw [descs, only₁.fDescTable, ← blank]
      rfl
    case filp =>
      show s₂.filp = _
      rw [filp, only₁.filp, ← blank]
    case userMem =>
      show s₂.userMem = _
      rw [userMem, only₁.userMem, ← blank]

end Konix.Fs
