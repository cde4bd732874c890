import Konix.Fs.Create

set_option autoImplicit false

namespace Konix.Fs

open Splice Words Bits

-- The first byte: `for (i = bit_idx % 8; (i < 8) && bits_left; i++, bits_left--)`.
def dropBits : Nat → Nat → UInt8 → Nat → Except Stop (UInt8 × Nat)
  | 0, _, byte, left => .ok (byte, left)
  | fuel + 1, i, byte, left =>
    if left = 0 then .ok (byte, left)
    else do
      assertThat (byte.toNat.testBit i) .assertion
      dropBits fuel (i + 1) (clearBit byte i) (left - 1)

-- Past the last byte of the sector: write it, and go on with the next one.
def nextSect (dev sect i : Nat) (s : State) : Except Stop (Nat × Nat × State) :=
  if i = sectorSize then do
    let s ← s.wrSect dev sect
    let s ← s.rdSect dev (sect + 1)
    return (sect + 1, 0, s)
  else .ok (sect, i, s)

-- The bytes from the second to the second to last.
def dropBytes (dev : Nat) : Nat → Nat → Nat → Nat → State → Except Stop (Nat × Nat × Nat × State)
  | 0, sect, i, left, s => .ok (sect, i, left, s)
  | fuel + 1, sect, i, left, s => do
    let (sect, i, s) ← nextSect dev sect i s
    assertThat (s.fsbuf i = 0xFF) .assertion
    dropBytes dev fuel sect (i + 1) (left - 8) { s with fsbuf := Function.update s.fsbuf i 0 }

-- `~((unsigned char)(~0) << bits_left)`
def lastMask (left : Nat) : UInt8 := ~~~UInt8.ofNat (0xFF <<< left)

def dropLast (dev sect i left : Nat) (s : State) : Except Stop State := do
  let (sect, i, s) ← nextSect dev sect i s
  assertThat (s.fsbuf i &&& lastMask left = lastMask left) .assertion
  let byte := s.fsbuf i &&& UInt8.ofNat (0xFF <<< left)
  let s := { s with fsbuf := Function.update s.fsbuf i byte }
  s.wrSect dev sect

-- Free the bits in the sector map; `byte_cnt` is not positive when all bits lie in the first byte.
def freeSmapBits (s : State) (sb : SuperBlock) (dev bitIdx nrSects : Nat) : Except Stop State := do
  let byteIdx := bitIdx / 8
  let byteCnt := (nrSects - (8 - bitIdx % 8)) / 8
  let sect := 2 + sb.nrImapSects + byteIdx / sectorSize
  let s ← s.rdSect dev sect
  let (byte, left) ← dropBits (8 - bitIdx % 8) (bitIdx % 8) (s.fsbuf (byteIdx % sectorSize)) nrSects
  let s := { s with fsbuf := Function.update s.fsbuf (byteIdx % sectorSize) byte }
  let (sect, i, left, s) ← dropBytes dev byteCnt sect (byteIdx % sectorSize + 1) left s
  dropLast dev sect i left s

-- Free the bit in the inode map, of which only the first sector is known.
def freeImapBit (s : State) (dev inodeNr : Nat) : Except Stop State := do
  let byteIdx := inodeNr / 8
  let bitIdx := inodeNr % 8
  assertThat (byteIdx < sectorSize) .assertion
  let s ← s.rdSect dev imapBlk0Nr
  assertThat ((s.fsbuf byteIdx).toNat.testBit bitIdx) .assertion
  let s := { s with fsbuf := Function.update s.fsbuf byteIdx (clearBit (s.fsbuf byteIdx) bitIdx) }
  s.wrSect dev imapBlk0Nr

-- Set the inode number to zero in the directory entry.
def freeDirEntry (s : State) (inodeNr : Nat) : Except Stop State := do
  let dir := s.inodeTable s.rootInode
  let (stop, s) ← scanBlocks dir (· == inodeNr) (nrDirBlks dir) 0 0 0 s
  match stop with
  | none => .error .assertion
  | some e => do
    assertThat e.hit .assertion
    let s := { s with fsbuf := splice s.fsbuf (e.entry * dirEntrySize) dirEntrySize fun _ => 0 }
    let s ← s.wrSect dir.iDev (dir.iStartSect + e.blk)
    if e.m = nrDirEntries dir then
      syncInode (s.setInode s.rootInode { dir with iSize := e.dirSize % 4294967296 }) s.rootInode
    else .ok s

-- The bit of the file's first sector in the sector map; a negative one is not a place in it.
def smapBitOf (sb : SuperBlock) (inode : Inode) : Int :=
  i32 (u32 ((inode.iStartSect : Int) - sb.n1stSect + 1))

def clearedInode (inode : Inode) : Inode :=
  { inode with iMode := 0, iSize := 0, iStartSect := 0, iNrSects := 0 }

-- The part of `do_unlink()` that removes the file cached in slot `p`.
def removeFile (s : State) (inodeNr p : Nat) : Except Stop State := do
  let pin := s.inodeTable p
  let sb ← getSuperBlock s pin.iDev
  let s ← freeImapBit s pin.iDev inodeNr
  assertThat (0 ≤ smapBitOf sb pin) .outOfBounds
  let s ← freeSmapBits s sb pin.iDev (smapBitOf sb pin).toNat pin.iNrSects
  let s := s.setInode p (clearedInode pin)
  let s ← syncInode s p
  let s ← putInode s p
  freeDirEntry s inodeNr

def doUnlink (s : State) : Except Stop (Int × State) := do
  let pathname ← pathnameOf s
  if pathname = [slash] then return (-1, s)
  else do
    let (inodeNr, s) ← searchFile s pathname
    if inodeNr = invalidInode then return (-1, s)
    else match stripPath pathname with
      | none => return (-1, s)
      | some _ => do
        let (slot, s) ← getInode s (s.inodeTable s.rootInode).iDev inodeNr
        match slot with
        | none => .error .outOfBounds
        | some p =>
          let pin := s.inodeTable p
          if pin.iMode ≠ iRegular then return (-1, s)
          else if pin.iCnt > 1 then return (-1, s)
          else do
            let s ← removeFile s inodeNr p
            return (0, s)

theorem dropBits_spec (fuel i : Nat) (byte : UInt8) (left : Nat) (whole : i + fuel = 8)
    (set : ∀ k, i ≤ k → k < 8 → k < i + left → byte.toNat.testBit k = true) :
    ∃ w, dropBits fuel i byte left = .ok (w, left - fuel) ∧
      ∀ k, k < 8 → w.toNat.testBit k = (byte.toNat.testBit k && !inside i (i + left) k) := by
  induction fuel generalizing i byte left with
  | zero =>
    refine ⟨byte, rfl, fun k bound => ?_⟩
    rw [inside_eq_false (by omega), Bool.not_false, Bool.and_true]
  | succ fuel ih =>
    by_cases none_ : left = 0
    · refine ⟨byte, by rw [dropBits, if_pos none_, none_, Nat.zero_sub], fun k bound => ?_⟩
      rw [inside_eq_false (by omega), Bool.not_false, Bool.and_true]
    · have here := set i (le_refl _) (by omega) (by omega)
      obtain ⟨w, done, bits⟩ := ih (i + 1) (clearBit byte i) (left - 1) (by omega)
        fun k lower bound upper => by
          rw [testBit_clearBit _ (by omega) bound, set k (by omega) bound (by omega),
            decide_eq_false (by omega), Bool.not_false, Bool.and_true]
      refine ⟨w, ?_, fun k bound => ?_⟩
      · rw [dropBits, if_neg none_, here]
        simp only [assertThat_true, bind, Except.bind]
        rw [done, show left - 1 - fuel = left - (fuel + 1) by omega]
      · rw [bits k bound, testBit_clearBit _ (by omega) bound, Bool.and_assoc]
        congr 1
        by_cases same : k = i
        · rw [decide_eq_true same, inside_iff.mpr (by omega : i ≤ k ∧ k < i + left)]
          rfl
        · rw [decide_eq_false same, Bool.not_false, Bool.true_and]
          by_cases hit : i ≤ k ∧ k < i + left
          · rw [inside_iff.mpr hit, inside_iff.mpr (by omega)]
          · rw [inside_eq_false (by omega), inside_eq_false (by omega)]

theorem testBit_shifted {left k : Nat} (bound : k < 8) :
    (UInt8.ofNat (0xFF <<< left)).toNat.testBit k = decide (left ≤ k) := by
  have ones : (0xFF : Nat) = 2 ^ 8 - 1 := rfl
  rw [UInt8.toNat_ofNat', Nat.testBit_mod_two_pow, decide_eq_true bound, Bool.true_and,
    Nat.testBit_shiftLeft, ones, Nat.testBit_two_pow_sub_one]
  have small : k - left < 8 := by omega
  simp only [ge_iff_le, small, decide_true, Bool.and_true]

theorem testBit_lastMask {left k : Nat} (bound : k < 8) :
    (lastMask left).toNat.testBit k = decide (k < left) := by
  have size : UInt8.size - 1 - (UInt8.ofNat (0xFF <<< left)).toNat =
      2 ^ 8 - ((UInt8.ofNat (0xFF <<< left)).toNat + 1) := by
    simp only [UInt8.size]
    omega
  rw [lastMask, UInt8.toNat_not, size, Nat.testBit_two_pow_sub_succ (UInt8.toNat_lt _),
    decide_eq_true bound, Bool.true_and, testBit_shifted bound]
  by_cases low : left ≤ k
  · rw [decide_eq_true low, decide_eq_false (by omega), Bool.not_true]
  · rw [decide_eq_false low, decide_eq_true (by omega), Bool.not_false]

/--
The run of `n` bits from bit `b` on is being cleared: what lies in front of byte `j` of the map is
clear once sector `sect`, whose byte `i` is next, has been written back.
-/
structure Dropped (f : Nat → UInt8) (sb : SuperBlock) (b n j sect i left : Nat) (s : State) :
    Prop where
  place : ∃ q, sect = smapBlk0Nr sb + q ∧ j = q * sectorSize + i ∧
    s.held (smapBase sb + q * sectorSize) = clearBits f (smapBase sb) b (min (8 * j) (b + n))
  inSect : i ≤ sectorSize
  left : left = b + n - 8 * j
  started : b < 8 * j

section Drop

variable {f : Nat → UInt8} {sb : SuperBlock} {b n j sect i left : Nat} {s : State}

theorem Dropped.nextSect (dropped : Dropped f sb b n j sect i left s) :
    ∃ sect' i' s', nextSect rootDev sect i s = .ok (sect', i', s') ∧ DiskOnly s s' ∧
      Dropped f sb b n j sect' i' left s' ∧ i' < sectorSize := by
  have inSect := dropped.inSect
  by_cases last : i = sectorSize
  · obtain ⟨q, rfl, byte, held⟩ := dropped.place
    have place : (smapBlk0Nr sb + q) * sectorSize = smapBase sb + q * sectorSize := Nat.add_mul ..
    have place' : (smapBlk0Nr sb + q + 1) * sectorSize = smapBase sb + (q + 1) * sectorSize := by
      rw [Nat.add_assoc, Nat.add_mul]
      rfl
    simp only [Fs.nextSect, last, if_true, State.wrSect_rootDev, State.rdSect_rootDev, bind,
      Except.bind]
    refine ⟨_, _, _, rfl, (DiskOnly.transfer ..).trans (DiskOnly.transfer ..),
      ⟨⟨q + 1, Nat.add_assoc .., ?_, ?_⟩, Nat.zero_le _, dropped.left, dropped.started⟩, by decide⟩
    · rw [byte, last, Nat.succ_mul, Nat.add_zero]
    · rw [place', State.transfer_read_held, State.transfer_write_disk, place, held]
  · exact ⟨sect, i, s, by rw [Fs.nextSect, if_neg last], DiskOnly.refl s, dropped, by omega⟩

theorem Dropped.update (dropped : Dropped f sb b n j sect i left s) (bound : i < sectorSize)
    (byte : UInt8) (bits : ∀ k, k < 8 → byte.toNat.testBit k =
      ((f (smapBase sb + j)).toNat.testBit k && !inside b (b + n) (8 * j + k))) :
    Dropped f sb b n (j + 1) sect (i + 1) (left - 8)
      { s with fsbuf := Function.update s.fsbuf i byte } where
  place := by
    obtain ⟨q, rfl, rfl, held⟩ := dropped.place
    refine ⟨q, rfl, Nat.add_assoc .., ?_⟩
    rw [State.held_update _ _ _ bound, held, Nat.add_assoc (smapBase sb)]
    apply clearBits_extend
    · intro k out
      by_cases hit : b ≤ k ∧ k < b + n ∧ k < 8 * (q * sectorSize + i)
      · rw [inside_iff.mpr (by omega), inside_iff.mpr (by omega)]
      · rw [inside_eq_false (by omega), inside_eq_false (by omega)]
    · intro k below
      rw [bits k below]
      by_cases hit : b ≤ 8 * (q * sectorSize + i) + k ∧ 8 * (q * sectorSize + i) + k < b + n
      · rw [inside_iff.mpr hit, inside_iff.mpr (by omega)]
      · rw [inside_eq_false (by omega), inside_eq_false (by omega)]
  inSect := bound
  left := by
    rw [dropped.left, Nat.sub_sub, Nat.mul_succ]
  started := by
    have started := dropped.started
    omega

theorem Dropped.byte (dropped : Dropped f sb b n j sect i left s) (bound : i < sectorSize) :
    s.fsbuf i = f (smapBase sb + j) := by
  obtain ⟨q, rfl, rfl, held⟩ := dropped.place
  rw [← State.held_inside s (smapBase sb + q * sectorSize) bound, held, Nat.add_assoc (smapBase sb)]
  exact clearBits_same f (by omega)

theorem dropBytes_spec (set : ∀ k, b ≤ k → k < b + n → bitAt f (smapBase sb) k = true) (fuel : Nat)
    (dropped : Dropped f sb b n j sect i left s) (enough : 8 * fuel ≤ left) :
    ∃ sect' i' s', dropBytes rootDev fuel sect i left s =
        .ok (sect', i', left - 8 * fuel, s') ∧ DiskOnly s s' ∧
      Dropped f sb b n (j + fuel) sect' i' (left - 8 * fuel) s' := by
  induction fuel generalizing j sect i left s with
  | zero => exact ⟨sect, i, s, rfl, DiskOnly.refl s, dropped⟩
  | succ fuel ih =>
    obtain ⟨sect₁, i₁, s₁, moved, only₁, dropped₁, bound⟩ := dropped.nextSect
    have left₁ := dropped₁.left
    have started := dropped₁.started
    have full : f (smapBase sb + j) = 0xFF := by
      rw [full_byte]
      intro k below
      rw [← bitAt_byte _ _ _ below]
      exact set _ (by omega) (by omega)
    have byte := (dropped₁.byte bound).trans full
    have dropped₂ := dropped₁.update bound 0 fun k below => by
      rw [inside_iff.mpr (by omega), Bool.not_true, Bool.and_false]
      exact Nat.zero_testBit k
    obtain ⟨sect', i', s', done, only, rest⟩ := ih dropped₂ (by omega)
    have count : left - 8 - 8 * fuel = left - 8 * (fuel + 1) := by omega
    rw [count] at done rest
    refine ⟨sect', i', s', ?_, only₁.trans ((DiskOnly.buffer s₁ _).trans only), ?_⟩
    · simp only [dropBytes, moved, byte, decide_true, assertThat_true, bind, Except.bind]
      exact done
    · rwa [show j + (fuel + 1) = j + 1 + fuel by omega]

theorem Dropped.last (set : ∀ k, b ≤ k → k < b + n → bitAt f (smapBase sb) k = true)
    (dropped : Dropped f sb b n j sect i left s) (few : left < 8) :
    ∃ s', dropLast rootDev sect i left s = .ok s' ∧ DiskOnly s s' ∧
      s'.disk = clearBits f (smapBase sb) b (b + n) := by
  obtain ⟨sect', i', s₁, moved, only, dropped₁, bound⟩ := dropped.nextSect
  have count := dropped₁.left
  have started := dropped₁.started
  have byte := dropped₁.byte bound
  have mask : s₁.fsbuf i' &&& lastMask left = lastMask left := by
    rw [byte]
    apply byte_ext
    intro k below
    rw [UInt8.toNat_and, Nat.testBit_and, testBit_lastMask below]
    by_cases inRun : k < left
    · rw [← bitAt_byte _ _ _ below, set _ (by omega) (by omega), Bool.true_and]
    · rw [decide_eq_false inRun, Bool.and_false]
  have final :=
    dropped₁.update bound (s₁.fsbuf i' &&& UInt8.ofNat (0xFF <<< left)) fun k below => by
    rw [byte, UInt8.toNat_and, Nat.testBit_and, testBit_shifted below]
    congr 1
    by_cases inRun : k < left
    · rw [inside_iff.mpr (by omega), decide_eq_false (by omega), Bool.not_true]
    · rw [inside_eq_false (by omega), decide_eq_true (by omega), Bool.not_false]
  obtain ⟨q, rfl, -, held⟩ := final.place
  have place : (smapBlk0Nr sb + q) * sectorSize = smapBase sb + q * sectorSize := Nat.add_mul ..
  generalize rest : s₁.fsbuf i' &&& UInt8.ofNat (0xFF <<< left) = w at held
  refine ⟨({ s₁ with fsbuf := Function.update s₁.fsbuf i' w } : State).transfer .devWrite rootDev
    ((smapBlk0Nr sb + q) * sectorSize) sectorSize, ?_, ?_, ?_⟩
  · simp only [dropLast, moved, mask, rest, decide_true, assertThat_true, bind, Except.bind]
    exact State.wrSect_rootDev ..
  · exact only.trans ((DiskOnly.buffer s₁ _).trans (DiskOnly.transfer ..))
  · rw [State.transfer_write_disk, place, held, Nat.min_eq_right (by omega)]

end Drop

section Free

variable {s : State} {sb : SuperBlock}

-- All the bits of the run are set: the assertions hold, and exactly these bits are cleared.
theorem freeSmapBits_spec {b n : Nat}
    (set : ∀ k, b ≤ k → k < b + n → bitAt s.disk (smapBase sb) k = true) :
    ∃ s', freeSmapBits s sb rootDev b n = .ok s' ∧ DiskOnly s s' ∧
      s'.disk = clearBits s.disk (smapBase sb) b (b + n) := by
  have place : (2 + sb.nrImapSects + b / 8 / sectorSize) * sectorSize =
      smapBase sb + b / 8 / sectorSize * sectorSize := Nat.add_mul ..
  have held := State.transfer_read_held s rootDev (smapBase sb + b / 8 / sectorSize * sectorSize)
  have inSect : b / 8 % sectorSize < sectorSize := Nat.mod_lt _ (by decide)
  have whole : b / 8 = b / 8 / sectorSize * sectorSize + b / 8 % sectorSize :=
    (Nat.div_add_mod' ..).symm
  have bytes := State.transfer_read_fsbuf s rootDev
    (smapBase sb + b / 8 / sectorSize * sectorSize) inSect
  rw [Nat.add_assoc, ← whole] at bytes
  have only := DiskOnly.transfer s .devRead rootDev
    (smapBase sb + b / 8 / sectorSize * sectorSize) sectorSize
  generalize read : s.transfer .devRead rootDev
    (smapBase sb + b / 8 / sectorSize * sectorSize) sectorSize = r at held bytes only
  obtain ⟨w, drop, bits⟩ := dropBits_spec (8 - b % 8) (b % 8) (s.disk (smapBase sb + b / 8)) n
    (by omega) fun k lower below upper => by
      rw [← bitAt_byte _ _ _ below]
      exact set _ (by omega) (by omega)
  have dropped : Dropped s.disk sb b n (b / 8 + 1) (2 + sb.nrImapSects + b / 8 / sectorSize)
      (b / 8 % sectorSize + 1) (n - (8 - b % 8))
      { r with fsbuf := Function.update r.fsbuf (b / 8 % sectorSize) w } := by
    refine ⟨⟨b / 8 / sectorSize, rfl, by rw [← Nat.add_assoc, ← whole], ?_⟩, inSect, by omega,
      by omega⟩
    rw [State.held_update _ _ _ inSect, held, Nat.add_assoc, ← whole]
    have extended :=
      clearBits_extend s.disk (smapBase sb) b b (min (8 * (b / 8 + 1)) (b + n)) (b / 8)

      (fun k out => by rw [inside_eq_false (by omega), inside_eq_false (by omega)])
      (fun k below => by
        rw [bits k below]
        by_cases hit : b % 8 ≤ k ∧ k < b % 8 + n
        · rw [inside_iff.mpr hit, inside_iff.mpr (by omega)]
        · rw [inside_eq_false (by omega), inside_eq_false (by omega)])
    rwa [clearBits_empty _ (le_refl _)] at extended
  obtain ⟨sect₂, i₂, s₂, middle, only₂, dropped₂⟩ :=
    dropBytes_spec set ((n - (8 - b % 8)) / 8) dropped (by omega)
  obtain ⟨s₃, final, only₃, disk⟩ := dropped₂.last set (by omega)
  refine ⟨s₃, ?_, only.trans ((DiskOnly.buffer r _).trans (only₂.trans only₃)), disk⟩
  simp only [freeSmapBits, State.rdSect_rootDev, place, read, bytes, drop, middle, bind,
    Except.bind]
  exact final

theorem freeImapBit_ok {s' : State} {inodeNr : Nat}
    (done : freeImapBit s rootDev inodeNr = .ok s') :
    inodeNr < bitsPerSect ∧ bitAt s.disk imapBase inodeNr = true ∧ DiskOnly s s' ∧
      s'.disk = clearBits s.disk imapBase inodeNr (inodeNr + 1) := by
  obtain ⟨u, inMap, rest⟩ := bind_ok done
  have bound : inodeNr / 8 < sectorSize := by simpa using assertThat_ok.mp inMap
  have place : 8 * (inodeNr / 8) + inodeNr % 8 = inodeNr := by omega
  rw [State.rdSect_rootDev] at rest
  obtain ⟨r, read, rest⟩ := bind_ok rest
  cases read
  have held := State.transfer_read_held s rootDev imapBase
  have only := DiskOnly.transfer s .devRead rootDev imapBase sectorSize
  have byte := State.transfer_read_fsbuf s rootDev imapBase bound
  rw [show imapBlk0Nr * sectorSize = imapBase from rfl] at rest
  generalize s.transfer .devRead rootDev imapBase sectorSize = r at held only byte rest
  obtain ⟨u, set, rest⟩ := bind_ok rest
  have set := assertThat_ok.mp set
  rw [State.wrSect_rootDev] at rest
  cases rest
  have small : inodeNr % 8 < 8 := Nat.mod_lt _ (by decide)
  refine ⟨by simp only [bitsPerSect]; omega, ?_,
    only.trans ((DiskOnly.buffer r _).trans (DiskOnly.transfer ..)), ?_⟩
  · rwa [← place, bitAt_byte _ _ _ small, ← byte]
  · rw [State.transfer_write_disk, show imapBlk0Nr * sectorSize = imapBase from rfl,
      State.held_update _ _ _ bound, held, byte]
    have cleared := clearBits_extend s.disk imapBase inodeNr inodeNr (inodeNr + 1) (inodeNr / 8)

      (fun k out => by rw [inside_eq_false (by omega), inside_eq_false (by omega)])
      (fun k below => by
        rw [testBit_clearBit _ small below]
        congr 2
        by_cases same : k = inodeNr % 8
        · rw [inside_iff.mpr (by omega), decide_eq_true same]
        · rw [inside_eq_false (by omega), decide_eq_false same])
    rwa [clearBits_empty _ (le_refl _)] at cleared

theorem freeDirEntry_ok {s' : State} {inodeNr : Nat}
    (dev : (s.inodeTable s.rootInode).iDev = rootDev) (super : getSuperBlock s rootDev = .ok sb)
    (done : freeDirEntry s inodeNr = .ok s') :
    ∃ size disk,
      DiskOnly (s.setInode s.rootInode { s.inodeTable s.rootInode with iSize := size }) s' ∧
      ((size = (s.inodeTable s.rootInode).iSize ∧ s'.disk = disk) ∨
        (size < 2 ^ 32 ∧ s'.disk = storeInode disk (recordPos sb (s.inodeTable s.rootInode).iNum)
          { s.inodeTable s.rootInode with iSize := size })) ∧
      ∀ a, a < dirPos (s.inodeTable s.rootInode) → disk a = s.disk a := by
  generalize hdir : s.inodeTable s.rootInode = dir at dev ⊢
  obtain ⟨⟨stop, s₁⟩, scan, rest⟩ := bind_ok done
  rw [hdir] at scan rest
  cases stop with
  | none => cases rest
  | some e =>
    obtain ⟨u, -, rest⟩ := bind_ok rest
    obtain ⟨s₂, write, rest⟩ := bind_ok rest
    obtain ⟨only₁, same⟩ := scanBlocks_reads scan
    have only := only₁.trans ((DiskOnly.buffer s₁ _).trans (DiskOnly.wrSect write))
    have outside (a : Nat) (below : a < dirPos dir) : s₂.disk a = s.disk a := by
      rw [dev, State.wrSect_rootDev] at write
      cases write
      have out : a < (dir.iStartSect + e.blk) * sectorSize := by
        rw [Nat.add_mul]
        exact lt_of_lt_of_le below (Nat.le_add_right ..)
      rw [State.transfer_write_disk, State.held_outside _ _ (.inl out)]
      exact congrFun same a
    by_cases last : e.m = nrDirEntries dir
    · rw [if_pos last] at rest
      have slot : (s₂.setInode s₂.rootInode { dir with iSize := e.dirSize % 4294967296 }).inodeTable
          s₂.rootInode = { dir with iSize := e.dirSize % 4294967296 } := Function.update_self ..
      obtain ⟨sb', super', only', disk⟩ := syncInode_ok (by rw [slot]; exact dev) rest
      have same' : getSuperBlock (s₂.setInode s₂.rootInode
          { dir with iSize := e.dirSize % 4294967296 }) rootDev = getSuperBlock s rootDev :=
        only.getSuperBlock rootDev
      rw [same', super] at super'
      cases super'
      rw [slot] at disk
      refine ⟨e.dirSize % 4294967296, s₂.disk, ?_, .inr ⟨by omega, disk⟩, outside⟩
      refine DiskOnly.trans ?_ only'
      unfold DiskOnly at only ⊢
      rw [only]
      rfl
    · rw [if_neg last] at rest
      cases rest
      refine ⟨dir.iSize, _, ?_, .inl ⟨rfl, rfl⟩, outside⟩
      have unchanged : s.setInode s.rootInode { dir with iSize := dir.iSize } = s := by
        rw [← hdir]
        simp only [State.setInode, Function.update_eq_self]
      rwa [unchanged]

/--
The ways through `do_unlink()`: refused without a trace, refused with the inode fetched and not put
back, or the file removed.
-/
theorem doUnlink_ok {s' : State} {r : Int} (dev : (s.inodeTable s.rootInode).iDev = rootDev)
    (done : doUnlink s = .ok (r, s')) :
    ∃ pathname, pathnameOf s = .ok pathname ∧
      (((pathname = [slash] ∨ lookupPath s pathname = invalidInode) ∧ r = -1 ∧ DiskOnly s s' ∧
          s'.disk = s.disk) ∨
        pathname ≠ [slash] ∧ ∃ p inode s₁, Fetched s (lookupPath s pathname) p inode s₁ ∧
          ((r = -1 ∧ s' = s₁) ∨ (r = 0 ∧ inode.iMode = iRegular ∧ inode.iCnt ≤ 1 ∧
            removeFile s₁ (lookupPath s pathname) p = .ok s'))) := by
  obtain ⟨pathname, path, rest⟩ := bind_ok done
  refine ⟨pathname, path, ?_⟩
  by_cases root : pathname = [slash]
  · rw [if_pos root] at rest
    cases rest
    exact .inl ⟨.inl root, rfl, DiskOnly.refl _, rfl⟩
  · rw [if_neg root] at rest
    obtain ⟨s₁, search, only, same⟩ := searchFile_eq s pathname dev
    rw [search] at rest
    simp only [bind, Except.bind] at rest
    by_cases missing : lookupPath s pathname = invalidInode
    · rw [if_pos missing] at rest
      cases rest
      exact .inl ⟨.inr missing, rfl, only, same⟩
    · rw [if_neg missing] at rest
      cases strip : stripPath pathname with
      | none =>
        exact absurd (by simp only [lookupPath, strip]; rfl) missing
      | some filename =>
        simp only [strip] at rest
        rw [only.inodeTable, only.rootInode, dev] at rest
        cases get : getInode s₁ rootDev (lookupPath s pathname) with
        | error stop =>
          rw [get] at rest
          cases rest
        | ok got =>
          obtain ⟨slot, s₂⟩ := got
          rw [get] at rest
          cases slot with
          | none => cases rest
          | some p =>
            simp only at rest
            obtain ⟨inode, fetched⟩ := getInode_ok get
            have slot : s₂.inodeTable p = inode := by
              rw [fetched.only.inodeTable]
              exact Function.update_self ..
            rw [slot] at rest
            refine .inr ⟨root, p, inode, s₂, fetched.before only same, ?_⟩
            by_cases other : inode.iMode ≠ iRegular
            · rw [if_pos other] at rest
              cases rest
              exact .inl ⟨rfl, rfl⟩
            · rw [if_neg other] at rest
              by_cases opened : inode.iCnt > 1
              · rw [if_pos opened] at rest
                cases rest
                exact .inl ⟨rfl, rfl⟩
              · rw [if_neg opened] at rest
                cases remove : removeFile s₂ (lookupPath s pathname) p with
                | error stop =>
                  rw [remove] at rest
                  cases rest
                | ok s₃ =>
                  rw [remove] at rest
                  cases rest
                  exact .inr ⟨rfl, not_not.mp other, by omega, rfl⟩

end Free

end Konix.Fs
