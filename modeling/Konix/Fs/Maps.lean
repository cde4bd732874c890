import Konix.Fs.Mkfs
import Konix.Fs.Unlink

set_option autoImplicit false

namespace Konix.Fs

open Splice Words Bits

-- Where the inode array and the data sectors begin.
def recordBase (size : Nat) : Nat :=
  smapBase (mkfsSuper size) + (mkfsSuper size).nrSmapSects * sectorSize

def dataBase (size : Nat) : Nat := (mkfsSuper size).n1stSect * sectorSize

section Layout

variable (size : Nat)

theorem imapBase_end : imapBase + sectorSize = smapBase (mkfsSuper size) := by
  rw [imapBase_eq, smapBase_mkfs, sectorSize]

theorem recordPos_eq (num : Nat) :
    recordPos (mkfsSuper size) num = recordBase size + inodeSize * (num - 1) :=
  recordPos_mkfs size num

theorem recordBase_end : recordBase size + inodeSize * bitsPerSect = dataBase size := by
  simp only [recordBase, dataBase, n1stSect_mkfs, nrSmapSects_mkfs, smapBase_mkfs, sectorSize,
    inodeSize, bitsPerSect]
  omega

theorem record_inside {num : Nat} (positive : 0 < num) (bound : num < bitsPerSect) :
    recordBase size ≤ recordPos (mkfsSuper size) num ∧
      recordPos (mkfsSuper size) num + 16 ≤ dataBase size := by
  have last := recordBase_end size
  rw [recordPos_eq]
  simp only [inodeSize] at last ⊢
  omega

theorem records_apart {x y : Nat} (px : 0 < x) (py : 0 < y) (different : x ≠ y) :
    recordPos (mkfsSuper size) x + 16 ≤ recordPos (mkfsSuper size) y ∨
      recordPos (mkfsSuper size) y + 16 ≤ recordPos (mkfsSuper size) x := by
  rw [recordPos_eq, recordPos_eq]
  simp only [inodeSize]
  omega

theorem smapEnd_eq : smapBase (mkfsSuper size) + (smapBitCount (mkfsSuper size) + 7) / 8 =
    recordBase size := by
  rw [smapBitCount_eq, recordBase]
  omega

end Layout

structure FileRecord (f : Nat → UInt8) (pos start : Nat) : Prop where
  mode : wordAt f pos = iRegular
  start : wordAt f (pos + 8) = start
  sects : wordAt f (pos + 12) = nrDefaultFileSects

-- The first sector of block `k` of the data area; the root directory is block 0.
def blockSect (size k : Nat) : Nat := (mkfsSuper size).n1stSect + nrDefaultFileSects * k

/--
The maps and the inode array say of each other what they should, when `files` are the numbers of
the regular files and each has its block of `NR_DEFAULT_FILE_SECTS` sectors.
-/
structure Maps (f : Nat → UInt8) (size : Nat) (files : Finset Nat) (block : Nat → Nat) : Prop where
  imap : ∀ i, i < bitsPerSect → (bitAt f imapBase i = true ↔ i < nrConsoles + 2 ∨ i ∈ files)
  smap : ∀ b, b < smapBitCount (mkfsSuper size) →
    (bitAt f (smapBase (mkfsSuper size)) b = true ↔ b ≤ nrDefaultFileSects ∨
      ∃ x ∈ files, nrDefaultFileSects * block x < b ∧ b ≤ nrDefaultFileSects * (block x + 1))
  range : ∀ x ∈ files, nrConsoles + 2 ≤ x ∧ x < bitsPerSect
  blocks : ∀ x ∈ files, 1 ≤ block x ∧ block x ≤ bitsPerSect ∧
    nrDefaultFileSects * (block x + 1) < smapBitCount (mkfsSuper size)
  apart : ∀ x ∈ files, ∀ y ∈ files, block x = block y → x = y
  file : ∀ x ∈ files, FileRecord f (recordPos (mkfsSuper size) x) (blockSect size (block x))
  special : ∀ x, 0 < x → x < nrConsoles + 2 → wordAt f (recordPos (mkfsSuper size) x) ≠ iRegular

theorem maps_mkfs {f : Nat → UInt8} {size : Nat} (formatted : Formatted f (mkfsSuper size))
    (block : Nat → Nat) : Maps f size ∅ block where
  imap := by
    intro i bound
    rw [formatted.imap i bound, decide_eq_true_iff]
    simp
  smap := by
    intro b bound
    rw [formatted.smap b bound, decide_eq_true_iff, Nat.lt_succ_iff]
    simp
  range := by simp
  blocks := by simp
  apart := by simp
  file := by simp
  special := by
    intro x positive bound
    by_cases root : x = 1
    · subst root
      have root : wordAt f (recordPos (mkfsSuper size) 1) = iDirectory := formatted.root.mode
      rw [root]
      decide
    · simp only [nrConsoles] at bound
      have tty := formatted.tty (x - 2) (by simp only [nrConsoles]; omega)
      rw [show x - 2 + 2 = x by omega] at tty
      rw [tty.mode]
      simp only [ttyRecord]
      decide

section Change

variable {f g : Nat → UInt8} {size : Nat} {files : Finset Nat} {block : Nat → Nat}

theorem bitAt_congr {base i : Nat} (same : g (base + i / 8) = f (base + i / 8)) :
    bitAt g base i = bitAt f base i := by
  rw [bitAt, bitAt, same]

theorem FileRecord.congr {pos start : Nat} (record : FileRecord f pos start)
    (agree : ∀ j, j < 16 → g (pos + j) = f (pos + j)) : FileRecord g pos start where
  mode := (wordAt_congr fun j bound => agree j (by omega)).trans record.mode
  start := (wordAt_congr fun j bound => by
    rw [Nat.add_assoc]
    exact agree (8 + j) (by omega)).trans record.start
  sects := (wordAt_congr fun j bound => by
    rw [Nat.add_assoc]
    exact agree (12 + j) (by omega)).trans record.sects

theorem imap_byte {i : Nat} (bound : i < bitsPerSect) :
    imapBase + i / 8 < smapBase (mkfsSuper size) := by
  rw [← imapBase_end]
  simp only [bitsPerSect] at bound
  omega

theorem smap_byte {b : Nat} (bound : b < smapBitCount (mkfsSuper size)) :
    smapBase (mkfsSuper size) + b / 8 < recordBase size := by
  rw [smapBitCount_eq] at bound
  rw [recordBase]
  omega

theorem recordBase_le_dataBase : recordBase size ≤ dataBase size := by
  rw [← recordBase_end size]
  exact Nat.le_add_right ..

theorem smapBase_le : smapBase (mkfsSuper size) ≤ recordBase size := Nat.le_add_right ..

theorem bitAt_imap_congr (size : Nat) {f g : Nat → UInt8}
    (agree : ∀ a, a < smapBase (mkfsSuper size) → g a = f a) {i : Nat}
    (bound : i < bitsPerSect) : bitAt g imapBase i = bitAt f imapBase i :=
  bitAt_congr (agree _ (imap_byte bound))

theorem bitAt_smap_congr
    (agree : ∀ a, smapBase (mkfsSuper size) ≤ a → a < recordBase size → g a = f a) {b : Nat}
    (bound : b < smapBitCount (mkfsSuper size)) :
    bitAt g (smapBase (mkfsSuper size)) b = bitAt f (smapBase (mkfsSuper size)) b :=
  bitAt_congr (agree _ (Nat.le_add_right ..) (smap_byte bound))

theorem Maps.data (maps : Maps f size files block) (agree : ∀ a, a < dataBase size → g a = f a) :
    Maps g size files block where
  imap := by
    intro i bound
    rw [bitAt_imap_congr size (fun a below => agree a
      (lt_of_lt_of_le below (le_trans smapBase_le recordBase_le_dataBase))) bound]
    exact maps.imap i bound
  smap := by
    intro b bound
    rw [bitAt_smap_congr (fun a _ below => agree a (lt_of_lt_of_le below recordBase_le_dataBase))
      bound]
    exact maps.smap b bound
  range := maps.range
  blocks := maps.blocks
  apart := maps.apart
  file := by
    intro x member
    have bounds := maps.range x member
    have inside := record_inside size (by omega : 0 < x) bounds.2
    exact (maps.file x member).congr fun j below => agree _ (by omega)
  special := by
    intro x positive bound
    have inside := record_inside size positive (lt_of_lt_of_le bound (by decide))
    rw [wordAt_congr fun j below => agree _ (by omega)]
    exact maps.special x positive bound

theorem stored_elsewhere {x y j : Nat} {inode : Inode} (px : 0 < x) (bound : x < bitsPerSect)
    (py : 0 < y) (different : x ≠ y) (small : j < 16)
    (records : ∀ a, recordBase size ≤ a → g a = f a) :
    storeInode g (recordPos (mkfsSuper size) y) inode (recordPos (mkfsSuper size) x + j) =
      f (recordPos (mkfsSuper size) x + j) := by
  have there := record_inside size px bound
  have other := records_apart size px py different
  rw [storeInode_outside _ _ (by omega), records _ (by omega)]

theorem Maps.special_elsewhere (maps : Maps f size files block) {x y : Nat} {inode : Inode}
    (px : 0 < x) (small : x < nrConsoles + 2) (py : 0 < y) (different : x ≠ y)
    (records : ∀ a, recordBase size ≤ a → g a = f a) :
    wordAt (storeInode g (recordPos (mkfsSuper size) y) inode) (recordPos (mkfsSuper size) x) ≠
      iRegular := by
  have bound : x < bitsPerSect := lt_of_lt_of_le small (by decide)
  rw [wordAt_congr fun j below =>
    stored_elsewhere px bound py different (lt_trans below (by decide)) records]
  exact maps.special x px small

theorem Maps.store (maps : Maps f size files block) {y : Nat} {inode : Inode} (positive : 0 < y)
    (bound : y < bitsPerSect) (stored : Stored inode)
    (regular : y ∈ files → inode.iMode = iRegular ∧ inode.iStartSect = blockSect size (block y) ∧
      inode.iNrSects = nrDefaultFileSects)
    (other : y < nrConsoles + 2 → inode.iMode ≠ iRegular) :
    Maps (storeInode f (recordPos (mkfsSuper size) y) inode) size files block where
  imap := by
    have inside := record_inside size positive bound
    intro i below
    rw [bitAt_imap_congr size (fun a small => storeInode_outside f inode (.inl
      (lt_of_lt_of_le small (le_trans smapBase_le inside.1)))) below]
    exact maps.imap i below
  smap := by
    have inside := record_inside size positive bound
    intro b below
    rw [bitAt_smap_congr (fun a _ small => storeInode_outside f inode (.inl (by omega))) below]
    exact maps.smap b below
  range := maps.range
  blocks := maps.blocks
  apart := maps.apart
  file := by
    intro x member
    have bounds := maps.range x member
    by_cases same : x = y
    · subst same
      have here := storeInode_onDisk f (recordPos (mkfsSuper size) x) stored
      obtain ⟨mode, start, sects⟩ := regular member
      exact ⟨here.mode.trans mode, here.start.trans start, here.sects.trans sects⟩
    · exact (maps.file x member).congr fun j below =>
        stored_elsewhere (by omega) (maps.range x member).2 positive same below fun _ _ => rfl
  special := by
    intro x px small
    by_cases same : x = y
    · subst same
      rw [(storeInode_onDisk f (recordPos (mkfsSuper size) x) stored).mode]
      exact other small
    · exact maps.special_elsewhere px small positive same fun _ _ => rfl

def blockBit (k : Nat) : Nat := nrDefaultFileSects * k + 1

theorem blockBit_inside {k b : Nat} :
    inside (blockBit k) (blockBit k + nrDefaultFileSects) b = true ↔
      nrDefaultFileSects * k < b ∧ b ≤ nrDefaultFileSects * (k + 1) := by
  rw [inside_iff, blockBit, Nat.mul_succ]
  omega

theorem Maps.card_lt (maps : Maps f size files block) : files.card < bitsPerSect := by
  have inside : files ⊆ Finset.Ico 1 bitsPerSect := by
    intro x member
    have bounds := maps.range x member
    exact Finset.mem_Ico.mpr ⟨by omega, bounds.2⟩
  have le := Finset.card_le_card inside
  rw [Nat.card_Ico] at le
  have positive : 0 < bitsPerSect := by decide
  omega

theorem Maps.freeBlock (maps : Maps f size files block) :
    ∃ k, (1 ≤ k ∧ ∀ x ∈ files, block x ≠ k) ∧ k ≤ bitsPerSect := by
  by_contra none_
  have inside : Finset.Ico 1 (bitsPerSect + 1) ⊆ files.image block := by
    intro k member
    have bounds := Finset.mem_Ico.mp member
    by_contra out
    exact none_ ⟨k, ⟨bounds.1, fun x known same => out (Finset.mem_image.mpr ⟨x, known, same⟩)⟩,
      by omega⟩
  have le := le_trans (Finset.card_le_card inside) Finset.card_image_le
  rw [Nat.card_Ico] at le
  have few := maps.card_lt
  omega

theorem Maps.run (maps : Maps f size files block) :
    ∃ k, 1 ≤ k ∧ k ≤ bitsPerSect ∧ (∀ x ∈ files, block x ≠ k) ∧
      FreeRun f (smapBase (mkfsSuper size)) (smapBitCount (mkfsSuper size)) (blockBit k)
        nrDefaultFileSects := by
  classical
  obtain ⟨m, free, few⟩ := maps.freeBlock
  have exists_ : ∃ k, 1 ≤ k ∧ ∀ x ∈ files, block x ≠ k := ⟨m, free⟩
  obtain ⟨positive, unused⟩ := Nat.find_spec exists_
  have least := Nat.find_min' exists_ free
  have before (j : Nat) (less : j < Nat.find exists_) := Nat.find_min exists_ less
  generalize Nat.find exists_ = k at positive unused least before
  refine ⟨k, positive, by omega, unused, ?_, ?_⟩
  · intro i below inMap
    rw [maps.smap i inMap]
    by_cases root : i ≤ nrDefaultFileSects
    · exact .inl root
    · simp only [blockBit, nrDefaultFileSects] at below root ⊢
      have used := before ((i - 1) / 2048) (by omega)
      have later : 1 ≤ (i - 1) / 2048 := by omega
      simp only [later, true_and, not_forall, not_not, exists_prop] at used
      obtain ⟨x, member, same⟩ := used
      exact .inr ⟨x, member, by rw [same]; omega, by rw [same]; omega⟩
  · intro i lower upper inMap
    by_contra isSet
    simp only [blockBit, nrDefaultFileSects] at lower upper
    rcases (maps.smap i inMap).mp (Bool.eq_true_of_not_eq_false isSet) with
      root | ⟨x, member, low, high⟩
    · simp only [nrDefaultFileSects] at root
      omega
    · simp only [nrDefaultFileSects] at low high
      exact unused x member (by omega)

theorem imap_outside {nr a : Nat} (bound : nr < bitsPerSect)
    (above : smapBase (mkfsSuper size) ≤ a) :
    a < imapBase + nr / 8 ∨ imapBase + (nr + 1 + 7) / 8 ≤ a := by
  rw [← imapBase_end] at above
  simp only [bitsPerSect] at bound
  omega

theorem block_outside {k a : Nat}
    (fits : nrDefaultFileSects * (k + 1) < smapBitCount (mkfsSuper size))
    (out : a < smapBase (mkfsSuper size) ∨ recordBase size ≤ a) :
    a < smapBase (mkfsSuper size) + blockBit k / 8 ∨
      smapBase (mkfsSuper size) + (blockBit k + nrDefaultFileSects + 7) / 8 ≤ a := by
  have last := smapEnd_eq size
  simp only [blockBit, nrDefaultFileSects] at fits ⊢
  omega

theorem clear_not_known (maps : Maps f size files block) {nr : Nat} (bound : nr < bitsPerSect)
    (clear : bitAt f imapBase nr = false) : nrConsoles + 2 ≤ nr ∧ nr ∉ files := by
  have notSet : ¬ (nr < nrConsoles + 2 ∨ nr ∈ files) := by
    rw [← maps.imap nr bound, clear]
    exact Bool.false_ne_true
  constructor
  · by_contra small
    exact notSet (.inl (by omega))
  · exact fun member => notSet (.inr member)

theorem Maps.create (maps : Maps f size files block) {nr k : Nat} {inode : Inode}
    (bound : nr < bitsPerSect) (clear : bitAt f imapBase nr = false) (positive : 1 ≤ k)
    (few : k ≤ bitsPerSect) (unused : ∀ x ∈ files, block x ≠ k)
    (fits : nrDefaultFileSects * (k + 1) < smapBitCount (mkfsSuper size))
    (stored : Stored inode) (mode : inode.iMode = iRegular)
    (start : inode.iStartSect = blockSect size k) (sects : inode.iNrSects = nrDefaultFileSects) :
    Maps (storeInode (setBits (setBits f imapBase nr (nr + 1)) (smapBase (mkfsSuper size))
        (blockBit k) (blockBit k + nrDefaultFileSects)) (recordPos (mkfsSuper size) nr) inode)
      size (insert nr files) (Function.update block nr k) := by
  obtain ⟨notSpecial, fresh⟩ := clear_not_known maps bound clear
  have nonzero : 0 < nr := by omega
  have inside := record_inside size nonzero bound
  have home (x : Nat) (member : x ∈ files) : Function.update block nr k x = block x :=
    Function.update_of_ne (by rintro rfl; exact fresh member) ..
  have records (a : Nat) (lower : recordBase size ≤ a) :
      setBits (setBits f imapBase nr (nr + 1)) (smapBase (mkfsSuper size)) (blockBit k)
        (blockBit k + nrDefaultFileSects) a = f a := by
    rw [setBits_same _ (block_outside fits (.inr lower)),
      setBits_same _ (imap_outside bound (le_trans smapBase_le lower))]
  constructor
  case imap =>
    intro i below
    rw [bitAt_imap_congr size (fun a small => storeInode_outside _ inode (.inl
        (lt_of_lt_of_le small (le_trans smapBase_le inside.1)))) below,
      bitAt_imap_congr size (fun a small => setBits_same _ (block_outside fits (.inl small)))
        below, bitAt_setBits, Bool.or_eq_true, maps.imap i below, inside_iff, Finset.mem_insert,
      or_assoc]
    have point : nr ≤ i ∧ i < nr + 1 ↔ i = nr := by omega
    rw [point, or_comm (a := i ∈ files)]
  case smap =>
    intro b below
    rw [bitAt_smap_congr (fun a _ small => storeInode_outside _ inode (.inl (by omega))) below,
      bitAt_setBits, Bool.or_eq_true, bitAt_smap_congr (fun a lower _ => setBits_same _
        (imap_outside bound lower)) below, maps.smap b below, blockBit_inside]
    constructor
    · rintro ((root | ⟨x, member, low, high⟩) | ⟨low, high⟩)
      · exact .inl root
      · exact .inr ⟨x, Finset.mem_insert_of_mem member,
          by rwa [home x member], by rwa [home x member]⟩
      · exact .inr ⟨nr, Finset.mem_insert_self .., by rwa [Function.update_self],
          by rwa [Function.update_self]⟩
    · rintro (root | ⟨x, member, low, high⟩)
      · exact .inl (.inl root)
      · rcases Finset.mem_insert.mp member with rfl | old
        · rw [Function.update_self] at low high
          exact .inr ⟨low, high⟩
        · rw [home x old] at low high
          exact .inl (.inr ⟨x, old, low, high⟩)
  case range =>
    intro x member
    rcases Finset.mem_insert.mp member with rfl | old
    · exact ⟨notSpecial, bound⟩
    · exact maps.range x old
  case blocks =>
    intro x member
    rcases Finset.mem_insert.mp member with rfl | old
    · rw [Function.update_self]
      exact ⟨positive, few, fits⟩
    · rw [home x old]
      exact maps.blocks x old
  case apart =>
    intro x xMember y yMember same
    rcases Finset.mem_insert.mp xMember with rfl | xOld <;>
      rcases Finset.mem_insert.mp yMember with rfl | yOld
    · rfl
    · rw [Function.update_self, home y yOld] at same
      exact absurd same.symm (unused y yOld)
    · rw [Function.update_self, home x xOld] at same
      exact absurd same (unused x xOld)
    · rw [home x xOld, home y yOld] at same
      exact maps.apart x xOld y yOld same
  case file =>
    intro x member
    rcases Finset.mem_insert.mp member with rfl | old
    · have here := storeInode_onDisk (setBits (setBits f imapBase x (x + 1))
        (smapBase (mkfsSuper size)) (blockBit k) (blockBit k + nrDefaultFileSects))
        (recordPos (mkfsSuper size) x) stored
      rw [Function.update_self]
      exact ⟨here.mode.trans mode, here.start.trans start, here.sects.trans sects⟩
    · have bounds := maps.range x old
      have different : x ≠ nr := by
        rintro rfl
        exact fresh old
      rw [home x old]
      exact (maps.file x old).congr fun j small =>
        stored_elsewhere (by omega) bounds.2 nonzero different small records
  case special =>
    intro x px small
    exact maps.special_elsewhere px small nonzero (by omega) records

theorem Maps.remove (maps : Maps f size files block) {nr : Nat} (member : nr ∈ files)
    {inode : Inode} :
    Maps (storeInode (clearBits (clearBits f imapBase nr (nr + 1)) (smapBase (mkfsSuper size))
        (blockBit (block nr)) (blockBit (block nr) + nrDefaultFileSects))
        (recordPos (mkfsSuper size) nr) inode)
      size (files.erase nr) block := by
  obtain ⟨notSpecial, bound⟩ := maps.range nr member
  obtain ⟨positive, -, fits⟩ := maps.blocks nr member
  have nonzero : 0 < nr := by omega
  have place := record_inside size nonzero bound
  have records (a : Nat) (lower : recordBase size ≤ a) :
      clearBits (clearBits f imapBase nr (nr + 1)) (smapBase (mkfsSuper size)) (blockBit (block nr))
        (blockBit (block nr) + nrDefaultFileSects) a = f a := by
    rw [clearBits_same _ (block_outside fits (.inr lower)),
      clearBits_same _ (imap_outside bound (le_trans smapBase_le lower))]
  constructor
  case imap =>
    intro i below
    rw [bitAt_imap_congr size (fun a small => storeInode_outside _ inode (.inl
        (lt_of_lt_of_le small (le_trans smapBase_le place.1)))) below,
      bitAt_imap_congr size (fun a small => clearBits_same _
        (block_outside fits (.inl small))) below, bitAt_clearBits, Bool.and_eq_true,
      maps.imap i below, Bool.not_eq_true', Finset.mem_erase]
    by_cases here : i = nr
    · subst here
      have hit : inside i (i + 1) i = true := inside_iff.mpr (by omega)
      rw [hit]
      constructor
      · rintro ⟨-, false_⟩
        cases false_
      · rintro (small | ⟨different, -⟩)
        · omega
        · exact absurd rfl different
    · rw [inside_eq_false (by omega)]
      simp [here]
  case smap =>
    intro b below
    rw [bitAt_smap_congr (fun a _ small => storeInode_outside _ inode (.inl (by omega))) below,
      bitAt_clearBits, Bool.and_eq_true, bitAt_smap_congr (fun a lower _ => clearBits_same _
        (imap_outside bound lower)) below, maps.smap b below, Bool.not_eq_true',
      ← Bool.not_eq_true, blockBit_inside]
    constructor
    · rintro ⟨root | ⟨x, known, low, high⟩, out⟩
      · exact .inl root
      · refine .inr ⟨x, Finset.mem_erase.mpr ⟨?_, known⟩, low, high⟩
        rintro rfl
        exact out ⟨low, high⟩
    · rintro (root | ⟨x, known, low, high⟩)
      · refine ⟨.inl root, fun hit => ?_⟩
        simp only [nrDefaultFileSects] at root hit
        omega
      · obtain ⟨different, old⟩ := Finset.mem_erase.mp known
        refine ⟨.inr ⟨x, old, low, high⟩, fun hit => different (maps.apart x old nr member ?_)⟩
        simp only [nrDefaultFileSects] at low high hit
        omega
  case range => exact fun x known => maps.range x (Finset.mem_of_mem_erase known)
  case blocks => exact fun x known => maps.blocks x (Finset.mem_of_mem_erase known)
  case apart =>
    exact fun x xKnown y yKnown => maps.apart x (Finset.mem_of_mem_erase xKnown) y
      (Finset.mem_of_mem_erase yKnown)
  case file =>
    intro x known
    obtain ⟨different, old⟩ := Finset.mem_erase.mp known
    have bounds := maps.range x old
    exact (maps.file x old).congr fun j small =>
      stored_elsewhere (by omega) bounds.2 nonzero different small records
  case special =>
    intro x px small
    exact maps.special_elsewhere px small nonzero (by omega) records

end Change

end Konix.Fs
