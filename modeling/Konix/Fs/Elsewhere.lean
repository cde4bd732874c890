import Konix.Fs.Coherence
import Konix.Fs.Names

set_option autoImplicit false

namespace Konix.Fs

open Splice Words Bits

-- How many bytes the sectors of a file hold, and where those of regular files begin.
def fileSpace : Nat := nrDefaultFileSects * sectorSize

def fileBase (size : Nat) : Nat := dataBase size + fileSpace

/--
The records of all regular files but `x` are the same, and so are the sectors behind those of the
root directory.
-/
structure Elsewhere (size x : Nat) (f g : Nat → UInt8) : Prop where
  records : ∀ y, nrConsoles + 2 ≤ y → y < bitsPerSect → y ≠ x → ∀ j, j < 16 →
    g (recordPos (mkfsSuper size) y + j) = f (recordPos (mkfsSuper size) y + j)
  data : ∀ a, fileBase size ≤ a → g a = f a

theorem sizeWord_congr {f g : Nat → UInt8} {pos : Nat}
    (agree : ∀ j, j < 16 → g (pos + j) = f (pos + j)) :
    wordAt g (pos + 4) = wordAt f (pos + 4) := by
  apply wordAt_congr
  intro j small
  rw [Nat.add_assoc]
  exact agree (4 + j) (by omega)

section Directory

variable {s s' : State} {size nr x y j : Nat} {files : Finset Nat} {block : Nat → Nat}

theorem record_between (size : Nat) (special : nrConsoles + 2 ≤ y) (bound : y < bitsPerSect) :
    recordBase size ≤ recordPos (mkfsSuper size) y ∧
      recordPos (mkfsSuper size) y + 16 ≤ dataBase size :=
  record_inside size (by omega) bound

theorem dirEntry_records {f g h : Nat → UInt8} {dir dir' : Inode}
    (place : dirPos dir = dataBase size)
    (num : dir.iNum = rootInodeNr)
    (stored : g = h ∨ g = storeInode h (recordPos (mkfsSuper size) dir.iNum) dir')
    (agree : ∀ a, a < dirPos dir → h a = f a) (special : nrConsoles + 2 ≤ y)
    (bound : y < bitsPerSect) (small : j < 16) :
    g (recordPos (mkfsSuper size) y + j) = f (recordPos (mkfsSuper size) y + j) := by
  have there := record_between size special bound
  have below := agree (recordPos (mkfsSuper size) y + j) (by omega)
  rcases stored with rfl | rfl
  · exact below
  · have root : dir.iNum = 1 := num
    have apart := records_apart size (by omega : 0 < y) Nat.one_pos (by omega : y ≠ 1)
    rw [root, storeInode_outside _ _ (by omega), below]

theorem Volume.dirPos_eq (volume : Volume s size files block) :
    dirPos (s.inodeTable s.rootInode) = dataBase size := by
  rw [dirPos, volume.root.start]
  rfl

theorem Volume.apart (volume : Volume s size files block) :
    recordPos (mkfsSuper size) (s.inodeTable s.rootInode).iNum + 16 ≤
      dirPos (s.inodeTable s.rootInode) := by
  have known := volume.cache.known _ volume.rootSlot volume.root.cnt
  rw [volume.dirPos_eq]
  exact (record_inside size known.1 (known.bound volume.maps.range)).2

theorem entryWritten_file {f : Nat → UInt8} {filename : List UInt8} {a : Nat} (room : x < rootSlots)
    (above : fileBase size ≤ a) : entryWritten f (dataBase size) x nr filename a = f a := by
  have inside : dataBase size + x * dirEntrySize + 4 +
      min (filename.length + 1) (sectorSize - (x % entriesPerSect * dirEntrySize + 4)) ≤ a := by
    simp only [fileBase, fileSpace, rootSlots, entriesPerSect, nrDefaultFileSects, dirEntrySize,
      sectorSize] at room above ⊢
    omega
  rw [entryWritten, splice_outside _ _ (.inr inside), putWord_outside _ _ (by omega)]

theorem entryCleared_file {f : Nat → UInt8} {a : Nat} (room : x < rootSlots)
    (above : fileBase size ≤ a) : entryCleared f (dataBase size) x a = f a := by
  apply splice_outside
  simp only [fileBase, fileSpace, rootSlots, entriesPerSect, nrDefaultFileSects, dirEntrySize,
    sectorSize] at room above ⊢
  omega

end Directory

section Requests

variable {s s' : State} {size p : Nat} {files : Finset Nat} {block : Nat → Nat}
  {pathname : List UInt8}

-- Only a slot that was not in use has changed, and that of the root directory.
structure OneSlot (s s' : State) (p : Nat) : Prop where
  free : (s.inodeTable p).iCnt = 0
  others : ∀ q, q ≠ p → q ≠ s.rootInode → s'.inodeTable q = s.inodeTable q
  root : s'.rootInode = s.rootInode
  descs : s'.fDescTable = s.fDescTable

theorem Volume.create_records (volume : Volume s size files block) (small : size < 2 ^ 32)
    (done : Fs.createFile s pathname = .ok (some p, s')) : OneSlot s s' p ∧
      wordAt s'.disk (recordPos (mkfsSuper size) (s'.inodeTable p).iNum + 4) = 0 ∧
      ∀ y, nrConsoles + 2 ≤ y → y < bitsPerSect → y ≠ (s'.inodeTable p).iNum → ∀ j, j < 16 →
        s'.disk (recordPos (mkfsSuper size) y + j) =
          s.disk (recordPos (mkfsSuper size) y + j) := by
  obtain ⟨filename, nr, start, s₁, s₂, s₃, strip, imap, smap, inode, entry⟩ :=
    createFile_ok volume.root.dev done
  obtain ⟨nr', s₁', imap', only₁, agree, ways⟩ := volume.allocImapBit
  rw [imap, Except.ok.injEq, Prod.mk.injEq] at imap'
  obtain ⟨rfl, rfl⟩ := imap'
  obtain ⟨k, positive, few, unused, run, ends⟩ :=
    volume.allocSmapBit small only₁ fun a above _ => agree a above
  rw [smap] at ends
  rcases ends with ⟨-, fails⟩ | ⟨fits, s₂', smap', only₂, disk₂⟩
  case inl => cases fails
  case inr =>
    rw [Except.ok.injEq, Prod.mk.injEq] at smap'
    obtain ⟨rfl, rfl⟩ := smap'
    obtain ⟨⟨old, s₂', fetched⟩, sb, super, only₃, stored⟩ := newInode_ok inode
    rw [only₂.getSuperBlock, only₁.getSuperBlock, volume.super] at super
    cases super
    rcases ways with zero | ⟨bound, lowest, disk₁⟩
    case inl => exact absurd zero fetched.nonzero
    case inr =>
      rw [disk₁] at disk₂
      have inMap : nrDefaultFileSects * (k + 1) < smapBitCount (mkfsSuper size) := by
        simp only [blockBit, nrDefaultFileSects] at fits ⊢
        omega
      have sectSmall := (freeSectNr_block small few).2
      obtain ⟨volume₃, -, notRoot, slot⟩ := volume.newInode (only₁.trans only₂) bound
        lowest.1 positive few unused inMap (by omega) disk₂ inode
      obtain ⟨sb, dirSize, disk, super, -, only₄, written, below⟩ :=
        newDirEntry_ok volume₃.root.dev entry
      rw [volume₃.super] at super
      cases super
      have kept : s'.inodeTable p = s₃.inodeTable p := by
        rw [only₄.inodeTable]
        exact Function.update_of_ne notRoot ..
      have num : (s'.inodeTable p).iNum = nr := by
        rw [kept, slot]
        rfl
      have special := (clear_not_known volume.maps bound lowest.1).1
      have above (a : Nat) (lower : recordBase size ≤ a) : s₂.disk a = s.disk a := by
        rw [disk₂, setBits_same _ (block_outside inMap (.inr lower)),
          setBits_same _ (imap_outside bound (le_trans smapBase_le lower))]
      have table : s₃.inodeTable =
          Function.update s.inodeTable p (freshInode nr (blockSect size k)) := by
        rw [only₃.inodeTable, State.setInode, (only₁.trans only₂).inodeTable]
      have root₃ : s₃.rootInode = s.rootInode :=
        only₃.rootInode.trans (only₁.trans only₂).rootInode
      rw [num]
      refine ⟨⟨?_, ?_, ?_, ?_⟩, ?_, ?_⟩
      case refine_1 =>
        rcases fetched.kind with ⟨⟨used, -, same⟩, -⟩ | ⟨free, -⟩
        · rw [(only₁.trans only₂).inodeTable] at used same
          have known := (volume.cache.known p fetched.slot used).2
          rw [same] at known
          have fresh := clear_not_known volume.maps bound lowest.1
          exact (known.elim (fun low => by omega) fresh.2).elim
        · rwa [(only₁.trans only₂).inodeTable] at free
      case refine_2 =>
        intro q other notDir
        rw [← root₃] at notDir
        rw [only₄.inodeTable]
        show Function.update s₃.inodeTable s₃.rootInode _ q = _
        rw [Function.update_of_ne notDir, table, Function.update_of_ne other]
      case refine_3 => exact only₄.rootInode.trans root₃
      case refine_4 =>
        exact only₄.fDescTable.trans (only₃.fDescTable.trans (only₁.trans only₂).fDescTable)
      case refine_5 =>
        rw [sizeWord_congr fun j inside =>
          dirEntry_records volume₃.dirPos_eq volume₃.root.num
            (.inr written) below special bound inside,
          stored,
          (storeInode_onDisk _ _ (freshInode_stored ..)).size]
        rfl
      case refine_6 =>
        intro y lower upper other j inside
        rw [dirEntry_records volume₃.dirPos_eq volume₃.root.num (.inr written) below lower upper
          inside, stored]
        exact stored_elsewhere (by omega) upper (by omega) other inside above

theorem Volume.removeFile_records (volume : Volume s size files block) {nr : Nat}
    (slot : p < nrInode)
    (caches : Caches s.inodeTable nr p) (regular : (s.inodeTable p).iMode = iRegular)
    (done : Fs.removeFile s nr p = .ok s') :
    ∀ y, nrConsoles + 2 ≤ y → y < bitsPerSect → y ≠ nr → ∀ j, j < 16 →
      s'.disk (recordPos (mkfsSuper size) y + j) = s.disk (recordPos (mkfsSuper size) y + j) := by
  obtain ⟨used, dev, num⟩ := caches
  have known := volume.cache.known p slot used
  have record := volume.cache.coherent p slot used
  rw [num] at known record
  have member : nr ∈ files := known.2.resolve_left fun special =>
    volume.maps.special nr known.1 special (record.mode.trans regular)
  have made := volume.maps.file nr member
  have start : (s.inodeTable p).iStartSect = blockSect size (block nr) :=
    record.start.symm.trans made.start
  have sects : (s.inodeTable p).iNrSects = nrDefaultFileSects := record.sects.symm.trans made.sects
  have notRoot : s.rootInode ≠ p := by
    intro same
    have mode := volume.root.mode
    rw [same, regular] at mode
    exact absurd mode (by decide)
  obtain ⟨-, few, fits⟩ := volume.maps.blocks nr member
  have bit : smapBitOf (mkfsSuper size) (s.inodeTable p) = blockBit (block nr) := by
    rw [smapBitOf, start]
    simp only [blockSect, blockBit, nrDefaultFileSects, bitsPerSect, sectorSize] at few ⊢
    unfold i32 u32
    split <;> omega
  obtain ⟨sb, super, rest⟩ := bind_ok done
  rw [dev, volume.super] at super
  cases super
  obtain ⟨s₁, imap, rest⟩ := bind_ok rest
  rw [dev] at imap
  obtain ⟨bound, -, only₁, disk₁⟩ := freeImapBit_ok imap
  obtain ⟨u, -, rest⟩ := bind_ok rest
  have set₁ : ∀ b, blockBit (block nr) ≤ b → b < blockBit (block nr) + nrDefaultFileSects →
      bitAt s₁.disk (smapBase (mkfsSuper size)) b = true := by
    intro b lower upper
    have hit := blockBit_inside.mp (inside_iff.mpr ⟨lower, upper⟩)
    have set := (volume.maps.smap b (lt_of_le_of_lt hit.2 fits)).mpr (.inr ⟨nr, member, hit⟩)
    rw [← set, disk₁]
    exact bitAt_congr (clearBits_same _ (imap_outside bound (Nat.le_add_right ..)))
  obtain ⟨s₂, smap, only₂, disk₂⟩ := freeSmapBits_spec set₁
  rw [bit, sects, dev, Int.toNat_natCast, bind_of_ok _ smap] at rest
  obtain ⟨s₃, sync, rest⟩ := bind_ok rest
  obtain ⟨s₄, put, entry⟩ := bind_ok rest
  have only := only₁.trans only₂
  have cleared : (s₂.setInode p (clearedInode (s.inodeTable p))).inodeTable p =
      clearedInode (s.inodeTable p) := Function.update_self ..
  obtain ⟨sb, super, only₃, disk₃⟩ := syncInode_ok (by rw [cleared]; exact dev) sync
  have sameSuper : getSuperBlock (s₂.setInode p (clearedInode (s.inodeTable p))) rootDev =
      .ok (mkfsSuper size) := (only.getSuperBlock rootDev).trans volume.super
  rw [sameSuper] at super
  cases super
  have number : (clearedInode (s.inodeTable p)).iNum = nr := num
  rw [cleared, number] at disk₃
  obtain ⟨-, rfl⟩ := putInode_ok put
  have above (a : Nat) (lower : recordBase size ≤ a) : s₂.disk a = s.disk a := by
    rw [disk₂, disk₁, clearBits_same _ (block_outside fits (.inr lower)),
      clearBits_same _ (imap_outside bound (le_trans smapBase_le lower))]
  generalize ht : s₃.setInode p { s₃.inodeTable p with iCnt := (s₃.inodeTable p).iCnt - 1 } =
      t at entry
  have root : t.inodeTable t.rootInode = s.inodeTable s.rootInode := by
    rw [← ht]
    show Function.update s₃.inodeTable p _ s₃.rootInode = _
    rw [only₃.rootInode, only₃.inodeTable]
    show Function.update (Function.update s₂.inodeTable p _) p _ s₂.rootInode = _
    rw [Function.update_idem, only.rootInode, Function.update_of_ne notRoot, only.inodeTable]
  have disk : t.disk = s₃.disk := by rw [← ht]; rfl
  have super : getSuperBlock t rootDev = .ok (mkfsSuper size) := by
    rw [← ht]
    exact (only₃.getSuperBlock rootDev).trans sameSuper
  obtain ⟨dirSize, disk', -, written, below⟩ :=
    freeDirEntry_ok (by rw [root]; exact volume.root.dev) super entry
  rw [root] at written below
  intro y lower upper other j inside
  rw [dirEntry_records volume.dirPos_eq volume.root.num
    (written.elim (fun same => .inl same.2) fun stored => .inr stored.2) below lower upper inside,
    disk, disk₃]
  exact stored_elsewhere (by omega) upper known.1 other inside above

theorem Volume.created (volume : Volume s size files block) (small : size < 2 ^ 32)
    (whole : nrDirEntries (s.inodeTable s.rootInode) ≤ rootSlots)
    (room : freeSlotOf (s.inodeTable s.rootInode) s.disk < rootSlots)
    (done : Fs.createFile s pathname = .ok (some p, s')) :
    ∃ nr k, LowestClear s.disk imapBase nr ∧ nr < bitsPerSect ∧ (s'.inodeTable p).iNum = nr ∧
      Volume s' size (insert nr files) (Function.update block nr k) ∧
      Elsewhere size nr s.disk s'.disk ∧ wordAt s'.disk (recordPos (mkfsSuper size) nr + 4) = 0 ∧
      nrDirEntries (s'.inodeTable s'.rootInode) ≤ rootSlots ∧ OneSlot s s' p := by
  obtain ⟨slot, empty, records⟩ := volume.create_records small done
  obtain ⟨filename, nr, k, t, -, lowest, bound, -, volume', same, entry, num⟩ :=
    volume.createFile small done
  rw [num] at empty records
  have fits : (s.inodeTable s.rootInode).iSize + sectorSize < 4294967296 := by
    simp only [nrDirEntries, rootSlots, entriesPerSect, nrDefaultFileSects, dirEntrySize,
      sectorSize] at whole ⊢
    omega
  obtain ⟨s'', entry', grown, agree⟩ := newDirEntry_bytes nr filename volume'.root.dev volume'.super
    volume'.apart (by rw [same.inode]; exact fits)
  rw [entry, Except.ok.injEq] at entry'
  subst entry'
  have slots : freeSlotOf (t.inodeTable t.rootInode) t.disk =
      freeSlotOf (s.inodeTable s.rootInode) s.disk := by
    rw [same.inode, freeSlotOf, freeSlotOf, volume.dirPos_eq]
    exact slotOf_congr same.bytes
  rw [volume'.dirPos_eq, slots] at agree
  refine ⟨nr, k, lowest, bound, num, volume'.newDirEntry entry, ⟨records, fun a above => ?_⟩, empty,
    ?_, slot⟩
  · have behind : dataBase size ≤ a := le_trans (Nat.le_add_right ..) above
    rw [agree a behind, entryWritten_file room above, same.bytes a behind]
  · rw [grown, grownDir, slots, same.inode]
    split
    next => exact whole
    next full =>
      have one : nrDirEntries { s.inodeTable s.rootInode with
          iSize := (s.inodeTable s.rootInode).iSize + dirEntrySize } =
          nrDirEntries (s.inodeTable s.rootInode) + 1 := Nat.add_div_right _ (by decide)
      rw [one]
      omega

theorem Volume.unlink_slot (volume : Volume s size files block) {nr : Nat} {inode : Inode}
    {s₁ : State} (fetched : Fetched s nr p inode s₁) (last : inode.iCnt ≤ 1)
    (remove : Fs.removeFile s₁ nr p = .ok s') : OneSlot s s' p := by
  have nonneg := volume.cache.nonneg p fetched.slot
  have free : (s.inodeTable p).iCnt = 0 := by
    rcases fetched.kind with ⟨⟨used, -⟩, rfl⟩ | ⟨free, -⟩
    · have more : (s.inodeTable p).iCnt + 1 ≤ 1 := last
      omega
    · exact free
  have slot : s₁.inodeTable p = inode := by
    rw [fetched.only.inodeTable]
    exact Function.update_self ..
  have root₁ : s₁.rootInode = s.rootInode := fetched.only.rootInode
  have notRoot : s.rootInode ≠ p := by
    rintro same
    have used := volume.root.cnt
    rw [same] at used
    exact used free
  obtain ⟨t, only, -, entry⟩ := removeFile_ok (by rw [slot]; exact fetched.dev) remove
  have root : t.rootInode = s.rootInode := only.rootInode.trans root₁
  have table (q : Nat) (other : q ≠ p) : t.inodeTable q = s.inodeTable q := by
    rw [only.inodeTable]
    show Function.update s₁.inodeTable p _ q = _
    rw [Function.update_of_ne other, fetched.only.inodeTable]
    exact Function.update_of_ne other ..
  have super : getSuperBlock t rootDev = .ok (mkfsSuper size) :=
    (only.getSuperBlock rootDev).trans ((fetched.only.getSuperBlock rootDev).trans volume.super)
  obtain ⟨dirSize, disk, only', -⟩ :=
    freeDirEntry_ok (by rw [root, table _ notRoot]; exact volume.root.dev) super entry
  refine ⟨free, fun q other notDir => ?_, only'.rootInode.trans root, ?_⟩
  · rw [only'.inodeTable]
    show Function.update t.inodeTable t.rootInode _ q = _
    rw [root, Function.update_of_ne notDir, table q other]
  · exact only'.fDescTable.trans (only.fDescTable.trans fetched.only.fDescTable)

theorem Volume.unlinked (volume : Volume s size files block)
    (whole : nrDirEntries (s.inodeTable s.rootInode) ≤ rootSlots)
    (done : doUnlink s = .ok (0, s')) :
    ∃ path p, pathnameOf s = .ok path ∧ lookupPath s path ∈ files ∧
      Volume s' size (files.erase (lookupPath s path)) block ∧
      Elsewhere size (lookupPath s path) s.disk s'.disk ∧
      nrDirEntries (s'.inodeTable s'.rootInode) ≤ rootSlots ∧ OneSlot s s' p := by
  obtain ⟨path, t, named, member, volume', same, entry⟩ := volume.unlink done
  obtain ⟨path', named', ways⟩ := doUnlink_ok volume.root.dev done
  rw [named, Except.ok.injEq] at named'
  subst named'
  rcases ways with
    ⟨-, zero, -⟩ | ⟨-, p, inode, s₁, fetched, ⟨zero, -⟩ | ⟨-, regular, last, remove⟩⟩
  case inl => cases zero
  case inr.inl => cases zero
  have one := volume.unlink_slot fetched last remove
  have fits : (s.inodeTable s.rootInode).iSize + sectorSize < 4294967296 := by
    simp only [nrDirEntries, rootSlots, entriesPerSect, nrDefaultFileSects, dirEntrySize,
      sectorSize] at whole ⊢
    omega
  obtain ⟨x, -, inside, shrunk, agree⟩ := freeDirEntry_bytes volume'.root.dev volume'.super
    volume'.apart (by rw [same.inode]; exact fits) entry
  rw [same.inode] at inside shrunk
  rw [volume'.dirPos_eq] at agree
  refine ⟨path, p, named, member, volume'.freeDirEntry entry, ⟨?_, fun a above => ?_⟩, ?_, one⟩
  · have slot : s₁.inodeTable p = inode := by
      rw [fetched.only.inodeTable]
      exact Function.update_self ..
    have known : Known files (lookupPath s path) :=
      ⟨Nat.pos_of_ne_zero fetched.nonzero, .inr member⟩
    have used : inode.iCnt ≠ 0 := by
      rcases fetched.kind with ⟨⟨used, -⟩, -⟩ | ⟨-, -, one, -⟩
      · exact absurd one.free used
      · omega
    rw [← fetched.disk]
    exact (volume.fetched known fetched).removeFile_records fetched.slot
      ⟨by rw [slot]; exact used, by rw [slot]; exact fetched.dev, by rw [slot, fetched.iNum]⟩
      (by rw [slot]; exact regular) remove
  · have behind : dataBase size ≤ a := le_trans (Nat.le_add_right ..) above
    rw [agree a behind, entryCleared_file (by omega) above, same.bytes a behind]
  · rw [shrunk, shrunkDir]
    split
    next end_ =>
      have few := liveBelow_le t.disk (dirPos (s.inodeTable s.rootInode)) x
      have slots : nrDirEntries { s.inodeTable s.rootInode with
          iSize := dirEntrySize * liveBelow t.disk (dirPos (s.inodeTable s.rootInode)) x } =
          liveBelow t.disk (dirPos (s.inodeTable s.rootInode)) x :=
        Nat.mul_div_cancel_left _ (by decide)
      rw [slots]
      omega
    next => exact whole

end Requests

end Konix.Fs
