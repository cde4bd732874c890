import Konix.Fs.FileBytes
import Konix.Lib.Run

set_option autoImplicit false

namespace Konix.Fs

open Splice Words Bits Runs

structure SameDirectory (size : Nat) (s s' : State) : Prop where
  inode : s'.inodeTable s'.rootInode = s.inodeTable s.rootInode
  bytes : ∀ a, dataBase size ≤ a → s'.disk a = s.disk a

theorem SameDirectory.trans {size : Nat} {s s' s'' : State} (first : SameDirectory size s s')
    (second : SameDirectory size s' s'') : SameDirectory size s s'' :=
  ⟨second.inode.trans first.inode,
    fun a above => (second.bytes a above).trans (first.bytes a above)⟩

section Create

variable {s s' s₁ : State} {size nr p : Nat} {files : Finset Nat} {block : Nat → Nat}
  {startSect : Int} {pathname : List UInt8}

theorem mkfs_n1st_small (small : size < 2 ^ 32) : (mkfsSuper size).n1stSect ≤ 2 ^ 20 + 260 := by
  rw [n1stSect_mkfs]
  simp only [bitsPerSect, sectorSize]
  omega

theorem n1stSect_positive (size : Nat) : 0 < (mkfsSuper size).n1stSect := by
  rw [n1stSect_mkfs]
  exact Nat.add_pos_right _ (by decide)

theorem freeSectNr_block (small : size < 2 ^ 32) {k : Nat} (few : k ≤ bitsPerSect) :
    freeSectNr (mkfsSuper size).n1stSect (blockBit k) = blockSect size k ∧
      blockSect size k < 2147483648 := by
  have n1st := mkfs_n1st_small small
  simp only [bitsPerSect, sectorSize] at few
  have bound : blockBit k + (mkfsSuper size).n1stSect ≤ 2147483648 := by
    simp only [blockBit, nrDefaultFileSects]
    omega
  constructor
  · rw [freeSectNr_eq (by simp only [blockBit]; omega) bound]
    simp only [sectOfBit, blockSect, blockBit, nrDefaultFileSects]
    omega
  · simp only [blockSect, blockBit, nrDefaultFileSects] at bound ⊢
    omega

theorem Volume.allocSmapBit (volume : Volume s size files block) (small : size < 2 ^ 32)
    (only : DiskOnly s s₁)
    (agree : ∀ a, smapBase (mkfsSuper size) ≤ a → a < recordBase size → s₁.disk a = s.disk a) :
    ∃ k, 1 ≤ k ∧ k ≤ bitsPerSect ∧ (∀ x ∈ files, block x ≠ k) ∧
      FreeRun s.disk (smapBase (mkfsSuper size)) (smapBitCount (mkfsSuper size)) (blockBit k)
        nrDefaultFileSects ∧
      (smapBitCount (mkfsSuper size) < blockBit k + nrDefaultFileSects ∧
          Fs.allocSmapBit s₁ rootDev nrDefaultFileSects = .error .assertion ∨
        blockBit k + nrDefaultFileSects ≤ smapBitCount (mkfsSuper size) ∧
          ∃ s₂, Fs.allocSmapBit s₁ rootDev nrDefaultFileSects = .ok (blockSect size k, s₂) ∧
            DiskOnly s₁ s₂ ∧ s₂.disk = setBits s₁.disk (smapBase (mkfsSuper size)) (blockBit k)
              (blockBit k + nrDefaultFileSects)) := by
  obtain ⟨k, positive, few, unused, run⟩ := volume.maps.run
  have run₁ : FreeRun s₁.disk (smapBase (mkfsSuper size)) (smapBitCount (mkfsSuper size))
      (blockBit k) nrDefaultFileSects := by
    constructor
    · intro i below inMap
      rw [bitAt_smap_congr agree inMap]
      exact run.set i below inMap
    · intro i lower upper inMap
      rw [bitAt_smap_congr agree inMap]
      exact run.clear i lower upper inMap
  have super₁ := (only.getSuperBlock rootDev).trans volume.super
  obtain ⟨nr, sectSmall⟩ := freeSectNr_block small few
  have answer : freeSectNr (mkfsSuper size).n1stSect (blockBit k) ≠ 0 := by
    rw [nr]
    have behind : 0 < blockSect size k := Nat.add_pos_left (n1stSect_positive size) _
    omega
  refine ⟨k, positive, few, unused, run, ?_⟩
  by_cases fits : blockBit k + nrDefaultFileSects ≤ smapBitCount (mkfsSuper size)
  next =>
    obtain ⟨s₂, done, only₂, disk⟩ := allocSmapBit_fits super₁ run₁ (by decide) answer fits
    rw [nr] at done
    exact .inr ⟨fits, s₂, done, only₂, disk⟩
  next =>
    exact .inl ⟨by omega, allocSmapBit_short super₁ run₁ (by decide) answer (by omega)⟩

theorem Volume.allocImapBit (volume : Volume s size files block) :
    ∃ nr s₁, Fs.allocImapBit s rootDev = .ok (nr, s₁) ∧ DiskOnly s s₁ ∧
      (∀ a, smapBase (mkfsSuper size) ≤ a → s₁.disk a = s.disk a) ∧
      (nr = 0 ∨ nr < bitsPerSect ∧ LowestClear s.disk imapBase nr ∧
        s₁.disk = setBits s.disk imapBase nr (nr + 1)) := by
  obtain ⟨nr, s₁, done, only, ways⟩ := allocImapBit_spec s volume.super Nat.one_pos
  refine ⟨nr, s₁, done, only, ?_⟩
  rcases ways with ⟨zero, same, -⟩ | ⟨bound, lowest, disk⟩
  case inl => exact ⟨fun a _ => congrFun same a, .inl zero⟩
  case inr =>
    refine ⟨fun a above => ?_, .inr ⟨bound, lowest, disk⟩⟩
    rw [disk]
    exact setBits_same _ (imap_outside bound above)

theorem Volume.newInode (volume : Volume s size files block) (only : DiskOnly s s₁) {k : Nat}
    (bound : nr < bitsPerSect) (clear : bitAt s.disk imapBase nr = false) (positive : 1 ≤ k)
    (few : k ≤ bitsPerSect) (unused : ∀ x ∈ files, block x ≠ k)
    (fits : nrDefaultFileSects * (k + 1) < smapBitCount (mkfsSuper size))
    (sectSmall : blockSect size k < 2 ^ 32)
    (disk : s₁.disk = setBits (setBits s.disk imapBase nr (nr + 1)) (smapBase (mkfsSuper size))
      (blockBit k) (blockBit k + nrDefaultFileSects))
    (done : newInode s₁ rootDev nr (blockSect size k : Nat) = .ok (p, s')) :
    Volume s' size (insert nr files) (Function.update block nr k) ∧ SameDirectory size s s' ∧
      p ≠ s'.rootInode ∧ s'.inodeTable p = freshInode nr (blockSect size k) := by
  obtain ⟨notSpecial, fresh⟩ := clear_not_known volume.maps bound clear
  obtain ⟨⟨old, s₂, fetched⟩, sb, super, only', stored⟩ := newInode_ok done
  rw [only.getSuperBlock, volume.super] at super
  cases super
  have table : s'.inodeTable =
      Function.update s.inodeTable p (freshInode nr (blockSect size k)) := by
    rw [only'.inodeTable, State.setInode, only.inodeTable]
  have root : s'.rootInode = s.rootInode := only'.rootInode.trans only.rootInode
  have notCached (q : Nat) (slot : q < nrInode) (used : (s.inodeTable q).iCnt ≠ 0) :
      (s.inodeTable q).iNum ≠ nr := by
    intro same
    have known := (volume.cache.known q slot used).2
    rw [same] at known
    exact known.elim (fun special => by omega) fresh
  have free : (s.inodeTable p).iCnt = 0 := by
    rcases fetched.kind with ⟨⟨used, -, same⟩, -⟩ | ⟨free, -⟩
    · rw [only.inodeTable] at used same
      exact absurd same (notCached p fetched.slot used)
    · rwa [only.inodeTable] at free
  have notRoot : p ≠ s.rootInode := by
    intro same
    rw [same] at free
    exact volume.root.cnt free
  have start : (freshInode nr (blockSect size k)).iStartSect = blockSect size k := by
    simp only [freshInode, u32]
    omega
  have above (a : Nat) (lower : recordBase size ≤ a) : s₁.disk a = s.disk a := by
    rw [disk, setBits_same _ (block_outside fits (.inr lower)),
      setBits_same _ (imap_outside bound (le_trans smapBase_le lower))]
  have place := record_inside size (by omega : 0 < nr) bound
  refine ⟨⟨?_, ?_, ?_, ?_, ?_⟩, ⟨?_, fun a lower => ?_⟩, by rwa [root], ?_⟩
  · rw [only'.getSuperBlock]
    exact (only.getSuperBlock rootDev).trans volume.super
  · rw [stored, disk]
    exact volume.maps.create bound clear positive few unused fits
      (freshInode_stored ..) rfl start rfl
  · have more : files ⊆ insert nr files := Finset.subset_insert ..
    have known : Known (insert nr files) nr := ⟨by omega, .inr (Finset.mem_insert_self ..)⟩
    rw [table, stored]
    exact ((volume.cache.congr volume.maps.range fun a lower _ => above a lower).mono more).store
      Int.one_nonneg rfl known (freshInode_stored ..) fun q slot _ used => notCached q slot used
  · rw [root]
    exact volume.rootSlot
  · rw [root, table, Function.update_of_ne notRoot.symm]
    exact volume.root
  · rw [root, table, Function.update_of_ne notRoot.symm]
  · rw [stored, storeInode_outside _ _ (.inr (by omega)),
      above a (le_trans recordBase_le_dataBase lower)]
  · rw [table, Function.update_self]

/--
A file is created: the lowest free number and the first free block are taken, it is cached in a
slot of its own, and at last it is entered into the directory.
-/
theorem Volume.createFile (volume : Volume s size files block) (small : size < 2 ^ 32)
    (done : Fs.createFile s pathname = .ok (some p, s')) :
    ∃ filename nr k t, stripPath pathname = some filename ∧ LowestClear s.disk imapBase nr ∧
      nr < bitsPerSect ∧ LowestClear s.disk (smapBase (mkfsSuper size)) (blockBit k) ∧
      Volume t size (insert nr files) (Function.update block nr k) ∧ SameDirectory size s t ∧
      Fs.newDirEntry t nr filename = .ok s' ∧ (s'.inodeTable p).iNum = nr := by
  obtain ⟨filename, nr, start, s₁, s₂, s₃, strip, imap, smap, inode, entry⟩ :=
    createFile_ok volume.root.dev done
  obtain ⟨nr', s₁', imap', only₁, agree, ways⟩ := volume.allocImapBit
  rw [imap, Except.ok.injEq, Prod.mk.injEq] at imap'
  obtain ⟨rfl, rfl⟩ := imap'
  obtain ⟨k, positive, few, unused, run, ends⟩ :=
    volume.allocSmapBit small only₁ fun a above _ => agree a above
  rw [smap] at ends
  rcases ends with ⟨-, fails⟩ | ⟨fits, s₂', smap', only₂, disk₂⟩
  case inl => cases fails
  case inr =>
    rw [Except.ok.injEq, Prod.mk.injEq] at smap'
    obtain ⟨rfl, rfl⟩ := smap'
    obtain ⟨⟨old, s₂', fetched⟩, -⟩ := newInode_ok inode
    rcases ways with zero | ⟨bound, lowest, disk₁⟩
    case inl => exact absurd zero fetched.nonzero
    case inr =>
      rw [disk₁] at disk₂
      have inMap : nrDefaultFileSects * (k + 1) < smapBitCount (mkfsSuper size) := by
        simp only [blockBit, nrDefaultFileSects] at fits ⊢
        omega
      have sectSmall := (freeSectNr_block small few).2
      obtain ⟨volume₃, same, notRoot, slot⟩ := volume.newInode (only₁.trans only₂) bound
        lowest.1 positive few unused inMap (by omega) disk₂ inode
      have first_ : LowestClear s.disk (smapBase (mkfsSuper size)) (blockBit k) := by
        have inside : blockBit k < smapBitCount (mkfsSuper size) :=
          lt_of_lt_of_le (Nat.lt_add_of_pos_right (by decide)) fits
        exact ⟨run.clear _ (le_refl _) (Nat.lt_add_of_pos_right (by decide)) inside,
          fun i below => run.set i below (by omega)⟩
      have kept : s'.inodeTable p = s₃.inodeTable p := by
        obtain ⟨sb, dirSize, disk, -, -, only₃, -⟩ := newDirEntry_ok volume₃.root.dev entry
        rw [only₃.inodeTable]
        exact Function.update_of_ne notRoot ..
      have num : (s₃.inodeTable p).iNum = nr := by
        rw [slot]
        rfl
      rw [num] at entry
      exact ⟨filename, nr, k, s₃, strip, lowest, bound, first_, volume₃, same, entry,
        (congrArg Inode.iNum kept).trans num⟩

theorem Volume.create (volume : Volume s size files block) (small : size < 2 ^ 32)
    (done : Fs.createFile s pathname = .ok (some p, s')) :
    ∃ k, LowestClear s.disk imapBase (s'.inodeTable p).iNum ∧
      (s'.inodeTable p).iNum < bitsPerSect ∧
      LowestClear s.disk (smapBase (mkfsSuper size)) (blockBit k) ∧
      Volume s' size (insert (s'.inodeTable p).iNum files)
        (Function.update block (s'.inodeTable p).iNum k) := by
  obtain ⟨filename, nr, k, t, -, lowest, bound, first_, volume', -, entry, rfl⟩ :=
    volume.createFile small done
  exact ⟨k, lowest, bound, first_, volume'.newDirEntry entry⟩

end Create

-- The call does not end in the assertion that a bit behind the first free one is clear.
structure NotBusy {α : Type} (result : Except Stop α) : Prop where
  idle : result ≠ .error .smapBitBusy

section Busy

variable {α β : Type}

theorem NotBusy.ok (a : α) : NotBusy (.ok a) := ⟨fun busy => by cases busy⟩

theorem NotBusy.stop {stop : Stop} (other : stop ≠ .smapBitBusy) :
    NotBusy (.error stop : Except Stop α) := ⟨fun busy => other (Except.error.inj busy)⟩

theorem NotBusy.bind {x : Except Stop α} {f : α → Except Stop β} (before : NotBusy x)
    (after : ∀ a, x = .ok a → NotBusy (f a)) : NotBusy (x >>= f) := by
  cases here : x with
  | error stop => exact .stop fun busy => before.idle (by rw [here, busy])
  | ok a => exact after a here

theorem NotBusy.assertThat (holds : Bool) {stop : Stop} (other : stop ≠ .smapBitBusy) :
    NotBusy (assertThat holds stop) := by
  cases holds with
  | true => exact .ok ()
  | false => exact .stop other

theorem rwSector_notBusy (s : State) (io : MsgType) (dev pos bytes : Nat) :
    NotBusy (s.rwSector io dev pos bytes) :=
  (NotBusy.assertThat _ (by decide)).bind fun _ _ => .ok _

theorem getSuperBlock_notBusy (s : State) (dev : Nat) : NotBusy (getSuperBlock s dev) := by
  unfold getSuperBlock
  cases findSuperBlock s.superBlock dev nrSuperBlock 0 with
  | some sb => exact .ok sb
  | none => exact .stop (by decide)

theorem getInode_notBusy (s : State) (dev num : Nat) : NotBusy (getInode s dev num) := by
  unfold getInode
  by_cases zero : num = 0
  next =>
    rw [if_pos zero]
    exact .ok _
  next =>
    rw [if_neg zero]
    cases findSlot s.inodeTable dev num nrInode 0 none with
    | cached p => exact .ok _
    | full => exact .stop (by decide)
    | free q =>
      exact (getSuperBlock_notBusy s dev).bind fun _ _ =>
        (NotBusy.assertThat _ (by decide)).bind fun _ _ =>
          (rwSector_notBusy ..).bind fun _ _ => .ok _

theorem syncInode_notBusy (s : State) (p : Nat) : NotBusy (syncInode s p) :=
  (getSuperBlock_notBusy s _).bind fun _ _ =>
    (rwSector_notBusy ..).bind fun _ _ => rwSector_notBusy ..

theorem newInode_notBusy (s : State) (dev inodeNr : Nat) (startSect : Int) :
    NotBusy (newInode s dev inodeNr startSect) := by
  refine (getInode_notBusy s dev inodeNr).bind fun got _ => ?_
  obtain ⟨slot, s'⟩ := got
  cases slot with
  | none => exact .stop (by decide)
  | some p => exact (syncInode_notBusy _ p).bind fun _ _ => .ok _

theorem scanBlocks_notBusy (dir : Inode) (hit : Nat → Bool) (fuel i m dirSize : Nat) (s : State) :
    NotBusy (scanBlocks dir hit fuel i m dirSize s) := by
  induction fuel generalizing i m dirSize s with
  | zero => exact .ok _
  | succ fuel ih =>
    refine (rwSector_notBusy ..).bind fun s₁ _ => ?_
    cases scanEntries hit s₁.fsbuf (nrDirEntries dir) entriesPerSect 0 m dirSize with
    | stop found j m' dirSize' => exact .ok _
    | more m' dirSize' => exact ih ..

theorem newDirEntry_notBusy (s : State) (inodeNr : Nat) (filename : List UInt8) :
    NotBusy (newDirEntry s inodeNr filename) := by
  refine (scanBlocks_notBusy ..).bind fun scanned _ => ?_
  obtain ⟨stop, s'⟩ := scanned
  cases stop with
  | none => exact .stop (by decide)
  | some e => exact (rwSector_notBusy ..).bind fun _ _ => syncInode_notBusy ..

theorem Volume.createFile_notBusy {s : State} {size : Nat} {files : Finset Nat}
    {block : Nat → Nat} (volume : Volume s size files block) (small : size < 2 ^ 32)
    (pathname : List UInt8) : NotBusy (Fs.createFile s pathname) := by
  unfold Fs.createFile
  cases strip : stripPath pathname with
  | none => exact .ok _
  | some filename =>
    obtain ⟨nr, s₁, imap, only, agree, -⟩ := volume.allocImapBit
    simp only
    rw [volume.root.dev, bind_of_ok _ imap]
    have smap : NotBusy (Fs.allocSmapBit s₁ rootDev nrDefaultFileSects) := by
      obtain ⟨k, -, -, -, -, ⟨-, fails⟩ | ⟨-, s₂, done, -⟩⟩ :=
        volume.allocSmapBit small only fun a above _ => agree a above
      · rw [fails]
        exact .stop (by decide)
      · rw [done]
        exact .ok _
    exact smap.bind fun _ _ => (newInode_notBusy ..).bind fun _ _ =>
      (newDirEntry_notBusy ..).bind fun _ _ => .ok _

end Busy

section Remove

variable {s s' : State} {size nr p : Nat} {files : Finset Nat} {block : Nat → Nat}

theorem removeFile_set (dev : (s.inodeTable p).iDev = rootDev)
    (done : removeFile s nr p = .ok s') :
    nr < bitsPerSect ∧ bitAt s.disk imapBase nr = true := by
  obtain ⟨sb, -, rest⟩ := bind_ok done
  obtain ⟨s₁, imap, -⟩ := bind_ok rest
  rw [dev] at imap
  obtain ⟨bound, set, -⟩ := freeImapBit_ok imap
  exact ⟨bound, set⟩

-- The maps, the inode cache and the record are told of the removal before the directory is.
theorem Volume.removeFile (volume : Volume s size files block) (slot : p < nrInode)
    (caches : Caches s.inodeTable nr p) (regular : (s.inodeTable p).iMode = iRegular)
    (last : (s.inodeTable p).iCnt ≤ 1) (done : Fs.removeFile s nr p = .ok s') :
    nr ∈ files ∧ ∃ t, Volume t size (files.erase nr) block ∧ SameDirectory size s t ∧
      Fs.freeDirEntry t nr = .ok s' := by
  obtain ⟨used, dev, num⟩ := caches
  have known := volume.cache.known p slot used
  have record := volume.cache.coherent p slot used
  rw [num] at known record
  have member : nr ∈ files := by
    rcases known.2 with special | member
    · exact absurd (record.mode.trans regular) (volume.maps.special nr known.1 special)
    · exact member
  have made := volume.maps.file nr member
  have start : (s.inodeTable p).iStartSect = blockSect size (block nr) :=
    record.start.symm.trans made.start
  have sects : (s.inodeTable p).iNrSects = nrDefaultFileSects := record.sects.symm.trans made.sects
  have one : (s.inodeTable p).iCnt = 1 := by
    have nonneg := volume.cache.nonneg p slot
    omega
  have notRoot : s.rootInode ≠ p := by
    intro same
    have mode := volume.root.mode
    rw [same, regular] at mode
    exact absurd mode (by decide)
  obtain ⟨-, few, fits⟩ := volume.maps.blocks nr member
  have set : ∀ b, blockBit (block nr) ≤ b → b < blockBit (block nr) + nrDefaultFileSects →
      bitAt s.disk (smapBase (mkfsSuper size)) b = true := by
    intro b lower upper
    have hit := blockBit_inside.mp (inside_iff.mpr ⟨lower, upper⟩)
    exact (volume.maps.smap b (lt_of_le_of_lt hit.2 fits)).mpr (.inr ⟨nr, member, hit⟩)
  refine ⟨member, ?_⟩
  have bit : smapBitOf (mkfsSuper size) (s.inodeTable p) = blockBit (block nr) := by
    rw [smapBitOf, start]
    simp only [blockSect, blockBit, nrDefaultFileSects, bitsPerSect, sectorSize] at few ⊢
    unfold i32 u32
    split <;> omega
  obtain ⟨sb, super, rest⟩ := bind_ok done
  rw [dev, volume.super] at super
  cases super
  obtain ⟨s₁, imap, rest⟩ := bind_ok rest
  rw [dev] at imap
  obtain ⟨bound, -, only₁, disk₁⟩ := freeImapBit_ok imap
  obtain ⟨u, -, rest⟩ := bind_ok rest
  have set₁ : ∀ b, blockBit (block nr) ≤ b → b < blockBit (block nr) + nrDefaultFileSects →
      bitAt s₁.disk (smapBase (mkfsSuper size)) b = true := by
    intro b lower upper
    rw [← set b lower upper, disk₁]
    exact bitAt_congr (clearBits_same _ (imap_outside bound (Nat.le_add_right ..)))
  obtain ⟨s₂, smap, only₂, disk₂⟩ := freeSmapBits_spec set₁
  rw [bit, sects, dev, Int.toNat_natCast, bind_of_ok _ smap] at rest
  obtain ⟨s₃, sync, rest⟩ := bind_ok rest
  obtain ⟨s₄, put, entry⟩ := bind_ok rest
  have only := only₁.trans only₂
  have cleared : (s₂.setInode p (clearedInode (s.inodeTable p))).inodeTable p =
      clearedInode (s.inodeTable p) := Function.update_self ..
  obtain ⟨sb, super, only₃, disk₃⟩ := syncInode_ok (by rw [cleared]; exact dev) sync
  have sameSuper : getSuperBlock (s₂.setInode p (clearedInode (s.inodeTable p))) rootDev =
      .ok (mkfsSuper size) := (only.getSuperBlock rootDev).trans volume.super
  rw [sameSuper] at super
  cases super
  rw [cleared] at disk₃
  obtain ⟨-, rfl⟩ := putInode_ok put
  have slot₃ : s₃.inodeTable p = clearedInode (s.inodeTable p) := by
    rw [only₃.inodeTable, cleared]
  have table : Function.update s₃.inodeTable p
      { s₃.inodeTable p with iCnt := (s₃.inodeTable p).iCnt - 1 } =
        Function.update s.inodeTable p { clearedInode (s.inodeTable p) with iCnt := 0 } := by
    rw [slot₃, only₃.inodeTable, State.setInode, only.inodeTable, Function.update_idem]
    simp only [clearedInode, one, Int.sub_self]
  have root : s₃.rootInode = s.rootInode := only₃.rootInode.trans only.rootInode
  have disk : s₃.disk = storeInode s₂.disk (recordPos (mkfsSuper size) nr)
      { clearedInode (s.inodeTable p) with iCnt := 0 } := by
    have number : (clearedInode (s.inodeTable p)).iNum = nr := num
    rw [disk₃, number]
    exact storeInode_congr _ _ rfl rfl rfl rfl
  have above (a : Nat) (lower : recordBase size ≤ a) : s₂.disk a = s.disk a := by
    rw [disk₂, disk₁, clearBits_same _ (block_outside fits (.inr lower)),
      clearBits_same _ (imap_outside bound (le_trans smapBase_le lower))]
  have place := record_inside size known.1 bound
  refine ⟨_, ⟨?_, ?_, ?_, ?_, ?_⟩, ⟨?_, fun a lower => ?_⟩, entry⟩
  · exact (only₃.getSuperBlock rootDev).trans sameSuper
  · show Maps s₃.disk size _ block
    rw [disk, disk₂, disk₁]
    exact volume.maps.remove member
  · show Cached (Function.update s₃.inodeTable p _) s₃.disk size _
    rw [table, disk, ← num]
    exact (volume.cache.congr volume.maps.range fun a lower _ => above a lower).drop slot used rfl
  · show s₃.rootInode < nrInode
    rw [root]
    exact volume.rootSlot
  · show IsRoot (Function.update s₃.inodeTable p _ s₃.rootInode) size
    rw [table, root, Function.update_of_ne notRoot]
    exact volume.root
  · show Function.update s₃.inodeTable p _ s₃.rootInode = _
    rw [table, root, Function.update_of_ne notRoot]
  · show s₃.disk a = s.disk a
    rw [disk, storeInode_outside _ _ (.inr (by omega)),
      above a (le_trans recordBase_le_dataBase lower)]

theorem Volume.unlink (volume : Volume s size files block) (done : doUnlink s = .ok (0, s')) :
    ∃ pathname t, pathnameOf s = .ok pathname ∧ lookupPath s pathname ∈ files ∧
      Volume t size (files.erase (lookupPath s pathname)) block ∧ SameDirectory size s t ∧
      Fs.freeDirEntry t (lookupPath s pathname) = .ok s' := by
  obtain ⟨pathname, path, ways⟩ := doUnlink_ok volume.root.dev done
  rcases ways with ⟨-, zero, -⟩ | ⟨-, p, inode, s₁, fetched, ⟨zero, -⟩ | ⟨-, regular, last, remove⟩⟩
  · cases zero
  · cases zero
  · have slot : s₁.inodeTable p = inode := by
      rw [fetched.only.inodeTable]
      exact Function.update_self ..
    have dev : (s₁.inodeTable p).iDev = rootDev := slot ▸ fetched.dev
    obtain ⟨bound, set⟩ := removeFile_set dev remove
    rw [fetched.disk] at set
    have known : Known files (lookupPath s pathname) :=
      ⟨Nat.pos_of_ne_zero fetched.nonzero, (volume.maps.imap _ bound).mp set⟩
    have volume₁ := volume.fetched known fetched
    have used : (s₁.inodeTable p).iCnt ≠ 0 := by
      rw [slot]
      rcases fetched.kind with ⟨⟨used, -⟩, rfl⟩ | ⟨-, -, one, -⟩
      · have nonneg := volume.cache.nonneg p fetched.slot
        show (s.inodeTable p).iCnt + 1 ≠ 0
        omega
      · rw [one]
        decide
    have notRoot : s.rootInode ≠ p := by
      intro same
      have mode := volume₁.root.mode
      have root : s₁.rootInode = s.rootInode := fetched.only.rootInode
      rw [root, same, slot, regular] at mode
      exact absurd mode (by decide)
    have kept : SameDirectory size s s₁ := by
      refine ⟨?_, fun a _ => congrFun fetched.disk a⟩
      rw [fetched.only.rootInode, fetched.only.inodeTable]
      exact Function.update_of_ne notRoot ..
    obtain ⟨member, t, volume₂, same, entry⟩ := volume₁.removeFile fetched.slot
      ⟨used, dev, by rw [slot, fetched.iNum]⟩ (by rw [slot]; exact regular)
      (by rw [slot]; exact last) remove
    exact ⟨pathname, t, path, member, volume₂, kept.trans same, entry⟩

end Remove

theorem cached_root {table : Nat → Inode} {f : Nat → UInt8} {size : Nat} {root : Inode}
    (files : Finset Nat) (one : table = Function.update (fun _ => freeInode) 0 root)
    (nonneg : 0 ≤ root.iCnt) (dev : root.iDev = rootDev) (num : root.iNum = rootInodeNr)
    (record : OnDisk f (recordPos (mkfsSuper size) rootInodeNr) root) :
    Cached table f size files := by
  have here : table 0 = root := by
    rw [one]
    exact Function.update_self ..
  have only (p : Nat) (used : (table p).iCnt ≠ 0) : p = 0 := by
    by_contra other
    rw [one, Function.update_of_ne other] at used
    exact used rfl
  constructor
  case nonneg =>
    intro p _
    by_cases used : (table p).iCnt = 0
    next => rw [used]
    next => rwa [only p used, here]
  case dev =>
    intro p _ used
    rwa [only p used, here]
  case known =>
    intro p _ used
    rw [only p used, here, num]
    exact ⟨Nat.one_pos, .inl (by decide)⟩
  case distinct =>
    intro p _ used q _ used' _
    rw [only p used, only q used']
  case coherent =>
    intro p _ used
    rwa [only p used, here, num]

theorem mounted_volume {disk : Nat → UInt8} {size : Nat} {root : Inode} {files : Finset Nat}
    {block : Nat → Nat} (maps : Maps disk size files block) (isRoot : IsRoot root size)
    (nonneg : 0 ≤ root.iCnt) (record : OnDisk disk (recordPos (mkfsSuper size) rootInodeNr) root) :
    Volume (mounted disk (mkfsSuper size) root) size files block where
  super := mounted_super disk size root
  maps := maps
  cache := cached_root files rfl nonneg isRoot.dev isRoot.num record
  rootSlot := by
    show 0 < nrInode
    decide
  root := isRoot

theorem Started.volume {s s' : State} {size : Nat} (started : Started s s' size)
    (small : size < 2 ^ 32) (block : Nat → Nat) : Volume s' size ∅ block := by
  have formatted := formatted_mkfs s.disk small
  rw [← started.disk] at formatted
  have root : s'.inodeTable 0 = rootRecord (mkfsSuper size) := by
    rw [started.inodes]
    exact Function.update_self ..
  constructor
  case super => exact started.super
  case maps => exact maps_mkfs formatted block
  case cache => exact cached_root ∅ started.inodes Int.one_nonneg rfl rfl formatted.root
  case rootSlot =>
    rw [started.root]
    decide
  case root =>
    rw [started.root, root]
    exact ⟨Int.one_ne_zero, rfl, rfl, rfl, rfl, rfl⟩

structure Live where
  fs : State
  files : Finset Nat

inductive Change
  | create (pathname : List UInt8)
  | release (p : Nat)
  | remove (request : Request)

def Formats (size : Nat) (live : Live) : Prop :=
  ∃ s, initFs s size = .ok live.fs ∧ live.files = ∅

/--
A file is created, its inode is put back (without which it cannot be removed), or a file is
removed; each call has succeeded.
-/
inductive Changes : Live → Change → Live → Prop
  | create {live : Live} {pathname : List UInt8} {p : Nat} {s' : State}
      (done : createFile live.fs pathname = .ok (some p, s')) :
      Changes live (.create pathname) ⟨s', insert (s'.inodeTable p).iNum live.files⟩
  | release {live : Live} {p : Nat} {s' : State} (slot : p < nrInode)
      (other : p ≠ live.fs.rootInode) (done : putInode live.fs p = .ok s') :
      Changes live (.release p) ⟨s', live.files⟩
  | remove {live : Live} {request : Request} {pathname : List UInt8} {num : Nat} {s₁ s' : State}
      (path : pathnameOf (live.fs.receive request) = .ok pathname)
      (found : searchFile (live.fs.receive request) pathname = .ok (num, s₁))
      (done : doUnlink (live.fs.receive request) = .ok (0, s')) :
      Changes live (.remove request) ⟨s', live.files.erase num⟩

-- Where the record of an inode says that its sectors are, and their bits in the sector map.
def sectorsOf (f : Nat → UInt8) (sb : SuperBlock) (num : Nat) : Finset Nat :=
  Finset.Ico (wordAt f (recordPos sb num + 8))
    (wordAt f (recordPos sb num + 8) + wordAt f (recordPos sb num + 12))

def smapBitsOf (f : Nat → UInt8) (sb : SuperBlock) (num : Nat) : Finset Nat :=
  Finset.Ico (wordAt f (recordPos sb num + 8) - sb.n1stSect + 1)
    (wordAt f (recordPos sb num + 8) - sb.n1stSect + 1 + wordAt f (recordPos sb num + 12))

/--
The two maps show the numbers and the sectors in use, no sector is in two files, and the allocator
never finds a bit set behind the first free one.
-/
structure MapsExact (size : Nat) (live : Live) : Prop where
  imap : ∀ i, i < bitsPerSect → (bitAt live.fs.disk imapBase i = true ↔ i ≤ 4 ∨ i ∈ live.files)
  smap : ∀ b, b < smapBitCount (mkfsSuper size) →
    (bitAt live.fs.disk (smapBase (mkfsSuper size)) b = true ↔
      b = 0 ∨ (1 ≤ b ∧ b ≤ nrDefaultFileSects) ∨
        ∃ x ∈ live.files, b ∈ smapBitsOf live.fs.disk (mkfsSuper size) x)
  apart : ∀ x ∈ insert rootInodeNr live.files, ∀ y ∈ insert rootInodeNr live.files, x ≠ y →
    Disjoint (sectorsOf live.fs.disk (mkfsSuper size) x)
      (sectorsOf live.fs.disk (mkfsSuper size) y)
  idle : ∀ pathname, createFile live.fs pathname ≠ .error .smapBitBusy

section Runs

variable {size : Nat} {live live' : Live} {change : Change}

def Mounted (size : Nat) (live : Live) : Prop :=
  ∃ block, Volume live.fs size live.files block

theorem Formats.mounted (small : size < 2 ^ 32) (formats : Formats size live) :
    Mounted size live := by
  obtain ⟨s, done, none_⟩ := formats
  obtain ⟨s', done', started⟩ := initFs_spec s small
  rw [done, Except.ok.injEq] at done'
  subst done'
  refine ⟨fun _ => 0, ?_⟩
  rw [none_]
  exact started.volume small _

theorem Volume.receive {s : State} {files : Finset Nat} {block : Nat → Nat} (request : Request)
    (volume : Volume s size files block) : Volume (s.receive request) size files block :=
  ⟨volume.super, volume.maps, volume.cache, volume.rootSlot, volume.root⟩

theorem Volume.removed {s s' s₁ : State} {files : Finset Nat} {block : Nat → Nat}
    {pathname : List UInt8} {num : Nat} (volume : Volume s size files block)
    (path : pathnameOf s = .ok pathname) (found : searchFile s pathname = .ok (num, s₁))
    (done : doUnlink s = .ok (0, s')) : Volume s' size (files.erase num) block := by
  obtain ⟨pathname', t, path', -, volume', -, entry⟩ := volume.unlink done
  rw [path, Except.ok.injEq] at path'
  subst path'
  obtain ⟨s₂, search, -, -⟩ := searchFile_eq s pathname volume.root.dev
  rw [found, Except.ok.injEq, Prod.mk.injEq] at search
  rw [← search.1] at volume' entry
  exact volume'.freeDirEntry entry

theorem Mounted.changes (small : size < 2 ^ 32) (mounted : Mounted size live)
    (changes : Changes live change live') : Mounted size live' := by
  obtain ⟨block, volume⟩ := mounted
  cases changes with
  | create done =>
    obtain ⟨k, -, -, -, volume'⟩ := volume.create small done
    exact ⟨_, volume'⟩
  | release slot other done => exact ⟨block, volume.put slot (fun same => absurd same other) done⟩
  | remove path found done => exact ⟨block, (volume.receive _).removed path found done⟩

theorem mounted_run (small : size < 2 ^ 32) (run : Run (Formats size) Changes) :
    ∀ t, t ≤ run.length → Mounted size (run.state t) :=
  run.invariant (fun _ formats => formats.mounted small)
    fun _ _ _ mounted changes => mounted.changes small changes

end Runs

section Exact

variable {s : State} {size x : Nat} {files : Finset Nat} {block : Nat → Nat}

theorem Volume.sectorsOf_file (volume : Volume s size files block) (member : x ∈ files) :
    sectorsOf s.disk (mkfsSuper size) x =
      Finset.Ico (blockSect size (block x)) (blockSect size (block x) + nrDefaultFileSects) := by
  have made := volume.maps.file x member
  rw [sectorsOf, made.start, made.sects]

theorem Volume.sectorsOf_root (volume : Volume s size files block) :
    sectorsOf s.disk (mkfsSuper size) rootInodeNr =
      Finset.Ico (blockSect size 0) (blockSect size 0 + nrDefaultFileSects) := by
  have record := volume.cache.coherent _ volume.rootSlot volume.root.cnt
  rw [volume.root.num] at record
  rw [sectorsOf, record.start, record.sects, volume.root.start, volume.root.sects]
  rfl

theorem Volume.smapBitsOf_file (volume : Volume s size files block) (member : x ∈ files) (b : Nat) :
    b ∈ smapBitsOf s.disk (mkfsSuper size) x ↔
      nrDefaultFileSects * block x < b ∧ b ≤ nrDefaultFileSects * (block x + 1) := by
  have made := volume.maps.file x member
  rw [smapBitsOf, made.start, made.sects, Finset.mem_Ico, blockSect, Nat.add_sub_cancel_left]
  simp only [nrDefaultFileSects]
  omega

theorem Volume.homes (volume : Volume s size files block) (owner : x ∈ insert rootInodeNr files) :
    ∃ k, sectorsOf s.disk (mkfsSuper size) x =
        Finset.Ico (blockSect size k) (blockSect size k + nrDefaultFileSects) ∧
      (k = 0 ∧ x = rootInodeNr ∨ 1 ≤ k ∧ x ∈ files ∧ block x = k) := by
  rcases Finset.mem_insert.mp owner with rfl | member
  · exact ⟨0, volume.sectorsOf_root, .inl ⟨rfl, rfl⟩⟩
  · exact ⟨block x, volume.sectorsOf_file member,
      .inr ⟨(volume.maps.blocks x member).1, member, rfl⟩⟩

theorem Volume.exact_ (volume : Volume s size files block) (small : size < 2 ^ 32) :
    MapsExact size ⟨s, files⟩ := by
  constructor
  case imap =>
    intro i bound
    have special : i < nrConsoles + 2 ↔ i ≤ 4 := Nat.lt_succ_iff
    rw [volume.maps.imap i bound, special]
  case smap =>
    intro b bound
    rw [volume.maps.smap b bound]
    constructor
    · rintro (root | ⟨x, member, place⟩)
      · by_cases zero : b = 0
        next => exact .inl zero
        next => exact .inr (.inl ⟨by omega, root⟩)
      · exact .inr (.inr ⟨x, member, (volume.smapBitsOf_file member b).mpr place⟩)
    · rintro (zero | root | ⟨x, member, place⟩)
      · exact .inl (by omega)
      · exact .inl root.2
      · exact .inr ⟨x, member, (volume.smapBitsOf_file member b).mp place⟩
  case apart =>
    intro x xOwner y yOwner different
    obtain ⟨k, xSects, xHome⟩ := volume.homes xOwner
    obtain ⟨l, ySects, yHome⟩ := volume.homes yOwner
    have other : k ≠ l := by
      intro same
      rcases xHome with ⟨kZero, xRoot⟩ | ⟨kPos, xFile, xBlock⟩ <;>
        rcases yHome with ⟨lZero, yRoot⟩ | ⟨lPos, yFile, yBlock⟩
      · exact different (xRoot.trans yRoot.symm)
      · omega
      · omega
      · exact different (volume.maps.apart x xFile y yFile (by omega))
    rw [xSects, ySects, Finset.disjoint_left]
    intro sect inX inY
    rw [Finset.mem_Ico] at inX inY
    simp only [blockSect, nrDefaultFileSects] at inX inY
    omega
  case idle => exact fun pathname => (volume.createFile_notBusy small pathname).idle

end Exact

theorem maps_exact {size : Nat} (small : size < 2 ^ 32) (run : Run (Formats size) Changes) :
    ∀ t, t ≤ run.length → MapsExact size (run.state t) := by
  intro t within
  obtain ⟨block, volume⟩ := mounted_run small run t within
  exact volume.exact_ small

-- INIT creates the file "a" on a new disk, puts its inode back and unlinks it.
def blankState (size : Nat) : State := mounted (fun _ => 0) (mkfsSuper size) freeInode

def unlinkA : Request where
  msg := { resetMsg with source := initPid, type := .unlink, m3i2 := 1 }
  memory := fun _ _ => 97

def lifeOfA : Except Stop (Option Nat × Nat × Int) := do
  let s ← initFs (blankState 10000) 10000
  let (p, s) ← createFile s [97]
  let root := s.rootInode
  let s ← putInode s 1
  let (result, _) ← doUnlink (s.receive unlinkA)
  return (p, root, result)

theorem maps_exact_life : ∃ run : Run (Formats 10000) Changes, run.length = 3 ∧
    run.act 0 = .create [97] ∧ run.act 2 = .remove unlinkA ∧
    ∀ t, t ≤ run.length → MapsExact 10000 (run.state t) := by
  have answers : lifeOfA = .ok (some 1, 0, 0) := by decide +kernel
  obtain ⟨s₀, made, rest⟩ := bind_ok answers
  obtain ⟨⟨p, s₁⟩, created, rest⟩ := bind_ok rest
  obtain ⟨s₂, put, rest⟩ := bind_ok rest
  obtain ⟨⟨result, s₃⟩, unlinked, rest⟩ := bind_ok rest
  simp only [pure, Except.pure, Except.ok.injEq, Prod.mk.injEq] at rest
  obtain ⟨rfl, root, rfl⟩ := rest
  have formats : Formats 10000 ⟨s₀, ∅⟩ := ⟨_, made, rfl⟩
  have creates := @Changes.create ⟨s₀, ∅⟩ _ _ _ created
  have releases := @Changes.release ⟨s₁, insert (s₁.inodeTable 1).iNum ∅⟩ 1 _
    (by decide) (by rw [root]; decide) put
  obtain ⟨block, volume⟩ := ((formats.mounted (by decide)).changes (by decide) creates).changes
    (by decide) releases
  obtain ⟨t, search, -, -⟩ := searchFile_eq (s₂.receive unlinkA) [97] volume.root.dev
  have removes :=
    @Changes.remove ⟨s₂, insert (s₁.inodeTable 1).iNum ∅⟩ _ _ _ _ _ rfl search unlinked
  refine ⟨⟨3, fun t => match t with
      | 0 => ⟨s₀, ∅⟩
      | 1 => ⟨s₁, insert (s₁.inodeTable 1).iNum ∅⟩
      | 2 => ⟨s₂, insert (s₁.inodeTable 1).iNum ∅⟩
      | _ => ⟨s₃, (insert (s₁.inodeTable 1).iNum ∅ : Finset Nat).erase
          (lookupPath (s₂.receive unlinkA) [97])⟩,
    fun t => match t with
      | 0 => .create [97]
      | 1 => .release 1
      | _ => .remove unlinkA, formats, ?_⟩, rfl, rfl, rfl, maps_exact (by decide) _⟩
  intro t within
  interval_cases t
  · exact creates
  · exact releases
  · exact removes

def InPartition (size : Nat) (live : Live) : Prop :=
  ∀ x ∈ live.files,
    (mkfsSuper size).n1stSect ≤ wordAt live.fs.disk (recordPos (mkfsSuper size) x + 8) ∧
      wordAt live.fs.disk (recordPos (mkfsSuper size) x + 8) +
        wordAt live.fs.disk (recordPos (mkfsSuper size) x + 12) ≤ size

def RunInPartition (size : Nat) (live : Live) : Prop :=
  ∀ b, LowestClear live.fs.disk (smapBase (mkfsSuper size)) b →
    (mkfsSuper size).n1stSect + (b - 1) + nrDefaultFileSects ≤ size

section Partition

variable {s : State} {size : Nat} {files : Finset Nat} {block : Nat → Nat} {live live' : Live}
  {change : Change}

theorem Volume.inPartition_iff (volume : Volume s size files block) :
    InPartition size ⟨s, files⟩ ↔
      ∀ x ∈ files, blockSect size (block x) + nrDefaultFileSects ≤ size := by
  apply forall₂_congr
  intro x member
  have made := volume.maps.file x member
  have behind : (mkfsSuper size).n1stSect ≤ blockSect size (block x) := Nat.le_add_right ..
  rw [made.start, made.sects, and_iff_right behind]

theorem Mounted.inPartition (small : size < 2 ^ 32) (mounted : Mounted size live)
    (changes : Changes live change live') (inside : InPartition size live) :
    InPartition size live' ↔
      ∀ pathname, change = .create pathname → RunInPartition size live := by
  obtain ⟨block, volume⟩ := mounted
  have sects := volume.inPartition_iff.mp inside
  cases changes with
  | @create pathname p s' done =>
    obtain ⟨k, lowest, bound, first_, volume'⟩ := volume.create small done
    generalize (s'.inodeTable p).iNum = nr at lowest bound volume'
    have fresh := (clear_not_known volume.maps bound lowest.1).2
    have run : RunInPartition size live ↔ blockSect size k + nrDefaultFileSects ≤ size := by
      constructor
      · exact fun fits => fits _ first_
      · intro fits b lowest'
        rw [lowest'.unique first_]
        exact fits
    rw [volume'.inPartition_iff]
    constructor
    · intro all pathname' _
      have here := all nr (Finset.mem_insert_self ..)
      rw [Function.update_self] at here
      exact run.mpr here
    · intro fits x member
      rcases Finset.mem_insert.mp member with rfl | old
      · rw [Function.update_self]
        exact run.mp (fits pathname rfl)
      · rw [Function.update_of_ne (by rintro rfl; exact fresh old)]
        exact sects x old
  | release slot other done =>
    have volume' := volume.put slot (fun same => absurd same other) done
    rw [volume'.inPartition_iff]
    exact ⟨fun _ _ other => (by cases other), fun _ => sects⟩
  | remove path found done =>
    rw [((volume.receive _).removed path found done).inPartition_iff]
    exact ⟨fun _ _ other => (by cases other),
      fun _ x member => sects x (Finset.mem_of_mem_erase member)⟩

end Partition

theorem sectors_in_partition_iff {size : Nat} (small : size < 2 ^ 32)
    (run : Run (Formats size) Changes) :
    (∀ t, t ≤ run.length → InPartition size (run.state t)) ↔
      ∀ t, t < run.length → ∀ pathname, run.act t = .create pathname →
        RunInPartition size (run.state t) := by
  have step (t : Nat) (within : t < run.length) :=
    (mounted_run small run t (by omega)).inPartition small (run.steps t within)
  constructor
  · intro inside t within
    exact (step t within (inside t (by omega))).mp (inside (t + 1) within)
  · intro fits
    refine run.timed_invariant (P := fun _ => InPartition size) ?_ ?_
    · rintro live ⟨s, -, none_⟩ x member
      rw [none_] at member
      cases member
    · exact fun t within inside => (step t within inside).mpr (fits t within)

-- A partition of 4200 sectors: the first file does not fit behind the root directory.
def crampedCreate : Except Stop (Option Nat) := do
  let s ← initFs (blankState 4200) 4200
  let (p, _) ← createFile s [97]
  return p

theorem cramped_run : ∃ run : Run (Formats 4200) Changes, run.length = 1 ∧
    run.act 0 = .create [97] := by
  have answers : crampedCreate = .ok (some 1) := by decide +kernel
  obtain ⟨s₀, made, rest⟩ := bind_ok answers
  obtain ⟨⟨p, s₁⟩, created, rest⟩ := bind_ok rest
  simp only [pure, Except.pure, Except.ok.injEq] at rest
  subst rest
  refine ⟨⟨1, fun t => match t with
      | 0 => ⟨s₀, ∅⟩
      | _ => ⟨s₁, insert (s₁.inodeTable 1).iNum ∅⟩,
    fun _ => .create [97], ⟨_, made, rfl⟩, ?_⟩, rfl, rfl⟩
  intro t within
  interval_cases t
  exact Changes.create created

theorem sectors_in_partition_cramped : ∃ run : Run (Formats 4200) Changes, run.length = 1 ∧
    run.act 0 = .create [97] ∧
    ((∀ t, t ≤ run.length → InPartition 4200 (run.state t)) ↔
      ∀ t, t < run.length → ∀ pathname, run.act t = .create pathname →
        RunInPartition 4200 (run.state t)) := by
  obtain ⟨run, length, act⟩ := cramped_run
  exact ⟨run, length, act, sectors_in_partition_iff (by decide) run⟩

theorem sectors_beyond_partition :
    ¬ ∀ size, size < 2 ^ 32 → (mkfsSuper size).n1stSect + nrDefaultFileSects ≤ size →
      ∀ (run : Run (Formats size) Changes) (t : Nat), t ≤ run.length →
        InPartition size (run.state t) := by
  intro claim
  obtain ⟨run, length, act⟩ := cramped_run
  have inside := claim 4200 (by decide) (by decide) run
  have mounted := mounted_run (by decide) run 0 (by omega)
  have changes := run.steps 0 (by omega)
  have fits := (mounted.inPartition (by decide) changes (inside 0 (by omega))).mp
    (inside 1 (by omega)) _ act
  obtain ⟨block, volume⟩ := Formats.mounted (by decide) run.start
  obtain ⟨s, -, none_⟩ := run.start
  rw [none_] at volume
  have bits (b : Nat) (inMap : b < 8192) := volume.maps.smap b inMap
  have first_ : LowestClear (run.state 0).fs.disk (smapBase (mkfsSuper 4200)) 2049 := by
    constructor
    · apply Bool.eq_false_of_not_eq_true
      rw [bits 2049 (by decide)]
      simp only [nrDefaultFileSects, Finset.notMem_empty, false_and, exists_false, or_false]
      decide
    · intro i below
      rw [bits i (by omega)]
      exact .inl (Nat.le_of_lt_succ below)
  exact absurd (fits 2049 first_) (by decide)

end Konix.Fs
