import Konix.Fs.Create
import Konix.Fs.Lookup

set_option autoImplicit false

namespace Konix.Fs

open Splice Words

-- The slot a new entry goes to: the first free one, or the one behind the last entry.
def freeSlotOf (dir : Inode) (f : Nat → UInt8) : Nat :=
  slotOf (· == 0) f (dirPos dir) (nrDirEntries dir)

def grownDir (dir : Inode) (f : Nat → UInt8) : Inode :=
  if freeSlotOf dir f < nrDirEntries dir then dir
  else { dir with iSize := dir.iSize + dirEntrySize }

-- What of the entry gets to the disk: the sector it lies in, and nothing behind it.
def entryWritten (f : Nat → UInt8) (pos x inodeNr : Nat) (filename : List UInt8) : Nat → UInt8 :=
  splice (putWord f (pos + x * dirEntrySize) inodeNr) (pos + x * dirEntrySize + 4)
    (min (filename.length + 1) (sectorSize - (x % entriesPerSect * dirEntrySize + 4)))
    fun c => filename.getD c 0

theorem State.held_putEntry (s : State) (pos x inodeNr : Nat) (filename : List UInt8) :
    ({ s with fsbuf := putEntry s.fsbuf (x % entriesPerSect * dirEntrySize) inodeNr filename } :
        State).held (pos + x / entriesPerSect * sectorSize) =
      entryWritten (s.held (pos + x / entriesPerSect * sectorSize)) pos x inodeNr filename := by
  have fits : x % entriesPerSect * dirEntrySize + 4 ≤ sectorSize := by
    simp only [entriesPerSect, dirEntrySize, sectorSize]
    omega
  have place : pos + x / entriesPerSect * sectorSize + x % entriesPerSect * dirEntrySize =
      pos + x * dirEntrySize := by
    simp only [entriesPerSect, dirEntrySize, sectorSize]
    omega
  rw [State.held, putEntry, splice_inner_cut, putWord, splice_inner _ _ _ fits, ← Nat.add_assoc,
    place]
  rfl

section Effect

variable {s : State} {sb : SuperBlock} {inodeNr : Nat} {filename : List UInt8}

theorem scanEnd_hit {hit : Nat → Bool} {f : Nat → UInt8} {pos n : Nat} :
    (scanEnd hit f pos n).hit = true ↔ slotOf hit f pos n < n := by
  simp only [scanEnd, slotOf]
  cases found : firstMatch (fun m => hit (entryNr f pos m)) n with
  | none => simp
  | some x => simp [(firstMatch_eq_some.mp found).1]

theorem newDirEntry_eq (dev : (s.inodeTable s.rootInode).iDev = rootDev)
    (super : getSuperBlock s rootDev = .ok sb)
    (fits : (s.inodeTable s.rootInode).iSize + sectorSize < 4294967296) :
    ∃ s', newDirEntry s inodeNr filename = .ok s' ∧
      DiskOnly (s.setInode s.rootInode (grownDir (s.inodeTable s.rootInode) s.disk)) s' ∧
      s'.disk = storeInode (entryWritten s.disk (dirPos (s.inodeTable s.rootInode))
          (freeSlotOf (s.inodeTable s.rootInode) s.disk) inodeNr filename)
        (recordPos sb (s.inodeTable s.rootInode).iNum)
        (grownDir (s.inodeTable s.rootInode) s.disk) := by
  generalize hdir : s.inodeTable s.rootInode = dir at dev fits ⊢
  obtain ⟨s₁, scan, only, -, held⟩ := scanBlocks_all dev s fits
  have root₁ := only.rootInode
  have grown : (if (scanEnd (· == 0) s.disk (dirPos dir) (nrDirEntries dir)).hit then dir
      else { dir with iSize := (dir.iSize + dirEntrySize) % 4294967296 }) =
        grownDir dir s.disk := by
    have small : (dir.iSize + dirEntrySize) % 4294967296 = dir.iSize + dirEntrySize := by
      simp only [sectorSize, dirEntrySize] at fits ⊢
      omega
    rw [small, grownDir, freeSlotOf]
    simp only [scanEnd_hit]
  have place : (dir.iStartSect + (scanEnd (· == 0) s.disk (dirPos dir) (nrDirEntries dir)).blk) *
      sectorSize = dirPos dir + freeSlotOf dir s.disk / entriesPerSect * sectorSize := by
    rw [Nat.add_mul]
    rfl
  have entry : (scanEnd (· == 0) s.disk (dirPos dir) (nrDirEntries dir)).entry =
      freeSlotOf dir s.disk % entriesPerSect := rfl
  have grownDev : (grownDir dir s.disk).iDev = rootDev := by
    rw [grownDir]
    split
    · exact dev
    · exact dev
  generalize hs₂ : ({ s₁.setInode s.rootInode (grownDir dir s.disk) with
    fsbuf := putEntry s₁.fsbuf (freeSlotOf dir s.disk % entriesPerSect * dirEntrySize) inodeNr
      filename } : State) = s₂
  generalize hs₃ : s₂.transfer .devWrite rootDev
    (dirPos dir + freeSlotOf dir s.disk / entriesPerSect * sectorSize) sectorSize = s₃
  have merge : DiskOnly (s.setInode s.rootInode (grownDir dir s.disk)) s₃ := by
    have shape := only
    unfold DiskOnly at shape
    rw [← hs₃, ← hs₂, shape]
    rfl
  have root₃ : s₃.rootInode = s.rootInode := merge.rootInode
  have slot : s₃.inodeTable s₃.rootInode = grownDir dir s.disk := by
    rw [root₃, merge.inodeTable]
    exact Function.update_self ..
  have sync := syncInode_eq s₃ s₃.rootInode sb (by rw [slot]; exact grownDev)
    ((merge.getSuperBlock rootDev).trans super)
  rw [slot] at sync
  refine ⟨s₃.synced sb (grownDir dir s.disk), ?_, merge.trans rfl, ?_⟩
  · rw [newDirEntry, hdir, bind_of_ok _ scan]
    simp only
    rw [grown, root₁, entry]
    simp only [State.setInode] at hs₂ ⊢
    rw [hs₂, dev, bind_of_ok _ (State.wrSect_rootDev ..), place, hs₃]
    exact sync
  · have disk : s₃.disk = entryWritten s.disk (dirPos dir) (freeSlotOf dir s.disk) inodeNr
        filename := by
      have written := s₁.held_putEntry (dirPos dir) (freeSlotOf dir s.disk) inodeNr
        filename
      rw [freeSlotOf, held, ← freeSlotOf] at written
      rw [← hs₃, State.transfer_write_disk, ← hs₂]
      exact written
    have num : (grownDir dir s.disk).iNum = dir.iNum := by
      rw [grownDir]
      split <;> rfl
    simp only [State.synced, disk, num]

end Effect

theorem name_padding {filename : List UInt8} {c : Nat} (behind : filename.length ≤ c) :
    filename.getD c 0 = 0 := by
  rw [List.getD_eq_getElem?_getD, List.getElem?_eq_none behind, Option.getD_none]

section Entry

variable {f : Nat → UInt8} {pos x inodeNr : Nat} {filename : List UInt8}

theorem entryWritten_other (short : filename.length ≤ maxFilenameLen) {y c : Nat} (other : y ≠ x)
    (inside : c < dirEntrySize)
    (kept : y = x + 1 → c = 0 → filename.length = maxFilenameLen →
      x % entriesPerSect = entriesPerSect - 1) :
    entryWritten f pos x inodeNr filename (pos + y * dirEntrySize + c) =
      f (pos + y * dirEntrySize + c) := by
  simp only [entryWritten, maxFilenameLen, dirEntrySize, entriesPerSect, sectorSize]
    at short inside kept ⊢
  have out : pos + y * 16 + c < pos + x * 16 ∨ pos + x * 16 + 4 +
      min (filename.length + 1) (512 - (x % (512 / 16) * 16 + 4)) ≤ pos + y * 16 + c := by
    by_cases below : y < x
    next => omega
    next =>
      by_cases behind : y = x + 1 ∧ c = 0 ∧ filename.length = 12
      next =>
        have last := kept behind.1 behind.2.1 behind.2.2
        omega
      next => omega
  rw [splice_outside _ _ (by omega), putWord_outside _ _ (by omega)]

theorem entryWritten_next (full : filename.length = maxFilenameLen)
    (inSect : x % entriesPerSect ≠ entriesPerSect - 1) :
    entryWritten f pos x inodeNr filename (pos + (x + 1) * dirEntrySize) = 0 := by
  simp only [entryWritten, maxFilenameLen, dirEntrySize, entriesPerSect, sectorSize]
    at full inSect ⊢
  rw [splice_inside _ _ (by omega) (by omega)]
  exact name_padding (by omega)

theorem entryWritten_nr (small : inodeNr < 4294967296) :
    entryNr (entryWritten f pos x inodeNr filename) pos x = inodeNr := by
  have word : entryNr (entryWritten f pos x inodeNr filename) pos x =
      wordAt (putWord f (pos + x * dirEntrySize) inodeNr) (pos + x * dirEntrySize) := by
    apply wordAt_congr
    intro j bound
    rw [entryWritten, splice_outside _ _ (by omega)]
  rw [word, wordAt_putWord]
  omega

theorem entryWritten_named :
    entryNamed (entryWritten f pos x inodeNr filename) pos filename x = true ↔
      ∀ c, filename.length < c → c < maxFilenameLen →
        f (pos + x * dirEntrySize + 4 + c) = 0 := by
  simp only [entryNamed, nameIs_iff]
  have written (c : Nat) (bound : c < maxFilenameLen) (inName : c ≤ filename.length) :
      entryWritten f pos x inodeNr filename (pos + x * dirEntrySize + 4 + c) =
        filename.getD c 0 := by
    simp only [entryWritten, maxFilenameLen, dirEntrySize, entriesPerSect, sectorSize]
      at bound ⊢
    rw [splice_inside _ _ (by omega) (by omega), Nat.add_sub_cancel_left]
  have kept (c : Nat) (bound : c < maxFilenameLen) (behind : filename.length < c) :
      entryWritten f pos x inodeNr filename (pos + x * dirEntrySize + 4 + c) =
        f (pos + x * dirEntrySize + 4 + c) := by
    rw [entryWritten, splice_outside _ _ (by omega), putWord_outside _ _ (by omega)]
  constructor
  · intro named c behind bound
    rw [← kept c bound behind, ← named c bound]
    exact name_padding (by omega)
  · intro zeros c bound
    by_cases inName : c ≤ filename.length
    next => exact (written c bound inName).symm
    next =>
      rw [kept c bound (by omega), zeros c (by omega) bound]
      exact name_padding (by omega)

end Entry

theorem stripName_length {room : Nat} {pathname filename : List UInt8}
    (strip : stripName room pathname = some filename) : filename.length ≤ room := by
  induction room generalizing pathname filename with
  | zero =>
    cases strip
    exact le_refl 0
  | succ room ih =>
    cases pathname with
    | nil =>
      cases strip
      exact Nat.zero_le _
    | cons c rest =>
      rw [stripName] at strip
      split at strip
      · cases strip
      · obtain ⟨name, found, rfl⟩ := Option.map_eq_some_iff.mp strip
        exact Nat.succ_le_succ (ih found)

theorem stripPath_length {pathname filename : List UInt8}
    (strip : stripPath pathname = some filename) : filename.length ≤ maxFilenameLen :=
  stripName_length strip

-- The field of the slot holds zeros where the name is to be padded.
def Padded (f : Nat → UInt8) (pos x : Nat) (filename : List UInt8) : Prop :=
  ∀ c, filename.length < c → c < maxFilenameLen → f (pos + x * dirEntrySize + 4 + c) = 0

-- Slot `n` behind the directory happens to hold the very entry already, and is compared.
structure Twin (f : Nat → UInt8) (pos bound n inodeNr : Nat) (filename : List UInt8) : Prop where
  compared : n % entriesPerSect ≠ 0
  before : Unnamed f pos filename bound
  named : entryNamed f pos filename n = true
  nr : entryNr f pos n = inodeNr

section Inserted

variable {f g : Nat → UInt8} {pos x n n' inodeNr : Nat} {filename : List UInt8}

theorem inserted_named (agree : ∀ a, pos ≤ a → g a = entryWritten f pos x inodeNr filename a)
    (short : filename.length ≤ maxFilenameLen) {y : Nat} (other : y ≠ x) :
    entryNamed g pos filename y = entryNamed f pos filename y := by
  apply nameIs_congr
  intro c bound
  have inside : 4 + c < dirEntrySize := by
    simp only [maxFilenameLen, dirEntrySize] at bound ⊢
    omega
  rw [Nat.add_assoc, agree _ (by omega)]
  exact entryWritten_other short other inside fun _ zero => by omega

theorem inserted_self (agree : ∀ a, pos ≤ a → g a = entryWritten f pos x inodeNr filename a)
    (small : inodeNr < 4294967296) :
    (entryNamed g pos filename x = true ↔ Padded f pos x filename) ∧ entryNr g pos x = inodeNr := by
  have bytes : ∀ c, c < dirEntrySize → g (pos + x * dirEntrySize + c) =
      entryWritten f pos x inodeNr filename (pos + x * dirEntrySize + c) :=
    fun c _ => agree _ (by omega)
  constructor
  · rw [entryNamed_congr filename bytes]
    exact entryWritten_named
  · rw [entryNr_congr bytes]
    exact entryWritten_nr small

theorem unnamed_before {p : Nat → Bool} (free : ∀ y, y < x → p (entryNr f pos y) = false)
    (zero : p invalidInode = true) (bound : x ≤ n) (fresh : NoneLive f pos n filename) :
    Unnamed f pos filename x := by
  intro y below
  by_contra named
  have unused := fresh y (by omega) (Bool.eq_true_of_not_eq_false named)
  have used := free y below
  rw [unused, zero] at used
  cases used

theorem unnamed_of_missing {bound : Nat} (used : ∀ y, y < x → entryNr f pos y ≠ invalidInode)
    (reach : x ≤ bound) (missing : lookup f pos filename bound = invalidInode) :
    Unnamed f pos filename x := by
  intro y below
  cases found : firstMatch (entryNamed f pos filename) bound with
  | none => exact firstMatch_eq_none.mp found y (by omega)
  | some z =>
    rw [lookup, found] at missing
    have behind : x ≤ z := by
      by_contra inFront
      exact used z (by omega) missing
    exact (firstMatch_eq_some.mp found).2.2 y (by omega)

theorem padded_of_named (named : entryNamed f pos filename x = true) : Padded f pos x filename := by
  intro c behind inside
  rw [← nameIs_iff.mp named c inside]
  exact name_padding (by omega)

theorem inserted_found (agree : ∀ a, pos ≤ a → g a = entryWritten f pos x inodeNr filename a)
    (short : filename.length ≤ maxFilenameLen) (small : inodeNr < 4294967296)
    (before : Unnamed f pos filename x) (padded : Padded f pos x filename) {bound : Nat}
    (reach : x < bound) : lookup g pos filename bound = inodeNr := by
  obtain ⟨self, number⟩ := inserted_self agree small
  have first_ : firstMatch (entryNamed g pos filename) bound = some x := by
    refine firstMatch_eq_some.mpr ⟨reach, self.mpr padded, fun y below => ?_⟩
    rw [inserted_named agree short (by omega)]
    exact before y below
  rw [lookup, first_]
  exact number

theorem inserted_unseen (agree : ∀ a, pos ≤ a → g a = entryWritten f pos x inodeNr filename a)
    (short : filename.length ≤ maxFilenameLen) (small : inodeNr < 4294967296) {bound : Nat}
    (unseen : ¬ (Padded f pos x filename ∧ x < bound)) :
    lookup g pos filename bound = lookup f pos filename bound := by
  obtain ⟨self, -⟩ := inserted_self agree small
  have here (reach : x < bound) :
      entryNamed g pos filename x = false ∧ entryNamed f pos filename x = false :=
    ⟨Bool.eq_false_of_not_eq_true fun named => unseen ⟨self.mp named, reach⟩,
      Bool.eq_false_of_not_eq_true fun named => unseen ⟨padded_of_named named, reach⟩⟩
  have same : firstMatch (entryNamed g pos filename) bound =
      firstMatch (entryNamed f pos filename) bound := by
    apply firstMatch_congr
    intro y reach
    by_cases self_ : y = x
    next =>
      subst self_
      rw [(here reach).1, (here reach).2]
    next => exact inserted_named agree short self_
  rw [lookup, lookup, same]
  cases found : firstMatch (entryNamed f pos filename) bound with
  | none => rfl
  | some y =>
    obtain ⟨reach, named, -⟩ := firstMatch_eq_some.mp found
    have other : y ≠ x := by
      rintro rfl
      rw [(here reach).2] at named
      cases named
    apply wordAt_congr
    intro c inside
    have inEntry : c < dirEntrySize := by
      simp only [dirEntrySize]
      omega
    rw [agree _ (by omega)]
    refine entryWritten_other short other inEntry fun next_ _ full => ?_
    -- a name of twelve bytes needs no padding, so its slot is not compared at all
    exact absurd ⟨fun c behind bound => by omega, by omega⟩ unseen

theorem inserted_lookup (agree : ∀ a, pos ≤ a → g a = entryWritten f pos x inodeNr filename a)
    (short : filename.length ≤ maxFilenameLen) (nonzero : inodeNr ≠ invalidInode)
    (small : inodeNr < 4294967296) (before : Unnamed f pos filename x)
    (fresh : NoneLive f pos n filename) (place : x < n ∧ n' = n ∨ x = n ∧ n' = n + 1) :
    lookup g pos filename (if n' % entriesPerSect = 0 then n' else n' + 1) = inodeNr ↔
      Padded f pos x filename ∨ Twin f pos n n' inodeNr filename := by
  have atLeast : n' ≤ (if n' % entriesPerSect = 0 then n' else n' + 1) := by
    split <;> omega
  by_cases padded : Padded f pos x filename
  next =>
    exact iff_of_true (inserted_found agree short small before padded (by omega)) (.inl padded)
  next =>
    have unnamed : entryNamed f pos filename x = false :=
      Bool.eq_false_of_not_eq_true fun named => padded (padded_of_named named)
    rw [inserted_unseen agree short small fun seen => padded seen.1]
    constructor
    case mp =>
      intro found
      right
      cases first_ : firstMatch (entryNamed f pos filename)
          (if n' % entriesPerSect = 0 then n' else n' + 1) with
      | none =>
        rw [lookup, first_] at found
        exact absurd found.symm nonzero
      | some y =>
        rw [lookup, first_] at found
        simp only at found
        obtain ⟨below, named, earlier⟩ := firstMatch_eq_some.mp first_
        have other : y ≠ x := by
          rintro rfl
          rw [unnamed] at named
          cases named
        have behind : n ≤ y := by
          by_contra inside
          exact nonzero (found.symm.trans (fresh y (by omega) named))
        have unaligned : n' % entriesPerSect ≠ 0 := by
          intro aligned
          rw [if_pos aligned] at below
          omega
        rw [if_neg unaligned] at below
        have last : y = n' := by omega
        subst last
        exact ⟨unaligned, fun z less => earlier z (by omega), named, found⟩
    case mpr =>
      rintro (padded' | twin)
      · exact absurd padded' padded
      · have first_ : firstMatch (entryNamed f pos filename)
            (if n' % entriesPerSect = 0 then n' else n' + 1) = some n' := by
          rw [firstMatch_eq_some, if_neg twin.compared]
          refine ⟨by omega, twin.named, fun y below => ?_⟩
          by_cases here : y = x
          next => rwa [here]
          next => exact twin.before y (by omega)
        rw [lookup, first_]
        exact twin.nr

end Inserted

/--
The size of the directory does not wrap around; the name's field is zero behind the name, or the
slot behind the directory passes for the entry; and the zero behind a name of twelve bytes does not
fall into the inode number of the next entry.
-/
structure InsertFits (dir : Inode) (f : Nat → UInt8) (inodeNr : Nat) (filename : List UInt8) :
    Prop where
  size : dir.iSize + sectorSize < 4294967296
  found : Padded f (dirPos dir) (freeSlotOf dir f) filename ∨
    Twin f (dirPos dir) (nrDirEntries dir) (nrDirEntries (grownDir dir f)) inodeNr filename
  next_ : filename.length = maxFilenameLen →
    freeSlotOf dir f % entriesPerSect ≠ entriesPerSect - 1 →
    freeSlotOf dir f + 1 < nrDirEntries dir →
    f (dirPos dir + (freeSlotOf dir f + 1) * dirEntrySize) = 0

/--
The entry is made, a lookup of its name answers its inode number, and the bytes of every other entry
of the directory are as they were.
-/
def InsertExact (s : State) (inodeNr : Nat) (pathname filename : List UInt8) : Prop :=
  ∃ s', newDirEntry s inodeNr filename = .ok s' ∧
    (∃ s'', searchFile s' pathname = .ok (inodeNr, s'')) ∧
    ∀ y, y < nrDirEntries (s.inodeTable s.rootInode) →
      y ≠ freeSlotOf (s.inodeTable s.rootInode) s.disk → ∀ c, c < dirEntrySize →
        s'.disk (dirPos (s.inodeTable s.rootInode) + y * dirEntrySize + c) =
          s.disk (dirPos (s.inodeTable s.rootInode) + y * dirEntrySize + c)

theorem grownDir_place {dir : Inode} {f : Nat → UInt8} :
    freeSlotOf dir f < nrDirEntries dir ∧ nrDirEntries (grownDir dir f) = nrDirEntries dir ∨
      freeSlotOf dir f = nrDirEntries dir ∧
        nrDirEntries (grownDir dir f) = nrDirEntries dir + 1 := by
  by_cases inside : freeSlotOf dir f < nrDirEntries dir
  next => exact .inl ⟨inside, by rw [grownDir, if_pos inside]⟩
  next =>
    have last : freeSlotOf dir f ≤ nrDirEntries dir := slotOf_le
    refine .inr ⟨by omega, ?_⟩
    rw [grownDir, if_neg inside]
    simp only [nrDirEntries, dirEntrySize]
    omega

theorem freeSlotOf_before {dir : Inode} {f : Nat → UInt8} {y : Nat}
    (below : y < freeSlotOf dir f) : (entryNr f (dirPos dir) y == 0) = false := by
  unfold freeSlotOf slotOf at below
  cases found : firstMatch (fun m => entryNr f (dirPos dir) m == 0) (nrDirEntries dir) with
  | none =>
    rw [found, Option.getD_none] at below
    exact firstMatch_eq_none.mp found y below
  | some x =>
    rw [found, Option.getD_some] at below
    exact (firstMatch_eq_some.mp found).2.2 y below

section Insert

variable {s : State} {sb : SuperBlock} {inodeNr : Nat} {filename : List UInt8}

theorem newDirEntry_wraps (small : (s.inodeTable s.rootInode).iSize < 4294967296)
    (wraps : 4294967296 ≤ (s.inodeTable s.rootInode).iSize + sectorSize) :
    newDirEntry s inodeNr filename = .error .outOfBounds := by
  have none_ : nrDirBlks (s.inodeTable s.rootInode) = 0 := by
    simp only [nrDirBlks, sectorSize] at wraps ⊢
    omega
  rw [newDirEntry, none_]
  rfl

theorem newDirEntry_bytes (inodeNr : Nat) (filename : List UInt8)
    (dev : (s.inodeTable s.rootInode).iDev = rootDev)
    (super : getSuperBlock s rootDev = .ok sb)
    (apart : recordPos sb (s.inodeTable s.rootInode).iNum + 16 ≤ dirPos (s.inodeTable s.rootInode))
    (fits : (s.inodeTable s.rootInode).iSize + sectorSize < 4294967296) :
    ∃ s', newDirEntry s inodeNr filename = .ok s' ∧
      s'.inodeTable s'.rootInode = grownDir (s.inodeTable s.rootInode) s.disk ∧
      ∀ a, dirPos (s.inodeTable s.rootInode) ≤ a → s'.disk a =
        entryWritten s.disk (dirPos (s.inodeTable s.rootInode))
          (freeSlotOf (s.inodeTable s.rootInode) s.disk) inodeNr filename a := by
  obtain ⟨s', done, only, disk⟩ := newDirEntry_eq dev super fits
  refine ⟨s', done, ?_, fun a above => ?_⟩
  · rw [only.rootInode, only.inodeTable]
    exact Function.update_self ..
  · rw [disk]
    exact storeInode_outside _ _ (.inr (by omega))

theorem insert_exact_iff (s : State) (sb : SuperBlock) (inodeNr : Nat) (pathname : List UInt8)
    (c : UInt8) (rest : List UInt8) (dev : (s.inodeTable s.rootInode).iDev = rootDev)
    (super : getSuperBlock s rootDev = .ok sb)
    (apart : recordPos sb (s.inodeTable s.rootInode).iNum + 16 ≤ dirPos (s.inodeTable s.rootInode))
    (whole : (s.inodeTable s.rootInode).iSize % dirEntrySize = 0)
    (small : (s.inodeTable s.rootInode).iSize < 4294967296)
    (strip : stripPath pathname = some (c :: rest))
    (fresh : NoneLive s.disk (dirPos (s.inodeTable s.rootInode))
      (nrDirEntries (s.inodeTable s.rootInode)) (c :: rest))
    (nonzero : inodeNr ≠ invalidInode) (nrSmall : inodeNr < 4294967296) :
    InsertExact s inodeNr pathname (c :: rest) ↔
      InsertFits (s.inodeTable s.rootInode) s.disk inodeNr (c :: rest) := by
  have short := stripPath_length strip
  by_cases fits : (s.inodeTable s.rootInode).iSize + sectorSize < 4294967296
  case neg =>
    constructor
    · rintro ⟨s', done, -⟩
      rw [newDirEntry_wraps small (by omega)] at done
      cases done
    · exact fun insert => absurd insert.size fits
  case pos =>
    obtain ⟨s', done, root, agree⟩ := newDirEntry_bytes inodeNr (c :: rest) dev super apart fits
    generalize hdir : s.inodeTable s.rootInode = dir at *
    have shape : (grownDir dir s.disk).iDev = rootDev ∧
        dirPos (grownDir dir s.disk) = dirPos dir ∧
        (grownDir dir s.disk).iSize % dirEntrySize = 0 ∧
        (grownDir dir s.disk).iSize + (sectorSize - 1) < 4294967296 := by
      rw [grownDir]
      simp only [sectorSize, dirEntrySize] at fits whole ⊢
      split
      · exact ⟨dev, rfl, whole, by omega⟩
      · exact ⟨dev, rfl, by simp only; omega, by simp only; omega⟩
    have before := unnamed_before (p := (· == 0)) (fun y below => freeSlotOf_before below) rfl
      slotOf_le fresh
    have found := inserted_lookup agree short nonzero nrSmall before fresh grownDir_place
    obtain ⟨s'', search, -, -⟩ := searchFile_eq s' pathname (by rw [root]; exact shape.1)
    have answer : lookupPath s' pathname = lookup s'.disk (dirPos dir) (c :: rest)
        (if nrDirEntries (grownDir dir s.disk) % entriesPerSect = 0 then
          nrDirEntries (grownDir dir s.disk) else nrDirEntries (grownDir dir s.disk) + 1) := by
      simp only [lookupPath, strip, root, shape.2.1]
      rw [searched_eq shape.2.2.1 shape.2.2.2]
    rw [answer] at search
    constructor
    case mp =>
      rintro ⟨t, done', ⟨t', search'⟩, others⟩
      rw [done, Except.ok.injEq] at done'
      subst done'
      rw [search, Except.ok.injEq, Prod.mk.injEq] at search'
      refine ⟨fits, found.mp search'.1, fun full inSect inside => ?_⟩
      have byte := others (freeSlotOf dir s.disk + 1) (by rwa [hdir]) (by rw [hdir]; omega) 0
        (by decide)
      rw [hdir, Nat.add_zero, agree _ (by omega), entryWritten_next full inSect] at byte
      exact byte.symm
    case mpr =>
      rintro ⟨-, insert, next_⟩
      refine ⟨s', done, ⟨s'', by rw [search, found.mpr insert]⟩, fun y below other k inside => ?_⟩
      rw [hdir] at below other ⊢
      rw [agree _ (by omega)]
      by_cases behind : y = freeSlotOf dir s.disk + 1 ∧ k = 0 ∧
          (c :: rest).length = maxFilenameLen ∧
          freeSlotOf dir s.disk % entriesPerSect ≠ entriesPerSect - 1
      next =>
        obtain ⟨rfl, rfl, full, inSect⟩ := behind
        rw [Nat.add_zero, entryWritten_next full inSect, next_ full inSect below]
      next =>
        exact entryWritten_other short other inside fun here zero full => by
          by_contra inSect
          exact behind ⟨here, zero, full, inSect⟩

end Insert

-- A directory of three slots in the first data sector: ".", a free one, and "b", which is inode 6.
def threeSlots : Inode := ⟨iDirectory, 3 * dirEntrySize, 262, nrDefaultFileSects, rootDev, 1, 1⟩

def holeDisk : Nat → UInt8 :=
  putEntry (putEntry (fun _ => 0) (262 * sectorSize) 1 [46])
    (262 * sectorSize + 2 * dirEntrySize) 6 [98]

-- "abcdefghijk" and "abcdefghijkl", the longest name
def elevenBytes : List UInt8 := [97, 98, 99, 100, 101, 102, 103, 104, 105, 106, 107]

def twelveBytes : List UInt8 := [97, 98, 99, 100, 101, 102, 103, 104, 105, 106, 107, 108]

theorem holeDisk_fresh (filename : List UInt8)
    (other : ∀ y, y < 3 → entryNamed holeDisk (dirPos threeSlots) filename y = false) :
    NoneLive holeDisk (dirPos threeSlots) (nrDirEntries threeSlots) filename := by
  intro y below named
  rw [other y below] at named
  cases named

theorem insert_exact_eleven :
    InsertExact (mounted holeDisk (mkfsSuper 10000) threeSlots) 7 elevenBytes elevenBytes ↔
      InsertFits threeSlots holeDisk 7 elevenBytes :=
  insert_exact_iff (mounted holeDisk (mkfsSuper 10000) threeSlots) (mkfsSuper 10000) 7 elevenBytes
    97 [98, 99, 100, 101, 102, 103, 104, 105, 106, 107] rfl
      (mounted_super holeDisk 10000 threeSlots)
    (by decide) (by decide) (by decide) (by decide)
    (holeDisk_fresh elevenBytes (by decide +kernel)) (by decide) (by decide)

-- A name of twelve bytes ends in the inode number of the entry behind it.
theorem insert_clears_next :
    ¬ ∀ (s : State) (sb : SuperBlock) (inodeNr : Nat) (pathname : List UInt8) (c : UInt8)
      (rest : List UInt8), (s.inodeTable s.rootInode).iDev = rootDev →
      getSuperBlock s rootDev = .ok sb →
      recordPos sb (s.inodeTable s.rootInode).iNum + 16 ≤ dirPos (s.inodeTable s.rootInode) →
      (s.inodeTable s.rootInode).iSize % dirEntrySize = 0 →
      (s.inodeTable s.rootInode).iSize < 4294967296 → stripPath pathname = some (c :: rest) →
      NoneLive s.disk (dirPos (s.inodeTable s.rootInode))
        (nrDirEntries (s.inodeTable s.rootInode)) (c :: rest) →
      inodeNr ≠ invalidInode → inodeNr < 4294967296 →
        InsertExact s inodeNr pathname (c :: rest) := by
  intro claim
  have super := mounted_super holeDisk 10000 threeSlots
  have fresh := holeDisk_fresh twelveBytes (by decide +kernel)
  obtain ⟨s', done, -, others⟩ := claim (mounted holeDisk (mkfsSuper 10000) threeSlots)
    (mkfsSuper 10000) 7 twelveBytes 97
    [98, 99, 100, 101, 102, 103, 104, 105, 106, 107, 108] rfl super
    (by decide) (by decide) (by decide) (by decide) fresh (by decide) (by decide)
  obtain ⟨t, done', -, agree⟩ := newDirEntry_bytes 7 twelveBytes
    (s := mounted holeDisk (mkfsSuper 10000) threeSlots) rfl super (by decide) (by decide)
  have same : s' = t := Except.ok.inj (done.symm.trans done')
  have slot : freeSlotOf threeSlots holeDisk = 1 := by decide +kernel
  have kept : s'.disk (dirPos threeSlots + 2 * dirEntrySize + 0) = 6 :=
    (others 2 (by decide) (by decide +kernel) 0 (by decide)).trans (by decide +kernel)
  have zero : s'.disk (dirPos threeSlots + 2 * dirEntrySize + 0) = 0 := by
    rw [same]
    refine (agree _ (by decide)).trans ?_
    have next_ := @entryWritten_next holeDisk (dirPos threeSlots) 1 7 twelveBytes rfl (by decide)
    rw [← slot] at next_
    exact next_
  rw [kept] at zero
  cases zero

end Konix.Fs
