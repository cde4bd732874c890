import Konix.Fs.Search

set_option autoImplicit false

namespace Konix.Fs

open Splice Words

-- Where a loop over the entries of the directory stops; `m` counts them from one.
structure ScanEnd where
  hit : Bool
  blk : Nat
  entry : Nat
  m : Nat
  dirSize : Nat
deriving DecidableEq, Repr

inductive Scan
  | stop (hit : Bool) (j m dirSize : Nat)
  | more (m dirSize : Nat)
deriving DecidableEq, Repr

/--
The inner loop of `new_dir_entry()`, which looks for a free slot, and of `do_unlink()`, which looks
for the file's inode number and sums up the slots in use on the way.
-/
def scanEntries (hit : Nat → Bool) (buf : Nat → UInt8) (nrDirEntries : Nat) :
    Nat → Nat → Nat → Nat → Scan
  | 0, _, m, dirSize => .more m dirSize
  | fuel + 1, j, m, dirSize =>
    if m + 1 > nrDirEntries then .stop false j (m + 1) dirSize
    else if hit (entryNr buf 0 j) then .stop true j (m + 1) dirSize
    else
      scanEntries hit buf nrDirEntries fuel (j + 1) (m + 1)
        (if entryNr buf 0 j ≠ invalidInode then dirSize + dirEntrySize else dirSize)

def nrDirEntries (dir : Inode) : Nat := dir.iSize / dirEntrySize

-- `none` when the blocks run out before the entries do.
def scanBlocks (dir : Inode) (hit : Nat → Bool) : Nat → Nat → Nat → Nat → State →
    Except Stop (Option ScanEnd × State)
  | 0, _, _, _, s => .ok (none, s)
  | fuel + 1, i, m, dirSize, s => do
    let s ← s.rdSect dir.iDev (dir.iStartSect + i)
    match scanEntries hit s.fsbuf (nrDirEntries dir) entriesPerSect 0 m dirSize with
    | .stop found j m dirSize => return (some ⟨found, i, j, m, dirSize⟩, s)
    | .more m dirSize => scanBlocks dir hit fuel (i + 1) m dirSize s

-- `(i_size + SECTOR_SIZE) / SECTOR_SIZE`, in unsigned arithmetic.
def nrDirBlks (dir : Inode) : Nat := (dir.iSize + sectorSize) % 4294967296 / sectorSize

-- `inode_nr` and `strcpy()` of the name, with the zero behind it, into the entry at `off`.
def putEntry (f : Nat → UInt8) (off inodeNr : Nat) (filename : List UInt8) : Nat → UInt8 :=
  splice (putWord f off inodeNr) (off + 4) (filename.length + 1) fun c => filename.getD c 0

def newDirEntry (s : State) (inodeNr : Nat) (filename : List UInt8) : Except Stop State := do
  let dir := s.inodeTable s.rootInode
  let (stop, s) ← scanBlocks dir (· == 0) (nrDirBlks dir) 0 0 0 s
  match stop with
  -- `pde` has never been set
  | none => .error .outOfBounds
  | some e => do
    let dir' := if e.hit then dir
      else { dir with iSize := (dir.iSize + dirEntrySize) % 4294967296 }
    let s := s.setInode s.rootInode dir'
    let s := { s with fsbuf := putEntry s.fsbuf (e.entry * dirEntrySize) inodeNr filename }
    let s ← s.wrSect dir.iDev (dir.iStartSect + e.blk)
    syncInode s s.rootInode

-- How many of the first `n` slots are in use.
def liveBelow (f : Nat → UInt8) (pos n : Nat) : Nat :=
  (List.range n).countP fun m => entryNr f pos m ≠ invalidInode

theorem liveBelow_succ (f : Nat → UInt8) (pos n : Nat) :
    liveBelow f pos (n + 1) =
      liveBelow f pos n + if entryNr f pos n ≠ invalidInode then 1 else 0 := by
  simp only [liveBelow, List.range_succ, List.countP_append, List.countP_singleton,
    decide_eq_true_eq]

-- The slot at which the loops stop: the first hit, or the end of the directory.
def slotOf (hit : Nat → Bool) (f : Nat → UInt8) (pos n : Nat) : Nat :=
  (firstMatch (fun m => hit (entryNr f pos m)) n).getD n

def scanEnd (hit : Nat → Bool) (f : Nat → UInt8) (pos n : Nat) : ScanEnd :=
  let x := slotOf hit f pos n
  ⟨(firstMatch (fun m => hit (entryNr f pos m)) n).isSome, x / entriesPerSect, x % entriesPerSect,
    x + 1, dirEntrySize * liveBelow f pos x⟩

theorem slotOf_le {hit : Nat → Bool} {f : Nat → UInt8} {pos n : Nat} : slotOf hit f pos n ≤ n := by
  unfold slotOf
  cases found : firstMatch (fun m => hit (entryNr f pos m)) n with
  | none => exact le_refl n
  | some x => exact le_of_lt (firstMatch_eq_some.mp found).1

section Entries

variable {f buf : Nat → UInt8} {pos i n : Nat} {hit : Nat → Bool}

theorem scanEntries_spec
    (bytes : ∀ a, a < sectorSize → buf a = f (pos + i * sectorSize + a)) (fuel j : Nat)
    (whole : j + fuel = entriesPerSect) (reach : entriesPerSect * i + j ≤ n)
    (before : ∀ y, y < entriesPerSect * i + j → hit (entryNr f pos y) = false) :
    (slotOf hit f pos n < entriesPerSect * (i + 1) ∧
        (scanEnd hit f pos n).blk = i ∧
        scanEntries hit buf n fuel j (entriesPerSect * i + j)
            (dirEntrySize * liveBelow f pos (entriesPerSect * i + j)) =
          .stop (scanEnd hit f pos n).hit (scanEnd hit f pos n).entry (scanEnd hit f pos n).m
            (scanEnd hit f pos n).dirSize) ∨
      ((∀ y, y < entriesPerSect * (i + 1) → hit (entryNr f pos y) = false) ∧
        entriesPerSect * (i + 1) ≤ n ∧
        scanEntries hit buf n fuel j (entriesPerSect * i + j)
            (dirEntrySize * liveBelow f pos (entriesPerSect * i + j)) =
          .more (entriesPerSect * (i + 1))
            (dirEntrySize * liveBelow f pos (entriesPerSect * (i + 1)))) := by
  induction fuel generalizing j with
  | zero =>
    have last : entriesPerSect * (i + 1) = entriesPerSect * i + j := by
      rw [Nat.mul_succ]
      omega
    exact .inr ⟨by rwa [last], by omega, by rw [last]; rfl⟩
  | succ fuel ih =>
    have bound : j < entriesPerSect := by omega
    have nr := entryNr_congr (sector_entry bytes bound)
    have blk : (entriesPerSect * i + j) / entriesPerSect = i := by
      rw [Nat.mul_add_div (by decide), Nat.div_eq_of_lt bound, Nat.add_zero]
    have entry : (entriesPerSect * i + j) % entriesPerSect = j := by
      rw [Nat.mul_add_mod, Nat.mod_eq_of_lt bound]
    have inside : entriesPerSect * i + j < entriesPerSect * (i + 1) := by
      rw [Nat.mul_succ]
      omega
    by_cases last : entriesPerSect * i + j + 1 > n
    · have none_ : firstMatch (fun m => hit (entryNr f pos m)) n = none :=
        firstMatch_eq_none.mpr fun y below => before y (by omega)
      have here : slotOf hit f pos n = entriesPerSect * i + j := by
        rw [slotOf, none_, Option.getD_none]
        omega
      refine .inl ⟨by rwa [here], by rw [scanEnd, here, blk], ?_⟩
      simp only [scanEntries, last, if_true, scanEnd, none_, here, entry, Option.isSome_none]
    · cases found : hit (entryNr f pos (entriesPerSect * i + j)) with
      | true =>
        have some_ : firstMatch (fun m => hit (entryNr f pos m)) n =
            some (entriesPerSect * i + j) := firstMatch_eq_some.mpr ⟨by omega, found, before⟩
        have here : slotOf hit f pos n = entriesPerSect * i + j := by
          rw [slotOf, some_, Option.getD_some]
        refine .inl ⟨by rwa [here], by rw [scanEnd, here, blk], ?_⟩
        simp only [scanEntries, last, if_false, nr, found, if_true, scanEnd, some_, here, entry,
          Option.isSome_some]
      | false =>
        have upTo : ∀ y, y < entriesPerSect * i + (j + 1) → hit (entryNr f pos y) = false := by
          intro y below
          by_cases same : y = entriesPerSect * i + j
          · rwa [same]
          · exact before y (by omega)
        have step : scanEntries hit buf n (fuel + 1) j (entriesPerSect * i + j)
              (dirEntrySize * liveBelow f pos (entriesPerSect * i + j)) =
            scanEntries hit buf n fuel (j + 1) (entriesPerSect * i + (j + 1))
              (dirEntrySize * liveBelow f pos (entriesPerSect * i + (j + 1))) := by
          rw [scanEntries, if_neg last, nr, found, if_neg Bool.false_ne_true, ← Nat.add_assoc,
            liveBelow_succ]
          by_cases live : entryNr f pos (entriesPerSect * i + j) ≠ invalidInode
          · rw [if_pos live, if_pos live, Nat.mul_succ]
          · rw [if_neg live, if_neg live]
            rfl
        rw [step]
        exact ih (j + 1) (by omega) (by omega) upTo

end Entries

theorem scanBlocks_spec {dir : Inode} {hit : Nat → Bool} (dev : dir.iDev = rootDev) (fuel i : Nat)
    (s : State) (reach : entriesPerSect * i ≤ nrDirEntries dir)
    (enough : nrDirEntries dir < entriesPerSect * (i + fuel))
    (before : ∀ y, y < entriesPerSect * i → hit (entryNr s.disk (dirPos dir) y) = false) :
    ∃ s', scanBlocks dir hit fuel i (entriesPerSect * i)
          (dirEntrySize * liveBelow s.disk (dirPos dir) (entriesPerSect * i)) s =
        .ok (some (scanEnd hit s.disk (dirPos dir) (nrDirEntries dir)), s') ∧
      DiskOnly s s' ∧ s'.disk = s.disk ∧
      s'.held (dirPos dir +
        slotOf hit s.disk (dirPos dir) (nrDirEntries dir) / entriesPerSect * sectorSize) =
          s.disk := by
  induction fuel generalizing i s with
  | zero =>
    rw [Nat.add_zero] at enough
    omega
  | succ fuel ih =>
    have place : (dir.iStartSect + i) * sectorSize = dirPos dir + i * sectorSize := Nat.add_mul ..
    have bytes (a : Nat) (bound : a < sectorSize) :=
      State.transfer_read_fsbuf s rootDev (dirPos dir + i * sectorSize) bound
    have only := DiskOnly.transfer s .devRead rootDev (dirPos dir + i * sectorSize) sectorSize
    have held := State.transfer_read_held s rootDev (dirPos dir + i * sectorSize)
    generalize read : s.transfer .devRead rootDev (dirPos dir + i * sectorSize) sectorSize = r
      at bytes only held
    have sameDisk : r.disk = s.disk := read ▸ rfl
    simp only [scanBlocks, dev, State.rdSect_rootDev, place, read, bind, Except.bind]
    rcases scanEntries_spec bytes entriesPerSect 0 (Nat.zero_add _) reach before with
      ⟨-, blk, stop⟩ | ⟨none_, long, more⟩
    · refine ⟨r, ?_, only, sameDisk, ?_⟩
      · rw [Nat.add_zero] at stop
        simp only [stop]
        rw [← blk]
        rfl
      · have blk' : slotOf hit s.disk (dirPos dir) (nrDirEntries dir) / entriesPerSect = i := blk
        rw [blk', held]
    · obtain ⟨s', done, only', same', held'⟩ := ih (i + 1) r long
        (by rwa [show i + 1 + fuel = i + (fuel + 1) by omega]) (by rwa [sameDisk])
      rw [Nat.add_zero] at more
      rw [sameDisk] at done held'
      refine ⟨s', ?_, only.trans only', same'.trans sameDisk, held'⟩
      simp only [more]
      exact done

theorem nrDirBlks_enough {dir : Inode} (small : dir.iSize + sectorSize < 4294967296) :
    nrDirEntries dir < entriesPerSect * nrDirBlks dir := by
  simp only [nrDirBlks, nrDirEntries, entriesPerSect, sectorSize, dirEntrySize] at small ⊢
  omega

theorem scanBlocks_all {dir : Inode} {hit : Nat → Bool} (dev : dir.iDev = rootDev) (s : State)
    (small : dir.iSize + sectorSize < 4294967296) :
    ∃ s', scanBlocks dir hit (nrDirBlks dir) 0 0 0 s =
        .ok (some (scanEnd hit s.disk (dirPos dir) (nrDirEntries dir)), s') ∧
      DiskOnly s s' ∧ s'.disk = s.disk ∧
      s'.held (dirPos dir +
        slotOf hit s.disk (dirPos dir) (nrDirEntries dir) / entriesPerSect * sectorSize) = s.disk :=
  scanBlocks_spec dev (nrDirBlks dir) 0 s (Nat.zero_le _)
    (by rw [Nat.zero_add]; exact nrDirBlks_enough small)
    fun y below => absurd below (Nat.not_lt_zero y)

theorem scanBlocks_reads {dir : Inode} {hit : Nat → Bool} {fuel i m dirSize : Nat} {s s' : State}
    {stop : Option ScanEnd} (done : scanBlocks dir hit fuel i m dirSize s = .ok (stop, s')) :
    DiskOnly s s' ∧ s'.disk = s.disk := by
  induction fuel generalizing i m dirSize s with
  | zero =>
    cases done
    exact ⟨DiskOnly.refl _, rfl⟩
  | succ fuel ih =>
    obtain ⟨s₁, read, rest⟩ := bind_ok done
    have only := DiskOnly.rdSect read
    have same := DiskOnly.rdSect_disk read
    cases scan : scanEntries hit s₁.fsbuf (nrDirEntries dir) entriesPerSect 0 m dirSize with
    | stop found j m' dirSize' =>
      simp only [scan] at rest
      cases rest
      exact ⟨only, same⟩
    | more m' dirSize' =>
      simp only [scan] at rest
      have later := ih rest
      exact ⟨only.trans later.1, later.2.trans same⟩

end Konix.Fs
