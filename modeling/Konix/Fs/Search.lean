import Konix.Fs.Sectors

set_option autoImplicit false

namespace Konix.Fs

open Splice Words

def slash : UInt8 := 47

-- The pathname a request names: `name_len` bytes of the caller's memory, read as a C string.
def pathnameOf (s : State) : Except Stop (List UInt8) := do
  assertThat (s.fsMsg.nameLen < maxPath) .assertion
  -- `phys_copy()` with a negative size runs away
  assertThat (0 ≤ s.fsMsg.nameLen) .outOfBounds
  let bytes := (List.range s.fsMsg.nameLen.toNat).map fun j =>
    s.userMem s.fsMsg.source (s.fsMsg.pathname + j)
  return bytes.takeWhile (· ≠ 0)

-- The loop of `strip_path()`, with so much room left in `filename`.
def stripName : Nat → List UInt8 → Option (List UInt8)
  | 0, _ => some []
  | _ + 1, [] => some []
  | room + 1, c :: rest => if c = slash then none else (stripName room rest).map (c :: ·)

-- `none` where the code answers -1; the directory is always the root.
def stripPath (pathname : List UInt8) : Option (List UInt8) :=
  stripName maxFilenameLen
    (if pathname.head? = some slash then pathname.tail else pathname)

-- `memcmp(filename, pde->name, MAX_FILENAME_LEN) == 0`, `filename` being padded with zeros.
def nameIs (f : Nat → UInt8) (pos : Nat) (filename : List UInt8) : Bool :=
  (List.range maxFilenameLen).all fun c => filename.getD c 0 == f (pos + c)

-- Entry `m` of a directory that starts at byte `pos`: its `inode_nr`, and whether it has the name.
def entryNr (f : Nat → UInt8) (pos m : Nat) : Nat := wordAt f (pos + m * dirEntrySize)

def entryNamed (f : Nat → UInt8) (pos : Nat) (filename : List UInt8) (m : Nat) : Bool :=
  nameIs f (pos + m * dirEntrySize + 4) filename

inductive Search
  | found (inodeNr : Nat)
  | ended
  | more (m : Nat)
deriving DecidableEq, Repr

def entriesPerSect : Nat := sectorSize / dirEntrySize

def searchEntries (buf : Nat → UInt8) (filename : List UInt8) (nrDirEntries : Nat) :
    Nat → Nat → Nat → Search
  | 0, _, m => .more m
  | fuel + 1, j, m =>
    if entryNamed buf 0 filename j then .found (entryNr buf 0 j)
    else if m + 1 > nrDirEntries then .ended
    else searchEntries buf filename nrDirEntries fuel (j + 1) (m + 1)

def searchBlocks (dir : Inode) (filename : List UInt8) : Nat → Nat → Nat → State →
    Except Stop (Nat × State)
  | 0, _, _, s => .ok (0, s)
  | fuel + 1, i, m, s => do
    let s ← s.rdSect dir.iDev (dir.iStartSect + i)
    match searchEntries s.fsbuf filename (dir.iSize / dirEntrySize) entriesPerSect 0 m with
    | .found inodeNr => return (inodeNr, s)
    | .ended => return (0, s)
    | .more m => searchBlocks dir filename fuel (i + 1) m s

-- `(i_size + SECTOR_SIZE - 1) / SECTOR_SIZE`, in unsigned arithmetic.
def searchDirBlks (dir : Inode) : Nat := (dir.iSize + sectorSize - 1) % 4294967296 / sectorSize

def searchFile (s : State) (pathname : List UInt8) : Except Stop (Nat × State) :=
  let dir := s.inodeTable s.rootInode
  match stripPath pathname with
  | none => .ok (0, s)
  | some [] => .ok (dir.iNum, s)
  | some (c :: rest) => searchBlocks dir (c :: rest) (searchDirBlks dir) 0 0 s

def firstMatch (p : Nat → Bool) (n : Nat) : Option Nat := (List.range n).find? p

theorem firstMatch_eq_some {p : Nat → Bool} {n x : Nat} :
    firstMatch p n = some x ↔ x < n ∧ p x = true ∧ ∀ y, y < x → p y = false := by
  simp only [firstMatch, List.find?_range_eq_some, List.mem_range, Bool.not_eq_true']
  tauto

theorem firstMatch_eq_none {p : Nat → Bool} {n : Nat} :
    firstMatch p n = none ↔ ∀ y, y < n → p y = false := by
  simp only [firstMatch, List.find?_range_eq_none, Bool.not_eq_true']

theorem firstMatch_congr {p q : Nat → Bool} {n : Nat} (agree : ∀ y, y < n → p y = q y) :
    firstMatch p n = firstMatch q n := by
  cases found : firstMatch q n with
  | none =>
    rw [firstMatch_eq_none] at found ⊢
    exact fun y bound => (agree y bound).trans (found y bound)
  | some x =>
    rw [firstMatch_eq_some] at found ⊢
    obtain ⟨bound, here, before⟩ := found
    exact ⟨bound, (agree x bound).trans here,
      fun y below => (agree y (by omega)).trans (before y below)⟩

-- The inode number of the first of the entries in front of `bound` that has the name, or zero.
def lookup (f : Nat → UInt8) (pos : Nat) (filename : List UInt8) (bound : Nat) : Nat :=
  match firstMatch (entryNamed f pos filename) bound with
  | some x => entryNr f pos x
  | none => 0

/--
How many entries `search_file()` compares: those of the directory and, as `m` is counted after
the comparison, the slot behind them unless that one begins a sector.
-/
def searched (dir : Inode) : Nat :=
  min (entriesPerSect * searchDirBlks dir) (dir.iSize / dirEntrySize + 1)

def dirPos (dir : Inode) : Nat := dir.iStartSect * sectorSize

-- What `search_file()` answers, read off the disk.
def lookupPath (s : State) (pathname : List UInt8) : Nat :=
  let dir := s.inodeTable s.rootInode
  match stripPath pathname with
  | none => 0
  | some [] => dir.iNum
  | some (c :: rest) => lookup s.disk (dirPos dir) (c :: rest) (searched dir)

theorem nameIs_iff {f : Nat → UInt8} {pos : Nat} {filename : List UInt8} :
    nameIs f pos filename = true ↔ ∀ c, c < maxFilenameLen → filename.getD c 0 = f (pos + c) := by
  simp only [nameIs, List.all_eq_true, List.mem_range, beq_iff_eq]

theorem nameIs_congr {f g : Nat → UInt8} {a b : Nat} {filename : List UInt8}
    (agree : ∀ c, c < maxFilenameLen → f (a + c) = g (b + c)) :
    nameIs f a filename = nameIs g b filename := by
  rw [Bool.eq_iff_iff, nameIs_iff, nameIs_iff]
  exact forall_congr' fun c => forall_congr' fun bound => by rw [agree c bound]

theorem entryNr_congr {f g : Nat → UInt8} {a b m k : Nat}
    (agree : ∀ c, c < dirEntrySize → f (a + m * dirEntrySize + c) = g (b + k * dirEntrySize + c)) :
    entryNr f a m = entryNr g b k := by
  apply wordAt_agree
  intro c bound
  exact agree c (by simp only [dirEntrySize]; omega)

theorem entryNamed_congr {f g : Nat → UInt8} {a b m k : Nat} (filename : List UInt8)
    (agree : ∀ c, c < dirEntrySize → f (a + m * dirEntrySize + c) = g (b + k * dirEntrySize + c)) :
    entryNamed f a filename m = entryNamed g b filename k := by
  apply nameIs_congr
  intro c bound
  have byte := agree (4 + c) (by simp only [maxFilenameLen, dirEntrySize] at bound ⊢; omega)
  simpa only [Nat.add_assoc] using byte

theorem sector_entry {f buf : Nat → UInt8} {pos i j : Nat}
    (bytes : ∀ a, a < sectorSize → buf a = f (pos + i * sectorSize + a))
    (bound : j < entriesPerSect) (c : Nat) (inside : c < dirEntrySize) :
    buf (0 + j * dirEntrySize + c) = f (pos + (entriesPerSect * i + j) * dirEntrySize + c) := by
  simp only [entriesPerSect, sectorSize, dirEntrySize] at bound inside bytes ⊢
  rw [bytes _ (by omega)]
  congr 1
  omega

theorem searchEntries_spec {f buf : Nat → UInt8} {pos i n : Nat} {filename : List UInt8}
    (bytes : ∀ a, a < sectorSize → buf a = f (pos + i * sectorSize + a)) (fuel j : Nat)
    (whole : j + fuel = entriesPerSect) (reach : entriesPerSect * i + j ≤ n)
    (before : ∀ y, y < entriesPerSect * i + j → entryNamed f pos filename y = false) :
    (∃ x, firstMatch (entryNamed f pos filename) (min (entriesPerSect * (i + 1)) (n + 1)) = some x ∧
        searchEntries buf filename n fuel j (entriesPerSect * i + j) = .found (entryNr f pos x)) ∨
      (firstMatch (entryNamed f pos filename) (n + 1) = none ∧ n < entriesPerSect * (i + 1) ∧
        searchEntries buf filename n fuel j (entriesPerSect * i + j) = .ended) ∨
      (firstMatch (entryNamed f pos filename) (entriesPerSect * (i + 1)) = none ∧
        entriesPerSect * (i + 1) ≤ n ∧
        searchEntries buf filename n fuel j (entriesPerSect * i + j) =
          .more (entriesPerSect * (i + 1))) := by
  induction fuel generalizing j with
  | zero =>
    have last : entriesPerSect * (i + 1) = entriesPerSect * i + j := by
      rw [Nat.mul_succ]
      omega
    refine .inr (.inr ⟨?_, by omega, by rw [last]; rfl⟩)
    rw [firstMatch_eq_none, last]
    exact before
  | succ fuel ih =>
    have bound : j < entriesPerSect := by omega
    have next_ : entriesPerSect * i + (j + 1) ≤ entriesPerSect * (i + 1) := by
      rw [Nat.mul_succ]
      omega
    have named := entryNamed_congr filename (sector_entry bytes bound)
    have nr := entryNr_congr (sector_entry bytes bound)
    cases hit : entryNamed f pos filename (entriesPerSect * i + j) with
    | true =>
      refine .inl ⟨entriesPerSect * i + j, firstMatch_eq_some.mpr ⟨by omega, hit, before⟩, ?_⟩
      rw [searchEntries, named, hit, if_pos rfl, nr]
    | false =>
      have upTo : ∀ y, y < entriesPerSect * i + (j + 1) → entryNamed f pos filename y = false := by
        intro y below
        by_cases here : y = entriesPerSect * i + j
        · rwa [here]
        · exact before y (by omega)
      by_cases last : entriesPerSect * i + j + 1 > n
      · refine .inr (.inl ⟨firstMatch_eq_none.mpr fun y below => upTo y (by omega), by omega, ?_⟩)
        rw [searchEntries, named, hit, if_neg Bool.false_ne_true, if_pos last]
      · have step : searchEntries buf filename n (fuel + 1) j (entriesPerSect * i + j) =
            searchEntries buf filename n fuel (j + 1) (entriesPerSect * i + (j + 1)) := by
          rw [searchEntries, named, hit, if_neg Bool.false_ne_true, if_neg last, Nat.add_assoc]
        rw [step]
        exact ih (j + 1) (by omega) (by omega) upTo

theorem searchBlocks_spec {dir : Inode} (filename : List UInt8) (dev : dir.iDev = rootDev)
    (fuel i : Nat) (s : State) (reach : entriesPerSect * i ≤ dir.iSize / dirEntrySize)
    (before : ∀ y, y < entriesPerSect * i → entryNamed s.disk (dirPos dir) filename y = false) :
    ∃ s', searchBlocks dir filename fuel i (entriesPerSect * i) s =
        .ok (lookup s.disk (dirPos dir) filename
          (min (entriesPerSect * (i + fuel)) (dir.iSize / dirEntrySize + 1)), s') ∧
      DiskOnly s s' ∧ s'.disk = s.disk := by
  induction fuel generalizing i s with
  | zero =>
    refine ⟨s, ?_, DiskOnly.refl s, rfl⟩
    have none_ : firstMatch (entryNamed s.disk (dirPos dir) filename)
        (min (entriesPerSect * (i + 0)) (dir.iSize / dirEntrySize + 1)) = none :=
      firstMatch_eq_none.mpr fun y below => before y (by
        rw [Nat.add_zero] at below
        omega)
    rw [searchBlocks, lookup, none_]
  | succ fuel ih =>
    have place : (dir.iStartSect + i) * sectorSize = dirPos dir + i * sectorSize := Nat.add_mul ..
    have bytes (a : Nat) (bound : a < sectorSize) :=
      State.transfer_read_fsbuf s rootDev (dirPos dir + i * sectorSize) bound
    have only := DiskOnly.transfer s .devRead rootDev (dirPos dir + i * sectorSize) sectorSize
    generalize read : s.transfer .devRead rootDev (dirPos dir + i * sectorSize) sectorSize = r
      at bytes only
    have sameDisk : r.disk = s.disk := read ▸ rfl
    have bound : entriesPerSect * (i + 1) ≤ entriesPerSect * (i + (fuel + 1)) :=
      Nat.mul_le_mul_left _ (by omega)
    simp only [searchBlocks, dev, State.rdSect_rootDev, place, read, bind, Except.bind]
    rcases searchEntries_spec bytes entriesPerSect 0 (Nat.zero_add _) reach before with
      ⟨x, first_, found⟩ | ⟨none_, short, ended⟩ | ⟨none_, long, more⟩
    · refine ⟨r, ?_, only, sameDisk⟩
      rw [firstMatch_eq_some] at first_
      have first' : firstMatch (entryNamed s.disk (dirPos dir) filename)
          (min (entriesPerSect * (i + (fuel + 1))) (dir.iSize / dirEntrySize + 1)) = some x :=
        firstMatch_eq_some.mpr ⟨by omega, first_.2⟩
      rw [Nat.add_zero] at found
      simp only [found, lookup, first']
      rfl
    · refine ⟨r, ?_, only, sameDisk⟩
      have whole : min (entriesPerSect * (i + (fuel + 1))) (dir.iSize / dirEntrySize + 1) =
          dir.iSize / dirEntrySize + 1 := by omega
      rw [Nat.add_zero] at ended
      simp only [ended, lookup, whole, none_]
      rfl
    · rw [Nat.add_zero] at more
      rw [firstMatch_eq_none] at none_
      obtain ⟨s', done, only', same'⟩ := ih (i + 1) r long (by rwa [sameDisk])
      refine ⟨s', ?_, only.trans only', same'.trans sameDisk⟩
      simp only [more]
      rw [done, sameDisk, show i + 1 + fuel = i + (fuel + 1) by omega]

theorem searchFile_eq (s : State) (pathname : List UInt8)
    (dev : (s.inodeTable s.rootInode).iDev = rootDev) :
    ∃ s', searchFile s pathname = .ok (lookupPath s pathname, s') ∧ DiskOnly s s' ∧
      s'.disk = s.disk := by
  simp only [searchFile, lookupPath]
  cases stripPath pathname with
  | none => exact ⟨s, rfl, DiskOnly.refl s, rfl⟩
  | some filename =>
    cases filename with
    | nil => exact ⟨s, rfl, DiskOnly.refl s, rfl⟩
    | cons c rest =>
      have done := searchBlocks_spec (c :: rest) dev
        (searchDirBlks (s.inodeTable s.rootInode)) 0 s (Nat.zero_le _)
        (fun y below => absurd below (Nat.not_lt_zero y))
      simpa only [Nat.mul_zero, Nat.zero_add, searched] using done

end Konix.Fs
