import Konix.Const
import Konix.Lib.Splice
import Konix.Lib.Words

set_option autoImplicit false

namespace Konix.Boot

open Splice Words

def bpbBytsPerSec : Nat := 512
def bpbRsvdSecCnt : Nat := 1
def bpbNumFATs : Nat := 2
def bpbFATSz16 : Nat := 9
def bpbSecPerTrk : Nat := 18
def bpbNumHeads : Nat := 2
def rootDirSectors : Nat := 14
def sectorNoOfFAT1 : Nat := 1
def deltaSectorNo : Nat := 17

def baseOfLoaderPhyAddr : Nat := 0x9000 * 0x10
def baseOfKernelFile : Nat := 0x7000
def offsetOfKernelFile : Nat := 0
def baseOfKernelFilePhyAddr : Nat := baseOfKernelFile * 0x10
def kernelValidSpace : Nat := baseOfLoaderPhyAddr - baseOfKernelFilePhyAddr

-- Why the loader does not go on: a quotient that does not fit its register, the endless loop behind
-- `Too Large`, a chain that is longer than assumed, or an address that is not mapped.
inductive BootStop
  | divide
  | tooLarge
  | runsOn
  | pageFault
deriving DecidableEq, Repr

-- What `int 13h` was asked for: so many sectors from a sector on, to a physical address.
structure Request where
  sector : Nat
  count : Nat
  address : Nat
deriving DecidableEq, Repr

structure Machine where
  es : Nat
  bx : Nat
  mem : Nat → UInt8
  requests : List Request

def Machine.address (m : Machine) : Nat := m.es * 16 + m.bx

-- `int 13h` for the drive whose sector `n` is `disk n`.
def int13h (disk : Nat → Nat → UInt8) (m : Machine) (al ch cl dh : Nat) : Machine :=
  let sector := (ch * bpbNumHeads + dh) * bpbSecPerTrk + (cl - 1)
  { m with
    mem := splice m.mem m.address (al * bpbBytsPerSec) fun j =>
      disk (sector + j / bpbBytsPerSec) (j % bpbBytsPerSec)
    requests := m.requests ++ [⟨sector, al, m.address⟩] }

def readSector (disk : Nat → Nat → UInt8) (m : Machine) (ax cl : Nat) : Except BootStop Machine :=
  let al := ax / bpbSecPerTrk
  let ah := ax % bpbSecPerTrk
  if 256 ≤ al then .error .divide
  else .ok (int13h disk m cl (al >>> 1) (ah + 1) (al &&& 1))

-- `GetFATEntry` of boot.asm and of loader.asm, which keep the FAT below their own `base`; `es` and
-- `bx` are saved and restored.
def getFATEntryVia (base : Nat) (disk : Nat → Nat → UInt8) (m : Machine) (ax : Nat) :
    Except BootStop (Machine × Nat) := do
  let odd := ax * 3 % 2
  let ax := ax * 3 / 2
  if 65536 ≤ ax then .error .divide
  else
    let dx := ax % bpbBytsPerSec
    let ax := ax / bpbBytsPerSec
    let read ← readSector disk { m with es := base - 0x100, bx := 0 } (ax + sectorNoOfFAT1) 2
    let ax := halfAt read.mem (read.address + dx)
    let ax := if odd = 1 then ax >>> 4 else ax
    return ({ read with es := m.es, bx := m.bx }, ax &&& 0xFFF)

-- `LABEL_GOON_LOADING_FILE` of both, with the way each goes on to the next block; the sector is in
-- `ax` and its number in the FAT on the stack.
def goonLoadingVia (base : Nat) (next : Machine → Machine) (disk : Nat → Nat → UInt8) :
    Nat → Machine → Nat → Nat → Except BootStop Machine
  | 0, _, _, _ => .error .runsOn
  | fuel + 1, m, ax, saved => do
    let m ← readSector disk m ax 1
    let (m, entry) ← getFATEntryVia base disk m saved
    if entry = 0xFFF then return m
    else
      let ax := (entry + rootDirSectors + deltaSectorNo) % 65536
      goonLoadingVia base next disk fuel (next m) ax entry

-- `add bx, [BPB_BytsPerSec]` and, where that carries, the next segment.
def Machine.nextBlock (m : Machine) : Machine :=
  let bx := m.bx + bpbBytsPerSec
  if 65536 ≤ bx then { m with es := (m.es + 0x1000) % 65536, bx := bx - 65536 }
  else { m with bx := bx }

-- What loader.asm has of these.
def getFATEntry : (Nat → Nat → UInt8) → Machine → Nat → Except BootStop (Machine × Nat) :=
  getFATEntryVia baseOfKernelFile

def goonLoadingFile : (Nat → Nat → UInt8) → Nat → Machine → Nat → Nat → Except BootStop Machine :=
  goonLoadingVia baseOfKernelFile Machine.nextBlock

-- `LABEL_FILENAME_FOUND`, with `es:di` in the directory entry of the file.
def filenameFound (disk : Nat → Nat → UInt8) (fuel : Nat) (m : Machine) (di : Nat) :
    Except BootStop Machine :=
  let di := di &&& 0xFFF0
  let size := wordAt m.mem (m.es * 16 + (di + 0x1C) % 65536)
  if size > kernelValidSpace then .error .tooLarge
  else
    let cx := halfAt m.mem (m.es * 16 + (di + 0x1A) % 65536)
    let ax := (cx + rootDirSectors + deltaSectorNo) % 65536
    goonLoadingFile disk fuel { m with es := baseOfKernelFile, bx := offsetOfKernelFile } ax cx

def fatByte (disk : Nat → Nat → UInt8) (k : Nat) : Nat :=
  (disk (bpbRsvdSecCnt + k / bpbBytsPerSec) (k % bpbBytsPerSec)).toNat

def fatEntry (disk : Nat → Nat → UInt8) (n : Nat) : Nat :=
  if n % 2 = 0 then fatByte disk (n * 3 / 2) + 256 * (fatByte disk (n * 3 / 2 + 1) % 16)
  else fatByte disk (n * 3 / 2) / 16 + 16 * fatByte disk (n * 3 / 2 + 1)

def InData (c : Nat) : Prop := 2 ≤ c ∧ c ≤ 2848

-- Cluster 2 is the first one behind the root directory.
def dataSector (c : Nat) : Nat := bpbRsvdSecCnt + bpbNumFATs * bpbFATSz16 + rootDirSectors + (c - 2)

-- The chain of clusters, whose last entry in the FAT is `e`.
def Chained (disk : Nat → Nat → UInt8) : List Nat → Nat → Prop
  | [], _ => False
  | [c], e => InData c ∧ fatEntry disk c = e
  | c :: d :: rest, e => InData c ∧ fatEntry disk c = d ∧ Chained disk (d :: rest) e

-- The requests that load a chain from block `i` of a buffer on; the FAT is read in between.
def loadingVia (base start : Nat) : Nat → List Nat → List Request
  | _, [] => []
  | i, c :: rest =>
    ⟨dataSector c, 1, start + 512 * i⟩ ::
      ⟨sectorNoOfFAT1 + c * 3 / 2 / 512, 2, (base - 0x100) * 16⟩ ::
        loadingVia base start (i + 1) rest

def loading : Nat → List Nat → List Request := loadingVia baseOfKernelFile baseOfKernelFilePhyAddr

structure Loaded (disk : Nat → Nat → UInt8) (i : Nat) (chain : List Nat) (m m' : Machine) :
    Prop where
  requests : m'.requests = m.requests ++ loading i chain
  blocks : ∀ k c, chain[k]? = some c → ∀ j, j < 512 →
    m'.mem (baseOfKernelFilePhyAddr + 512 * (i + k) + j) = disk (dataSector c) j
  kept : ∀ a, baseOfKernelFilePhyAddr ≤ a → a < baseOfKernelFilePhyAddr + 512 * i →
    m'.mem a = m.mem a

/--
How a program goes on from block to block: `Here i` says that the address is that of block `i`, of
which there are `limit`, from `start` on.
-/
structure Advances (next : Machine → Machine) (Here : Nat → Machine → Prop) (start limit : Nat) :
    Prop where
  address : ∀ {i m}, Here i m → m.address = start + 512 * i
  same : ∀ {i m m'}, Here i m → m'.es = m.es → m'.bx = m.bx → Here i m'
  advance : ∀ {i m}, Here i m → i + 1 < limit → Here (i + 1) (next m)
  mem : ∀ m, (next m).mem = m.mem
  requests : ∀ m, (next m).requests = m.requests

/--
The clusters of a chain are in the blocks from `i` on; but for these and for the buffer of the FAT
nothing has changed.
-/
structure Filled (disk : Nat → Nat → UInt8) (base start i : Nat) (chain : List Nat)
    (m m' : Machine) : Prop where
  blocks : ∀ k c, chain[k]? = some c → ∀ j, j < 512 →
    m'.mem (start + 512 * (i + k) + j) = disk (dataSector c) j
  kept : ∀ a, a < (base - 0x100) * 16 ∨ (base - 0x100) * 16 + 1024 ≤ a →
    a < start + 512 * i ∨ start + 512 * (i + chain.length) ≤ a → m'.mem a = m.mem a

-- And these are all the sectors that were read.
structure Followed (disk : Nat → Nat → UInt8) (base start i : Nat) (chain : List Nat)
    (m m' : Machine) : Prop extends Filled disk base start i chain m m' where
  requests : m'.requests = m.requests ++ loadingVia base start i chain

structure DirEntry (m : Machine) (di first size : Nat) : Prop where
  size : wordAt m.mem (m.es * 16 + ((di &&& 0xFFF0) + 0x1C) % 65536) = size
  first : halfAt m.mem (m.es * 16 + ((di &&& 0xFFF0) + 0x1A) % 65536) = first

section

variable {disk : Nat → Nat → UInt8} {m m' : Machine}

def Machine.reads (disk : Nat → Nat → UInt8) (m : Machine) (s cl : Nat) : Machine :=
  { m with
    mem := splice m.mem m.address (cl * bpbBytsPerSec) fun j =>
      disk (s + j / bpbBytsPerSec) (j % bpbBytsPerSec)
    requests := m.requests ++ [⟨s, cl, m.address⟩] }

@[simp] theorem reads_address (s cl : Nat) : (m.reads disk s cl).address = m.address := rfl

@[simp] theorem reads_requests (s cl : Nat) :
    (m.reads disk s cl).requests = m.requests ++ [⟨s, cl, m.address⟩] := rfl

theorem reads_mem (s cl : Nat) : (m.reads disk s cl).mem =
    splice m.mem m.address (cl * 512) fun j => disk (s + j / 512) (j % 512) := rfl

theorem reads_inside {s cl j : Nat} (inside : j < cl * 512) :
    (m.reads disk s cl).mem (m.address + j) = disk (s + j / 512) (j % 512) := by
  have place : m.address + j - m.address = j := by omega
  rw [reads_mem, splice_inside _ _ (by omega) (by omega), place]

theorem reads_outside {s cl a : Nat} (outside : a < m.address ∨ m.address + cl * 512 ≤ a) :
    (m.reads disk s cl).mem a = m.mem a := by
  rw [reads_mem, splice_outside _ _ outside]

theorem readSector_ok {s : Nat} (bound : s < 4608) (cl : Nat) :
    readSector disk m s cl = .ok (m.reads disk s cl) := by
  have fits : ¬ 256 ≤ s / bpbSecPerTrk := by
    unfold bpbSecPerTrk
    omega
  have sector : ((s / bpbSecPerTrk) >>> 1 * bpbNumHeads + (s / bpbSecPerTrk &&& 1)) * bpbSecPerTrk +
      (s % bpbSecPerTrk + 1 - 1) = s := by
    rw [Nat.shiftRight_eq_div_pow, Nat.and_one_is_mod]
    unfold bpbSecPerTrk bpbNumHeads
    omega
  simp only [readSector, if_neg fits, int13h, sector]
  rfl

theorem and_fff (x : Nat) : x &&& 0xFFF = x % 4096 := by
  rw [show 0xFFF = 2 ^ 12 - 1 from rfl, Nat.and_two_pow_sub_one_eq_mod]

theorem entry_of_bytes {n low high : Nat} (lowByte : low < 256) (highByte : high < 256) :
    (if n * 3 % 2 = 1 then (low + 256 * high) >>> 4 else low + 256 * high) &&& 0xFFF =
      if n % 2 = 0 then low + 256 * (high % 16) else low / 16 + 16 * high := by
  rw [and_fff, Nat.shiftRight_eq_div_pow]
  by_cases even : n % 2 = 0
  next =>
    have notOdd : ¬ n * 3 % 2 = 1 := by omega
    rw [if_pos even, if_neg notOdd]
    omega
  next =>
    have odd : n * 3 % 2 = 1 := by omega
    rw [if_neg even, if_pos odd]
    omega

theorem fatByte_lt (disk : Nat → Nat → UInt8) (k : Nat) : fatByte disk k < 256 := UInt8.toNat_lt _

-- An entry may begin in the last byte of a sector: its bytes are within the two that are read.
theorem reads_fatByte (disk : Nat → Nat → UInt8) (m : Machine) (off : Nat) {k : Nat}
    (near : k < 2) :
    ((m.reads disk (off / 512 + 1) 2).mem (m.address + (off % 512 + k))).toNat =
      fatByte disk (off + k) := by
  have inside : off % 512 < 512 := Nat.mod_lt off (by decide)
  have sector : off / 512 + 1 + (off % 512 + k) / 512 = 1 + (off + k) / 512 := by omega
  have byte : (off % 512 + k) % 512 = (off + k) % 512 := by omega
  rw [reads_inside (by omega), sector, byte]
  rfl

theorem reads_halfAt (off : Nat) :
    halfAt (m.reads disk (off / 512 + 1) 2).mem (m.address + off % 512) =
      fatByte disk off + 256 * fatByte disk (off + 1) := by
  have low := reads_fatByte disk m off (by decide : 0 < 2)
  have high := reads_fatByte disk m off (by decide : 1 < 2)
  simp only [Nat.add_zero] at low
  rw [halfAt, low, Nat.add_assoc, high]

theorem InData.sector {c : Nat} (inData : InData c) :
    (c + rootDirSectors + deltaSectorNo) % 65536 = dataSector c ∧ dataSector c < 4608 := by
  obtain ⟨low, high⟩ := inData
  unfold dataSector rootDirSectors deltaSectorNo bpbRsvdSecCnt bpbNumFATs bpbFATSz16
  omega

theorem Chained.inData {c e : Nat} {rest : List Nat} (chained : Chained disk (c :: rest) e) :
    InData c := by
  cases rest with
  | nil => exact chained.1
  | cons d rest => exact chained.1

theorem readSector_requests {ax cl : Nat} (done : readSector disk m ax cl = .ok m') :
    m.requests.length < m'.requests.length := by
  rw [readSector] at done
  split at done
  · cases done
  · cases done
    simp [int13h]

end

section

variable {disk : Nat → Nat → UInt8} {m m' : Machine} {base start limit i c fuel : Nat}
  {rest : List Nat}

theorem getFATEntryVia_ok (base : Nat) (disk : Nat → Nat → UInt8) (m : Machine) {n : Nat}
    (bound : n < 3072) :
    ∃ m', getFATEntryVia base disk m n = .ok (m', fatEntry disk n) ∧ m'.es = m.es ∧
      m'.bx = m.bx ∧
      m'.requests = m.requests ++ [⟨sectorNoOfFAT1 + n * 3 / 2 / 512, 2, (base - 0x100) * 16⟩] ∧
      ∀ a, a < (base - 0x100) * 16 ∨ (base - 0x100) * 16 + 1024 ≤ a → m'.mem a = m.mem a := by
  generalize buffer : ({ m with es := base - 0x100, bx := 0 } : Machine) = f
  have address : f.address = (base - 0x100) * 16 := by
    rw [← buffer]
    exact Nat.add_zero _
  have fits : ¬ 65536 ≤ n * 3 / 2 := by omega
  have read : readSector disk f (n * 3 / 2 / 512 + 1) 2 =
      .ok (f.reads disk (n * 3 / 2 / 512 + 1) 2) := readSector_ok (by omega) 2
  have entry := entry_of_bytes (n := n) (fatByte_lt disk (n * 3 / 2))
    (fatByte_lt disk (n * 3 / 2 + 1))
  have word : halfAt (f.reads disk (n * 3 / 2 / 512 + 1) 2).mem
      (f.address + n * 3 / 2 % bpbBytsPerSec) =
      fatByte disk (n * 3 / 2) + 256 * fatByte disk (n * 3 / 2 + 1) := reads_halfAt _
  refine ⟨{ f.reads disk (n * 3 / 2 / 512 + 1) 2 with es := m.es, bx := m.bx }, ?_, rfl, rfl, ?_,
    ?_⟩
  · rw [getFATEntryVia]
    simp only [if_neg fits, buffer]
    refine (bind_of_ok _ read).trans ?_
    simp only [reads_address]
    rw [word, entry, ← fatEntry]
    rfl
  · show (f.reads disk (n * 3 / 2 / 512 + 1) 2).requests = _
    rw [reads_requests, address, Nat.add_comm, ← buffer]
    rfl
  · intro a outside
    show (f.reads disk (n * 3 / 2 / 512 + 1) 2).mem a = m.mem a
    rw [reads_outside (by rw [address]; omega), ← buffer]

theorem getFATEntryVia_requests {ax : Nat} {r : Machine × Nat}
    (done : getFATEntryVia base disk m ax = .ok r) : m.requests.length < r.1.requests.length := by
  rw [getFATEntryVia] at done
  split at done
  · cases done
  · obtain ⟨read, asked, done⟩ := bind_ok done
    cases done
    have more := readSector_requests asked
    exact more

theorem Followed.cons {next : Machine → Machine} {m₁ : Machine} (mem : (next m₁).mem = m₁.mem)
    (requests : (next m₁).requests = m₁.requests) (below : (base - 0x100) * 16 + 1024 ≤ start)
    (first : Followed disk base start i [c] m m₁)
    (later : Followed disk base start (i + 1) rest (next m₁) m') :
    Followed disk base start i (c :: rest) m m' := by
  constructor
  case requests => simp [later.requests, requests, first.requests, loadingVia]
  constructor
  case blocks =>
    intro k d here j inside
    cases k with
    | zero =>
      rw [← first.blocks 0 d (by simpa using here) j inside,
        later.kept _ (.inr (by omega)) (.inl (by omega)), mem]
    | succ k =>
      have moved : i + (k + 1) = i + 1 + k := by omega
      rw [moved]
      exact later.blocks k d (by simpa using here) j inside
  case kept =>
    intro a fat out
    rw [List.length_cons] at out
    have firstOut : a < start + 512 * i ∨ start + 512 * (i + 1) ≤ a :=
      out.imp_right fun above =>
        le_trans (Nat.add_le_add_left (Nat.mul_le_mul_left 512 (by omega)) start) above
    rw [later.kept a fat (by omega), mem, first.kept a fat firstOut]

variable {next : Machine → Machine} {Here : Nat → Machine → Prop}

theorem goonLoadingVia_turn (disk : Nat → Nat → UInt8) (advances : Advances next Here start limit)
    (below : (base - 0x100) * 16 + 1024 ≤ start) (inData : InData c) (here : Here i m) :
    ∃ m₁, Followed disk base start i [c] m m₁ ∧ Here i m₁ ∧ ∀ fuel,
      goonLoadingVia base next disk (fuel + 1) m (dataSector c) c =
        if fatEntry disk c = 0xFFF then .ok m₁
        else goonLoadingVia base next disk fuel (next m₁)
          ((fatEntry disk c + rootDirSectors + deltaSectorNo) % 65536) (fatEntry disk c) := by
  have read : readSector disk m (dataSector c) 1 = .ok (m.reads disk (dataSector c) 1) :=
    readSector_ok inData.sector.2 1
  have address := advances.address here
  obtain ⟨m₁, found, es, bx, requests, kept⟩ :=
    getFATEntryVia_ok base disk (m.reads disk (dataSector c) 1)
      (lt_of_le_of_lt inData.2 (by decide))
  refine ⟨m₁, ⟨⟨?_, ?_⟩, ?_⟩, advances.same here es bx, ?_⟩
  · intro k d isFirst j inside
    have first : k = 0 ∧ c = d := by
      cases k with
      | zero => exact ⟨rfl, by simpa using isFirst⟩
      | succ k => simp at isFirst
    obtain ⟨rfl, rfl⟩ := first
    rw [Nat.add_zero, kept _ (.inr (by omega)), ← address, reads_inside (by omega),
      Nat.div_eq_of_lt inside, Nat.mod_eq_of_lt inside, Nat.add_zero]
  · intro a fat out
    rw [List.length_singleton] at out
    have block : a < m.address ∨ m.address + 1 * 512 ≤ a := by
      rw [address, Nat.one_mul, Nat.add_assoc, ← Nat.mul_succ]
      exact out
    rw [kept a fat]
    exact reads_outside block
  · rw [requests, reads_requests, address, List.append_assoc]
    rfl
  · intro fuel
    rw [goonLoadingVia]
    refine (bind_of_ok _ read).trans ((bind_of_ok _ found).trans ?_)
    rfl

theorem InData.not_last {d : Nat} (inData : InData d) : d ≠ 0xFFF := by
  have bound := inData.2
  omega

theorem goonLoadingVia_follows (advances : Advances next Here start limit)
    (below : (base - 0x100) * 16 + 1024 ≤ start) (chained : Chained disk (c :: rest) 0xFFF)
    (here : Here i m) (room : i + rest.length < limit) (enough : rest.length < fuel) :
    ∃ m', goonLoadingVia base next disk fuel m (dataSector c) c = .ok m' ∧
      Followed disk base start i (c :: rest) m m' := by
  obtain ⟨fuel, rfl⟩ : ∃ fuel', fuel = fuel' + 1 := ⟨fuel - 1, by omega⟩
  induction rest generalizing c i m fuel with
  | nil =>
    obtain ⟨inData, last⟩ := chained
    obtain ⟨m₁, followed, -, turn⟩ := goonLoadingVia_turn disk advances below inData here
    exact ⟨m₁, by rw [turn fuel, if_pos last], followed⟩
  | cons d rest ih =>
    obtain ⟨inData, link, chained⟩ := chained
    have inData' : InData d := chained.inData
    obtain ⟨m₁, followed, there, turn⟩ := goonLoadingVia_turn disk advances below inData here
    rw [List.length_cons] at room enough
    obtain ⟨fuel, rfl⟩ : ∃ fuel', fuel = fuel' + 1 := ⟨fuel - 1, by omega⟩
    obtain ⟨m', done, followed'⟩ :=
      ih chained (advances.advance there (by omega)) (by omega) fuel (by omega)
    refine ⟨m', ?_, followed.cons (advances.mem m₁) (advances.requests m₁) below followed'⟩
    rw [turn (fuel + 1), link, if_neg inData'.not_last, inData'.sector.1, done]

theorem goonLoadingVia_requests {ax saved : Nat} (asks : ∀ m, (next m).requests = m.requests)
    (done : goonLoadingVia base next disk fuel m ax saved = .ok m') :
    m.requests.length < m'.requests.length := by
  induction fuel generalizing m ax saved with
  | zero => cases done
  | succ fuel ih =>
    rw [goonLoadingVia] at done
    obtain ⟨m₁, asked, done⟩ := bind_ok done
    obtain ⟨⟨m₂, entry⟩, found, done⟩ := bind_ok done
    have more := readSector_requests asked
    have more' := getFATEntryVia_requests found
    dsimp only at done more'
    split at done
    · cases done
      omega
    · have further := ih done
      rw [asks] at further
      omega

theorem goonLoadingVia_passes {e : Nat} (advances : Advances next Here start limit)
    (below : (base - 0x100) * 16 + 1024 ≤ start) (chained : Chained disk (c :: rest) e)
    (other : e ≠ 0xFFF) (here : Here i m) (room : i + rest.length < limit)
    (done : goonLoadingVia base next disk fuel m (dataSector c) c = .ok m') :
    (m.requests ++ loadingVia base start i (c :: rest)).length < m'.requests.length := by
  induction rest generalizing c i m fuel with
  | nil =>
    obtain ⟨inData, last⟩ := chained
    obtain ⟨m₁, followed, -, turn⟩ := goonLoadingVia_turn disk advances below inData here
    cases fuel with
    | zero => cases done
    | succ fuel =>
      rw [turn fuel, last, if_neg other] at done
      have further := goonLoadingVia_requests advances.requests done
      rwa [advances.requests, followed.requests] at further
  | cons d rest ih =>
    obtain ⟨inData, link, chained⟩ := chained
    have inData' : InData d := chained.inData
    obtain ⟨m₁, followed, there, turn⟩ := goonLoadingVia_turn disk advances below inData here
    rw [List.length_cons] at room
    cases fuel with
    | zero => cases done
    | succ fuel =>
      rw [turn fuel, link, if_neg inData'.not_last, inData'.sector.1] at done
      have further := ih chained (advances.advance there (by omega)) (by omega) done
      rw [advances.requests, followed.requests, List.append_assoc] at further
      exact further

end

section

variable {disk : Nat → Nat → UInt8} {m m' : Machine} {di c size e : Nat} {rest : List Nat}

structure Machine.At (m : Machine) (i : Nat) : Prop where
  es : m.es = baseOfKernelFile + 0x1000 * (i / 128)
  bx : m.bx = 512 * (i % 128)

theorem Machine.At.address {i : Nat} (here : m.At i) :
    m.address = baseOfKernelFilePhyAddr + 512 * i := by
  rw [Machine.address, here.es, here.bx]
  unfold baseOfKernelFilePhyAddr
  omega

theorem Machine.At.nextBlock {i : Nat} (here : m.At i) (room : i < 1024) :
    m.nextBlock.At (i + 1) := by
  rw [Machine.nextBlock, here.es, here.bx]
  unfold bpbBytsPerSec baseOfKernelFile
  by_cases carry : 65536 ≤ 512 * (i % 128) + 512
  next =>
    simp only [if_pos carry]
    constructor
    · show (0x7000 + 0x1000 * (i / 128) + 0x1000) % 65536 = _
      unfold baseOfKernelFile
      omega
    · show 512 * (i % 128) + 512 - 65536 = _
      omega
  next =>
    simp only [if_neg carry]
    constructor
    · show 0x7000 + 0x1000 * (i / 128) = _
      unfold baseOfKernelFile
      omega
    · show 512 * (i % 128) + 512 = _
      omega

@[simp] theorem nextBlock_mem : m.nextBlock.mem = m.mem := by
  rw [Machine.nextBlock]
  split <;> rfl

@[simp] theorem nextBlock_requests : m.nextBlock.requests = m.requests := by
  rw [Machine.nextBlock]
  split <;> rfl

theorem nextBlock_advances :
    Advances Machine.nextBlock (fun i m => m.At i) baseOfKernelFilePhyAddr 1024 := by
  constructor
  case address => exact fun here => here.address
  case same => exact fun here es bx => ⟨es.trans here.es, bx.trans here.bx⟩
  case advance => exact fun here room => here.nextBlock (by omega)
  case mem => exact fun _ => nextBlock_mem
  case requests => exact fun _ => nextBlock_requests

theorem fatBelow : (baseOfKernelFile - 0x100) * 16 + 1024 ≤ baseOfKernelFilePhyAddr := by decide

theorem Followed.loaded {i : Nat} {chain : List Nat}
    (followed : Followed disk baseOfKernelFile baseOfKernelFilePhyAddr i chain m m') :
    Loaded disk i chain m m' :=
  ⟨followed.requests, followed.blocks, fun a above below =>
    followed.kept a (.inr (le_trans fatBelow above)) (.inl below)⟩

theorem loads_at (m : Machine) :
    Machine.At { m with es := baseOfKernelFile, bx := offsetOfKernelFile } 0 :=
  ⟨rfl, rfl⟩

theorem filenameFound_eq (entry : DirEntry m di c size) (valid : size ≤ kernelValidSpace)
    (inData : InData c) (fuel : Nat) :
    filenameFound disk fuel m di = goonLoadingFile disk fuel
      { m with es := baseOfKernelFile, bx := offsetOfKernelFile } (dataSector c) c := by
  have fits : ¬ size > kernelValidSpace := not_lt.mpr valid
  simp only [filenameFound, entry.size, entry.first, if_neg fits, inData.sector.1]

/--
The loader reads the clusters of the kernel's chain in order, each to the block behind the last one,
and then stops, if and only if the chain ends with 0xFFF: the loop tests for no other end marker.
-/
theorem loader_follows_fat (entry : DirEntry m di c size) (valid : size ≤ kernelValidSpace)
    (chained : Chained disk (c :: rest) e) (clusters : 512 * rest.length < size)
    (marker : 0xFF8 ≤ e ∧ e ≤ 0xFFF) :
    (∃ fuel m', filenameFound disk fuel m di = .ok m' ∧ Loaded disk 0 (c :: rest) m m') ↔
      e = 0xFFF := by
  have inData : InData c := chained.inData
  have room : 0 + rest.length < 1024 := by
    have space : kernelValidSpace = 131072 := rfl
    omega
  constructor
  next =>
    rintro ⟨fuel, m', done, loaded⟩
    by_contra other
    rw [filenameFound_eq entry valid inData] at done
    have more :=
      goonLoadingVia_passes nextBlock_advances fatBelow chained other (loads_at m) room done
    rw [loaded.requests] at more
    exact lt_irrefl _ more
  next =>
    rintro rfl
    obtain ⟨m', done, followed⟩ := goonLoadingVia_follows nextBlock_advances fatBelow chained
      (loads_at m) room (Nat.lt_succ_self rest.length)
    have loaded := followed.loaded
    refine ⟨rest.length + 1, m', ?_, loaded.requests, loaded.blocks, loaded.kept⟩
    rw [filenameFound_eq entry valid inData]
    exact done

end

-- A FAT in which a file has the clusters 2, 3 and 5, up to the end marker.
def threeClusters (e : Nat) : Nat → UInt8 := fun j =>
  if j = 3 then 3 else if j = 4 then 0x50 else if j = 7 then UInt8.ofNat (e % 16 * 16)
  else if j = 8 then UInt8.ofNat (e / 16) else 0

def longFloppy : Nat → Nat → UInt8 := fun s j => if s = 1 then threeClusters 0xFFF j else 0

def longFile : Machine :=
  ⟨0x7000, 0, fun a => if a = 0x7001A then 2 else if a = 0x7001C then 0xB0
    else if a = 0x7001D then 4 else 0, []⟩

theorem threeClusters_chained {disk : Nat → Nat → UInt8}
    (fat : ∀ j, disk 1 j = threeClusters 0xFFF j) : Chained disk [2, 3, 5] 0xFFF := by
  have byte (k : Nat) (inside : k < 512) : fatByte disk k = fatByte longFloppy k := by
    have sector : bpbRsvdSecCnt + k / bpbBytsPerSec = 1 := by
      rw [show bpbBytsPerSec = 512 from rfl, Nat.div_eq_of_lt inside]
      rfl
    rw [fatByte, fatByte, sector, fat]
    rfl
  have entry (n : Nat) (few : n < 300) : fatEntry disk n = fatEntry longFloppy n := by
    rw [fatEntry, fatEntry, byte _ (by omega), byte _ (by omega)]
  exact ⟨⟨by decide, by decide⟩, entry 2 (by decide), ⟨by decide, by decide⟩, entry 3 (by decide),
    ⟨by decide, by decide⟩, entry 5 (by decide)⟩

theorem longFile_entry : DirEntry longFile 0 2 1200 := ⟨by decide, by decide⟩

theorem loader_follows_fat_long :
    (∃ fuel m', filenameFound longFloppy fuel longFile 0 = .ok m' ∧
      Loaded longFloppy 0 [2, 3, 5] longFile m') ↔ 0xFFF = 0xFFF :=
  loader_follows_fat longFile_entry (by decide) (threeClusters_chained fun _ => rfl) (by decide)
    (by decide)

-- A floppy whose cluster 2 is the last one of a chain, and its file of 100 bytes in the directory.
def smallFloppy (e : Nat) : Nat → Nat → UInt8 := fun s j =>
  if s = 1 ∧ j = 3 then UInt8.ofNat (e % 256)
  else if s = 1 ∧ j = 4 then UInt8.ofNat (e / 256) else 0

def smallFile : Machine :=
  ⟨0x7000, 0, fun a => if a = 0x7001A then 2 else if a = 0x7001C then 100 else 0, []⟩

theorem smallFile_entry : DirEntry smallFile 0 2 100 := ⟨by decide, by decide⟩

theorem smallFloppy_chained : Chained (smallFloppy 0xFF8) [2] 0xFF8 :=
  ⟨⟨by decide, by decide⟩, by decide⟩

-- The loader goes on behind the end marker 0xFF8, with the sector 0xFF8 + 31.
theorem loader_goes_on :
    ¬ ∃ fuel m', filenameFound (smallFloppy 0xFF8) fuel smallFile 0 = .ok m' ∧
      Loaded (smallFloppy 0xFF8) 0 [2] smallFile m' := by
  rintro ⟨fuel, m', done, loaded⟩
  rw [filenameFound_eq smallFile_entry (by decide) smallFloppy_chained.1] at done
  have more := goonLoadingVia_passes nextBlock_advances fatBelow smallFloppy_chained (by decide)
    (loads_at smallFile) (by decide) done
  rw [loaded.requests] at more
  exact lt_irrefl _ more

end Konix.Boot
