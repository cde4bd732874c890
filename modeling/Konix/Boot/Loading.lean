import Konix.Boot.Search

set_option autoImplicit false

namespace Konix.Boot

open Splice Words

-- In boot.asm, `add bx, [BPB_BytsPerSec]` is all.
def Machine.nextSector (m : Machine) : Machine := { m with bx := (m.bx + bpbBytsPerSec) % 65536 }

def loaderFound (disk : Nat → Nat → UInt8) (fuel : Nat) (m : Machine) (di : Nat) :
    Except BootStop Machine :=
  let di := di &&& 0xFFE0
  let cx := halfAt m.mem (m.es * 16 + (di + 0x1A) % 65536)
  let ax := (cx + rootDirSectors + deltaSectorNo) % 65536
  goonLoadingVia baseOfLoader Machine.nextSector disk fuel
    { m with es := baseOfLoader, bx := offsetOfLoader } ax cx

-- boot.asm up to its jump; nothing comes of it when there is no such file.
def bootSector (disk : Nat → Nat → UInt8) (fuel : Nat) (m : Machine) :
    Except BootStop (Option Machine) := do
  match ← searchLoader disk m with
  | none => return none
  | some (m, di) => return some (← loaderFound disk fuel m di)

-- Block `i` of boot.asm's buffer, which ends with its segment.
structure Machine.AtLoader (i : Nat) (m : Machine) : Prop where
  es : m.es = baseOfLoader
  bx : m.bx = offsetOfLoader + 512 * i

def loaderBlocks : Nat := 127

theorem nextSector_advances :
    Advances Machine.nextSector Machine.AtLoader (baseOfLoaderPhyAddr + offsetOfLoader)
      loaderBlocks := by
  constructor
  case address =>
    intro i m here
    have start : baseOfLoader * 16 + offsetOfLoader = baseOfLoaderPhyAddr + offsetOfLoader := by
      decide
    rw [Machine.address, here.es, here.bx, ← Nat.add_assoc, start]
  case same => exact fun here es bx => ⟨es.trans here.es, bx.trans here.bx⟩
  case advance =>
    intro i m here room
    have bound : i + 1 < 127 := room
    have offset : offsetOfLoader = 256 := rfl
    have bytes : bpbBytsPerSec = 512 := rfl
    constructor
    next =>
      simp only [Machine.nextSector]
      exact here.es
    next =>
      simp only [Machine.nextSector]
      rw [here.bx, offset, bytes]
      omega
  case mem =>
    intro m
    simp only [Machine.nextSector]
  case requests =>
    intro m
    simp only [Machine.nextSector]

def firstCluster (disk : Nat → Nat → UInt8) (k : Nat) : Nat := halfAt (rootEntry disk k) 0x1A

section

variable {disk : Nat → Nat → UInt8} {m m' : Machine} {base offset k di : Nat}

theorem FoundAt.entry (found : FoundAt disk base offset k m m' di) {j : Nat} (inside : j < 32) :
    m'.mem (base * 16 + offset + 32 * (k % 16) + j) = rootEntry disk k j := by
  rw [Nat.add_assoc (base * 16 + offset), found.sector _ (by omega)]
  rfl

theorem FoundAt.cluster (found : FoundAt disk base offset k m m' di) :
    halfAt m'.mem (base * 16 + (offset + 32 * (k % 16) + 0x1A)) = firstCluster disk k := by
  have low := found.entry (j := 0x1A) (by decide)
  have high := found.entry (j := 0x1A + 1) (by decide)
  simp only [Nat.add_assoc] at low high ⊢
  rw [firstCluster, halfAt, halfAt, low]
  simp only [Nat.add_assoc]
  rw [high]

def fileSize (disk : Nat → Nat → UInt8) (k : Nat) : Nat := wordAt (rootEntry disk k) 0x1C

theorem FoundAt.dirEntry (found : FoundAt disk baseOfKernelFile offsetOfKernelFile k m m' di) :
    DirEntry m' di (firstCluster disk k) (fileSize disk k) := by
  have entry : di &&& 0xFFF0 = 32 * (k % 16) := by
    rw [found.di, and_fff0, show offsetOfKernelFile = 0 from rfl]
    omega
  have inside (j : Nat) (small : j < 32) : (32 * (k % 16) + j) % 65536 = 32 * (k % 16) + j := by
    omega
  have start : baseOfKernelFile * 16 + offsetOfKernelFile = m'.es * 16 := by rw [found.es]; rfl
  constructor
  next =>
    rw [entry, inside _ (by decide)]
    refine wordAt_agree fun j small => ?_
    rw [Nat.add_assoc, Nat.add_assoc, ← Nat.add_assoc, ← start]
    exact found.entry (by omega)
  next =>
    rw [entry, inside _ (by decide), ← found.cluster, found.es,
      show offsetOfKernelFile = 0 from rfl,
      Nat.zero_add]

theorem filenameFound_fills {rest : List Nat} {c fuel : Nat}
    (found : FoundAt disk baseOfKernelFile offsetOfKernelFile k m m' di)
    (cluster : firstCluster disk k = c) (valid : fileSize disk k ≤ kernelValidSpace)
    (chained : Chained disk (c :: rest) 0xFFF) (room : rest.length < 1024)
    (enough : rest.length < fuel) :
    ∃ m'', filenameFound disk fuel m' di = .ok m'' ∧
      Filled disk baseOfKernelFile baseOfKernelFilePhyAddr 0 (c :: rest) m' m'' := by
  have entry := found.dirEntry
  rw [cluster] at entry
  rw [filenameFound_eq entry valid chained.inData]
  obtain ⟨m'', done, followed⟩ := goonLoadingVia_follows nextBlock_advances fatBelow chained
    (loads_at m') (by omega) enough
  exact ⟨m'', done, followed.blocks, followed.kept⟩

theorem loaderFound_fills {rest : List Nat} {c fuel : Nat}
    (found : FoundAt disk baseOfLoader offsetOfLoader k m m' di) (cluster : firstCluster disk k = c)
    (chained : Chained disk (c :: rest) 0xFFF) (room : rest.length < loaderBlocks)
    (enough : rest.length < fuel) :
    ∃ m'', loaderFound disk fuel m' di = .ok m'' ∧
      Filled disk baseOfLoader (baseOfLoaderPhyAddr + offsetOfLoader) 0 (c :: rest) m' m'' := by
  have inData : InData c := chained.inData
  have offset : offsetOfLoader = 256 := rfl
  have entry : di &&& 0xFFE0 = offsetOfLoader + 32 * (k % 16) := by
    rw [found.di, and_ffe0, offset]
    omega
  have place : (offsetOfLoader + 32 * (k % 16) + 0x1A) % 65536 =
      offsetOfLoader + 32 * (k % 16) + 0x1A := by
    rw [offset]
    omega
  have eq : loaderFound disk fuel m' di = goonLoadingVia baseOfLoader Machine.nextSector disk fuel
      { m' with es := baseOfLoader, bx := offsetOfLoader } (dataSector c) c := by
    rw [loaderFound]
    simp only [entry, place, found.es, found.cluster, cluster, inData.sector.1]
  rw [eq]
  have below :
      (baseOfLoader - 0x100) * 16 + 1024 ≤ baseOfLoaderPhyAddr + offsetOfLoader := by decide
  obtain ⟨m'', done, followed⟩ := goonLoadingVia_follows nextSector_advances below chained
    (m := { m' with es := baseOfLoader, bx := offsetOfLoader }) (i := 0) ⟨rfl, rfl⟩
    (by omega) enough
  exact ⟨m'', done, followed.blocks, followed.kept⟩

end

/--
The boot sector loads `LOADER.BIN`, cluster by cluster in the order of its chain, to the place that
it jumps to, whatever else is on the floppy; beside it only the buffer of the FAT changes.
-/
theorem boot_sector_loads (disk : Nat → Nat → UInt8) (m : Machine) {k c fuel : Nat}
    {rest : List Nat}
    (named : FirstNamed disk loaderFileName k) (cluster : firstCluster disk k = c)
    (chained : Chained disk (c :: rest) 0xFFF) (room : rest.length < loaderBlocks)
    (enough : rest.length < fuel) :
    ∃ m', bootSector disk fuel m = .ok (some m') ∧
      Filled disk baseOfLoader (baseOfLoaderPhyAddr + offsetOfLoader) 0 (c :: rest) m m' := by
  have fits : offsetOfLoader + 512 < 65536 := by decide
  rcases searched_for disk baseOfLoader m (show loaderFileName.length = 11 from rfl) rfl fits with
    ⟨k', m', di, named', answer, found⟩ | ⟨none_, -⟩
  · obtain rfl := named.unique named'
    obtain ⟨m'', loads, filled⟩ := loaderFound_fills found cluster chained room enough
    refine ⟨m'', ?_, filled.blocks, fun a fat out => ?_⟩
    · have answer' : searchLoader disk m = .ok (some (m', di)) := answer
      rw [bootSector, bind_of_ok _ answer']
      exact bind_of_ok _ loads
    · rw [filled.kept a fat out]
      have block := Nat.mul_le_mul_left 512 (Nat.succ_pos rest.length)
      rw [Nat.mul_one] at block
      rw [List.length_cons, Nat.mul_zero, Nat.zero_add, Nat.add_zero] at out
      exact found.kept a (out.imp_right fun above => le_trans (Nat.add_le_add_left block _) above)
  · exact absurd named.named (none_ k named.bound)

-- A floppy with one file, of 1200 bytes in the clusters 2, 3 and 5.
def oneFile (name : List UInt8) (file : Nat → UInt8) : Nat → Nat → UInt8 := fun s j =>
  if s = 1 then threeClusters 0xFFF j
  else if s = 19 then
    if j < 11 then name.getD j 0 else if j = 0x1A then 2 else if j = 0x1C then 0xB0
    else if j = 0x1D then 4 else 0
  else if s = 33 then file j
  else if s = 34 then file (512 + j)
  else if s = 36 then file (1024 + j)
  else 0

theorem oneFile_named {name : List UInt8} (file : Nat → UInt8) (length : name.length = 11) :
    FirstNamed (oneFile name file) name 0 := by
  refine ⟨by decide, fun j inside => ?_, fun i before => absurd before (Nat.not_lt_zero i)⟩
  rw [length] at inside
  have place : 32 * (0 % 16) + j = j := Nat.zero_add j
  show oneFile name file 19 (32 * (0 % 16) + j) = _
  rw [place, oneFile, if_neg (by decide), if_pos rfl, if_pos inside]

theorem oneFile_chained (name : List UInt8) (file : Nat → UInt8) :
    Chained (oneFile name file) [2, 3, 5] 0xFFF :=
  threeClusters_chained fun _ => rfl

theorem boot_sector_loads_three :
    ∃ m', bootSector (oneFile loaderFileName UInt8.ofNat) 3 ⟨0, 0, fun _ => 0, []⟩ = .ok (some m') ∧
      Filled (oneFile loaderFileName UInt8.ofNat) baseOfLoader
        (baseOfLoaderPhyAddr + offsetOfLoader) 0 [2, 3, 5] ⟨0, 0, fun _ => 0, []⟩ m' :=
  boot_sector_loads _ _ (oneFile_named _ rfl) rfl (oneFile_chained _ _) (by decide) (by decide)

end Konix.Boot
