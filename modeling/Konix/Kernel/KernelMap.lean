import Konix.Kernel.Proc
import Konix.Lib.Words

set_option autoImplicit false

namespace Konix.Kernel

open Splice Words

def bootParamAddr : Nat := 0x900
def bootParamMagic : Nat := 0xB007
def biMag : Nat := 0
def biMemSize : Nat := 1
def biKernelFile : Nat := 2

-- `ELFMAG`, of `SELFMAG` bytes.
def elfMag : List UInt8 := [0x7F, 69, 76, 70]
def selfMag : Nat := 4
def shfAlloc : Nat := 2

-- The fields of `Elf32_Ehdr` and `Elf32_Shdr` that are read, for a header at `a`.
def eShoff (mem : Nat → UInt8) (a : Nat) : Nat := wordAt mem (a + 32)
def eShentsize (mem : Nat → UInt8) (a : Nat) : Nat := halfAt mem (a + 46)
def eShnum (mem : Nat → UInt8) (a : Nat) : Nat := halfAt mem (a + 48)
def shFlags (mem : Nat → UInt8) (a : Nat) : Nat := wordAt mem (a + 8)
def shAddr (mem : Nat → UInt8) (a : Nat) : Nat := wordAt mem (a + 12)
def shSize (mem : Nat → UInt8) (a : Nat) : Nat := wordAt mem (a + 20)
def shdrSize : Nat := 40

-- `memcmp()` from byte `i` on; the bytes are signed characters.
def memcmpFrom (p1 p2 : Nat → UInt8) : Nat → Nat → Int
  | 0, _ => 0
  | n + 1, i =>
    if p1 i ≠ p2 i then (p1 i).toInt8.toInt - (p2 i).toInt8.toInt else memcmpFrom p1 p2 n (i + 1)

-- `memcmp()` of memory with a string literal; for a null pointer it answers a difference that is
-- not zero.
def memcmp (mem : Nat → UInt8) (s1 : Nat) (s2 : List UInt8) (n : Nat) : Int :=
  if s1 = 0 then -1 else memcmpFrom (window mem s1) (fun i => s2.getD i 0) n 0

-- The loop of `memcpy()`: `ecx` bytes are left.
def memcpyLoop (src : Nat → UInt8) : Nat → Nat → Nat → (Nat → UInt8) → Nat → UInt8
  | 0, _, _, mem => mem
  | ecx + 1, edi, esi, mem =>
    memcpyLoop src ecx (edi + 1) (esi + 1) (Function.update mem edi (src esi))

-- `memcpy()` answers its destination.
def memcpy (mem : Nat → UInt8) (dst : Nat) (src : List UInt8) (size : Nat) :
    Nat × (Nat → UInt8) :=
  (dst, memcpyLoop (fun i => src.getD i 0) size dst 0 mem)

structure BootParams where
  memSize : Nat
  kernelFile : Nat

def assertMem (holds : Bool) : Except Halt Unit := if holds then .ok () else .error .assertion

def getBootParams (mem : Nat → UInt8) : Except Halt BootParams := do
  assertMem (wordAt mem (bootParamAddr + 4 * biMag) = bootParamMagic)
  let bp : BootParams :=
    ⟨wordAt mem (bootParamAddr + 4 * biMemSize), wordAt mem (bootParamAddr + 4 * biKernelFile)⟩
  assertMem (memcmp mem bp.kernelFile elfMag selfMag = 0)
  return bp

-- The section header `i` of the file, as a pointer is computed.
def sectionHeader (mem : Nat → UInt8) (file i : Nat) : Nat :=
  (file + eShoff mem file + i * eShentsize mem file) % 4294967296

-- One turn of the loop over the sections; `*b` is the smallest address and `t` the largest so far.
def scanSection (mem : Nat → UInt8) (header b t : Nat) : Nat × Nat :=
  if shFlags mem header &&& shfAlloc ≠ 0 then
    let bottom := i32 (shAddr mem header)
    let top := i32 (shAddr mem header + shSize mem header)
    -- the comparisons of an `int` with an unsigned number are unsigned
    (if b > u32 bottom then u32 bottom else b, if t < u32 top then u32 top else t)
  else (b, t)

def scanSections (mem : Nat → UInt8) (file : Nat) : Nat → Nat → Nat → Nat → Nat × Nat
  | 0, _, b, t => (b, t)
  | n + 1, i, b, t =>
    let (b, t) := scanSection mem (sectionHeader mem file i) b t
    scanSections mem file n (i + 1) b t

-- What `get_kernel_map()` answers, and what it leaves in `*b`, `*l` and in memory.
structure KernelMap where
  ret : Int
  base : Nat
  limit : Nat
  mem : Nat → UInt8

def getKernelMap (mem : Nat → UInt8) (b l : Nat) : Except Halt KernelMap := do
  let bp ← getBootParams mem
  let (eIdent, mem) := memcpy mem bp.kernelFile elfMag selfMag
  if eIdent ≠ 0 then return ⟨-1, b, l, mem⟩
  let (b, t) := scanSections mem bp.kernelFile (eShnum mem bp.kernelFile) 0 0xFFFFFFFF 0
  assertMem (b < t)
  return ⟨0, b, t - b - 1, mem⟩

variable {mem : Nat → UInt8} {file size b l : Nat}

theorem memcpyLoop_eq (src : Nat → UInt8) (n edi esi : Nat) (mem : Nat → UInt8) :
    memcpyLoop src n edi esi mem = splice mem edi n (window src esi) := by
  induction n generalizing edi esi mem with
  | zero => rw [memcpyLoop, splice_empty]
  | succ n ih =>
    rw [memcpyLoop, ih]
    have first : Function.update mem edi (src esi) = splice mem edi 1 (window src esi) := by
      funext a
      by_cases same : a = edi
      next =>
        subst same
        rw [Function.update_self, splice_inside _ _ (le_refl a) (by omega), Nat.sub_self]
        rfl
      next => rw [Function.update_of_ne same, splice_outside _ _ (by omega)]
    have later : window src (esi + 1) = window (window src esi) 1 := by
      funext j
      exact congrArg src (Nat.add_assoc ..)
    rw [first, later, splice_append, Nat.add_comm n 1]

theorem memcmpFrom_eq_zero {p1 p2 : Nat → UInt8} (n i : Nat) :
    memcmpFrom p1 p2 n i = 0 ↔ ∀ j, j < n → p1 (i + j) = p2 (i + j) := by
  induction n generalizing i with
  | zero => exact iff_of_true rfl fun j below => absurd below (Nat.not_lt_zero j)
  | succ n ih =>
    rw [memcmpFrom]
    by_cases same : p1 i = p2 i
    next =>
      rw [if_neg (not_not_intro same), ih]
      constructor
      next =>
        intro agree j below
        cases j with
        | zero => exact same
        | succ j =>
          have moved : i + (j + 1) = i + 1 + j := by omega
          rw [moved]
          exact agree j (by omega)
      next =>
        intro agree j below
        have moved : i + 1 + j = i + (j + 1) := by omega
        rw [moved]
        exact agree (j + 1) (by omega)
    next =>
      rw [if_pos same]
      refine iff_of_false ?_ fun agree => same (agree 0 (by omega))
      intro zero
      have equal : (p1 i).toInt8.toInt = (p2 i).toInt8.toInt := by omega
      have bytes := congrArg Int8.toUInt8 (Int8.toInt_inj.mp equal)
      rw [UInt8.toUInt8_toInt8, UInt8.toUInt8_toInt8] at bytes
      exact same bytes

def HasMagic (mem : Nat → UInt8) (file : Nat) : Prop :=
  ∀ j, j < selfMag → mem (file + j) = elfMag.getD j 0

structure Booted (mem : Nat → UInt8) (file : Nat) : Prop where
  magic : wordAt mem (bootParamAddr + 4 * biMag) = bootParamMagic
  kernelFile : wordAt mem (bootParamAddr + 4 * biKernelFile) = file
  notNull : file ≠ 0

theorem memcmp_elfMag (notNull : file ≠ 0) :
    memcmp mem file elfMag selfMag = 0 ↔ HasMagic mem file := by
  rw [memcmp, if_neg notNull, memcmpFrom_eq_zero]
  simp only [Nat.zero_add, window_apply]
  rfl

theorem getBootParams_magic (booted : Booted mem file) (magic : HasMagic mem file) :
    getBootParams mem = .ok ⟨wordAt mem (bootParamAddr + 4 * biMemSize), file⟩ := by
  have same := (memcmp_elfMag booted.notNull).mpr magic
  simp only [getBootParams, booted.magic, booted.kernelFile, same, assertMem, decide_true, if_true]
  rfl

theorem memcpy_elfMag (magic : HasMagic mem file) :
    memcpy mem file elfMag selfMag = (file, mem) := by
  have written : splice mem file selfMag (window (fun i => elfMag.getD i 0) 0) =
      splice mem file selfMag (window mem file) := by
    apply splice_congr
    intro j below
    rw [window_apply, window_apply, Nat.zero_add, magic j below]
  rw [memcpy, memcpyLoop_eq, written, splice_window_self]

theorem getKernelMap_magic (booted : Booted mem file) (magic : HasMagic mem file) :
    getKernelMap mem b l = .ok ⟨-1, b, l, mem⟩ := by
  simp only [getKernelMap, getBootParams_magic booted magic, memcpy_elfMag magic, bind,
    Except.bind, ne_eq, booted.notNull, not_false_eq_true, if_true]
  rfl

theorem getKernelMap_other (booted : Booted mem file) (other : ¬ HasMagic mem file) :
    getKernelMap mem b l = .error .assertion := by
  have differs := mt (memcmp_elfMag booted.notNull).mp other
  simp only [getKernelMap, getBootParams, booted.magic, booted.kernelFile, differs, assertMem,
    decide_true, decide_false, if_true, bind, Except.bind]
  rfl

def OfLoaded (mem : Nat → UInt8) (file n : Nat) (value : Nat → Nat) : Set Nat :=
  { x | ∃ i, i < n ∧ shFlags mem (sectionHeader mem file i) &&& shfAlloc ≠ 0 ∧
    x = value (sectionHeader mem file i) }

def Bottoms (mem : Nat → UInt8) (file n : Nat) : Set Nat := OfLoaded mem file n (shAddr mem)

def Tops (mem : Nat → UInt8) (file n : Nat) : Set Nat :=
  OfLoaded mem file n fun a => shAddr mem a + shSize mem a

/--
A file of `size` bytes whose section header table lies inside it and which has something to load.
-/
structure KernelImage (mem : Nat → UInt8) (file size : Nat) : Prop where
  fits : file + size ≤ 4294967296
  table : ∀ i, i < eShnum mem file → eShoff mem file + i * eShentsize mem file + shdrSize ≤ size
  noWrap : ∀ x, x ∈ Tops mem file (eShnum mem file) → x < 4294967296
  loaded : ∃ i, i < eShnum mem file ∧ shFlags mem (sectionHeader mem file i) &&& shfAlloc ≠ 0 ∧
    0 < shSize mem (sectionHeader mem file i)

structure Scanned (mem : Nat → UInt8) (file n b t : Nat) : Prop where
  lower : ∀ x, x ∈ Bottoms mem file n → b ≤ x
  bottom : b = 0xFFFFFFFF ∨ b ∈ Bottoms mem file n
  upper : ∀ x, x ∈ Tops mem file n → x ≤ t
  top : t = 0 ∨ t ∈ Tops mem file n

theorem ofLoaded_succ {value : Nat → Nat} {n x : Nat} :
    x ∈ OfLoaded mem file (n + 1) value ↔ x ∈ OfLoaded mem file n value ∨
      shFlags mem (sectionHeader mem file n) &&& shfAlloc ≠ 0 ∧
        x = value (sectionHeader mem file n) := by
  constructor
  next =>
    rintro ⟨i, below, alloc, rfl⟩
    by_cases last : i = n
    next => exact .inr ⟨last ▸ alloc, by rw [last]⟩
    next => exact .inl ⟨i, by omega, alloc, rfl⟩
  next =>
    rintro (⟨i, below, alloc, rfl⟩ | ⟨alloc, rfl⟩)
    · exact ⟨i, by omega, alloc, rfl⟩
    · exact ⟨n, by omega, alloc, rfl⟩

theorem Scanned.step {n t : Nat} (scanned : Scanned mem file n b t)
    (noWrap : ∀ x, x ∈ Tops mem file (n + 1) → x < 4294967296) :
    Scanned mem file (n + 1) (scanSection mem (sectionHeader mem file n) b t).1
      (scanSection mem (sectionHeader mem file n) b t).2 := by
  have small : shAddr mem (sectionHeader mem file n) < 4294967296 := wordAt_lt mem _
  generalize header : sectionHeader mem file n = a at *
  by_cases alloc : shFlags mem a &&& shfAlloc ≠ 0
  next =>
    have fits := noWrap _ (ofLoaded_succ.mpr (.inr ⟨by rw [header]; exact alloc, rfl⟩))
    rw [header] at fits
    simp only [scanSection, alloc, if_true, u32_i32 small, u32_i32 fits, ne_eq, not_false_eq_true]
    constructor
    · intro x member
      rcases ofLoaded_succ.mp member with before | ⟨-, rfl⟩
      · have := scanned.lower x before
        split <;> omega
      · rw [header]
        split <;> omega
    · split
      next => exact .inr (ofLoaded_succ.mpr (.inr ⟨by rw [header]; exact alloc, by rw [header]⟩))
      next => exact scanned.bottom.imp_right fun before => ofLoaded_succ.mpr (.inl before)
    · intro x member
      rcases ofLoaded_succ.mp member with before | ⟨-, rfl⟩
      · have := scanned.upper x before
        split <;> omega
      · rw [header]
        split <;> omega
    · split
      next => exact .inr (ofLoaded_succ.mpr (.inr ⟨by rw [header]; exact alloc, by rw [header]⟩))
      next => exact scanned.top.imp_right fun before => ofLoaded_succ.mpr (.inl before)
  next =>
    have rest {x : Nat} {y : Nat} (new : shFlags mem (sectionHeader mem file n) &&& shfAlloc ≠ 0 ∧
        x = y) : False := alloc (by rw [← header]; exact new.1)
    simp only [scanSection, alloc, if_false]
    constructor
    · intro x member
      exact scanned.lower x ((ofLoaded_succ.mp member).resolve_right fun new => rest new)
    · exact scanned.bottom.imp_right fun before => ofLoaded_succ.mpr (.inl before)
    · intro x member
      exact scanned.upper x ((ofLoaded_succ.mp member).resolve_right fun new => rest new)
    · exact scanned.top.imp_right fun before => ofLoaded_succ.mpr (.inl before)

theorem scanSections_scanned {n i t : Nat} (scanned : Scanned mem file i b t)
    (noWrap : ∀ x, x ∈ Tops mem file (i + n) → x < 4294967296) :
    Scanned mem file (i + n) (scanSections mem file n i b t).1
      (scanSections mem file n i b t).2 := by
  induction n generalizing i b t with
  | zero => exact scanned
  | succ n ih =>
    have moved : i + (n + 1) = i + 1 + n := by omega
    rw [moved] at noWrap ⊢
    have next_ := scanned.step fun x ⟨j, below, rest⟩ => noWrap x ⟨j, by omega, rest⟩
    exact ih next_ noWrap

/--
The scan behind the check of `get_kernel_map()` does find the extent of the kernel: the least
address and the greatest end of the sections that are loaded.
-/
theorem scanSections_extent (image : KernelImage mem file size) :
    ∃ b t, scanSections mem file (eShnum mem file) 0 0xFFFFFFFF 0 = (b, t) ∧ b < t ∧
      IsLeast (Bottoms mem file (eShnum mem file)) b ∧
      IsGreatest (Tops mem file (eShnum mem file)) t := by
  have nothing : Scanned mem file 0 0xFFFFFFFF 0 := by
    constructor
    · rintro x ⟨i, below, -⟩
      omega
    · exact .inl rfl
    · rintro x ⟨i, below, -⟩
      omega
    · exact .inl rfl
  have all := @scanSections_scanned mem file _ (eShnum mem file) 0 _ nothing
    (by rw [Nat.zero_add]; exact image.noWrap)
  rw [Nat.zero_add] at all
  obtain ⟨i, below, alloc, size_⟩ := image.loaded
  have lower : _ ≤ shAddr mem (sectionHeader mem file i) := all.lower _ ⟨i, below, alloc, rfl⟩
  have upper : shAddr mem (sectionHeader mem file i) + shSize mem (sectionHeader mem file i) ≤ _ :=
    all.upper _ ⟨i, below, alloc, rfl⟩
  have fits : shAddr mem (sectionHeader mem file i) + shSize mem (sectionHeader mem file i) <
    4294967296 := image.noWrap _ ⟨i, below, alloc, rfl⟩
  refine ⟨_, _, rfl, by omega, ⟨?_, all.lower⟩, ⟨?_, all.upper⟩⟩
  · exact all.bottom.resolve_left (by omega)
  · exact all.top.resolve_left (by omega)

/--
`get_kernel_map()` tells the extent of a kernel file, and answers -1 for a file that has not the
magic of ELF.
-/
structure MapsKernel (mem : Nat → UInt8) (file size : Nat) (r : Except Halt KernelMap) :
    Prop where
  found : HasMagic mem file → KernelImage mem file size → ∃ b l, r = .ok ⟨0, b, l, mem⟩ ∧
    IsLeast (Bottoms mem file (eShnum mem file)) b ∧
    IsGreatest (Tops mem file (eShnum mem file)) (b + l + 1)
  refused : ¬ HasMagic mem file → ∃ b l mem', r = .ok ⟨-1, b, l, mem'⟩

-- `memcpy()` stands where `memcmp()` was meant, and a file without the magic fails an assertion.
theorem get_kernel_map_never (b l size : Nat) (booted : Booted mem file)
    (image : HasMagic mem file → KernelImage mem file size) :
    ¬ MapsKernel mem file size (getKernelMap mem b l) := by
  intro maps
  by_cases magic : HasMagic mem file
  next =>
    obtain ⟨b', l', done, -⟩ := maps.found magic (image magic)
    rw [getKernelMap_magic booted magic] at done
    cases done
  next =>
    obtain ⟨b', l', mem', done⟩ := maps.refused magic
    rw [getKernelMap_other booted magic] at done
    cases done

-- A kernel file at 0x1000 whose one section, of 0x1000 bytes, is loaded at 0x30400.
def smallKernel : Nat → UInt8 := fun a =>
  ([(0x900, 0x07), (0x901, 0xB0), (0x909, 0x10), (0x1000, 0x7F), (0x1001, 69), (0x1002, 76),
    (0x1003, 70), (0x1020, 52), (0x102E, 40), (0x1030, 1), (0x103C, 2), (0x1041, 0x04),
    (0x1042, 0x03), (0x1049, 0x10)].lookup a).getD 0

theorem smallKernel_booted : Booted smallKernel 0x1000 := by
  constructor <;> decide

theorem smallKernel_magic : HasMagic smallKernel 0x1000 := by
  unfold HasMagic
  decide

theorem smallKernel_image : KernelImage smallKernel 0x1000 92 := by
  have one : eShnum smallKernel 0x1000 = 1 := by decide
  constructor
  · decide
  · rw [one]
    decide
  · rw [one]
    rintro x ⟨i, below, alloc, rfl⟩
    have first : i = 0 := by omega
    subst first
    decide
  · exact ⟨0, by decide, by decide, by decide⟩

theorem get_kernel_map_never_small :
    ¬ MapsKernel smallKernel 0x1000 92 (getKernelMap smallKernel 0 0) :=
  get_kernel_map_never 0 0 92 smallKernel_booted fun _ => smallKernel_image

theorem get_kernel_map_small : KernelImage smallKernel 0x1000 92 ∧
    getKernelMap smallKernel 0 0 = .ok ⟨-1, 0, 0, smallKernel⟩ ∧
    ¬ MapsKernel smallKernel 0x1000 92 (getKernelMap smallKernel 0 0) := by
  have fails := getKernelMap_magic (b := 0) (l := 0) smallKernel_booted smallKernel_magic
  refine ⟨smallKernel_image, fails, fun maps => ?_⟩
  obtain ⟨b, l, done, -⟩ := maps.found smallKernel_magic smallKernel_image
  rw [fails] at done
  cases done

end Konix.Kernel
