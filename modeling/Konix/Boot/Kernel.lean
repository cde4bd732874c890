import Konix.Boot.Loading
import Konix.Boot.Memory
import Konix.Kernel.KernelMap
import Konix.Lib.Copies

set_option autoImplicit false

namespace Konix.Boot

open Copies Paging Splice Words

-- Paging is on when these are executed.
def load (mem : Nat → UInt8) (la : Nat) : Except BootStop UInt8 :=
  match read mem pageDirBase (la % 4294967296) with
  | some byte => .ok byte
  | none => .error .pageFault

def store (mem : Nat → UInt8) (la : Nat) (byte : UInt8) : Except BootStop (Nat → UInt8) :=
  match write mem pageDirBase (la % 4294967296) byte with
  | some mem => .ok mem
  | none => .error .pageFault

def loadHalf (mem : Nat → UInt8) (la : Nat) : Except BootStop Nat := do
  let low ← load mem la
  let high ← load mem (la + 1)
  return low.toNat + 256 * high.toNat

def loadWord (mem : Nat → UInt8) (la : Nat) : Except BootStop Nat := do
  let low ← loadHalf mem la
  let high ← loadHalf mem (la + 2)
  return low + 65536 * high

def storeWord (mem : Nat → UInt8) (la value : Nat) : Except BootStop (Nat → UInt8) := do
  let mem ← store mem la (wordByte value 0)
  let mem ← store mem (la + 1) (wordByte value 1)
  let mem ← store mem (la + 2) (wordByte value 2)
  store mem (la + 3) (wordByte value 3)

-- `MemCpy`, of which `ecx` bytes are left.
def memCpy : Nat → Nat → Nat → (Nat → UInt8) → Except BootStop (Nat → UInt8)
  | 0, _, _, mem => .ok mem
  | ecx + 1, edi, esi, mem => do
    let al ← load mem esi
    let mem ← store mem edi al
    memCpy ecx (edi + 1) (esi + 1) mem

-- The program headers from `esi` on. Those of type `PT_NULL` are left out.
def initKernelLoop : Nat → Nat → (Nat → UInt8) → Except BootStop (Nat → UInt8)
  | 0, _, mem => .ok mem
  | ecx + 1, esi, mem => do
    let type ← loadWord mem esi
    let mem ← if type = 0 then .ok mem
      else do
        let size ← loadWord mem (esi + 0x10)
        let offset ← loadWord mem (esi + 4)
        let dst ← loadWord mem (esi + 8)
        memCpy size dst ((offset + baseOfKernelFilePhyAddr) % 4294967296) mem
    initKernelLoop ecx (esi + 0x20) mem

def initKernel (mem : Nat → UInt8) : Except BootStop (Nat → UInt8) := do
  let ecx ← loadHalf mem (baseOfKernelFilePhyAddr + 0x2C)
  let esi ← loadWord mem (baseOfKernelFilePhyAddr + 0x1C)
  initKernelLoop (loopCount ecx) ((esi + baseOfKernelFilePhyAddr) % 4294967296) mem

def setBootParams (dwMemSize : Nat) (mem : Nat → UInt8) : Except BootStop (Nat → UInt8) := do
  let mem ← storeWord mem Kernel.bootParamAddr Kernel.bootParamMagic
  let eax ← loadWord mem dwMemSize
  let mem ← storeWord mem (Kernel.bootParamAddr + 4) eax
  storeWord mem (Kernel.bootParamAddr + 8) (baseOfKernelFile <<< 4 + offsetOfKernelFile)

/--
loader.asm up to its jump into the kernel: `hd` is the boot sector of the hard disk, and the
variables `MemChkBuf` and `dwMemSize` lie at these offsets of the loader's segment. What is shown on
the screen and what is pushed on the stack is left out. Nothing comes of it when there is no kernel
on the floppy.
-/
def loader (disk : Nat → Nat → UInt8) (bios : Bios) (hd : Nat → UInt8)
    (memChkBuf dwMemSize fuel : Nat) (m : Machine) : Except BootStop (Option (Nat → UInt8)) := do
  let (dwMCRNumber, mem) ← memChkLoop bios fuel 0 memChkBuf 0 m.mem
  match ← searchKernel disk { m with mem := mem } with
  | none => return none
  | some (m, di) =>
    let m ← filenameFound disk fuel m di
    let mem := splice m.mem 0x500 512 hd
    let size := dispMemInfo memChkBuf mem dwMCRNumber
    let mem := putWord mem (baseOfLoaderPhyAddr + dwMemSize) size
    let mem ← initKernel (setupPaging size mem)
    let mem ← setBootParams (baseOfLoaderPhyAddr + dwMemSize) mem
    return some mem

def fileByte (disk : Nat → Nat → UInt8) (chain : List Nat) (p : Nat) : UInt8 :=
  disk (dataSector (chain.getD (p / 512) 0)) (p % 512)

-- The fields of `Elf32_Ehdr` and `Elf32_Phdr` that are read.
def ePhoff (image : Nat → UInt8) : Nat := wordAt image 0x1C
def ePhnum (image : Nat → UInt8) : Nat := halfAt image 0x2C
def pType (image : Nat → UInt8) (i : Nat) : Nat := wordAt image (ePhoff image + 32 * i)
def pOffset (image : Nat → UInt8) (i : Nat) : Nat := wordAt image (ePhoff image + 32 * i + 4)
def pVaddr (image : Nat → UInt8) (i : Nat) : Nat := wordAt image (ePhoff image + 32 * i + 8)
def pFilesz (image : Nat → UInt8) (i : Nat) : Nat := wordAt image (ePhoff image + 32 * i + 16)

-- What is to be copied for a program header, once the file lies in the loader's buffer.
def segment (image : Nat → UInt8) (i : Nat) : Option Copy :=
  if pType image i = 0 then none
  else some ⟨pVaddr image i, baseOfKernelFilePhyAddr + pOffset image i, pFilesz image i⟩

def segments (image : Nat → UInt8) : List Copy :=
  (List.range' 0 (ePhnum image)).filterMap (segment image)

-- The page directory and the tables behind it.
def tablesSize (memSize : Nat) : Nat := 0x1000 + 4096 * pageTables memSize

/--
A kernel of `size` bytes that the loader can start on a machine with `memSize` bytes: an ELF file
whose segments go to memory that can be used, to places that meet neither each other nor the file,
the loader itself with its data and its stack, the tables of pages or the boot parameters.
-/
structure Startable (image : Nat → UInt8) (size : Nat) (records : List (Nat → UInt8))
    (memSize : Nat) : Prop where
  magic : ∀ i, i < 4 → image i = Kernel.elfMag.getD i 0
  some_ : ePhnum image ≠ 0
  headers : ePhoff image + 32 * ePhnum image ≤ size
  header : 0x34 ≤ size
  placeable : Placeable baseOfKernelFilePhyAddr size (segments image)
  ram : ∀ s ∈ segments image, ∃ record, record ∈ records ∧ Usable record ∧
    ardsBase record ≤ s.dst ∧ s.dst + s.size ≤ ardsEnd record
  loader : ∀ s ∈ segments image, Apart s.dst s.size baseOfLoaderPhyAddr 0x10000
  tables : ∀ s ∈ segments image, Apart s.dst s.size pageDirBase (tablesSize memSize)
  params : ∀ s ∈ segments image, Apart s.dst s.size Kernel.bootParamAddr 12

section Paged

variable {mem mem' : Nat → UInt8} {memSize la n dst src : Nat}

def Mapped (memSize : Nat) (mem : Nat → UInt8) : Prop :=
  Identity mem pageDirBase pageTblBase (pageTables memSize)

def reach (memSize : Nat) : Nat := pageTables memSize * tableSpan

theorem reach_le (small : memSize < 4294967296) : reach memSize ≤ 4294967296 := by
  have span : tableSpan = 4194304 := rfl
  rw [reach, pageTables, span]
  split <;> omega

theorem Mapped.congr (mapped : Mapped memSize mem)
    (same : ∀ a, pageDirBase ≤ a → a < pageDirBase + tablesSize memSize → mem' a = mem a)
    (small : memSize < 4294967296) : Mapped memSize mem' := by
  have few := reach_le small
  have dir : pageDirBase = 1048576 := rfl
  have tables : pageTblBase = 1052672 := rfl
  have span : tableSpan = 4194304 := rfl
  have page : pageSize = 4096 := rfl
  rw [reach, span] at few
  rw [tablesSize] at same
  exact Identity.congr mapped (fun a low high => same a low (by omega))
    (fun a low high => same a (by omega) (by rw [page] at high; omega))

theorem Mapped.load (mapped : Mapped memSize mem) (small : memSize < 4294967296)
    (inside : la < reach memSize) : load mem la = .ok (mem la) := by
  have few := reach_le small
  rw [Boot.load, Nat.mod_eq_of_lt (by omega), Identity.read mapped rfl inside]

theorem Mapped.store (mapped : Mapped memSize mem) (small : memSize < 4294967296)
    (inside : la < reach memSize) (byte : UInt8) :
    store mem la byte = .ok (Function.update mem la byte) := by
  have few := reach_le small
  rw [Boot.store, Nat.mod_eq_of_lt (by omega), Identity.write mapped rfl inside]

theorem Mapped.loadHalf (mapped : Mapped memSize mem) (small : memSize < 4294967296)
    (inside : la + 2 ≤ reach memSize) : loadHalf mem la = .ok (halfAt mem la) := by
  rw [Boot.loadHalf, bind_of_ok _ (mapped.load small (show la < _ by omega)),
    bind_of_ok _ (mapped.load small (show la + 1 < _ by omega))]
  rfl

theorem Mapped.loadWord (mapped : Mapped memSize mem) (small : memSize < 4294967296)
    (inside : la + 4 ≤ reach memSize) : loadWord mem la = .ok (wordAt mem la) := by
  rw [Boot.loadWord, bind_of_ok _ (mapped.loadHalf small (show la + 2 ≤ _ by omega)),
    bind_of_ok _ (mapped.loadHalf small (show la + 2 + 2 ≤ _ by omega))]
  show Except.ok (halfAt mem la + 65536 * halfAt mem (la + 2)) = _
  have value : halfAt mem la + 65536 * halfAt mem (la + 2) = wordAt mem la := by
    unfold halfAt wordAt
    have place : la + 2 + 1 = la + 3 := rfl
    rw [place]
    omega
  rw [value]

theorem Mapped.update (mapped : Mapped memSize mem) (small : memSize < 4294967296) (byte : UInt8)
    (away : Apart la 1 pageDirBase (tablesSize memSize)) :
    Mapped memSize (Function.update mem la byte) := by
  refine mapped.congr (fun a low high => Function.update_of_ne ?_ ..) small
  rintro rfl
  unfold Apart at away
  omega

theorem update_word (mem : Nat → UInt8) (la value : Nat) :
    Function.update (Function.update (Function.update (Function.update mem la (wordByte value 0))
      (la + 1) (wordByte value 1)) (la + 2) (wordByte value 2)) (la + 3) (wordByte value 3) =
        putWord mem la value := by
  funext a
  rw [putWord]
  by_cases inside : la ≤ a ∧ a < la + 4
  next =>
    rw [splice_inside _ _ inside.1 inside.2]
    obtain ⟨j, rfl⟩ := Nat.exists_eq_add_of_le inside.1
    have few : j < 4 := by omega
    rw [Nat.add_sub_cancel_left]
    interval_cases j <;> simp [Function.update]
  next =>
    rw [splice_outside _ _ (by omega), Function.update_of_ne (by omega),
      Function.update_of_ne (by omega), Function.update_of_ne (by omega),
      Function.update_of_ne (by omega)]

theorem Mapped.storeWord (mapped : Mapped memSize mem) (small : memSize < 4294967296)
    (inside : la + 4 ≤ reach memSize) (away : Apart la 4 pageDirBase (tablesSize memSize))
    (value : Nat) : storeWord mem la value = .ok (putWord mem la value) := by
  have apart (j : Nat) (few : j < 4) : Apart (la + j) 1 pageDirBase (tablesSize memSize) := by
    unfold Apart at away ⊢
    omega
  have mapped₁ := mapped.update small (wordByte value 0) (apart 0 (by omega))
  have mapped₂ := mapped₁.update small (wordByte value 1) (apart 1 (by omega))
  have mapped₃ := mapped₂.update small (wordByte value 2) (apart 2 (by omega))
  rw [Boot.storeWord, bind_of_ok _ (mapped.store small (show la < _ by omega) _)]
  rw [Nat.add_zero] at mapped₁ mapped₂ mapped₃
  rw [bind_of_ok _ (mapped₁.store small (show la + 1 < _ by omega) _),
    bind_of_ok _ (mapped₂.store small (show la + 2 < _ by omega) _),
    mapped₃.store small (show la + 3 < _ by omega) _, update_word]

theorem Mapped.memCpy (mapped : Mapped memSize mem) (small : memSize < 4294967296)
    (apart : Apart dst n src n) (toFits : dst + n ≤ reach memSize)
    (fromFits : src + n ≤ reach memSize)
    (away : Apart dst n pageDirBase (tablesSize memSize)) :
    memCpy n dst src mem = .ok (Copy.run mem ⟨dst, src, n⟩) := by
  induction n generalizing dst src mem with
  | zero => exact congrArg Except.ok (splice_empty ..).symm
  | succ n ih =>
    have disjoint : dst + (n + 1) ≤ src ∨ src + (n + 1) ≤ dst := by
      unfold Apart at apart
      omega
    have here : Apart dst 1 pageDirBase (tablesSize memSize) := by
      unfold Apart at away ⊢
      omega
    have mapped' := mapped.update small (mem src) here
    rw [Boot.memCpy, bind_of_ok _ (mapped.load small (show src < _ by omega)),
      bind_of_ok _ (mapped.store small (show dst < _ by omega) _),
      ih mapped' (by unfold Apart; omega) (by omega) (by omega) (by unfold Apart at away ⊢; omega)]
    congr 1
    funext a
    show splice (Function.update mem dst (mem src)) (dst + 1) n
      (window (Function.update mem dst (mem src)) (src + 1)) a =
        splice mem dst (n + 1) (window mem src) a
    by_cases later : dst + 1 ≤ a ∧ a < dst + 1 + n
    next =>
      rw [splice_inside _ _ later.1 later.2, splice_inside _ _ (by omega) (by omega), window_apply,
        window_apply, Function.update_of_ne (by omega)]
      congr 1
      omega
    next =>
      rw [splice_outside _ _ (by omega)]
      by_cases here : a = dst
      next =>
        rw [here, Function.update_self, splice_inside _ _ (le_refl _) (by omega), Nat.sub_self]
        rfl
      next => rw [Function.update_of_ne here, splice_outside _ _ (by omega)]

end Paged

section Copying

variable {image mem : Nat → UInt8} {records : List (Nat → UInt8)} {size memSize i n : Nat}

def Buffered (image : Nat → UInt8) (size : Nat) (mem : Nat → UInt8) : Prop :=
  ∀ p, p < size → mem (baseOfKernelFilePhyAddr + p) = image p

theorem Buffered.word (buffered : Buffered image size mem) {p : Nat} (inside : p + 4 ≤ size) :
    wordAt mem (baseOfKernelFilePhyAddr + p) = wordAt image p := by
  refine wordAt_agree fun j small => ?_
  rw [Nat.add_assoc]
  exact buffered (p + j) (by omega)

theorem Buffered.half (buffered : Buffered image size mem) {p : Nat} (inside : p + 2 ≤ size) :
    halfAt mem (baseOfKernelFilePhyAddr + p) = halfAt image p := by
  rw [halfAt, halfAt, buffered p (by omega), Nat.add_assoc, buffered (p + 1) (by omega)]

theorem Buffered.run (buffered : Buffered image size mem) {s : Copy}
    (away : Apart s.dst s.size baseOfKernelFilePhyAddr size) : Buffered image size (s.run mem) := by
  intro p inside
  rw [run_outside mem (by unfold Apart at away ⊢; omega)]
  exact buffered p inside

theorem Startable.addressed (startable : Startable image size records memSize)
    (greatest : IsGreatest (ends records) memSize) {s : Copy} (member : s ∈ segments image) :
    s.dst + s.size ≤ memSize := by
  obtain ⟨record, reported, usable, -, fits⟩ := startable.ram s member
  exact le_trans fits (greatest.2 ⟨record, reported, usable, rfl⟩)

theorem initKernelLoop_copies (startable : Startable image size records memSize)
    (greatest : IsGreatest (ends records) memSize) (some_ : 0 < memSize)
    (small : memSize < 4294967296) (below : size ≤ kernelValidSpace)
    (mapped : Mapped memSize mem) (buffered : Buffered image size mem)
    (few : i + n ≤ ePhnum image) :
    initKernelLoop n (baseOfKernelFilePhyAddr + (ePhoff image + 32 * i)) mem =
      .ok (((List.range' i n).filterMap (segment image)).foldl Copy.run mem) := by
  have base : baseOfKernelFilePhyAddr = 458752 := rfl
  have space : kernelValidSpace = 131072 := rfl
  obtain ⟨tables, -, enough⟩ := pageTables_bounds some_ small
  have low : 4194304 ≤ reach memSize := Nat.mul_le_mul_right 4194304 tables
  have enough' : memSize ≤ reach memSize := enough
  induction n generalizing i mem with
  | zero => rfl
  | succ n ih =>
    have headers := startable.headers
    have word (p : Nat) (inside : p + 4 ≤ 32) :
        loadWord mem (baseOfKernelFilePhyAddr + (ePhoff image + 32 * i) + p) =
          .ok (wordAt image (ePhoff image + 32 * i + p)) := by
      rw [mapped.loadWord small (by omega), Nat.add_assoc, buffered.word (by omega)]
    have type : loadWord mem (baseOfKernelFilePhyAddr + (ePhoff image + 32 * i)) =
        .ok (pType image i) := word 0 (by omega)
    have next_ : baseOfKernelFilePhyAddr + (ePhoff image + 32 * i) + 0x20 =
        baseOfKernelFilePhyAddr + (ePhoff image + 32 * (i + 1)) := by omega
    rw [initKernelLoop, bind_of_ok _ type, next_, List.range'_succ, List.filterMap_cons]
    by_cases null : pType image i = 0
    next =>
      rw [if_pos null, segment, if_pos null]
      exact ih mapped buffered (by omega)
    next =>
      have member : ⟨pVaddr image i, baseOfKernelFilePhyAddr + pOffset image i, pFilesz image i⟩ ∈
          segments image := by
        refine List.mem_filterMap.mpr ⟨i, List.mem_range'_1.mpr (by omega), ?_⟩
        rw [segment, if_neg null]
      have source := startable.placeable.sources _ member
      have target := startable.placeable.targets _ member
      have addressed := startable.addressed greatest member
      have away := startable.tables _ member
      dsimp only at source target addressed away
      have offset : (wordAt image (ePhoff image + 32 * i + 4) + baseOfKernelFilePhyAddr) %
          4294967296 = baseOfKernelFilePhyAddr + pOffset image i := by
        have same : wordAt image (ePhoff image + 32 * i + 4) = pOffset image i := rfl
        omega
      have apart : Apart (pVaddr image i) (pFilesz image i)
          (baseOfKernelFilePhyAddr + pOffset image i) (pFilesz image i) := by
        unfold Apart at target ⊢
        omega
      have copied := mapped.memCpy small apart (by omega) (by omega) away
      have mapped' : Mapped memSize (Copy.run mem ⟨pVaddr image i,
          baseOfKernelFilePhyAddr + pOffset image i, pFilesz image i⟩) := by
        refine mapped.congr (fun a low high => run_outside mem ?_) small
        unfold Apart at away ⊢
        dsimp only
        omega
      rw [if_neg null, segment, if_neg null, bind_of_ok _ (word 16 (by omega)),
        bind_of_ok _ (word 4 (by omega)), bind_of_ok _ (word 8 (by omega)), offset]
      have turn : Boot.memCpy (wordAt image (ePhoff image + 32 * i + 16))
          (wordAt image (ePhoff image + 32 * i + 8))
            (baseOfKernelFilePhyAddr + pOffset image i) mem =
            _ := copied
      rw [bind_of_ok _ turn, List.foldl_cons]
      exact ih mapped' (buffered.run target) (by omega)

theorem initKernel_copies (startable : Startable image size records memSize)
    (greatest : IsGreatest (ends records) memSize) (some_ : 0 < memSize)
    (small : memSize < 4294967296) (below : size ≤ kernelValidSpace)
    (mapped : Mapped memSize mem) (buffered : Buffered image size mem) :
    initKernel mem = .ok ((segments image).foldl Copy.run mem) := by
  have base : baseOfKernelFilePhyAddr = 458752 := rfl
  have space : kernelValidSpace = 131072 := rfl
  have header := startable.header
  have headers := startable.headers
  obtain ⟨tables, -, -⟩ := pageTables_bounds some_ small
  have low : 4194304 ≤ reach memSize := Nat.mul_le_mul_right 4194304 tables
  have start : (ePhoff image + baseOfKernelFilePhyAddr) % 4294967296 =
      baseOfKernelFilePhyAddr + (ePhoff image + 32 * 0) := by omega
  rw [initKernel, bind_of_ok _ (mapped.loadHalf small (by omega)),
    bind_of_ok _ (mapped.loadWord small (by omega)), buffered.half (by omega),
    buffered.word (by omega), ← ePhnum, ← ePhoff, loopCount_pos startable.some_, start]
  exact initKernelLoop_copies startable greatest some_ small below mapped buffered (by omega)

end Copying

/--
What the kernel finds: its segments, the whole file, the boot parameters, and all of the memory that
can be used under its own addresses.
-/
structure Started (image : Nat → UInt8) (size memSize : Nat) (mem : Nat → UInt8) : Prop where
  segments : ∀ i, i < ePhnum image → pType image i ≠ 0 →
    ∀ j, j < pFilesz image i → mem (pVaddr image i + j) = image (pOffset image i + j)
  file : ∀ p, p < size → mem (baseOfKernelFilePhyAddr + p) = image p
  params : Kernel.getBootParams mem = .ok ⟨memSize, baseOfKernelFilePhyAddr⟩
  mapped : ∀ a, a < memSize → walk mem pageDirBase a = some (a, 7)

section Starting

variable {image mem : Nat → UInt8} {records : List (Nat → UInt8)} {size memSize la : Nat}

def withBootParams (memSize : Nat) (mem : Nat → UInt8) : Nat → UInt8 :=
  putWord (putWord (putWord mem Kernel.bootParamAddr Kernel.bootParamMagic)
    (Kernel.bootParamAddr + 4) memSize) (Kernel.bootParamAddr + 8) baseOfKernelFilePhyAddr

theorem withBootParams_outside {a : Nat} (out : Apart a 1 Kernel.bootParamAddr 12) :
    withBootParams memSize mem a = mem a := by
  unfold Apart at out
  rw [withBootParams, putWord_outside _ _ (by omega), putWord_outside _ _ (by omega),
    putWord_outside _ _ (by omega)]

theorem setBootParams_done (mapped : Mapped memSize mem) (some_ : 0 < memSize)
    (small : memSize < 4294967296) (behind : Kernel.bootParamAddr + 12 ≤ la)
    (front : la + 4 ≤ pageDirBase) (word : wordAt mem la = memSize) :
    setBootParams la mem = .ok (withBootParams memSize mem) := by
  have params : Kernel.bootParamAddr = 2304 := rfl
  have dir : pageDirBase = 1048576 := rfl
  obtain ⟨tables, -, -⟩ := pageTables_bounds some_ small
  have low : 4194304 ≤ reach memSize := Nat.mul_le_mul_right 4194304 tables
  have outside (k : Nat) (few : k ≤ 8) :
      Apart (Kernel.bootParamAddr + k) 4 pageDirBase (tablesSize memSize) := by
    unfold Apart
    omega
  have stored {f : Nat → UInt8} (isMapped : Mapped memSize f) (k value : Nat) (few : k ≤ 8) :
      Mapped memSize (putWord f (Kernel.bootParamAddr + k) value) :=
    isMapped.congr (fun a lower _ => putWord_outside _ _ (by omega)) small
  have mapped₁ := stored mapped 0 Kernel.bootParamMagic (by omega)
  have mapped₂ := stored mapped₁ 4 memSize (by omega)
  have first := outside 0 (by omega)
  rw [Nat.add_zero] at mapped₁ mapped₂ first
  have kept : wordAt (putWord mem Kernel.bootParamAddr Kernel.bootParamMagic) la = memSize := by
    rw [wordAt_putWord_outside _ _ (by omega), word]
  rw [setBootParams, bind_of_ok _ (mapped.storeWord small (by omega) first _),
    bind_of_ok _ (mapped₁.loadWord small (by omega)), kept,
    bind_of_ok _ (mapped₁.storeWord small (by omega) (outside 4 (by omega)) _),
    mapped₂.storeWord small (by omega) (outside 8 (by omega)) _]
  rfl

theorem withBootParams_words (mem : Nat → UInt8) (small : memSize < 4294967296) :
    Kernel.Booted (withBootParams memSize mem) baseOfKernelFilePhyAddr ∧
      wordAt (withBootParams memSize mem) (Kernel.bootParamAddr + 4) = memSize := by
  refine ⟨⟨?_, ?_, by decide⟩, ?_⟩
  · show wordAt (putWord _ _ _) Kernel.bootParamAddr = _
    rw [wordAt_putWord_outside _ _ (.inl (by omega)), wordAt_putWord_outside _ _ (.inl (by omega)),
      wordAt_putWord]
    rfl
  · show wordAt (putWord _ _ _) (Kernel.bootParamAddr + 8) = _
    rw [wordAt_putWord]
    rfl
  · rw [withBootParams, wordAt_putWord_outside _ _ (.inl (by omega)), wordAt_putWord]
    exact Nat.mod_eq_of_lt small

structure Copied (image : Nat → UInt8) (mem mem' : Nat → UInt8) : Prop where
  placed : ∀ s ∈ segments image, ∀ j, j < s.size → mem' (s.dst + j) = mem (s.src + j)
  kept : ∀ a, (∀ s ∈ segments image, Apart a 1 s.dst s.size) → mem' a = mem a

theorem Copied.file {mem' : Nat → UInt8} (copied : Copied image mem mem')
    (startable : Startable image size records memSize) (buffered : Buffered image size mem) :
    Buffered image size mem' := by
  intro p inside
  rw [copied.kept _ fun s member => ?_]
  · exact buffered p inside
  · have target := startable.placeable.targets s member
    unfold Apart at target ⊢
    omega

theorem Copied.mapped {mem' : Nat → UInt8} (copied : Copied image mem mem')
    (startable : Startable image size records memSize) (mapped : Mapped memSize mem)
    (small : memSize < 4294967296) : Mapped memSize mem' := by
  refine mapped.congr (fun a low high => copied.kept a fun s member => ?_) small
  have away := startable.tables s member
  unfold Apart at away ⊢
  omega

theorem Copied.started {mem' : Nat → UInt8} (copied : Copied image mem mem')
    (startable : Startable image size records memSize) (buffered : Buffered image size mem)
    (mapped : Mapped memSize mem) (some_ : 0 < memSize) (small : memSize < 4294967296) :
    Started image size memSize (withBootParams memSize mem') := by
  have base : baseOfKernelFilePhyAddr = 458752 := rfl
  have params : Kernel.bootParamAddr = 2304 := rfl
  have dir : pageDirBase = 1048576 := rfl
  have file : Buffered image size (withBootParams memSize mem') := by
    intro p inside
    rw [withBootParams_outside (by unfold Apart; omega)]
    exact copied.file startable buffered p inside
  have tables : Mapped memSize (withBootParams memSize mem') :=
    (copied.mapped startable mapped small).congr
      (fun a low high => withBootParams_outside (by unfold Apart; omega)) small
  obtain ⟨booted, memSizeIs⟩ := withBootParams_words mem' small
  obtain ⟨-, -, enough⟩ := pageTables_bounds some_ small
  constructor
  case segments =>
    intro i bound type j inside
    have member : ⟨pVaddr image i, baseOfKernelFilePhyAddr + pOffset image i, pFilesz image i⟩ ∈
        Boot.segments image := by
      refine List.mem_filterMap.mpr ⟨i, List.mem_range'_1.mpr (by omega), ?_⟩
      rw [segment, if_neg type]
    have away := startable.params _ member
    have source := startable.placeable.sources _ member
    have word := copied.placed _ member j inside
    dsimp only at away source word
    rw [withBootParams_outside (by unfold Apart at away ⊢; omega), word, Nat.add_assoc]
    exact buffered _ (by omega)
  case file => exact file
  case params =>
    have magic : Kernel.HasMagic (withBootParams memSize mem') baseOfKernelFilePhyAddr := by
      intro j few
      have four : Kernel.selfMag = 4 := rfl
      have header := startable.header
      rw [file j (by omega)]
      exact startable.magic j (by omega)
    rw [Kernel.getBootParams_magic booted magic]
    show Except.ok (⟨wordAt _ (Kernel.bootParamAddr + 4), _⟩ : Kernel.BootParams) = _
    rw [memSizeIs]
  case mapped => exact fun a inside => Identity.walk tables rfl (lt_of_lt_of_le inside enough)

theorem started (startable : Startable image size records memSize)
    (greatest : IsGreatest (ends records) memSize) (some_ : 0 < memSize)
    (small : memSize < 4294967296) (below : size ≤ kernelValidSpace)
    (buffered : Buffered image size mem) (word : wordAt mem (baseOfLoaderPhyAddr + la) = memSize)
    (variable_ : la + 4 ≤ 0x10000) :
    ∃ mem₁ mem₂, initKernel (setupPaging memSize mem) = .ok mem₁ ∧
      setBootParams (baseOfLoaderPhyAddr + la) mem₁ = .ok mem₂ ∧
      Started image size memSize mem₂ := by
  have base : baseOfKernelFilePhyAddr = 458752 := rfl
  have above : baseOfLoaderPhyAddr = 589824 := rfl
  have space : kernelValidSpace = 131072 := rfl
  have dir : pageDirBase = 1048576 := rfl
  have params : Kernel.bootParamAddr = 2304 := rfl
  obtain ⟨mapped, kept⟩ := setupPaging_identity mem some_ small
  generalize setupPaging memSize mem = paged at mapped kept
  have buffered' : Buffered image size paged := by
    intro p inside
    rw [kept _ (.inl (by omega))]
    exact buffered p inside
  have copied : Copied image paged ((segments image).foldl Copy.run paged) :=
    ⟨fun s member j inside => startable.placeable.placed paged member inside,
      fun a out => copies_outside paged out⟩
  have word' : wordAt ((segments image).foldl Copy.run paged) (baseOfLoaderPhyAddr + la) =
      memSize := by
    rw [← word]
    refine wordAt_congr fun j few => ?_
    rw [copied.kept _ fun s member => ?_, kept _ (.inl (by omega))]
    have away := startable.loader s member
    unfold Apart at away ⊢
    omega
  exact ⟨_, _, initKernel_copies startable greatest some_ small below mapped buffered',
    setBootParams_done (copied.mapped startable mapped small) some_ small (by omega)
      (by omega) word',
    copied.started startable buffered' mapped some_ small⟩

end Starting

section Files

variable {disk : Nat → Nat → UInt8} {m m' : Machine} {chain : List Nat}

theorem Filled.buffered {base size : Nat}
    (filled : Filled disk base baseOfKernelFilePhyAddr 0 chain m m')
    (covers : size ≤ 512 * chain.length) : Buffered (fileByte disk chain) size m'.mem := by
  intro p inside
  have block : p / 512 < chain.length := by omega
  have cluster : chain[p / 512]? = some (chain.getD (p / 512) 0) := by
    rw [List.getD_eq_getElem?_getD, List.getElem?_eq_getElem block]
    rfl
  have byte := filled.blocks _ _ cluster (p % 512) (Nat.mod_lt _ (by decide))
  have place : baseOfKernelFilePhyAddr + 512 * (0 + p / 512) + p % 512 =
      baseOfKernelFilePhyAddr + p := by omega
  rwa [place] at byte

end Files

/--
From any floppy with a kernel in its root directory, whatever else is on it: when the loader jumps
into the kernel, the segments are where the program headers say, `get_boot_params()` finds the file
and the size of memory, which is the greatest end of a range that can be used, and every address
below that is mapped to itself.
-/
theorem kernel_started {disk : Nat → Nat → UInt8} {bios : Bios} (hd : Nat → UInt8) (m : Machine)
    {k c memChkBuf dwMemSize fuel memSize : Nat} {rest : List Nat} {records : List (Nat → UInt8)}
    (named : FirstNamed disk kernelFileName k) (cluster : firstCluster disk k = c)
    (chained : Chained disk (c :: rest) 0xFFF) (valid : fileSize disk k ≤ kernelValidSpace)
    (covers : 512 * rest.length < fileSize disk k ∧ fileSize disk k ≤ 512 * (rest.length + 1))
    (reports : Reports bios 0 records) (few : records.length ≤ 12)
    (buffer : memChkBuf + 256 ≤ 65536) (variable_ : dwMemSize + 4 ≤ 65536)
    (greatest : IsGreatest (ends records) memSize) (some_ : 0 < memSize)
    (small : memSize < 4294967296)
    (startable : Startable (fileByte disk (c :: rest)) (fileSize disk k) records memSize)
    (enough : 256 ≤ fuel) :
    ∃ mem, loader disk bios hd memChkBuf dwMemSize fuel m = .ok (some mem) ∧
      Started (fileByte disk (c :: rest)) (fileSize disk k) memSize mem := by
  have base : baseOfKernelFilePhyAddr = 458752 := rfl
  have space : kernelValidSpace = 131072 := rfl
  have above : baseOfLoaderPhyAddr = 589824 := rfl
  obtain ⟨mem₀, reported, stored, -⟩ := memChkLoop_stored m.mem 0 reports
    (show memChkBuf + 20 * records.length < 65536 by omega) (show records.length ≤ fuel by omega)
  rw [Nat.zero_add] at reported
  generalize hm₀ : ({ m with mem := mem₀ } : Machine) = m₀
  have fits : offsetOfKernelFile + 512 < 65536 := by decide
  rcases searched_for disk baseOfKernelFile m₀ (show kernelFileName.length = 11 from rfl) rfl fits
    with
    ⟨k', m₁, di, named', answer, found⟩ | ⟨none_, -⟩
  · obtain rfl := named.unique named'
    obtain ⟨m₂, loads, filled⟩ := filenameFound_fills found cluster valid chained (by omega)
      (show rest.length < fuel by omega)
    have longest : 512 * rest.length + 512 ≤ 131072 := by omega
    have elsewhere : ∀ a, baseOfLoaderPhyAddr ≤ a → splice m₂.mem 0x500 512 hd a = mem₀ a := by
      intro a high
      have fat : (baseOfKernelFile - 0x100) * 16 + 1024 ≤ a := le_trans (by decide) high
      have directory : baseOfKernelFile * 16 + offsetOfKernelFile + 512 ≤ a :=
        le_trans (by decide) high
      have blocks : baseOfKernelFilePhyAddr + 512 * (0 + (c :: rest).length) ≤ a := by
        rw [Nat.zero_add, List.length_cons, Nat.mul_succ]
        exact le_trans (Nat.add_le_add_left longest _) high
      have sector : 0x500 + 512 ≤ a := le_trans (by decide) high
      rw [splice_outside _ _ (.inr sector), filled.kept a (.inr fat) (.inr blocks),
        found.kept a (.inr directory), ← hm₀]
    have stored' := stored.congr fun a low _ => elsewhere a (by omega)
    have sized := dispMemInfo_greatest stored' (by omega) greatest some_ small
    have file : Buffered (fileByte disk (c :: rest)) (fileSize disk k)
        (putWord (splice m₂.mem 0x500 512 hd) (baseOfLoaderPhyAddr + dwMemSize) memSize) := by
      intro p within
      rw [putWord_outside _ _ (by omega), splice_outside _ _ (.inr (by omega))]
      exact filled.buffered covers.2 p within
    have word :
        wordAt (putWord (splice m₂.mem 0x500 512 hd) (baseOfLoaderPhyAddr + dwMemSize) memSize)
        (baseOfLoaderPhyAddr + dwMemSize) = memSize := by
      rw [wordAt_putWord]
      exact Nat.mod_eq_of_lt small
    obtain ⟨mem₃, mem₄, copies, params, done⟩ :=
      started startable greatest some_ small valid file word variable_
    refine ⟨mem₄, ?_, done⟩
    have answer' : searchKernel disk { m with mem := mem₀ } = .ok (some (m₁, di)) := by
      rw [hm₀]
      exact answer
    rw [loader, bind_of_ok _ reported]
    dsimp only
    rw [bind_of_ok _ answer']
    dsimp only
    rw [bind_of_ok _ loads, sized, bind_of_ok _ copies, bind_of_ok _ params]
    rfl
  · exact absurd named.named (none_ k named.bound)

-- A kernel of 1200 bytes: one header, for 1000 bytes from byte 100 on, which belong at 0x1000.
def tinyKernel : Nat → UInt8 := fun j =>
  if j < 4 then Kernel.elfMag.getD j 0
  else if j = 0x1C then 52 else if j = 0x2C then 1
  else if j = 52 then 1 else if j = 56 then 100 else if j = 61 then 0x10
  else if j = 68 then 0xE8 else if j = 69 then 3
  else UInt8.ofNat j / 100

theorem tinyKernel_segments : segments (fileByte (oneFile kernelFileName tinyKernel) [2, 3, 5]) =
    [⟨0x1000, baseOfKernelFilePhyAddr + 100, 1000⟩] := by
  decide +kernel

theorem tinyKernel_startable :
    Startable (fileByte (oneFile kernelFileName tinyKernel) [2, 3, 5]) 1200 [smallMap, largeMap]
      0x2000000 := by
  have one (P : Copy → Prop) (holds : P ⟨0x1000, baseOfKernelFilePhyAddr + 100, 1000⟩) :
      ∀ s ∈ segments (fileByte (oneFile kernelFileName tinyKernel) [2, 3, 5]), P s := by
    rw [tinyKernel_segments]
    exact List.forall_mem_singleton.mpr holds
  constructor
  case magic => decide +kernel
  case some_ => decide +kernel
  case headers => decide +kernel
  case header => decide
  case placeable =>
    refine ⟨one _ ⟨by decide, by decide⟩, one _ (by unfold Apart; decide), ?_⟩
    · rw [tinyKernel_segments]
      exact List.pairwise_singleton _ _
  case ram => exact one _ ⟨smallMap, List.mem_cons_self, by decide, by decide, by decide⟩
  case loader => exact one _ (by unfold Apart; decide)
  case tables => exact one _ (by unfold Apart; decide)
  case params => exact one _ (by unfold Apart; decide)

theorem kernel_started_tiny : ∃ mem,
    loader (oneFile kernelFileName tinyKernel) smallBios (fun _ => 0) 0x400 0x3E0 256
        ⟨0, 0, fun _ => 0, []⟩ = .ok (some mem) ∧
      Started (fileByte (oneFile kernelFileName tinyKernel) [2, 3, 5])
        (fileSize (oneFile kernelFileName tinyKernel) 0) 0x2000000 mem :=
  kernel_started _ _ (oneFile_named _ rfl) rfl (oneFile_chained _ _) (by decide +kernel)
    (by decide +kernel) smallBios_reports (by decide) (by decide) (by decide) smallBios_greatest
    (by decide) (by decide) tinyKernel_startable (by decide)

end Konix.Boot
