import Konix.Boot.Loader

set_option autoImplicit false

namespace Konix.Boot

def sectorNoOfRootDirectory : Nat := 19
def baseOfLoader : Nat := 0x9000
def offsetOfLoader : Nat := 0x100

-- `LOADER  BIN` and `KERNEL  BIN`
def loaderFileName : List UInt8 := [76, 79, 65, 68, 69, 82, 32, 32, 66, 73, 78]
def kernelFileName : List UInt8 := [75, 69, 82, 78, 69, 76, 32, 32, 66, 73, 78]

-- `LABEL_CMP_FILENAME`, with the characters that are left; the second result is `di`.
def cmpFilename (mem : Nat → UInt8) (es : Nat) : List UInt8 → Nat → Bool × Nat
  | [], di => (true, di)
  | al :: si, di =>
    if al = mem (es * 16 + di) then cmpFilename mem es si ((di + 1) % 65536) else (false, di)

-- The entries of one sector, of which `dx` are left.
def searchForFile (mem : Nat → UInt8) (es : Nat) (name : List UInt8) : Nat → Nat → Option Nat
  | 0, _ => none
  | dx + 1, di =>
    match cmpFilename mem es name di with
    | (true, di) => some di
    | (false, di) => searchForFile mem es name dx (((di &&& 0xFFE0) + 0x20) % 65536)

/--
`LABEL_SEARCH_IN_ROOT_DIR_BEGIN`, with the file that is looked for and the buffer for the sectors.
Without a result there is no such file, and the program loops behind its message.
-/
def searchInRootDir (disk : Nat → Nat → UInt8) (name : List UInt8) (base offset : Nat) :
    Nat → Nat → Machine → Except BootStop (Option (Machine × Nat))
  | 0, _, _ => .ok none
  | wRootDirSizeForLoop + 1, wSectorNo, m => do
    let m ← readSector disk { m with es := base, bx := offset } wSectorNo 1
    match searchForFile m.mem m.es name 0x10 offset with
    | some di => return some (m, di)
    | none => searchInRootDir disk name base offset wRootDirSizeForLoop (wSectorNo + 1) m

def searchLoader (disk : Nat → Nat → UInt8) (m : Machine) :
    Except BootStop (Option (Machine × Nat)) :=
  searchInRootDir disk loaderFileName baseOfLoader offsetOfLoader rootDirSectors
    sectorNoOfRootDirectory m

def searchKernel (disk : Nat → Nat → UInt8) (m : Machine) :
    Except BootStop (Option (Machine × Nat)) :=
  searchInRootDir disk kernelFileName baseOfKernelFile offsetOfKernelFile rootDirSectors
    sectorNoOfRootDirectory m

def rootDirEntries : Nat := 224

def rootEntry (disk : Nat → Nat → UInt8) (k j : Nat) : UInt8 :=
  disk (sectorNoOfRootDirectory + k / 16) (32 * (k % 16) + j)

def Named (disk : Nat → Nat → UInt8) (name : List UInt8) (k : Nat) : Prop :=
  ∀ j, j < name.length → rootEntry disk k j = name.getD j 0

structure FirstNamed (disk : Nat → Nat → UInt8) (name : List UInt8) (k : Nat) : Prop where
  bound : k < rootDirEntries
  named : Named disk name k
  first : ∀ i, i < k → ¬ Named disk name i

theorem FirstNamed.unique {disk : Nat → Nat → UInt8} {name : List UInt8} {k k' : Nat}
    (here : FirstNamed disk name k) (there : FirstNamed disk name k') : k = k' := by
  by_contra other
  rcases Nat.lt_or_gt_of_ne other with before | after
  · exact there.first k before here.named
  · exact here.first k' after there.named

-- The search has stopped in the entry `k`, whose sector is in the buffer, and nothing else changed.
structure FoundAt (disk : Nat → Nat → UInt8) (base offset k : Nat) (m m' : Machine) (di : Nat) :
    Prop where
  es : m'.es = base
  di : di = offset + 32 * (k % 16) + 11
  sector : ∀ j, j < 512 →
    m'.mem (base * 16 + offset + j) = disk (sectorNoOfRootDirectory + k / 16) j
  kept : ∀ a, a < base * 16 + offset ∨ base * 16 + offset + 512 ≤ a → m'.mem a = m.mem a

def SearchedFor (disk : Nat → Nat → UInt8) (name : List UInt8) (base offset : Nat) (m : Machine)
    (result : Except BootStop (Option (Machine × Nat))) : Prop :=
  (∃ k m' di, FirstNamed disk name k ∧ result = .ok (some (m', di)) ∧
      FoundAt disk base offset k m m' di) ∨
    (∀ k, k < rootDirEntries → ¬ Named disk name k) ∧ result = .ok none

section Names

variable {mem : Nat → UInt8} {es di : Nat} {name : List UInt8}

def Spelled (mem : Nat → UInt8) (name : List UInt8) (a : Nat) : Prop :=
  ∀ j, j < name.length → mem (a + j) = name.getD j 0

theorem spelled_cons {al : UInt8} {si : List UInt8} {a : Nat} :
    Spelled mem (al :: si) a ↔ mem a = al ∧ Spelled mem si (a + 1) := by
  constructor
  · intro spelled
    refine ⟨spelled 0 (Nat.succ_pos _), fun j inside => ?_⟩
    have place : a + 1 + j = a + (j + 1) := by omega
    rw [place]
    exact spelled (j + 1) (by rwa [List.length_cons, Nat.add_lt_add_iff_right])
  · rintro ⟨first, later⟩ j inside
    cases j with
    | zero => exact first
    | succ j =>
      have place : a + (j + 1) = a + 1 + j := by omega
      rw [List.length_cons, Nat.add_lt_add_iff_right] at inside
      rw [place]
      exact later j inside

theorem cmpFilename_cases (mem : Nat → UInt8) (es : Nat) (fits : di + name.length < 65536) :
    Spelled mem name (es * 16 + di) ∧ cmpFilename mem es name di = (true, di + name.length) ∨
      ¬ Spelled mem name (es * 16 + di) ∧
        ∃ i, i < name.length ∧ cmpFilename mem es name di = (false, di + i) := by
  induction name generalizing di with
  | nil => exact .inl ⟨fun j inside => absurd inside (Nat.not_lt_zero j), rfl⟩
  | cons al si ih =>
    rw [List.length_cons] at fits ⊢
    rw [cmpFilename, spelled_cons, Nat.mod_eq_of_lt (by omega)]
    by_cases same : al = mem (es * 16 + di)
    next =>
      rw [if_pos same, and_iff_right same.symm, Nat.add_assoc (es * 16)]
      rcases ih (show di + 1 + si.length < 65536 by omega) with
        ⟨spelled, answer⟩ | ⟨other, i, inside, answer⟩
      · exact .inl ⟨spelled, by rw [answer]; congr 1; omega⟩
      · exact .inr ⟨other, i + 1, by omega, by rw [answer]; congr 1; omega⟩
    next =>
      rw [if_neg same]
      exact .inr ⟨fun both => same both.1.symm, 0, by omega, rfl⟩

theorem and_high (x : Nat) {s : Nat} (small : s ≤ 16) :
    x &&& ((2 ^ (16 - s) - 1) <<< s) = x % 65536 / 2 ^ s * 2 ^ s := by
  have cut : x % 65536 / 2 ^ s * 2 ^ s = ((x % 2 ^ 16) >>> s) <<< s := by
    rw [Nat.shiftLeft_eq, Nat.shiftRight_eq_div_pow, show 65536 = 2 ^ 16 from rfl]
  apply Nat.eq_of_testBit_eq
  intro k
  rw [cut, Nat.testBit_and, Nat.testBit_shiftLeft, Nat.testBit_shiftLeft,
    Nat.testBit_two_pow_sub_one, Nat.testBit_shiftRight, Nat.testBit_mod_two_pow]
  by_cases high : s ≤ k
  next =>
    have place : s + (k - s) = k := by omega
    have bound : k - s < 16 - s ↔ k < 16 := by omega
    simp [place, bound, high, Bool.and_comm]
  next => simp [high]

theorem and_ffe0 (x : Nat) : x &&& 0xFFE0 = x % 65536 / 32 * 32 :=
  and_high x (by decide : 5 ≤ 16)

theorem and_fff0 (x : Nat) : x &&& 0xFFF0 = x % 65536 / 16 * 16 :=
  and_high x (by decide : 4 ≤ 16)

theorem next_entry {d i : Nat} (aligned : d % 32 = 0) (inside : i < 32) (fits : d + 32 < 65536) :
    (((d + i) &&& 0xFFE0) + 0x20) % 65536 = d + 32 := by
  rw [and_ffe0]
  omega

theorem searchForFile_cases (mem : Nat → UInt8) (es : Nat) {offset e dx : Nat}
    (short : name.length ≤ 11) (all : e + dx = 16) (aligned : offset % 32 = 0)
    (fits : offset + 512 < 65536) :
    (∃ i, e ≤ i ∧ i < 16 ∧ Spelled mem name (es * 16 + (offset + 32 * i)) ∧
        (∀ k, e ≤ k → k < i → ¬ Spelled mem name (es * 16 + (offset + 32 * k))) ∧
        searchForFile mem es name dx (offset + 32 * e) =
          some (offset + 32 * i + name.length)) ∨
      (∀ k, e ≤ k → k < 16 → ¬ Spelled mem name (es * 16 + (offset + 32 * k))) ∧
        searchForFile mem es name dx (offset + 32 * e) = none := by
  induction dx generalizing e with
  | zero => exact .inr ⟨fun k from_ upTo => by omega, rfl⟩
  | succ dx ih =>
    rw [searchForFile]
    rcases cmpFilename_cases mem es (show offset + 32 * e + name.length < 65536 by omega) with
      ⟨spelled, answer⟩ | ⟨other, i, inside, answer⟩
    · rw [answer]
      exact .inl ⟨e, le_refl e, by omega, spelled, fun k from_ upTo => by omega, rfl⟩
    · have next_ := next_entry (d := offset + 32 * e) (i := i) (by omega) (by omega) (by omega)
      have place : offset + 32 * e + 32 = offset + 32 * (e + 1) := by omega
      rw [answer]
      dsimp only
      rw [next_, place]
      have here (k : Nat) (from_ : e ≤ k)
          (rest : e + 1 ≤ k → ¬ Spelled mem name (es * 16 + (offset + 32 * k))) :
          ¬ Spelled mem name (es * 16 + (offset + 32 * k)) := by
        by_cases same : k = e
        next =>
          rw [same]
          exact other
        next => exact rest (by omega)
      rcases ih (e := e + 1) (by omega) with
        ⟨k, from_, upTo, spelled, first, answer⟩ | ⟨none_, answer⟩
      · exact .inl ⟨k, by omega, upTo, spelled,
          fun k' from' before => here k' from' fun later => first k' later before, answer⟩
      · exact .inr ⟨fun k from' upTo => here k from' fun later => none_ k later upTo, answer⟩

end Names

section Directory

variable {disk : Nat → Nat → UInt8} {name : List UInt8} {base offset : Nat} {m : Machine}

def Machine.holdsSector (disk : Nat → Nat → UInt8) (m : Machine) (base offset s : Nat) : Machine :=
  Machine.reads disk { m with es := base, bx := offset } s 1

theorem holdsSector_mem {s j : Nat} (inside : j < 512) :
    (m.holdsSector disk base offset s).mem (base * 16 + offset + j) = disk s j := by
  have byte : (m.holdsSector disk base offset s).mem
      (Machine.address { m with es := base, bx := offset } + j) = disk (s + j / 512) (j % 512) :=
    reads_inside (by omega)
  rw [Nat.div_eq_of_lt inside, Nat.mod_eq_of_lt inside] at byte
  exact byte

theorem spelled_named (disk : Nat → Nat → UInt8) (base offset q : Nat) (m : Machine)
    (short : name.length ≤ 11) {i : Nat} (inside : i < 16) :
    Spelled (m.holdsSector disk base offset (sectorNoOfRootDirectory + q)).mem name
      (base * 16 + (offset + 32 * i)) ↔ Named disk name (16 * q + i) := by
  have sector : (16 * q + i) / 16 = q := by omega
  have place : (16 * q + i) % 16 = i := by omega
  refine forall_congr' fun j => imp_congr_right fun within => ?_
  have buffer : base * 16 + (offset + 32 * i) + j = base * 16 + offset + (32 * i + j) := by omega
  rw [buffer, holdsSector_mem (by omega), rootEntry, sector, place]

theorem holdsSector_found (disk : Nat → Nat → UInt8) (base offset : Nat) (m : Machine) {s k : Nat}
    (sector : s = sectorNoOfRootDirectory + k / 16) :
    FoundAt disk base offset k m (m.holdsSector disk base offset s)
      (offset + 32 * (k % 16) + 11) := by
  subst sector
  refine ⟨rfl, rfl, fun j inside => holdsSector_mem inside, fun a outside => ?_⟩
  exact reads_outside (m := { m with es := base, bx := offset }) outside

theorem searchInRootDir_cases (disk : Nat → Nat → UInt8) (base : Nat) (m : Machine)
    (length : name.length = 11) (aligned : offset % 32 = 0) (fits : offset + 512 < 65536)
    {q left : Nat} (all : q + left = 14) :
    (∃ k m' di, 16 * q ≤ k ∧ k < 224 ∧ Named disk name k ∧
        (∀ i, 16 * q ≤ i → i < k → ¬ Named disk name i) ∧
        searchInRootDir disk name base offset left (sectorNoOfRootDirectory + q) m =
          .ok (some (m', di)) ∧ FoundAt disk base offset k m m' di) ∨
      (∀ k, 16 * q ≤ k → k < 224 → ¬ Named disk name k) ∧
        searchInRootDir disk name base offset left (sectorNoOfRootDirectory + q) m = .ok none := by
  induction left generalizing q m with
  | zero => exact .inr ⟨fun k from_ upTo => by omega, rfl⟩
  | succ left ih =>
    generalize read : m.holdsSector disk base offset (sectorNoOfRootDirectory + q) = m₁
    have reads : readSector disk { m with es := base, bx := offset }
        (sectorNoOfRootDirectory + q) 1 =
        .ok m₁ := by
      rw [← read]
      exact readSector_ok (by unfold sectorNoOfRootDirectory; omega) 1
    have es : m₁.es = base := by rw [← read]; rfl
    have named (i : Nat) (inside : i < 16) :=
      spelled_named disk base offset q m (le_of_eq length) inside
    rw [read] at named
    rw [searchInRootDir, bind_of_ok _ reads]
    rcases searchForFile_cases m₁.mem m₁.es (le_of_eq length) (show 0 + 16 = 16 from rfl) aligned
      fits with ⟨i, -, inside, spelled, first, answer⟩ | ⟨none_, answer⟩
    · rw [es] at spelled first
      rw [Nat.mul_zero, Nat.add_zero, length] at answer
      rw [answer]
      have entry : (16 * q + i) % 16 = i := by omega
      have sector : sectorNoOfRootDirectory + q = sectorNoOfRootDirectory + (16 * q + i) / 16 := by
        omega
      have found := holdsSector_found disk base offset m sector
      rw [read, entry] at found
      refine .inl ⟨16 * q + i, m₁, _, by omega, by omega, (named i inside).mp spelled, ?_,
        rfl, found⟩
      intro k from_ before isNamed
      have place : 16 * q + (k - 16 * q) = k := by omega
      refine first (k - 16 * q) (Nat.zero_le _) (by omega) ((named _ (by omega)).mpr ?_)
      rwa [place]
    · rw [es] at none_
      rw [Nat.mul_zero, Nat.add_zero] at answer
      rw [answer]
      have here (k : Nat) (from_ : 16 * q ≤ k) (before : k < 16 * (q + 1)) :
          ¬ Named disk name k := by
        intro isNamed
        have place : 16 * q + (k - 16 * q) = k := by omega
        refine none_ (k - 16 * q) (Nat.zero_le _) (by omega) ((named _ (by omega)).mpr ?_)
        rwa [place]
      have next_ : sectorNoOfRootDirectory + q + 1 = sectorNoOfRootDirectory + (q + 1) := rfl
      dsimp only
      rw [next_]
      rcases ih (m := m₁) (q := q + 1) (by omega) with
        ⟨k, m', di, from_, upTo, isNamed, first, answer, found⟩ | ⟨later, answer⟩
      · refine .inl ⟨k, m', di, by omega, upTo, isNamed, fun i from' before => ?_, answer, ?_⟩
        · by_cases sameSector : i < 16 * (q + 1)
          next => exact here i from' sameSector
          next => exact first i (by omega) before
        · refine ⟨found.es, found.di, found.sector, fun a outside => ?_⟩
          rw [found.kept a outside, ← read]
          exact reads_outside (m := { m with es := base, bx := offset }) outside
      · refine .inr ⟨fun k from' upTo => ?_, answer⟩
        by_cases sameSector : k < 16 * (q + 1)
        next => exact here k from' sameSector
        next => exact later k (by omega) upTo

theorem searched_for (disk : Nat → Nat → UInt8) (base : Nat) (m : Machine)
    (length : name.length = 11) (aligned : offset % 32 = 0) (fits : offset + 512 < 65536) :
    SearchedFor disk name base offset m
      (searchInRootDir disk name base offset rootDirSectors sectorNoOfRootDirectory m) := by
  rcases searchInRootDir_cases disk base m length aligned fits
    (show 0 + rootDirSectors = 14 from rfl) with
    ⟨k, m', di, -, bound, named, first, answer, found⟩ | ⟨none_, answer⟩
  · exact .inl ⟨k, m', di, ⟨bound, named, fun i before => first i (Nat.zero_le _) before⟩, answer,
      found⟩
  · exact .inr ⟨fun k bound => none_ k (Nat.zero_le _) bound, answer⟩

end Directory

/--
For every floppy, boot.asm finds the first entry of the root directory that is named `LOADER  BIN`,
and loader.asm the first one that is named `KERNEL  BIN`; where there is none, they find nothing.
-/
theorem root_directory_searched (disk : Nat → Nat → UInt8) (m : Machine) :
    SearchedFor disk loaderFileName baseOfLoader offsetOfLoader m (searchLoader disk m) ∧
      SearchedFor disk kernelFileName baseOfKernelFile offsetOfKernelFile m (searchKernel disk m) :=
  ⟨searched_for disk _ m rfl rfl (by decide), searched_for disk _ m rfl rfl (by decide)⟩

end Konix.Boot
