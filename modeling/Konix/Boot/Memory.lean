import Konix.Boot.Loader
import Konix.Lib.Paging

set_option autoImplicit false

namespace Konix.Boot

open Paging Splice Words

def pageDirBase : Nat := 0x100000
def pageTblBase : Nat := 0x101000
def pgP : Nat := 1
def pgRww : Nat := 2
def pgUsu : Nat := 4

-- `int 15h` for the memory map: what it stores and leaves in `ebx`; without an answer the carry is
-- set.
abbrev Bios := Nat → Option ((Nat → UInt8) × Nat)

-- `.MemChkLoop`; the results are `_dwMCRNumber` and memory.
def memChkLoop (bios : Bios) :
    Nat → Nat → Nat → Nat → (Nat → UInt8) → Except BootStop (Nat × (Nat → UInt8))
  | 0, _, _, _, _ => .error .runsOn
  | fuel + 1, ebx, di, dwMCRNumber, mem =>
    match bios ebx with
    | none => .ok (0, mem)
    | some (record, ebx) =>
      let mem := splice mem (baseOfLoaderPhyAddr + di) 20 record
      if ebx = 0 then .ok (dwMCRNumber + 1, mem)
      else memChkLoop bios fuel ebx ((di + 20) % 65536) (dwMCRNumber + 1) mem

-- `loop` and `dec` with `jnz` go round before they test.
def loopCount (ecx : Nat) : Nat := if ecx = 0 then 4294967296 else ecx

-- One descriptor that `DispMemInfo` looks at: 1 is the type of memory that can be used.
def ardsTurn (mem : Nat → UInt8) (esi dwMemSize : Nat) : Nat :=
  let dwBaseAddrLow := wordAt mem esi
  let dwLengthLow := wordAt mem (esi + 8)
  let dwType := wordAt mem (esi + 16)
  if dwType = 1 then
    let eax := (dwBaseAddrLow + dwLengthLow) % 4294967296
    if eax < dwMemSize then dwMemSize else eax
  else dwMemSize

def dispMemInfoLoop (mem : Nat → UInt8) : Nat → Nat → Nat → Nat
  | 0, _, dwMemSize => dwMemSize
  | ecx + 1, esi, dwMemSize =>
    dispMemInfoLoop mem ecx ((esi + 20) % 4294967296) (ardsTurn mem esi dwMemSize)

-- `DispMemInfo`, but for what it shows; the result is `dwMemSize`.
def dispMemInfo (memChkBuf : Nat) (mem : Nat → UInt8) (dwMCRNumber : Nat) : Nat :=
  dispMemInfoLoop mem (loopCount dwMCRNumber) (baseOfLoaderPhyAddr + memChkBuf) 0

-- `stosd`, after which 4096 is added to `eax`
def stosdLoop : Nat → Nat → Nat → (Nat → UInt8) → Nat → UInt8
  | 0, _, _, mem => mem
  | ecx + 1, edi, eax, mem =>
    stosdLoop ecx ((edi + 4) % 4294967296) ((eax + 4096) % 4294967296) (putWord mem edi eax)

def pageTables (dwMemSize : Nat) : Nat :=
  dwMemSize / 0x400000 + if dwMemSize % 0x400000 = 0 then 0 else 1

-- `SetupPaging`, which leaves `PageDirBase` in `cr3`
def setupPaging (dwMemSize : Nat) (mem : Nat → UInt8) : Nat → UInt8 :=
  let ecx := pageTables dwMemSize
  let mem := stosdLoop (loopCount ecx) pageDirBase (pageTblBase ||| pgP ||| pgUsu ||| pgRww) mem
  stosdLoop (loopCount (ecx * 1024 % 4294967296)) pageTblBase (pgP ||| pgUsu ||| pgRww) mem

-- The BIOS reports these records, one at a time, and the last one with `ebx = 0`.
def Reports (bios : Bios) : Nat → List (Nat → UInt8) → Prop
  | _, [] => False
  | ebx, [record] => bios ebx = some (record, 0)
  | ebx, record :: rest =>
    ∃ ebx', ebx' ≠ 0 ∧ bios ebx = some (record, ebx') ∧ Reports bios ebx' rest

def Usable (record : Nat → UInt8) : Prop := wordAt record 16 = 1

instance : DecidablePred Usable := fun record => inferInstanceAs (Decidable (wordAt record 16 = 1))

def ardsBase (record : Nat → UInt8) : Nat := wordAt record 0 + 4294967296 * wordAt record 4

def ardsLength (record : Nat → UInt8) : Nat := wordAt record 8 + 4294967296 * wordAt record 12

def ardsEnd (record : Nat → UInt8) : Nat := ardsBase record + ardsLength record

def Stored (mem : Nat → UInt8) (a : Nat) (records : List (Nat → UInt8)) : Prop :=
  ∀ i record, records[i]? = some record → ∀ j, j < 20 → mem (a + 20 * i + j) = record j

section Records

variable {bios : Bios} {mem : Nat → UInt8} {records : List (Nat → UInt8)}

theorem Stored.congr {mem' : Nat → UInt8} {a : Nat} (stored : Stored mem a records)
    (same : ∀ b, a ≤ b → b < a + 20 * records.length → mem' b = mem b) :
    Stored mem' a records := by
  intro i record isRecord j small
  obtain ⟨inside, -⟩ := List.getElem?_eq_some_iff.mp isRecord
  rw [← stored i record isRecord j small]
  exact same _ (by omega) (by omega)

theorem stored_cons {record : Nat → UInt8} {rest : List (Nat → UInt8)} {a : Nat} :
    Stored mem a (record :: rest) ↔
      (∀ j, j < 20 → mem (a + j) = record j) ∧ Stored mem (a + 20) rest := by
  constructor
  · intro stored
    refine ⟨fun j small => stored 0 record rfl j small, fun i record' isRecord j small => ?_⟩
    have place : a + 20 + 20 * i + j = a + 20 * (i + 1) + j := by omega
    rw [place]
    exact stored (i + 1) record' isRecord j small
  · rintro ⟨first, later⟩ i record' isRecord j small
    cases i with
    | zero =>
      cases isRecord
      exact first j small
    | succ i =>
      have place : a + 20 * (i + 1) + j = a + 20 + 20 * i + j := by omega
      rw [place]
      exact later i record' isRecord j small

theorem memChkLoop_stored (mem : Nat → UInt8) (number : Nat) {fuel ebx di : Nat}
    (reports : Reports bios ebx records)
    (fits : di + 20 * records.length < 65536) (enough : records.length ≤ fuel) :
    ∃ mem', memChkLoop bios fuel ebx di number mem = .ok (number + records.length, mem') ∧
      Stored mem' (baseOfLoaderPhyAddr + di) records ∧
      ∀ a, a < baseOfLoaderPhyAddr + di ∨ baseOfLoaderPhyAddr + di + 20 * records.length ≤ a →
        mem' a = mem a := by
  induction records generalizing mem number fuel ebx di with
  | nil => exact absurd reports id
  | cons record rest ih =>
    rw [List.length_cons] at fits enough ⊢
    obtain ⟨fuel, rfl⟩ : ∃ fuel', fuel = fuel' + 1 := ⟨fuel - 1, by omega⟩
    have first (j : Nat) (small : j < 20) :
        splice mem (baseOfLoaderPhyAddr + di) 20 record (baseOfLoaderPhyAddr + di + j) =
          record j := by
      rw [splice_inside _ _ (by omega) (by omega), Nat.add_sub_cancel_left]
    cases rest with
    | nil =>
      have answer : bios ebx = some (record, 0) := reports
      refine ⟨splice mem (baseOfLoaderPhyAddr + di) 20 record, ?_, ?_, fun a out => ?_⟩
      · rw [memChkLoop, answer]
        rfl
      · exact stored_cons.mpr ⟨first, fun i record' isRecord => by cases isRecord⟩
      · exact splice_outside _ _ out
    | cons record' rest =>
      obtain ⟨ebx', more, answer, reports'⟩ := reports
      have wrap : (di + 20) % 65536 = di + 20 := Nat.mod_eq_of_lt (by omega)
      have fits' : di + 20 + 20 * (record' :: rest).length < 65536 := by omega
      obtain ⟨mem', done, stored, kept⟩ :=
        ih (splice mem (baseOfLoaderPhyAddr + di) 20 record) (number + 1) reports' fits'
          (Nat.le_of_succ_le_succ enough)
      refine ⟨mem', ?_, stored_cons.mpr ⟨fun j small => ?_, stored⟩, fun a out => ?_⟩
      · rw [memChkLoop, answer]
        dsimp only
        rw [if_neg more, wrap, done]
        congr 2
        omega
      · rw [← first j small]
        exact kept _ (.inl (by omega))
      · rw [kept a (by omega)]
        exact splice_outside _ _ (by omega)

end Records

section Size

variable {mem : Nat → UInt8} {records : List (Nat → UInt8)} {a size : Nat}

def ends (records : List (Nat → UInt8)) : Set Nat :=
  {e | ∃ record, record ∈ records ∧ Usable record ∧ ardsEnd record = e}

-- The code adds the low words only, which is right for a range below 4 gigabytes.
theorem ardsTurn_record {record : Nat → UInt8} (stored : ∀ j, j < 20 → mem (a + j) = record j)
    (below : Usable record → ardsEnd record < 4294967296) :
    ardsTurn mem a size = if wordAt record 16 = 1 then max size (ardsEnd record) else size := by
  have word (k : Nat) (inside : k + 4 ≤ 20) : wordAt mem (a + k) = wordAt record k := by
    refine wordAt_agree fun j small => ?_
    rw [Nat.add_assoc]
    exact stored (k + j) (by omega)
  have base := word 0 (by omega)
  rw [Nat.add_zero] at base
  rw [ardsTurn]
  simp only [base, word 8 (by omega), word 16 (by omega)]
  split
  next usable =>
    have low := below usable
    have sum : (wordAt record 0 + wordAt record 8) % 4294967296 = ardsEnd record := by
      rw [ardsEnd, ardsBase, ardsLength] at low ⊢
      omega
    rw [sum, max_def]
    split <;> split <;> omega
  next => rfl

theorem dispMemInfoLoop_bounds (size : Nat) (stored : Stored mem a records)
    (below : ∀ e, e ∈ ends records → e < 4294967296)
    (fits : a + 20 * records.length < 4294967296) :
    size ≤ dispMemInfoLoop mem records.length a size ∧
      (∀ e, e ∈ ends records → e ≤ dispMemInfoLoop mem records.length a size) ∧
      (dispMemInfoLoop mem records.length a size = size ∨
        dispMemInfoLoop mem records.length a size ∈ ends records) := by
  induction records generalizing a size with
  | nil => exact ⟨le_refl _, fun _ ⟨_, member, _⟩ => absurd member List.not_mem_nil, .inl rfl⟩
  | cons record rest ih =>
    rw [List.length_cons] at fits
    obtain ⟨first, later⟩ := stored_cons.mp stored
    have wrap : (a + 20) % 4294967296 = a + 20 := Nat.mod_eq_of_lt (by omega)
    have widen {e : Nat} (inside : e ∈ ends rest) : e ∈ ends (record :: rest) := by
      obtain ⟨record', member, usable, same⟩ := inside
      exact ⟨record', List.mem_cons_of_mem _ member, usable, same⟩
    rw [List.length_cons, dispMemInfoLoop, wrap, ardsTurn_record first fun usable =>
      below _ ⟨record, List.mem_cons_self, usable, rfl⟩]
    obtain ⟨grows, above, found⟩ := ih
      (if wordAt record 16 = 1 then max size (ardsEnd record) else size) later
      (fun e inside => below e (widen inside)) (by omega)
    generalize dispMemInfoLoop mem rest.length (a + 20)
      (if wordAt record 16 = 1 then max size (ardsEnd record) else size) = last at grows above found
    by_cases usable : wordAt record 16 = 1
    next =>
      rw [if_pos usable] at grows found
      refine ⟨le_trans (le_max_left ..) grows, ?_, ?_⟩
      · rintro e ⟨record', member, usable', rfl⟩
        rcases List.mem_cons.mp member with rfl | member
        · exact le_trans (le_max_right ..) grows
        · exact above _ ⟨record', member, usable', rfl⟩
      · rcases found with same | inside
        · rcases max_choice size (ardsEnd record) with old | new
          · exact .inl (same.trans old)
          · exact .inr ⟨record, List.mem_cons_self, usable, (same.trans new).symm⟩
        · exact .inr (widen inside)
    next =>
      rw [if_neg usable] at grows found
      refine ⟨grows, ?_, found.imp_right widen⟩
      rintro e ⟨record', member, usable', rfl⟩
      rcases List.mem_cons.mp member with rfl | member
      · exact absurd usable' usable
      · exact above _ ⟨record', member, usable', rfl⟩

theorem loopCount_pos {n : Nat} (some_ : n ≠ 0) : loopCount n = n := if_neg some_

theorem dispMemInfo_greatest {memChkBuf : Nat}
    (stored : Stored mem (baseOfLoaderPhyAddr + memChkBuf) records)
    (fits : memChkBuf + 20 * records.length < 65536) (greatest : IsGreatest (ends records) size)
    (some_ : 0 < size) (below : size < 4294967296) :
    dispMemInfo memChkBuf mem records.length = size := by
  have running : records.length ≠ 0 := by
    rintro none_
    obtain ⟨record, member, -⟩ := greatest.1
    rw [List.length_eq_zero_iff.mp none_] at member
    cases member
  have place : baseOfLoaderPhyAddr = 589824 := rfl
  obtain ⟨-, above, found⟩ := dispMemInfoLoop_bounds 0 stored
    (fun e inside => lt_of_le_of_lt (greatest.2 inside) below) (by omega)
  rw [dispMemInfo, loopCount_pos running]
  have high := above size greatest.1
  rcases found with same | inside
  · omega
  · exact le_antisymm (greatest.2 inside) high

end Size

section Tables

theorem stosdLoop_stores (mem : Nat → UInt8) (n edi eax : Nat) (fits : edi + 4 * n ≤ 4294967296)
    (small : ∀ i, i < n → eax + 4096 * i < 4294967296) :
    (∀ i, i < n → wordAt (stosdLoop n edi eax mem) (edi + 4 * i) = eax + 4096 * i) ∧
      ∀ a, a < edi ∨ edi + 4 * n ≤ a → stosdLoop n edi eax mem a = mem a := by
  induction n generalizing mem edi eax with
  | zero => exact ⟨fun i inside => absurd inside (Nat.not_lt_zero i), fun a _ => rfl⟩
  | succ n ih =>
    rw [stosdLoop]
    by_cases last : n = 0
    next =>
      subst last
      have value := small 0 (by omega)
      refine ⟨fun i inside => ?_, fun a out => putWord_outside _ _ out⟩
      obtain rfl : i = 0 := by omega
      show wordAt (putWord mem edi eax) edi = eax
      rw [wordAt_putWord]
      exact Nat.mod_eq_of_lt value
    next =>
      have value := small 0 (by omega)
      have value' := small 1 (by omega)
      have wrap : (edi + 4) % 4294967296 = edi + 4 := Nat.mod_eq_of_lt (by omega)
      have wrap' : (eax + 4096) % 4294967296 = eax + 4096 := Nat.mod_eq_of_lt (by omega)
      rw [wrap, wrap']
      obtain ⟨stores, kept⟩ := ih (putWord mem edi eax) (edi + 4) (eax + 4096)
        (by omega) fun i inside => by
          have next_ := small (i + 1) (by omega)
          omega
      refine ⟨fun i inside => ?_, fun a out => ?_⟩
      · cases i with
        | zero =>
          show wordAt _ edi = eax
          have same : wordAt (stosdLoop n (edi + 4) (eax + 4096) (putWord mem edi eax)) edi =
              wordAt (putWord mem edi eax) edi :=
            wordAt_congr fun j small => kept _ (.inl (by omega))
          rw [same, wordAt_putWord]
          exact Nat.mod_eq_of_lt value
        | succ i =>
          have place : edi + 4 * (i + 1) = edi + 4 + 4 * i := by omega
          have value'' : eax + 4096 * (i + 1) = eax + 4096 + 4096 * i := by omega
          rw [place, value'']
          exact stores i (by omega)
      · rw [kept a (by omega)]
        exact putWord_outside _ _ (by omega)

theorem pageTables_bounds {size : Nat} (some_ : 0 < size) (small : size < 4294967296) :
    0 < pageTables size ∧ pageTables size ≤ 1024 ∧ size ≤ pageTables size * tableSpan := by
  have span : tableSpan = 4194304 := rfl
  rw [pageTables, span]
  split <;> omega

theorem setupPaging_identity (mem : Nat → UInt8) {size : Nat} (some_ : 0 < size)
    (small : size < 4294967296) :
    Identity (setupPaging size mem) pageDirBase pageTblBase (pageTables size) ∧
      ∀ a, a < pageDirBase ∨ pageTblBase + 4096 * pageTables size ≤ a →
        setupPaging size mem a = mem a := by
  obtain ⟨running, few, -⟩ := pageTables_bounds some_ small
  rw [setupPaging]
  generalize pageTables size = n at running few
  have dir : pageDirBase = 1048576 := rfl
  have tables : pageTblBase = 1052672 := rfl
  have first : pageTblBase ||| pgP ||| pgUsu ||| pgRww = pageTblBase + 7 := by decide
  have first' : pgP ||| pgUsu ||| pgRww = 7 := by decide
  have count : n * 1024 % 4294967296 = n * 1024 := Nat.mod_eq_of_lt (by omega)
  rw [first, first', count, loopCount_pos (by omega), loopCount_pos (by omega)]
  obtain ⟨entries, kept⟩ := stosdLoop_stores mem n pageDirBase (pageTblBase + 7)
    (by omega) fun i inside => by omega
  generalize stosdLoop n pageDirBase (pageTblBase + 7) mem = mem₁ at entries kept
  obtain ⟨entries', kept'⟩ := stosdLoop_stores mem₁ (n * 1024) pageTblBase 7
    (by omega) fun i inside => by omega
  generalize stosdLoop (n * 1024) pageTblBase 7 mem₁ = mem₂ at entries' kept'
  refine ⟨⟨fun i inside => ?_, fun k inside => ?_⟩, fun a out => ?_⟩
  · have same : wordAt mem₂ (pageDirBase + 4 * i) = wordAt mem₁ (pageDirBase + 4 * i) :=
      wordAt_congr fun j small => kept' _ (.inl (by omega))
    rw [same, entries i inside]
    unfold pageSize
    omega
  · rw [entries' k inside, Nat.add_comm]
    rfl
  · rw [kept' a (by omega), kept a (by omega)]

end Tables

theorem identity_walks {mem : Nat → UInt8} {size a : Nat} (some_ : 0 < size)
    (small : size < 4294967296) (inside : a < size) :
    walk (setupPaging size mem) pageDirBase a = some (a, 7) := by
  obtain ⟨-, -, enough⟩ := pageTables_bounds some_ small
  exact (setupPaging_identity mem some_ small).1.walk rfl (lt_of_lt_of_le inside enough)

/--
Whatever memory map the BIOS reports, in up to twelve records, if the ranges that can be used end
below 4 gigabytes: what the loader takes for the size of memory is the greatest of their ends, and
every address below it, so in every such range, is mapped to itself, with all rights, by the tables
that the loader builds.
-/
theorem ram_identity_mapped {bios : Bios} {records : List (Nat → UInt8)}
    (reports : Reports bios 0 records) (few : records.length ≤ 12) {memChkBuf : Nat}
    (buffer : memChkBuf + 256 ≤ 65536) {size : Nat} (greatest : IsGreatest (ends records) size)
    (some_ : 0 < size) (below : size < 4294967296) (mem : Nat → UInt8) {fuel : Nat}
    (enough : 12 ≤ fuel) :
    ∃ number mem', memChkLoop bios fuel 0 memChkBuf 0 mem = .ok (number, mem') ∧
      dispMemInfo memChkBuf mem' number = size ∧
      ∀ a, a < size →
        walk (setupPaging (dispMemInfo memChkBuf mem' number) mem') pageDirBase a =
          some (a, 7) := by
  obtain ⟨mem', done, stored, -⟩ := memChkLoop_stored mem 0 reports
    (show memChkBuf + 20 * records.length < 65536 by omega) (show records.length ≤ fuel by omega)
  rw [Nat.zero_add] at done
  have sized := dispMemInfo_greatest stored (by omega) greatest some_ below
  refine ⟨_, mem', done, sized, fun a inside => ?_⟩
  rw [sized]
  exact identity_walks some_ below inside

-- Half a megabyte can be used, and then, from the first megabyte on, 31 more of them.
def smallMap : Nat → UInt8 := fun j => if j = 10 then 8 else if j = 16 then 1 else 0

def largeMap : Nat → UInt8 := fun j =>
  if j = 2 then 0x10 else if j = 10 then 0xF0 else if j = 11 then 1 else if j = 16 then 1 else 0

def smallBios : Bios
  | 0 => some (smallMap, 1)
  | _ => some (largeMap, 0)

theorem smallBios_reports : Reports smallBios 0 [smallMap, largeMap] := ⟨1, by decide, rfl, rfl⟩

theorem smallBios_greatest : IsGreatest (ends [smallMap, largeMap]) 0x2000000 := by
  refine ⟨⟨largeMap, by simp, by decide, by decide⟩, ?_⟩
  rintro e ⟨record, member, -, rfl⟩
  rcases List.mem_pair.mp member with rfl | rfl <;> decide

theorem ram_identity_mapped_small :
    ∃ number mem', memChkLoop smallBios 12 0 0x400 0 (fun _ => 0) = .ok (number, mem') ∧
      dispMemInfo 0x400 mem' number = 0x2000000 ∧
      ∀ a, a < 0x2000000 →
        walk (setupPaging (dispMemInfo 0x400 mem' number) mem') pageDirBase a = some (a, 7) :=
  ram_identity_mapped smallBios_reports (by decide) (by decide) smallBios_greatest (by decide)
    (by decide) _ (by decide)

end Konix.Boot
