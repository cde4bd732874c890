import Konix.Const

set_option autoImplicit false

namespace Konix.Hd

def nrPartPerDrive : Nat := 4
def nrSubPerPart : Nat := 16
def nrSubPerDrive : Nat := nrSubPerPart * nrPartPerDrive
def nrPrimPerDrive : Nat := nrPartPerDrive + 1
def maxDrives : Nat := 2
def maxPrim : Nat := maxDrives * nrPrimPerDrive - 1

def ataRead : UInt8 := 0x20
def ataWrite : UInt8 := 0x30

structure PartInfo where
  base : Nat
  size : Nat
deriving DecidableEq, Repr

structure HdInfo where
  primary : Nat → PartInfo
  logical : Nat → PartInfo

structure HdCmd where
  features : UInt8
  count : UInt8
  lbaLow : UInt8
  lbaMid : UInt8
  lbaHigh : UInt8
  device : UInt8
  command : UInt8
deriving DecidableEq, Repr

def drvOfDev (dev : Int) : Int :=
  if dev ≤ maxPrim then dev.tdiv nrPrimPerDrive
  else (dev - minorHd1a).tdiv nrSubPerDrive

def makeDeviceReg (lba drv lbaHighest : Nat) : Nat :=
  lba <<< 6 ||| drv <<< 4 ||| (lbaHighest &&& 0xF) ||| 0xA0

def partBase (info : HdInfo) (device : Int) : Nat :=
  if device < maxPrim then (info.primary device.toNat).base
  else (info.logical ((device - minorHd1a).tmod nrSubPerDrive).toNat).base

def rdwtCmd (info : HdInfo) (drive : Nat) (p : Message) : HdCmd :=
  let sectNr :=
    (p.position % 18446744073709551616 / sectorSize + partBase info p.device) % 4294967296
  { features := 0
    count := UInt8.ofNat (u32 ((p.cnt + sectorSize - 1).tdiv sectorSize))
    lbaLow := UInt8.ofNat (sectNr &&& 0xFF)
    lbaMid := UInt8.ofNat (sectNr >>> 8 &&& 0xFF)
    lbaHigh := UInt8.ofNat (sectNr >>> 16 &&& 0xFF)
    device := UInt8.ofNat (makeDeviceReg 1 drive (sectNr >>> 24 &&& 0xF))
    command := if p.type = .devRead then ataRead else ataWrite }

-- `while (bytes_left)` in 32 bits, whose turns move so many bytes from or to an address.
def rdwtLoop {σ ε : Type} (diverges : ε) (turn : σ → Nat → Int → Except ε σ) :
    Nat → Nat → Int → σ → Except ε σ
  | 0, _, bytesLeft, s => if bytesLeft = 0 then .ok s else .error diverges
  | fuel + 1, la, bytesLeft, s =>
    if bytesLeft = 0 then .ok s
    else do
      let s ← turn s la (min (sectorSize : Int) bytesLeft)
      rdwtLoop diverges turn fuel ((la + sectorSize) % 4294967296)
        (i32 (u32 (bytesLeft - sectorSize))) s

-- What an iteration of the loop moves: to the caller from `hdbuf`, or from the caller to the port.
inductive Transfer
  | physCopy (la : Nat) (bytes : Int)
  | portWrite (la : Nat) (bytes : Int)
deriving DecidableEq, Repr

def Transfer.bytes : Transfer → Int
  | .physCopy _ bytes => bytes
  | .portWrite _ bytes => bytes

def record (type : MsgType) (transfers : List Transfer) (la : Nat) (bytes : Int) :
    Except Unit (List Transfer) :=
  .ok (transfers ++ [if type = .devRead then .physCopy la bytes else .portWrite la bytes])

-- The transfers of the loop, `none` if `fuel` turns do not end it.
def rdwtTransfers (type : MsgType) (fuel la : Nat) (bytesLeft : Int) : Option (List Transfer) :=
  (rdwtLoop () (record type) fuel la bytesLeft []).toOption

/--
`hd_rdwt()` on a device that becomes ready in time: the command it programs and the transfers it
then makes for a task, whose segment begins at zero. `none` stands for a failed assertion, a drive
outside `hd_info[]`, or a loop that is still running.
-/
def hdRdwt (fuel : Nat) (info : HdInfo) (p : Message) : Option (HdCmd × List Transfer) :=
  let pos := p.position % 18446744073709551616
  -- `1 << 31` is a negative `int`, converted to `u64` for the comparison
  if ¬ (pos / sectorSize < 18446744071562067968) ∨ pos % sectorSize ≠ 0 then none
  else if drvOfDev p.device ≠ 0 then none
  else (rdwtTransfers p.type fuel p.buf p.cnt).map fun transfers => (rdwtCmd info 0 p, transfers)

-- The number of sectors the drive moves for a count register; 0 stands for 256.
def sectorsProgrammed (count : UInt8) : Nat := if count = 0 then 256 else count.toNat

section Loop

variable {σ ε : Type} {diverges : ε} {turn : σ → Nat → Int → Except ε σ} {type : MsgType}
  {bytesLeft : Int}

-- A turn leaves the rest that does not fill a sector as it is, and zero is not reached past it.
theorem rdwtLoop_endless (rest : bytesLeft % (sectorSize : Nat) ≠ 0) (fuel la : Nat) (s r : σ) :
    rdwtLoop diverges turn fuel la bytesLeft s ≠ .ok r := by
  have running : bytesLeft ≠ 0 := by
    rintro rfl
    exact rest rfl
  induction fuel generalizing la bytesLeft s with
  | zero =>
    rw [rdwtLoop, if_neg running]
    exact fun same => nomatch same
  | succ fuel ih =>
    have kept : i32 (u32 (bytesLeft - (sectorSize : Nat))) % (sectorSize : Nat) ≠ 0 := by
      simp only [sectorSize] at rest ⊢
      rcases i32_cases (u32 (bytesLeft - (512 : Nat))) with ⟨-, value⟩ | ⟨-, value⟩ <;>
        rw [value] <;> unfold u32 <;> omega
    have running' : i32 (u32 (bytesLeft - (sectorSize : Nat))) ≠ 0 := by
      intro zero
      rw [zero] at kept
      exact kept rfl
    rw [rdwtLoop, if_neg running]
    intro done
    obtain ⟨s', -, later⟩ := bind_ok done
    exact ih kept _ s' running' later

theorem rdwtLoop_counts (goesOn : ∀ s la bytes, ∃ s', turn s la bytes = .ok s') {n : Nat}
    (la : Nat) (s : σ) (small : n * sectorSize < 4294967296) :
    ∃ r, rdwtLoop diverges turn n la (i32 (n * sectorSize)) s = .ok r := by
  induction n generalizing la s with
  | zero =>
    rw [Nat.zero_mul]
    exact ⟨s, rfl⟩
  | succ n ih =>
    have running : i32 ((n + 1) * sectorSize) ≠ 0 := by
      simp only [sectorSize] at small ⊢
      rcases i32_cases ((n + 1) * 512) with ⟨-, value⟩ | ⟨-, value⟩ <;> rw [value] <;> omega
    have rest : u32 (i32 ((n + 1) * sectorSize) - (sectorSize : Nat)) = n * sectorSize := by
      simp only [sectorSize] at small ⊢
      rcases i32_cases ((n + 1) * 512) with ⟨-, value⟩ | ⟨-, value⟩ <;> rw [value] <;>
        unfold u32 <;> omega
    obtain ⟨s', turns⟩ := goesOn s la (min (sectorSize : Int) (i32 ((n + 1) * sectorSize)))
    obtain ⟨r, done⟩ := ih ((la + sectorSize) % 4294967296) s'
      (lt_of_le_of_lt (Nat.mul_le_mul_right _ (Nat.le_succ n)) small)
    exact ⟨r, by rw [rdwtLoop, if_neg running, bind_of_ok _ turns, rest, done]⟩

-- From a whole number of sectors zero is reached, if need be past the ends of the 32 bits.
theorem rdwtLoop_ends (goesOn : ∀ s la bytes, ∃ s', turn s la bytes = .ok s') (la : Nat) (s : σ)
    (whole : bytesLeft % (sectorSize : Nat) = 0) :
    ∃ fuel r, rdwtLoop diverges turn fuel la bytesLeft s = .ok r := by
  by_cases running : bytesLeft = 0
  next => exact ⟨0, s, if_pos running⟩
  next =>
    obtain ⟨s', turns⟩ := goesOn s la (min (sectorSize : Int) bytesLeft)
    obtain ⟨n, rest⟩ : ∃ n, u32 (bytesLeft - (sectorSize : Nat)) = n * sectorSize := by
      refine ⟨u32 (bytesLeft - (sectorSize : Nat)) / sectorSize, ?_⟩
      simp only [sectorSize] at whole ⊢
      unfold u32
      omega
    have small : n * sectorSize < 4294967296 := by
      rw [← rest]
      unfold u32
      omega
    obtain ⟨r, done⟩ := rdwtLoop_counts goesOn ((la + sectorSize) % 4294967296) s' small
    exact ⟨n + 1, r, by rw [rdwtLoop, if_neg running, bind_of_ok _ turns, rest, done]⟩

theorem rdwtLoop_whole (n la : Nat) (before : List Transfer) (bound : n < 4194304) :
    ∃ transfers : List Transfer, transfers.length = n ∧ (∀ t ∈ transfers, t.bytes = sectorSize) ∧
      ∀ fuel, rdwtLoop () (record type) fuel la (n * sectorSize : Nat) before =
        if n ≤ fuel then .ok (before ++ transfers) else .error () := by
  induction n generalizing la before with
  | zero =>
    refine ⟨[], rfl, fun _ member => absurd member List.not_mem_nil, fun fuel => ?_⟩
    rw [if_pos (Nat.zero_le fuel), List.append_nil, Nat.zero_mul]
    cases fuel <;> rfl
  | succ n ih =>
    let first : Transfer :=
      if type = .devRead then .physCopy la sectorSize else .portWrite la sectorSize
    obtain ⟨transfers, length, whole, loop⟩ :=
      ih ((la + sectorSize) % 4294967296) (before ++ [first]) (by omega)
    have running : ¬ (((n + 1) * sectorSize : Nat) : Int) = 0 := by
      simp only [sectorSize]
      omega
    have left : i32 (u32 ((((n + 1) * sectorSize : Nat) : Int) - (sectorSize : Nat))) =
        (n * sectorSize : Nat) := by
      have small : u32 ((((n + 1) * sectorSize : Nat) : Int) - (sectorSize : Nat)) =
          n * sectorSize := by
        simp only [sectorSize]
        unfold u32
        omega
      rw [small, i32_of_bounds (by simp only [sectorSize]; omega)]
    have sector : min (sectorSize : Int) (((n + 1) * sectorSize : Nat) : Int) = sectorSize := by
      simp only [sectorSize]
      omega
    refine ⟨first :: transfers, congrArg (· + 1) length, ?_, fun fuel => ?_⟩
    · intro t member
      rcases List.mem_cons.mp member with rfl | old
      · simp only [first]
        split <;> rfl
      · exact whole t old
    · cases fuel with
      | zero => exact if_neg running
      | succ fuel =>
        rw [rdwtLoop, if_neg running, left, sector]
        refine (bind_of_ok _ (show record type before la sectorSize = .ok (before ++ [first]) from
          rfl)).trans ?_
        rw [loop fuel, List.append_assoc]
        exact if_congr Nat.succ_le_succ_iff.symm rfl rfl

theorem rdwtTransfers_whole (type : MsgType) {n : Nat} (la : Nat) (bound : n < 4194304) :
    ∃ transfers : List Transfer, transfers.length = n ∧ (∀ t ∈ transfers, t.bytes = sectorSize) ∧
      ∀ fuel, rdwtTransfers type fuel la (n * sectorSize : Nat) =
        if n ≤ fuel then some transfers else none := by
  obtain ⟨transfers, length, whole, loop⟩ := @rdwtLoop_whole type n la [] bound
  refine ⟨transfers, length, whole, fun fuel => ?_⟩
  rw [rdwtTransfers, loop]
  split_ifs <;> rfl

end Loop

-- The command covers the sectors that the loop then transfers.
def SectorsAgree (info : HdInfo) (m : Message) : Prop :=
  ∃ fuel cmd transfers, hdRdwt fuel info m = some (cmd, transfers) ∧
    sectorsProgrammed cmd.count = transfers.length ∧
    (transfers.length : Int) = m.cnt / sectorSize

theorem sectorsAgree_iff (info : HdInfo) {m : Message} {n : Nat} (positive : 0 < n)
    (bound : n ≤ 2048) (cnt : m.cnt = (n * sectorSize : Nat)) (device : m.device = minor rootDev)
    (aligned : m.position % sectorSize = 0) : SectorsAgree info m ↔ n ≤ 256 := by
  have size : sectorSize = 512 := rfl
  have drive : drvOfDev m.device = 0 := by rw [device]; decide
  have accepted : ¬ (¬ (m.position % 18446744073709551616 / sectorSize < 18446744071562067968) ∨
      m.position % 18446744073709551616 % sectorSize ≠ 0) := by
    rw [size] at aligned ⊢
    omega
  have count : u32 ((m.cnt + sectorSize - 1).tdiv sectorSize) = n := by
    have rounded : m.cnt + (sectorSize : Nat) - 1 = ((n * 512 + 511 : Nat) : Int) := by
      rw [cnt, size]; omega
    rw [rounded, size]
    have divided : ((n * 512 + 511 : Nat) : Int).tdiv ((512 : Nat) : Int) = (n : Nat) := by
      rw [← Int.ofNat_tdiv]
      omega
    rw [divided]
    unfold u32
    omega
  have programmed : sectorsProgrammed (UInt8.ofNat n) = if n % 256 = 0 then 256 else n % 256 := by
    have zero : UInt8.ofNat n = 0 ↔ n % 256 = 0 := by
      rw [← UInt8.toNat_inj]
      simp
    simp only [sectorsProgrammed, zero]
    split <;> simp
  have whole : m.cnt / (sectorSize : Nat) = n := by rw [cnt, size]; omega
  obtain ⟨transfers, length, -, loop⟩ :=
    rdwtTransfers_whole m.type m.buf (show n < 4194304 by omega)
  have done (fuel : Nat) : hdRdwt fuel info m =
      if n ≤ fuel then some (rdwtCmd info 0 m, transfers) else none := by
    rw [hdRdwt]
    simp only [accepted, if_false, drive, ne_eq, not_true_eq_false, cnt, loop]
    split_ifs <;> rfl
  constructor
  · rintro ⟨fuel, cmd, transfers', ran, agree, -⟩
    rw [done] at ran
    split at ran
    next =>
      cases ran
      simp only [rdwtCmd, count, programmed, length] at agree
      split at agree <;> omega
    next => cases ran
  · intro small
    refine ⟨n, rdwtCmd info 0 m, transfers, by rw [done, if_pos (le_refl n)], ?_,
      by rw [length, whole]⟩
    simp only [rdwtCmd, count, programmed, length]
    split <;> omega

/--
The loop ends after as many turns as the message asks for sectors, and moves its bytes, at least one
and at most a sector at a time.
-/
def TransfersAll (la : Nat) (p : Message) : Prop :=
  ∃ fuel transfers, rdwtTransfers p.type fuel la p.cnt = some transfers ∧
    (transfers.length : Int) = (p.cnt + (sectorSize - 1)) / sectorSize ∧
    (∀ t ∈ transfers, 1 ≤ t.bytes ∧ t.bytes ≤ sectorSize) ∧
    (transfers.map Transfer.bytes).sum = p.cnt

theorem sum_of_whole {transfers : List Transfer} (whole : ∀ t ∈ transfers, t.bytes = sectorSize) :
    (transfers.map Transfer.bytes).sum = transfers.length * (sectorSize : Int) := by
  have same : transfers.map Transfer.bytes = List.replicate transfers.length (sectorSize : Int) :=
    List.map_eq_replicate_iff.mpr whole
  rw [same, List.sum_replicate, nsmul_eq_mul]

theorem rdwtTransfers_endless {type : MsgType} {bytesLeft : Int}
    (rest : bytesLeft % (sectorSize : Nat) ≠ 0) (fuel la : Nat) (transfers : List Transfer) :
    rdwtTransfers type fuel la bytesLeft ≠ some transfers := by
  rw [rdwtTransfers]
  cases done : rdwtLoop () (record type) fuel la bytesLeft [] with
  | error _ => exact fun same => nomatch same
  | ok r => exact absurd done (rdwtLoop_endless rest fuel la [] r)

/-- The loop meets a request exactly when it is one for whole sectors; otherwise it never ends. -/
theorem transfers_all_iff (la : Nat) (p : Message) (positive : 0 ≤ p.cnt)
    (bound : p.cnt < 2147483648) :
    TransfersAll la p ↔ p.cnt % sectorSize = 0 := by
  constructor
  · rintro ⟨fuel, transfers, done, -⟩
    by_contra rest
    exact rdwtTransfers_endless rest fuel la transfers done
  · intro whole
    obtain ⟨n, cnt⟩ : ∃ n : Nat, p.cnt = (n * sectorSize : Nat) := by
      refine ⟨p.cnt.toNat / sectorSize, ?_⟩
      simp only [sectorSize] at whole ⊢
      omega
    have fits : n < 4194304 := by
      simp only [sectorSize] at cnt
      omega
    obtain ⟨transfers, length, sectors, loop⟩ := rdwtTransfers_whole p.type la fits
    refine ⟨n, transfers, by rw [cnt, loop, if_pos (le_refl n)], ?_, ?_, ?_⟩
    · rw [length, cnt]
      simp only [sectorSize]
      omega
    · intro t member
      rw [sectors t member]
      exact ⟨by decide, le_refl _⟩
    · rw [sum_of_whole sectors, length, cnt]
      simp only [sectorSize]
      omega

theorem transfers_all_two :
    TransfersAll 0 { resetMsg with type := .devRead, m3i2 := 1024 } ↔
      (1024 : Int) % sectorSize = 0 :=
  transfers_all_iff 0 { resetMsg with type := .devRead, m3i2 := 1024 } (by decide) (by decide)

-- A hundred bytes: the loop goes on to move -412 bytes, then -924, and so on.
theorem transfers_part :
    ¬ TransfersAll 0 { resetMsg with type := .devRead, m3i2 := 100 } := by
  rintro ⟨fuel, transfers, done, -⟩
  have rest : ({ resetMsg with type := .devRead, m3i2 := 100 } : Message).cnt % sectorSize ≠ 0 := by
    decide
  exact rdwtTransfers_endless rest fuel 0 transfers done

end Konix.Hd
