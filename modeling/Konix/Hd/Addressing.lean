import Konix.Fs.State
import Konix.Hd.Driver

set_option autoImplicit false

namespace Konix.Hd

/--
The type of the expression for the sector that FS multiplies by `SECTOR_SIZE`: `int` in `do_rdwt()`
and most uses of `RD_SECT` and `WR_SECT`, `u32` where `mkfs()` adds up fields of the super block.
-/
inductive SectType
  | int
  | u32
deriving DecidableEq, Repr

-- `(sect_nr) * SECTOR_SIZE`, converted to the `u64` that `rw_sector()` takes.
def sectPos : SectType → Nat → Nat
  | .int, sect => (i32 (sect * sectorSize) % 18446744073709551616).toNat
  | .u32, sect => sect * sectorSize % 4294967296

-- The sector that the drive reads off its address registers.
def lbaOf (cmd : HdCmd) : Nat :=
  cmd.lbaLow.toNat + 256 * cmd.lbaMid.toNat + 65536 * cmd.lbaHigh.toNat +
    16777216 * (cmd.device.toNat % 16)

-- The request for so many sectors from `sect` on gets to that sector of the partition.
def AddressExact (info : HdInfo) (type : SectType) (io : MsgType) (dev sect count : Nat) : Prop :=
  ∃ fuel cmd transfers,
    hdRdwt fuel info (Fs.State.driverMsg io dev (sectPos type sect) (count * sectorSize)) =
      some (cmd, transfers) ∧ lbaOf cmd = partBase info (minor dev) + sect

theorem makeDeviceReg_high {high : Nat} (small : high < 16) :
    (UInt8.ofNat (makeDeviceReg 1 0 high)).toNat % 16 = high := by
  interval_cases high <;> rfl

theorem lbaOf_registers (cmd : HdCmd) {n : Nat} (low : cmd.lbaLow = UInt8.ofNat (n &&& 0xFF))
    (mid : cmd.lbaMid = UInt8.ofNat (n >>> 8 &&& 0xFF))
    (high : cmd.lbaHigh = UInt8.ofNat (n >>> 16 &&& 0xFF))
    (device : cmd.device = UInt8.ofNat (makeDeviceReg 1 0 (n >>> 24 &&& 0xF))) :
    lbaOf cmd = n % 268435456 := by
  have byte (x : Nat) : (UInt8.ofNat (x &&& 0xFF)).toNat = x % 256 := by
    rw [show (0xFF : Nat) = 2 ^ 8 - 1 from rfl, Nat.and_two_pow_sub_one_eq_mod, UInt8.toNat_ofNat']
    omega
  have half (x : Nat) : (x &&& 0xF) = x % 16 := by
    rw [show (0xF : Nat) = 2 ^ 4 - 1 from rfl, Nat.and_two_pow_sub_one_eq_mod]
  rw [lbaOf, low, mid, high, device]
  simp only [byte, half, Nat.shiftRight_eq_div_pow]
  rw [makeDeviceReg_high (Nat.mod_lt _ (by decide))]
  omega

theorem lbaOf_rdwtCmd (info : HdInfo) (p : Message) :
    lbaOf (rdwtCmd info 0 p) =
      (p.position % 18446744073709551616 / sectorSize + partBase info p.device) % 268435456 := by
  rw [lbaOf_registers (rdwtCmd info 0 p) rfl rfl rfl rfl]
  omega

theorem hdRdwt_accepts (info : HdInfo) (io : MsgType) (count : Nat) {dev pos : Nat}
    (drive : drvOfDev (minor dev) = 0) (aligned : pos % sectorSize = 0) :
    ∃ fuel transfers, hdRdwt fuel info (Fs.State.driverMsg io dev pos (count * sectorSize)) =
      some (rdwtCmd info 0 (Fs.State.driverMsg io dev pos (count * sectorSize)), transfers) := by
  generalize message : Fs.State.driverMsg io dev pos (count * sectorSize) = m
  have device : m.device = minor dev := by rw [← message]; rfl
  have position : m.position = pos := by rw [← message]; rfl
  have cnt : m.cnt = (count * sectorSize : Nat) := by rw [← message]; rfl
  have whole : m.cnt % (sectorSize : Nat) = 0 := by
    rw [cnt]
    simp only [sectorSize]
    omega
  obtain ⟨fuel, transfers, loop⟩ : ∃ fuel transfers,
      rdwtLoop () (record m.type) fuel m.buf m.cnt [] = .ok transfers :=
    rdwtLoop_ends (fun _ _ _ => ⟨_, rfl⟩) m.buf [] whole
  have done : rdwtTransfers m.type fuel m.buf m.cnt = some transfers := by
    rw [rdwtTransfers, loop]
    rfl
  have accepted : ¬ (¬ (m.position % 18446744073709551616 / sectorSize < 18446744071562067968) ∨
      m.position % 18446744073709551616 % sectorSize ≠ 0) := by
    rw [position]
    simp only [sectorSize] at aligned ⊢
    omega
  have drive' : ¬ drvOfDev m.device ≠ 0 := by
    rw [device]
    exact not_not.mpr drive
  refine ⟨fuel, transfers, ?_⟩
  rw [hdRdwt]
  simp only [accepted, if_false, drive', done, Option.map_some]

theorem sectPos_aligned (type : SectType) (sect : Nat) :
    sectPos type sect % sectorSize = 0 ∧ sectPos type sect < 18446744073709551616 := by
  cases type with
  | int =>
    have cases_ := i32_cases (sect * sectorSize)
    simp only [sectPos]
    generalize i32 (sect * sectorSize) = product at cases_ ⊢
    simp only [sectorSize] at cases_ ⊢
    omega
  | u32 =>
    simp only [sectPos, sectorSize]
    omega

-- The drive is sent to one sector only, whatever the fuel.
theorem addressExact_eq (info : HdInfo) (type : SectType) (io : MsgType) (dev sect count : Nat)
    (drive : drvOfDev (minor dev) = 0) :
    AddressExact info type io dev sect count ↔
      (sectPos type sect / sectorSize + partBase info (minor dev)) % 268435456 =
        partBase info (minor dev) + sect := by
  obtain ⟨aligned, bound⟩ := sectPos_aligned type sect
  have lba : lbaOf (rdwtCmd info 0
      (Fs.State.driverMsg io dev (sectPos type sect) (count * sectorSize))) =
        (sectPos type sect / sectorSize + partBase info (minor dev)) % 268435456 := by
    rw [lbaOf_rdwtCmd]
    show (sectPos type sect % 18446744073709551616 / sectorSize + partBase info (minor dev)) %
      268435456 = _
    rw [Nat.mod_eq_of_lt bound]
  rw [← lba]
  constructor
  · intro ⟨fuel, cmd, transfers, done, address⟩
    have same : cmd = rdwtCmd info 0
        (Fs.State.driverMsg io dev (sectPos type sect) (count * sectorSize)) := by
      rw [hdRdwt] at done
      split at done
      · cases done
      · split at done
        · cases done
        · obtain ⟨_, -, same⟩ := Option.map_eq_some_iff.mp done
          exact (congrArg Prod.fst same).symm
    rwa [← same]
  · intro address
    obtain ⟨fuel, transfers, done⟩ := hdRdwt_accepts info io count drive aligned
    exact ⟨fuel, _, transfers, done, address⟩

/--
An `int` product is right below 2^22 sectors, where it is not negative; the top 2^22 of 2^28 sectors
are reached as well, because the registers drop what the sign extension puts above their 28 bits.
-/
def Addressable : SectType → Nat → Prop
  | .int, sect => sect < 4194304 ∨ 268435456 - 4194304 ≤ sect
  | .u32, sect => sect < 8388608

theorem sector_address_iff (info : HdInfo) (type : SectType) (io : MsgType)
    (dev size sect count : Nat) (drive : drvOfDev (minor dev) = 0) (inside : sect < size)
    (fits : partBase info (minor dev) + size ≤ 268435456) :
    AddressExact info type io dev sect count ↔ Addressable type sect := by
  rw [addressExact_eq info type io dev sect count drive]
  generalize partBase info (minor dev) = base at fits
  cases type with
  | int =>
    have cases_ := i32_cases (sect * sectorSize)
    simp only [sectPos, Addressable]
    generalize i32 (sect * sectorSize) = product at cases_ ⊢
    simp only [sectorSize] at cases_ ⊢
    omega
  | u32 =>
    simp only [sectPos, Addressable, sectorSize]
    omega

def onePartition : HdInfo where
  primary _ := ⟨63, 8388608⟩
  logical _ := ⟨63, 8388608⟩

-- The last sector of the first 2 GB.
theorem sector_address_last :
    AddressExact onePartition .int .devRead rootDev 4194303 1 ↔ Addressable .int 4194303 :=
  sector_address_iff onePartition .int .devRead rootDev 8388608 4194303 1 (by decide) (by decide)
    (by decide)

-- The sector behind it is sought 2^22 sectors below the end of the 28-bit range.
theorem sector_address_negative :
    ¬ ∀ (info : HdInfo) (type : SectType) (io : MsgType) (dev size sect count : Nat),
      drvOfDev (minor dev) = 0 → sect < size → partBase info (minor dev) + size ≤ 268435456 →
        AddressExact info type io dev sect count := by
  intro always
  have exact_ := always onePartition .int .devRead rootDev 8388608 4194304 1 (by decide)
    (by decide) (by decide)
  rw [addressExact_eq _ _ _ _ _ _ (by decide)] at exact_
  revert exact_
  decide +kernel

end Konix.Hd
