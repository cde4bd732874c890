import Konix.Fs.Sectors
import Konix.Lib.Bits

set_option autoImplicit false

namespace Konix.Fs

open Splice Words Bits

-- `for (k = 0; ((fsbuf[j] >> k) & 1) != 0; k++) {}`
def skipOnes (byte : UInt8) : Nat → Nat → Nat
  | 0, k => k
  | fuel + 1, k => if byte.toNat.testBit k then skipOnes byte fuel (k + 1) else k

def skipFull (buf : Nat → UInt8) : Nat → Nat → Option Nat
  | 0, _ => none
  | fuel + 1, j => if buf j = 0xFF then skipFull buf fuel (j + 1) else some j

def imapBlk0Nr : Nat := 1 + 1

-- The loop over the sectors of the map returns at the end of its first turn.
def allocImapBit (s : State) (dev : Nat) : Except Stop (Nat × State) := do
  let sb ← getSuperBlock s dev
  if sb.nrImapSects = 0 then .error .panic
  else do
    let s ← s.rdSect dev imapBlk0Nr
    match skipFull s.fsbuf sectorSize 0 with
    | none => return (0, s)
    | some j => do
      let k := skipOnes (s.fsbuf j) 8 0
      let s := { s with fsbuf := Function.update s.fsbuf j (setBit (s.fsbuf j) k) }
      let s ← s.wrSect dev imapBlk0Nr
      return (j * 8 + k, s)

structure SmapVars where
  freeSectNr : Int
  nrSectsToAlloc : Nat
deriving DecidableEq, Repr

-- `for (; k < 8; k++)`: repeat till enough bits are set.
def takeBits : Nat → Nat → UInt8 → Nat → Except Stop (UInt8 × Nat)
  | 0, _, byte, left => .ok (byte, left)
  | fuel + 1, k, byte, left => do
    assertThat (byte.toNat.testBit k = false) .smapBitBusy
    if left - 1 = 0 then return (setBit byte k, 0)
    else takeBits fuel (k + 1) (setBit byte k) (left - 1)

-- The bytes of sector `i` of the map.
def smapBytes (i n1stSect : Nat) : Nat → Nat → SmapVars → (Nat → UInt8) →
    Except Stop (SmapVars × (Nat → UInt8))
  | 0, _, v, buf => .ok (v, buf)
  | fuel + 1, j, v, buf =>
    if v.nrSectsToAlloc = 0 then .ok (v, buf)
    else if v.freeSectNr = 0 ∧ buf j = 0xFF then smapBytes i n1stSect fuel (j + 1) v buf
    else do
      let k := if v.freeSectNr = 0 then skipOnes (buf j) 8 0 else 0
      let freeSectNr := if v.freeSectNr = 0 then
          i32 (u32 ((i * sectorSize + j : Nat) * 8 + k - 1) + n1stSect)
        else v.freeSectNr
      let (byte, left) ← takeBits (8 - k) k (buf j) v.nrSectsToAlloc
      smapBytes i n1stSect fuel (j + 1) ⟨freeSectNr, left⟩ (Function.update buf j byte)

def smapBlk0Nr (sb : SuperBlock) : Nat := 1 + 1 + sb.nrImapSects

-- A free bit has been found: write the bits to the map.
def writeFound (v : SmapVars) (dev sect : Nat) (s : State) : Except Stop State :=
  if v.freeSectNr ≠ 0 then s.wrSect dev sect else .ok s

def smapSects (sb : SuperBlock) (dev : Nat) : Nat → Nat → SmapVars → State →
    Except Stop (SmapVars × State)
  | 0, _, v, s => .ok (v, s)
  | fuel + 1, i, v, s => do
    let s ← s.rdSect dev (smapBlk0Nr sb + i)
    let (v, buf) ← smapBytes i sb.n1stSect sectorSize 0 v s.fsbuf
    let s ← writeFound v dev (smapBlk0Nr sb + i) { s with fsbuf := buf }
    if v.nrSectsToAlloc = 0 then return (v, s)
    else smapSects sb dev fuel (i + 1) v s

def allocSmapBit (s : State) (dev nrSectsToAlloc : Nat) : Except Stop (Int × State) := do
  let sb ← getSuperBlock s dev
  let (v, s) ← smapSects sb dev sb.nrSmapSects 0 ⟨0, nrSectsToAlloc⟩ s
  assertThat (v.nrSectsToAlloc = 0) .assertion
  return (v.freeSectNr, s)

def LowestClear (f : Nat → UInt8) (base b : Nat) : Prop :=
  bitAt f base b = false ∧ ∀ i, i < b → bitAt f base i = true

theorem LowestClear.unique {f : Nat → UInt8} {base b c : Nat} (first : LowestClear f base b)
    (second : LowestClear f base c) : b = c := by
  rcases Nat.lt_trichotomy b c with less | same | more
  · have set := second.2 b less
    rw [first.1] at set
    cases set
  · exact same
  · have set := first.2 c more
    rw [second.1] at set
    cases set

theorem skipOnes_spec (byte : UInt8) (fuel k : Nat)
    (below : ∀ i, i < k → byte.toNat.testBit i = true)
    (clear : ∃ i, k ≤ i ∧ i < k + fuel ∧ byte.toNat.testBit i = false) :
    skipOnes byte fuel k < k + fuel ∧ byte.toNat.testBit (skipOnes byte fuel k) = false ∧
      ∀ i, i < skipOnes byte fuel k → byte.toNat.testBit i = true := by
  induction fuel generalizing k with
  | zero =>
    obtain ⟨i, lower, upper, -⟩ := clear
    omega
  | succ fuel ih =>
    by_cases set : byte.toNat.testBit k = true
    · obtain ⟨i, lower, upper, isClear⟩ := clear
      have notHere : i ≠ k := by
        rintro rfl
        rw [set] at isClear
        cases isClear
      have rest := ih (k + 1)
        (fun i bound => by
          by_cases last : i = k
          · rwa [last]
          · exact below i (by omega))
        ⟨i, by omega, by omega, isClear⟩
      simp only [skipOnes, set, if_true]
      exact ⟨by omega, rest.2⟩
    · have clear' := Bool.eq_false_of_not_eq_true set
      have here : skipOnes byte (fuel + 1) k = k := by
        simp only [skipOnes, clear', Bool.false_eq_true, if_false]
      rw [here]
      exact ⟨by omega, clear', below⟩

theorem skipOnes_byte {byte : UInt8} (notFull : byte ≠ 0xFF) :
    skipOnes byte 8 0 < 8 ∧ byte.toNat.testBit (skipOnes byte 8 0) = false ∧
      ∀ i, i < skipOnes byte 8 0 → byte.toNat.testBit i = true := by
  have clear : ∃ i, 0 ≤ i ∧ i < 0 + 8 ∧ byte.toNat.testBit i = false := by
    by_contra none_
    apply notFull
    rw [full_byte]
    intro i bound
    by_contra isClear
    exact none_ ⟨i, by omega, by omega, Bool.eq_false_of_not_eq_true isClear⟩
  simpa using skipOnes_spec byte 8 0 (fun i bound => by omega) clear

theorem skipFull_spec (buf : Nat → UInt8) (fuel j : Nat) :
    (skipFull buf fuel j = none ∧ ∀ i, j ≤ i → i < j + fuel → buf i = 0xFF) ∨
      ∃ i, skipFull buf fuel j = some i ∧ j ≤ i ∧ i < j + fuel ∧ buf i ≠ 0xFF ∧
        ∀ k, j ≤ k → k < i → buf k = 0xFF := by
  induction fuel generalizing j with
  | zero => exact .inl ⟨rfl, fun i lower upper => by omega⟩
  | succ fuel ih =>
    by_cases full : buf j = 0xFF
    · simp only [skipFull, full, if_true]
      rcases ih (j + 1) with ⟨none_, all⟩ | ⟨i, found, lower, upper, notFull, before⟩
      · refine .inl ⟨none_, fun i lower upper => ?_⟩
        by_cases first_ : i = j
        · rwa [first_]
        · exact all i (by omega) (by omega)
      · refine .inr ⟨i, found, by omega, by omega, notFull, fun k lower upper => ?_⟩
        by_cases first_ : k = j
        · rwa [first_]
        · exact before k (by omega) upper
    · exact .inr ⟨j, by simp only [skipFull, full, if_false], by omega, by omega, full,
        fun k lower upper => by omega⟩

def imapBase : Nat := imapBlk0Nr * sectorSize

def bitsPerSect : Nat := sectorSize * 8

theorem allocImapBit_spec (s : State) {sb : SuperBlock} (super : getSuperBlock s rootDev = .ok sb)
    (sects : 0 < sb.nrImapSects) :
    ∃ nr s', allocImapBit s rootDev = .ok (nr, s') ∧ DiskOnly s s' ∧
      ((nr = 0 ∧ s'.disk = s.disk ∧ ∀ i, i < bitsPerSect → bitAt s.disk imapBase i = true) ∨
        (nr < bitsPerSect ∧ LowestClear s.disk imapBase nr ∧
          s'.disk = setBits s.disk imapBase nr (nr + 1))) := by
  have some_ : ¬ sb.nrImapSects = 0 := by omega
  simp only [allocImapBit, super, some_, if_false, State.rdSect_rootDev, bind, Except.bind]
  generalize read : s.transfer .devRead rootDev (imapBlk0Nr * sectorSize) sectorSize = r
  have only : DiskOnly s r := read ▸ DiskOnly.transfer ..
  have held : r.held imapBase = s.disk := read ▸ State.transfer_read_held ..
  have sameDisk : r.disk = s.disk := read ▸ rfl
  have bytes (j : Nat) (bound : j < sectorSize) : r.fsbuf j = s.disk (imapBase + j) := by
    rw [← held, State.held_inside _ _ bound]
  have full (j : Nat) (bound : j < sectorSize) (isFull : r.fsbuf j = 0xFF) (i : Nat)
      (below : i < 8) : bitAt s.disk imapBase (8 * j + i) = true := by
    rw [bitAt_byte _ _ _ below, ← bytes j bound]
    exact full_byte.mp isFull i below
  rcases skipFull_spec r.fsbuf sectorSize 0 with
    ⟨none_, all⟩ | ⟨j, found, -, bound, notFull, before⟩
  · simp only [none_]
    refine ⟨0, r, rfl, only, .inl ⟨rfl, sameDisk, fun i bound => ?_⟩⟩
    simp only [bitsPerSect] at bound
    have byte := full (i / 8) (by omega) (all _ (by omega) (by omega)) (i % 8) (by omega)
    rwa [show 8 * (i / 8) + i % 8 = i by omega] at byte
  · simp only [found, State.wrSect_rootDev]
    obtain ⟨small, clear, ones⟩ := skipOnes_byte notFull
    generalize skipOnes (r.fsbuf j) 8 0 = k at small clear ones ⊢
    have bound : j < sectorSize := by omega
    refine ⟨_, _, rfl, ?_, .inr ⟨?_, ⟨?_, ?_⟩, ?_⟩⟩
    · exact only.trans ((DiskOnly.buffer r _).trans (DiskOnly.transfer ..))
    · simp only [bitsPerSect]
      omega
    · rw [Nat.mul_comm, bitAt_byte _ _ _ small, ← bytes j bound]
      exact clear
    · intro i below
      have place : 8 * (i / 8) + i % 8 = i := by omega
      by_cases same : i / 8 = j
      · rw [← place, bitAt_byte _ _ _ (by omega), ← bytes _ (by omega), same]
        exact ones _ (by omega)
      · have byte := full (i / 8) (by omega) (before _ (by omega) (by omega)) (i % 8) (by omega)
        rwa [place] at byte
    · rw [State.transfer_write_disk, show imapBlk0Nr * sectorSize = imapBase from rfl,
        State.held_update _ _ _ bound, held, bytes j bound]
      have grown := setBits_extend s.disk imapBase (j * 8 + k) (j * 8 + k) (j * 8 + k + 1) j

        (fun i out => by rw [inside_eq_false (by omega), inside_eq_false (by omega)])
        (fun i below => by
          rw [testBit_setBit _ small]
          congr 1
          by_cases same : i = k
          · have hit : inside (j * 8 + k) (j * 8 + k + 1) (8 * j + i) = true :=
              inside_iff.mpr (by omega)
            rw [hit, same, decide_eq_true rfl]
          · rw [inside_eq_false (by omega), decide_eq_false same])
      rwa [setBits_empty _ (le_refl _)] at grown

theorem takeBits_spec (fuel k : Nat) (byte : UInt8) (left : Nat) (whole : k + fuel = 8)
    (some_ : 0 < left)
    (clear : ∀ i, k ≤ i → i < 8 → i < k + left → byte.toNat.testBit i = false) :
    ∃ w, takeBits fuel k byte left = .ok (w, left - fuel) ∧
      ∀ i, i < 8 → w.toNat.testBit i = (byte.toNat.testBit i || inside k (k + left) i) := by
  induction fuel generalizing k byte left with
  | zero =>
    refine ⟨byte, rfl, fun i bound => ?_⟩
    rw [inside_eq_false (by omega), Bool.or_false]
  | succ fuel ih =>
    have free := clear k (le_refl _) (by omega) (by omega)
    simp only [takeBits, free, decide_true, assertThat_true, bind, Except.bind]
    by_cases last : left - 1 = 0
    · have one : left = 1 := by omega
      subst one
      refine ⟨setBit byte k, by simp [pure, Except.pure], fun i bound => ?_⟩
      rw [testBit_setBit _ (by omega)]
      by_cases same : i = k
      · rw [inside_iff.mpr (by omega), decide_eq_true same]
      · rw [inside_eq_false (by omega), decide_eq_false same]
    · simp only [last, if_false]
      obtain ⟨w, done, bits⟩ := ih (k + 1) (setBit byte k) (left - 1) (by omega) (by omega)
        fun i lower bound upper => by
          rw [testBit_setBit _ (by omega), clear i (by omega) bound (by omega),
            decide_eq_false (by omega), Bool.or_false]
      refine ⟨w, by rw [done, show left - 1 - fuel = left - (fuel + 1) by omega], fun i bound => ?_⟩
      rw [bits i bound, testBit_setBit _ (by omega), Bool.or_assoc]
      congr 1
      by_cases same : i = k
      · rw [decide_eq_true same, Bool.true_or, inside_iff.mpr (by omega)]
      · rw [decide_eq_false same, Bool.false_or]
        by_cases hit : inside k (k + left) i = true
        · have range := inside_iff.mp hit
          rw [hit, inside_iff.mpr (by omega)]
        · have out : i < k ∨ k + left ≤ i := by
            by_contra in_
            exact hit (inside_iff.mpr (by omega))
          rw [inside_eq_false out, inside_eq_false (by omega)]

def sectOfBit (n1stSect b : Nat) : Int := (b : Int) - 1 + n1stSect

-- The same as the `int` that is answered, whose value 0 stands for "not found yet".
def freeSectNr (n1stSect b : Nat) : Int := i32 (u32 ((b : Int) - 1) + n1stSect)

theorem freeSectNr_eq {b n1stSect : Nat} (lower : 1 ≤ b + n1stSect)
    (upper : b + n1stSect ≤ 2147483648) : freeSectNr n1stSect b = sectOfBit n1stSect b := by
  unfold freeSectNr i32 u32 sectOfBit
  split <;> omega

/--
The scan for the run of `n` bits from the first clear bit `b` on, before it comes to byte `j` of
the map: nothing found yet, or the bits of the run in front of byte `j` are set.
-/
def Taken (f : Nat → UInt8) (base n1stSect b n j : Nat) (v : SmapVars) (f' : Nat → UInt8) : Prop :=
  (8 * j ≤ b ∧ v = ⟨0, n⟩ ∧ f' = f) ∨
    (b < 8 * j ∧ v = ⟨freeSectNr n1stSect b, b + n - 8 * j⟩ ∧
      f' = setBits f base b (min (8 * j) (b + n)))

-- The first bits of the map are set, and behind them the bits of the run are clear.
structure FreeRun (f : Nat → UInt8) (base total b n : Nat) : Prop where
  set : ∀ i, i < b → i < total → bitAt f base i = true
  clear : ∀ i, b ≤ i → i < b + n → i < total → bitAt f base i = false

section Scan

variable {f d : Nat → UInt8} {base total n1stSect b n : Nat}

theorem takeBits_run (run : FreeRun f base total b n) {j k : Nat} (inMap : 8 * (j + 1) ≤ total)
    (small : k < 8) (place : (k = 0 ∧ b ≤ 8 * j) ∨ b = 8 * j + k) (more : 8 * j + k < b + n) :
    ∃ w, takeBits (8 - k) k (setBits f base b (8 * j + k) (base + j)) (b + n - (8 * j + k)) =
        .ok (w, b + n - 8 * (j + 1)) ∧
      Function.update (setBits f base b (8 * j + k)) (base + j) w =
        setBits f base b (min (8 * (j + 1)) (b + n)) := by
  have byte : setBits f base b (8 * j + k) (base + j) = f (base + j) := by
    rcases place with ⟨zero, -⟩ | start
    · exact setBits_same f (by omega)
    · rw [setBits_empty f (by omega)]
  obtain ⟨w, done, bits⟩ := takeBits_spec (8 - k) k (f (base + j)) (b + n - (8 * j + k)) (by omega)
    (by omega) fun i lower bound upper => by
      rw [← bitAt_byte _ _ _ bound]
      exact run.clear _ (by omega) (by omega) (by omega)
  refine ⟨w, by rw [byte, done, show b + n - (8 * j + k) - (8 - k) = b + n - 8 * (j + 1) by omega],
    setBits_extend f base b _ _ j ?_ ?_⟩
  · intro i out
    by_cases hit : b ≤ i ∧ i < 8 * j + k
    · rw [inside_iff.mpr hit, inside_iff.mpr (by omega)]
    · rw [inside_eq_false (by omega), inside_eq_false (by omega)]
  · intro i bound
    rw [bits i bound]
    congr 1
    by_cases hit : k ≤ i ∧ i < k + (b + n - (8 * j + k))
    · rw [inside_iff.mpr hit, inside_iff.mpr (by omega)]
    · rw [inside_eq_false (by omega)]
      -- the bits of this byte in front of bit `k` are those of the run only when `k` is zero
      exact (inside_eq_false (by omega)).symm

theorem Taken.byte (run : FreeRun f base total b n) {j : Nat} {v : SmapVars} {f' : Nat → UInt8}
    (taken : Taken f base n1stSect b n j v f') (inMap : 8 * (j + 1) ≤ total)
    (left : v.nrSectsToAlloc ≠ 0) (kept : ¬ (v.freeSectNr = 0 ∧ f' (base + j) = 0xFF))
    (answer : freeSectNr n1stSect b ≠ 0) {k : Nat}
    (start : k = if v.freeSectNr = 0 then skipOnes (f' (base + j)) 8 0 else 0) :
    ∃ w, takeBits (8 - k) k (f' (base + j)) v.nrSectsToAlloc = .ok (w, b + n - 8 * (j + 1)) ∧
      Taken f base n1stSect b n (j + 1)
        ⟨if v.freeSectNr = 0 then i32 (u32 ((j : Nat) * 8 + k - 1) + n1stSect) else v.freeSectNr,
          b + n - 8 * (j + 1)⟩ (Function.update f' (base + j) w) := by
  rcases taken with ⟨before, rfl, rfl⟩ | ⟨after, rfl, rfl⟩
  case inl =>
    simp only [if_true, true_and] at kept start left ⊢
    obtain ⟨small, clear, ones⟩ := skipOnes_byte kept
    rw [← start] at small clear ones
    rw [← bitAt_byte _ _ _ small] at clear
    have first_ : b = 8 * j + k := by
      rcases Nat.lt_trichotomy b (8 * j + k) with less | same | more
      · have set := ones (b - 8 * j) (by omega)
        rw [← bitAt_byte _ _ _ (by omega), show 8 * j + (b - 8 * j) = b by omega,
          run.clear b (le_refl _) (by omega) (by omega)] at set
        cases set
      · exact same
      · have set := run.set (8 * j + k) more (by omega)
        rw [clear] at set
        cases set
    obtain ⟨w, done, updated⟩ := takeBits_run run inMap small (.inr first_) (by omega)
    rw [setBits_empty _ (by omega)] at done updated
    refine ⟨w, by rwa [show b + n - (8 * j + k) = n by omega] at done, .inr ⟨by omega, ?_, updated⟩⟩
    rw [show ((j : Int) * 8 + k - 1) = (b : Int) - 1 by omega, freeSectNr]
  case inr =>
    simp only [answer, if_false] at start left ⊢
    subst start
    rw [Nat.min_eq_left (by omega)]
    obtain ⟨w, done, updated⟩ := takeBits_run run (k := 0) inMap (by omega) (.inl ⟨rfl, by omega⟩)
      (by omega)
    exact ⟨w, done, .inr ⟨by omega, rfl, updated⟩⟩

theorem Taken.skip (run : FreeRun f base total b n) {j : Nat} {v : SmapVars} {f' : Nat → UInt8}
    (taken : Taken f base n1stSect b n j v f') (inMap : 8 * (j + 1) ≤ total) (some_ : 0 < n)
    (none_ : v.freeSectNr = 0) (full : f' (base + j) = 0xFF)
    (answer : freeSectNr n1stSect b ≠ 0) :
    Taken f base n1stSect b n (j + 1) v f' := by
  rcases taken with ⟨before, rfl, rfl⟩ | ⟨after, rfl, rfl⟩
  case inl =>
    refine .inl ⟨?_, rfl, rfl⟩
    by_contra here
    have set := full_byte.mp full (b - 8 * j) (by omega)
    rw [← bitAt_byte _ _ _ (by omega), show 8 * j + (b - 8 * j) = b by omega,
      run.clear b (le_refl _) (by omega) (by omega)] at set
    cases set
  case inr =>
    exact absurd none_ answer

theorem Taken.finished {j j' : Nat} {v : SmapVars} {f' : Nat → UInt8}
    (taken : Taken f base n1stSect b n j v f') (some_ : 0 < n) (left : v.nrSectsToAlloc = 0)
    (later : j ≤ j') : Taken f base n1stSect b n j' v f' := by
  rcases taken with ⟨before, rfl, rfl⟩ | ⟨after, rfl, rfl⟩
  case inl =>
    simp only at left
    omega
  case inr =>
    simp only at left
    refine .inr ⟨by omega, by rw [left, show b + n - 8 * j' = 0 by omega], ?_⟩
    rw [Nat.min_eq_right (by omega), Nat.min_eq_right (by omega)]

theorem smapBytes_spec (run : FreeRun f base total b n) {i : Nat} (some_ : 0 < n)
    (inMap : bitsPerSect * (i + 1) ≤ total) (answer : freeSectNr n1stSect b ≠ 0) (fuel j : Nat)
    (v : SmapVars) (buf : Nat → UInt8)
    (whole : j + fuel = sectorSize)
    (taken : Taken f base n1stSect b n (i * sectorSize + j) v
      (splice d (base + i * sectorSize) sectorSize buf)) :
    ∃ v' buf', smapBytes i n1stSect fuel j v buf = .ok (v', buf') ∧
      Taken f base n1stSect b n ((i + 1) * sectorSize) v'
        (splice d (base + i * sectorSize) sectorSize buf') := by
  induction fuel generalizing j v buf with
  | zero =>
    have last : (i + 1) * sectorSize = i * sectorSize + j := by
      rw [Nat.succ_mul]
      omega
    exact ⟨v, buf, rfl, by rwa [last]⟩
  | succ fuel ih =>
    have bound : j < sectorSize := by omega
    have byte : splice d (base + i * sectorSize) sectorSize buf (base + (i * sectorSize + j)) =
        buf j := by
      rw [splice_inside _ _ (by omega) (by omega)]
      exact congrArg buf (by omega)
    have inMap' : 8 * (i * sectorSize + j + 1) ≤ total := by
      simp only [bitsPerSect, sectorSize] at inMap bound ⊢
      omega
    by_cases left : v.nrSectsToAlloc = 0
    · refine ⟨v, buf, by simp only [smapBytes, left, if_true], taken.finished some_ left ?_⟩
      rw [Nat.succ_mul]
      omega
    · by_cases skipped : v.freeSectNr = 0 ∧ buf j = 0xFF
      · have next_ := taken.skip run inMap' some_ skipped.1 (by rw [byte]; exact skipped.2) answer
        rw [Nat.add_assoc (i * sectorSize)] at next_
        obtain ⟨v', buf', done, taken'⟩ := ih (j + 1) v buf (by omega) next_
        exact ⟨v', buf', by rw [smapBytes, if_neg left, if_pos skipped, done], taken'⟩
      · obtain ⟨w, take, next_⟩ := taken.byte run inMap' left (by rwa [byte]) answer rfl
        rw [byte] at take next_
        rw [Nat.add_assoc (i * sectorSize)] at take
        rw [← Nat.add_assoc base, ← splice_update _ _ _ bound, Nat.add_assoc (i * sectorSize)]
          at next_
        obtain ⟨v', buf', done, taken'⟩ := ih (j + 1) _ _ (by omega) next_
        refine ⟨v', buf', ?_, taken'⟩
        rw [smapBytes, if_neg left, if_neg skipped]
        simp only [take, bind, Except.bind]
        exact done

end Scan

def smapBase (sb : SuperBlock) : Nat := smapBlk0Nr sb * sectorSize

def smapBitCount (sb : SuperBlock) : Nat := bitsPerSect * sb.nrSmapSects

theorem Taken.written {sb : SuperBlock} {f : Nat → UInt8} {b n i : Nat} {v v' : SmapVars}
    {s r : State} {buf : Nat → UInt8} (answer : freeSectNr sb.n1stSect b ≠ 0) (only : DiskOnly s r)
    (same : r.disk = s.disk)
    (taken : Taken f (smapBase sb) sb.n1stSect b n (i * sectorSize) v s.disk)
    (taken' : Taken f (smapBase sb) sb.n1stSect b n ((i + 1) * sectorSize) v'
      (splice r.disk (smapBase sb + i * sectorSize) sectorSize buf)) :
    ∃ s₁, writeFound v' rootDev (smapBlk0Nr sb + i) { r with fsbuf := buf } = .ok s₁ ∧
      DiskOnly s s₁ ∧ Taken f (smapBase sb) sb.n1stSect b n ((i + 1) * sectorSize) v' s₁.disk := by
  have place : (smapBlk0Nr sb + i) * sectorSize = smapBase sb + i * sectorSize := Nat.add_mul ..
  by_cases found : v'.freeSectNr ≠ 0
  · refine ⟨_, by rw [writeFound, if_pos found, State.wrSect_rootDev],
      only.trans ((DiskOnly.buffer r buf).trans (DiskOnly.transfer ..)), ?_⟩
    rw [State.transfer_write_disk, place]
    exact taken'
  · refine ⟨_, by rw [writeFound, if_neg found], only.trans (DiskOnly.buffer r buf), ?_⟩
    rcases taken' with ⟨before, rfl, -⟩ | ⟨after, rfl, -⟩
    case inl =>
      refine .inl ⟨before, rfl, ?_⟩
      rcases taken with ⟨-, -, old⟩ | ⟨after, -, -⟩
      · exact same.trans old
      · have next_ : (i + 1) * sectorSize = i * sectorSize + sectorSize := Nat.succ_mul ..
        omega
    case inr => exact absurd answer found

theorem smapSects_spec {sb : SuperBlock} {f : Nat → UInt8} {b n : Nat}
    (run : FreeRun f (smapBase sb) (smapBitCount sb) b n) (some_ : 0 < n)
    (answer : freeSectNr sb.n1stSect b ≠ 0) (fuel i : Nat) (v : SmapVars) (s : State)
    (whole : i + fuel = sb.nrSmapSects)
    (taken : Taken f (smapBase sb) sb.n1stSect b n (i * sectorSize) v s.disk) :
    ∃ v' s', smapSects sb rootDev fuel i v s = .ok (v', s') ∧ DiskOnly s s' ∧
      Taken f (smapBase sb) sb.n1stSect b n (sb.nrSmapSects * sectorSize) v' s'.disk := by
  induction fuel generalizing i v s with
  | zero =>
    have last : sb.nrSmapSects = i := by omega
    exact ⟨v, s, rfl, DiskOnly.refl s, by rwa [last]⟩
  | succ fuel ih =>
    have place : (smapBlk0Nr sb + i) * sectorSize = smapBase sb + i * sectorSize := Nat.add_mul ..
    have inMap : bitsPerSect * (i + 1) ≤ smapBitCount sb := Nat.mul_le_mul_left _ (by omega)
    have held := State.transfer_read_held s rootDev (smapBase sb + i * sectorSize)
    generalize read : s.transfer .devRead rootDev (smapBase sb + i * sectorSize) sectorSize = r
      at held
    have only : DiskOnly s r := read ▸ DiskOnly.transfer ..
    have sameDisk : r.disk = s.disk := read ▸ rfl
    obtain ⟨v', buf', bytes, taken'⟩ := smapBytes_spec (d := r.disk) run some_ inMap answer
      sectorSize 0 v r.fsbuf (Nat.zero_add _) (by
        rw [Nat.add_zero, ← State.held, held]
        exact taken)
    have later : (i + 1) * sectorSize ≤ sb.nrSmapSects * sectorSize :=
      Nat.mul_le_mul_right _ (by omega)
    simp only [smapSects, State.rdSect_rootDev, place, read, bytes, bind, Except.bind]
    obtain ⟨s₁, written, only₁, disk₁⟩ := taken.written answer only sameDisk taken'
    rw [written]
    by_cases left : v'.nrSectsToAlloc = 0
    · exact ⟨v', s₁, by simp only [left, if_true]; rfl, only₁, disk₁.finished some_ left later⟩
    · simp only [left, if_false]
      obtain ⟨v'', s'', done, only'', taken''⟩ := ih (i + 1) v' s₁ (by omega) disk₁
      exact ⟨v'', s'', done, only₁.trans only'', taken''⟩

section Alloc

variable {s : State} {sb : SuperBlock} {b n : Nat}

theorem allocSmapBit_taken (super : getSuperBlock s rootDev = .ok sb)
    (run : FreeRun s.disk (smapBase sb) (smapBitCount sb) b n) (some_ : 0 < n)
    (answer : freeSectNr sb.n1stSect b ≠ 0) :
    ∃ v s', allocSmapBit s rootDev n =
        (if v.nrSectsToAlloc = 0 then .ok (v.freeSectNr, s') else .error .assertion) ∧
      DiskOnly s s' ∧
      Taken s.disk (smapBase sb) sb.n1stSect b n (sb.nrSmapSects * sectorSize) v s'.disk := by
  obtain ⟨v, s', done, only, taken⟩ := smapSects_spec run some_ answer sb.nrSmapSects 0 ⟨0, n⟩ s
    (Nat.zero_add _) (.inl ⟨by omega, rfl, rfl⟩)
  refine ⟨v, s', ?_, only, taken⟩
  simp only [allocSmapBit, super, done, bind, Except.bind]
  by_cases left : v.nrSectsToAlloc = 0
  · simp only [left, decide_true, assertThat_true, if_true]
    rfl
  · simp only [left, decide_false, assertThat_false, if_false]

theorem smapBitCount_eq (sb : SuperBlock) :
    smapBitCount sb = 8 * (sb.nrSmapSects * sectorSize) := by
  simp only [smapBitCount, bitsPerSect, sectorSize]
  omega

theorem allocSmapBit_fits (super : getSuperBlock s rootDev = .ok sb)
    (run : FreeRun s.disk (smapBase sb) (smapBitCount sb) b n) (some_ : 0 < n)
    (answer : freeSectNr sb.n1stSect b ≠ 0)
    (fits : b + n ≤ smapBitCount sb) :
    ∃ s', allocSmapBit s rootDev n = .ok (freeSectNr sb.n1stSect b, s') ∧ DiskOnly s s' ∧
      s'.disk = setBits s.disk (smapBase sb) b (b + n) := by
  obtain ⟨v, s', done, only, taken⟩ := allocSmapBit_taken super run some_ answer
  rw [smapBitCount_eq] at fits
  rcases taken with ⟨before, -, -⟩ | ⟨after, rfl, disk⟩
  case inl => omega
  case inr =>
    have left : b + n - 8 * (sb.nrSmapSects * sectorSize) = 0 := by omega
    refine ⟨s', by rw [done, if_pos left], only, ?_⟩
    rw [disk, Nat.min_eq_right fits]

theorem allocSmapBit_short (super : getSuperBlock s rootDev = .ok sb)
    (run : FreeRun s.disk (smapBase sb) (smapBitCount sb) b n) (some_ : 0 < n)
    (answer : freeSectNr sb.n1stSect b ≠ 0)
    (short : smapBitCount sb < b + n) : allocSmapBit s rootDev n = .error .assertion := by
  obtain ⟨v, s', done, only, taken⟩ := allocSmapBit_taken super run some_ answer
  rw [smapBitCount_eq] at short
  have left : v.nrSectsToAlloc ≠ 0 := by
    rcases taken with ⟨-, rfl, -⟩ | ⟨-, rfl, -⟩
    · simp only
      omega
    · simp only
      omega
  rw [done, if_neg left]

end Alloc

theorem writeFound_only {v : SmapVars} {dev sect : Nat} {s s' : State}
    (done : writeFound v dev sect s = .ok s') : DiskOnly s s' := by
  by_cases found : v.freeSectNr ≠ 0
  · rw [writeFound, if_pos found] at done
    exact DiskOnly.wrSect done
  · rw [writeFound, if_neg found] at done
    cases done
    exact DiskOnly.refl s

theorem smapSects_only {sb : SuperBlock} {dev fuel i : Nat} {v v' : SmapVars} {s s' : State}
    (done : smapSects sb dev fuel i v s = .ok (v', s')) : DiskOnly s s' := by
  induction fuel generalizing i v s with
  | zero =>
    cases done
    exact DiskOnly.refl _
  | succ fuel ih =>
    obtain ⟨s₁, read, rest⟩ := bind_ok done
    obtain ⟨⟨v₁, buf⟩, -, rest⟩ := bind_ok rest
    obtain ⟨s₂, write, rest⟩ := bind_ok rest
    have only :=
      (DiskOnly.rdSect read).trans ((DiskOnly.buffer s₁ buf).trans (writeFound_only write))
    by_cases left : v₁.nrSectsToAlloc = 0
    · simp only [left, if_true] at rest
      cases rest
      exact only
    · simp only [left, if_false] at rest
      exact only.trans (ih rest)

theorem allocSmapBit_only {s s' : State} {dev n : Nat} {nr : Int}
    (done : allocSmapBit s dev n = .ok (nr, s')) : DiskOnly s s' := by
  obtain ⟨sb, -, rest⟩ := bind_ok done
  obtain ⟨⟨v, s₁⟩, scan, rest⟩ := bind_ok rest
  obtain ⟨u, -, rest⟩ := bind_ok rest
  cases rest
  exact smapSects_only scan

end Konix.Fs
