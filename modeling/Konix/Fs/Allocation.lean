import Konix.Fs.Mkfs
import Konix.Fs.Unlink

set_option autoImplicit false

namespace Konix.Fs

open Splice Words Bits

def imapBitCount (sb : SuperBlock) : Nat := bitsPerSect * sb.nrImapSects

/--
The lowest number that is free is answered and taken, or the system panics because there is none;
the reserved number 0 is never answered.
-/
def TakesLowest (s : State) (sb : SuperBlock) : Prop :=
  (∃ nr s', allocImapBit s rootDev = .ok (nr, s') ∧ nr < imapBitCount sb ∧
      LowestClear s.disk imapBase nr ∧ s'.disk = setBits s.disk imapBase nr (nr + 1) ∧
      (bitAt s.disk imapBase 0 = true → nr ≠ invalidInode)) ∨
    ((∀ i, i < imapBitCount sb → bitAt s.disk imapBase i = true) ∧
      allocImapBit s rootDev = .error .panic)

theorem not_takesLowest {s : State} {sb : SuperBlock} (super : getSuperBlock s rootDev = .ok sb)
    (sects : 0 < sb.nrImapSects)
    (full : ∀ i, i < bitsPerSect → bitAt s.disk imapBase i = true) : ¬ TakesLowest s sb := by
  obtain ⟨nr, s', done, -, ⟨rfl, -, -⟩ | ⟨bound, lowest, -⟩⟩ := allocImapBit_spec s super sects
  case inl =>
    rintro (⟨nr, t, done', -, lowest, -⟩ | ⟨-, panics⟩)
    · rw [done, Except.ok.injEq, Prod.mk.injEq] at done'
      have set := full 0 (by decide)
      rw [← done'.1] at lowest
      exact absurd (set.symm.trans lowest.1) Bool.false_ne_true.symm
    · rw [done] at panics
      cases panics
  case inr => exact absurd ((full nr bound).symm.trans lowest.1) Bool.false_ne_true.symm

-- Only the first sector of the map is ever looked at.
theorem alloc_imap_bit_iff (s : State) (sb : SuperBlock)
    (super : getSuperBlock s rootDev = .ok sb) :
    TakesLowest s sb ↔
      sb.nrImapSects = 0 ∨ ∃ i, i < bitsPerSect ∧ bitAt s.disk imapBase i = false := by
  by_cases none_ : sb.nrImapSects = 0
  next =>
    have empty : imapBitCount sb = 0 := by rw [imapBitCount, none_, Nat.mul_zero]
    have panics : allocImapBit s rootDev = .error .panic := by
      simp only [allocImapBit, super, none_, if_true, bind, Except.bind]
    constructor
    · exact fun _ => .inl none_
    · exact fun _ => .inr ⟨fun i below => by omega, panics⟩
  next =>
    have sects : 0 < sb.nrImapSects := Nat.pos_of_ne_zero none_
    have first_ : bitsPerSect ≤ imapBitCount sb := Nat.le_mul_of_pos_right _ sects
    obtain ⟨nr, s', done, -, full | ⟨bound, lowest, disk⟩⟩ := allocImapBit_spec s super sects
    case inl =>
      obtain ⟨rfl, -, full⟩ := full
      constructor
      · exact fun takes => absurd takes (not_takesLowest super sects full)
      · rintro (zero | ⟨i, below, clear⟩)
        · exact absurd zero none_
        · exact absurd ((full i below).symm.trans clear) Bool.false_ne_true.symm
    case inr =>
      refine ⟨fun _ => .inr ⟨nr, bound, lowest.1⟩, fun _ => .inl
        ⟨nr, s', done, by omega, lowest, disk, fun reserved zero => ?_⟩⟩
      have clear := lowest.1
      rw [zero] at clear
      exact absurd (reserved.symm.trans clear) Bool.false_ne_true.symm

-- The first five inodes are taken.
theorem alloc_imap_bit_iff_five :
    TakesLowest (mounted (setBits (fun _ => 0) imapBase 0 5) (mkfsSuper 10000) freeInode)
        (mkfsSuper 10000) ↔
      (mkfsSuper 10000).nrImapSects = 0 ∨
        ∃ i, i < bitsPerSect ∧ bitAt (setBits (fun _ => 0) imapBase 0 5) imapBase i = false :=
  alloc_imap_bit_iff _ _ (mounted_super (setBits (fun _ => 0) imapBase 0 5) 10000 freeInode)

-- Every bit is set: the number 0 is answered, and nobody panics.
theorem full_imap_answers_zero :
    ¬ ∀ (s : State) (sb : SuperBlock), getSuperBlock s rootDev = .ok sb → TakesLowest s sb := by
  intro claim
  have super := mounted_super (fun _ => 0xFF) 10000 freeInode
  refine not_takesLowest super (by decide) (fun i _ => ?_) (claim _ _ super)
  exact full_byte.mp rfl (i % 8) (Nat.mod_lt _ (by decide))

theorem takeBits_clear (fuel k : Nat) (byte : UInt8) (left : Nat) {r : UInt8 × Nat}
    (whole : k + fuel = 8) (some_ : 0 < left) (done : takeBits fuel k byte left = .ok r) {i : Nat}
    (lower : k ≤ i) (bound : i < 8) (inRun : i < k + left) : byte.toNat.testBit i = false := by
  induction fuel generalizing k byte left with
  | zero => omega
  | succ fuel ih =>
    obtain ⟨u, free, rest⟩ := bind_ok done
    have free := of_decide_eq_true (assertThat_ok.mp free)
    by_cases here : i = k
    next => rwa [here]
    next =>
      have more : ¬ left - 1 = 0 := by omega
      rw [if_neg more] at rest
      have later := ih (k + 1) (setBit byte k) (left - 1) (by omega) (by omega) rest (by omega)
        (by omega)
      rw [testBit_setBit _ (by omega), Bool.or_eq_false_iff] at later
      exact later.1

section Free

variable {f d : Nat → UInt8} {base total n1stSect b n j : Nat} {v : SmapVars} {f' : Nat → UInt8}

theorem FreeRun.of_le (lowest : LowestClear f base b) (before : total ≤ b) :
    FreeRun f base total b n where
  set := fun i below _ => lowest.2 i below
  clear := fun i lower _ inMap => by omega

theorem FreeRun.whole (lowest : LowestClear f base b) (run : FreeRun f base total b n)
    (enough : b + n ≤ total) {total' : Nat} : FreeRun f base total' b n where
  set := fun i below _ => lowest.2 i below
  clear := fun i lower upper _ => run.clear i lower upper (by omega)

theorem LowestClear.place (lowest : LowestClear f base b) (before : 8 * j ≤ b)
    (notFull : f (base + j) ≠ 0xFF) : b = 8 * j + skipOnes (f (base + j)) 8 0 := by
  obtain ⟨small, clear, ones⟩ := skipOnes_byte notFull
  apply lowest.unique
  constructor
  case left =>
    rw [bitAt_byte _ _ _ small]
    exact clear
  case right =>
    intro i below
    by_cases earlier : i < 8 * j
    next => exact lowest.2 i (by omega)
    next =>
      have set := ones (i - 8 * j) (by omega)
      rwa [← bitAt_byte _ _ _ (by omega), show 8 * j + (i - 8 * j) = i by omega] at set

theorem LowestClear.beyond (lowest : LowestClear f base b) (before : 8 * j ≤ b)
    (full : f (base + j) = 0xFF) : 8 * (j + 1) ≤ b := by
  by_contra here
  have set := full_byte.mp full (b - 8 * j) (by omega)
  rw [← bitAt_byte _ _ _ (by omega), show 8 * j + (b - 8 * j) = b by omega, lowest.1] at set
  cases set

theorem Taken.free (lowest : LowestClear f base b) (run : FreeRun f base (8 * j) b n)
    (taken : Taken f base n1stSect b n j v f') (left : v.nrSectsToAlloc ≠ 0)
    (kept : ¬ (v.freeSectNr = 0 ∧ f' (base + j) = 0xFF)) (answer : freeSectNr n1stSect b ≠ 0)
    {k : Nat} (start : k = if v.freeSectNr = 0 then skipOnes (f' (base + j)) 8 0 else 0)
    {r : UInt8 × Nat} (done : takeBits (8 - k) k (f' (base + j)) v.nrSectsToAlloc = .ok r) :
    FreeRun f base (8 * (j + 1)) b n := by
  constructor
  case set => exact fun i below _ => lowest.2 i below
  case clear =>
    intro i lower upper inMap
    by_cases earlier : i < 8 * j
    next => exact run.clear i lower upper earlier
    next =>
      have here : 8 * j + (i - 8 * j) = i := by omega
      rw [← here, bitAt_byte _ _ _ (by omega)]
      rcases taken with ⟨before, rfl, rfl⟩ | ⟨after, rfl, rfl⟩
      case inl =>
        simp only [if_true, true_and] at kept start done left
        obtain ⟨small, -, -⟩ := skipOnes_byte kept
        have first_ := lowest.place before kept
        rw [← start] at small first_
        exact takeBits_clear (8 - k) k _ n (by omega) (by omega) done (by omega) (by omega)
          (by omega)
      case inr =>
        simp only [answer, if_false] at start done left
        subst start
        rw [Nat.min_eq_left (by omega), setBits_same f (by omega)] at done
        exact takeBits_clear 8 0 _ _ (by omega) (by omega) done (by omega) (by omega) (by omega)

theorem smapBytes_free (lowest : LowestClear f base b) (answer : freeSectNr n1stSect b ≠ 0)
    (some_ : 0 < n) {i : Nat} (fuel j : Nat) (v : SmapVars) (buf : Nat → UInt8)
    {r : SmapVars × (Nat → UInt8)} (whole : j + fuel = sectorSize)
    (run : FreeRun f base (8 * (i * sectorSize + j)) b n)
    (taken : Taken f base n1stSect b n (i * sectorSize + j) v
      (splice d (base + i * sectorSize) sectorSize buf))
    (done : smapBytes i n1stSect fuel j v buf = .ok r) :
    FreeRun f base (8 * ((i + 1) * sectorSize)) b n := by
  induction fuel generalizing j v buf with
  | zero =>
    have last : (i + 1) * sectorSize = i * sectorSize + j := by
      rw [Nat.succ_mul]
      omega
    rwa [last]
  | succ fuel ih =>
    have byte : splice d (base + i * sectorSize) sectorSize buf (base + (i * sectorSize + j)) =
        buf j := by
      rw [splice_inside _ _ (by omega) (by omega)]
      exact congrArg buf (by omega)
    rw [smapBytes] at done
    by_cases left : v.nrSectsToAlloc = 0
    · rcases taken with ⟨-, rfl, -⟩ | ⟨-, rfl, -⟩
      · exact absurd left (by simp only; omega)
      · simp only at left
        exact run.whole lowest (by omega)
    · rw [if_neg left] at done
      by_cases skipped : v.freeSectNr = 0 ∧ buf j = 0xFF
      · rw [if_pos skipped] at done
        have full := byte.trans skipped.2
        have beyond : 8 * (i * sectorSize + j + 1) ≤ b := by
          rcases taken with ⟨before, -, same⟩ | ⟨-, rfl, -⟩
          · rw [same] at full
            exact lowest.beyond (j := i * sectorSize + j) before full
          · exact absurd skipped.1 answer
        have run' : FreeRun f base (8 * (i * sectorSize + j + 1)) b n := .of_le lowest beyond
        have next_ := taken.skip run' (le_refl _) some_ skipped.1 full answer
        rw [Nat.add_assoc (i * sectorSize)] at run' next_
        exact ih (j + 1) v buf (by omega) run' next_ done
      · rw [if_neg skipped] at done
        obtain ⟨⟨w, l⟩, take, rest⟩ := bind_ok done
        have kept : ¬ (v.freeSectNr = 0 ∧
            splice d (base + i * sectorSize) sectorSize buf (base + (i * sectorSize + j)) =
              0xFF) := by
          rwa [byte]
        have run' := taken.free lowest run left kept answer rfl (by rw [byte]; exact take)
        obtain ⟨w', take', next_⟩ := taken.byte run' (le_refl _) left kept answer rfl
        rw [byte] at take' next_
        rw [Nat.add_assoc (i * sectorSize)] at take' run'
        rw [take, Except.ok.injEq, Prod.mk.injEq] at take'
        obtain ⟨rfl, rfl⟩ := take'
        rw [← Nat.add_assoc base, ← splice_update _ _ _ (by omega),
          Nat.add_assoc (i * sectorSize)] at next_
        exact ih (j + 1) _ _ (by omega) run' next_ rest

end Free

theorem smapSects_free {sb : SuperBlock} {f : Nat → UInt8} {b n : Nat}
    (lowest : LowestClear f (smapBase sb) b) (answer : freeSectNr sb.n1stSect b ≠ 0) (some_ : 0 < n)
    (fuel i : Nat) (v : SmapVars) (s : State) {r : SmapVars × State}
    (whole : i + fuel = sb.nrSmapSects) (run : FreeRun f (smapBase sb) (8 * (i * sectorSize)) b n)
    (taken : Taken f (smapBase sb) sb.n1stSect b n (i * sectorSize) v s.disk)
    (done : smapSects sb rootDev fuel i v s = .ok r) :
    FreeRun f (smapBase sb) (smapBitCount sb) b n := by
  induction fuel generalizing i v s with
  | zero =>
    have last : sb.nrSmapSects = i := by omega
    rwa [smapBitCount_eq, last]
  | succ fuel ih =>
    have place : (smapBlk0Nr sb + i) * sectorSize = smapBase sb + i * sectorSize := Nat.add_mul ..
    have held := State.transfer_read_held s rootDev (smapBase sb + i * sectorSize)
    have only := DiskOnly.transfer s .devRead rootDev (smapBase sb + i * sectorSize) sectorSize
    have same := State.transfer_read_disk s rootDev (smapBase sb + i * sectorSize)
    rw [smapSects, bind_of_ok _ (State.rdSect_rootDev ..), place] at done
    generalize s.transfer .devRead rootDev (smapBase sb + i * sectorSize) sectorSize = r₁
      at held only same done
    obtain ⟨⟨v', buf'⟩, bytes, rest⟩ := bind_ok done
    have start : Taken f (smapBase sb) sb.n1stSect b n (i * sectorSize + 0) v
        (splice r₁.disk (smapBase sb + i * sectorSize) sectorSize r₁.fsbuf) := by
      rw [Nat.add_zero, ← State.held, held]
      exact taken
    have run' := smapBytes_free lowest answer some_ sectorSize 0 v r₁.fsbuf (Nat.zero_add _)
      (by rwa [Nat.add_zero]) start bytes
    have inMap : bitsPerSect * (i + 1) ≤ 8 * ((i + 1) * sectorSize) := by
      simp only [bitsPerSect, sectorSize]
      omega
    obtain ⟨v₁, buf₁, bytes₁, taken₁⟩ := smapBytes_spec run' some_ inMap answer sectorSize 0 v
      r₁.fsbuf (Nat.zero_add _) start
    rw [bytes, Except.ok.injEq, Prod.mk.injEq] at bytes₁
    obtain ⟨rfl, rfl⟩ := bytes₁
    obtain ⟨s₁, written, -, disk₁⟩ := taken.written answer only same taken₁
    simp only at rest
    rw [bind_of_ok _ written] at rest
    by_cases left : v'.nrSectsToAlloc = 0
    · rcases disk₁ with ⟨-, rfl, -⟩ | ⟨-, rfl, -⟩
      · exact absurd left (by simp only; omega)
      · simp only at left
        exact run'.whole lowest (by omega)
    · rw [if_neg left] at rest
      exact ih (i + 1) v' s₁ (by omega) run' disk₁ rest

section RoundTrip

variable {s s' : State} {sb : SuperBlock} {n : Nat} {nr : Int}

theorem allocSmapBit_finds (super : getSuperBlock s rootDev = .ok sb) (some_ : 0 < n)
    (done : allocSmapBit s rootDev n = .ok (nr, s')) :
    ∃ b, LowestClear s.disk (smapBase sb) b ∧ b < smapBitCount sb := by
  by_contra none_
  have full : ∀ i, i < smapBitCount sb → bitAt s.disk (smapBase sb) i = true := by
    intro i
    induction i using Nat.strong_induction_on with
    | _ i ih =>
      intro inMap
      by_contra clear
      exact none_ ⟨i, ⟨Bool.eq_false_of_not_eq_true clear, fun k below => ih k below (by omega)⟩,
        inMap⟩
  -- the scan goes past every bit of the map, as if the run began behind it
  obtain ⟨b, behind, answer⟩ : ∃ b, smapBitCount sb ≤ b ∧ freeSectNr sb.n1stSect b ≠ 0 := by
    by_cases zero : freeSectNr sb.n1stSect (smapBitCount sb) = 0
    · refine ⟨smapBitCount sb + 1, by omega, ?_⟩
      unfold freeSectNr i32 u32 at zero ⊢
      split at zero <;> split <;> omega
    · exact ⟨smapBitCount sb, le_refl _, zero⟩
  have run : FreeRun s.disk (smapBase sb) (smapBitCount sb) b n :=
    ⟨fun i _ inMap => full i inMap, fun i lower _ inMap => by omega⟩
  rw [allocSmapBit_short super run some_ answer (by omega)] at done
  cases done

theorem allocSmapBit_free (super : getSuperBlock s rootDev = .ok sb) (some_ : 0 < n) {b : Nat}
    (lowest : LowestClear s.disk (smapBase sb) b) (answer : freeSectNr sb.n1stSect b ≠ 0)
    (done : allocSmapBit s rootDev n = .ok (nr, s')) :
    FreeRun s.disk (smapBase sb) (smapBitCount sb) b n := by
  rw [allocSmapBit, bind_of_ok _ super] at done
  obtain ⟨r, scan, -⟩ := bind_ok done
  exact smapSects_free lowest answer some_ sb.nrSmapSects 0 ⟨0, n⟩ s (Nat.zero_add _)
    (.of_le lowest (by omega)) (.inl ⟨by omega, rfl, rfl⟩) scan

theorem clearBits_setBits {f : Nat → UInt8} {base b e : Nat}
    (clear : ∀ i, b ≤ i → i < e → bitAt f base i = false) :
    clearBits (setBits f base b e) base b e = f := by
  apply map_ext base
  · intro a below
    rw [clearBits, mapBits_below _ _ below, setBits, mapBits_below _ _ below]
  · intro i
    rw [bitAt_clearBits, bitAt_setBits]
    by_cases hit : b ≤ i ∧ i < e
    · rw [inside_iff.mpr hit, clear i hit.1 hit.2, Bool.not_true, Bool.and_false]
    · rw [inside_eq_false (by omega), Bool.or_false, Bool.not_false, Bool.and_true]

/--
The run of `n` bits from the lowest clear bit on is set and its first sector is answered; freeing
the sectors of an inode that has them passes its assertions, and the map is as it was.
-/
def SmapRoundTrip (s : State) (sb : SuperBlock) (n : Nat) (nr : Int) (s' : State) : Prop :=
  ∃ b, LowestClear s.disk (smapBase sb) b ∧ b + n ≤ smapBitCount sb ∧
    nr = sectOfBit sb.n1stSect b ∧
    (∀ i, b ≤ i → i < b + n → bitAt s.disk (smapBase sb) i = false) ∧
    s'.disk = setBits s.disk (smapBase sb) b (b + n) ∧
    ∀ inode : Inode, inode.iStartSect = u32 nr → inode.iNrSects = n →
      0 ≤ smapBitOf sb inode ∧
        ∃ s'', freeSmapBits s' sb rootDev (smapBitOf sb inode).toNat inode.iNrSects = .ok s'' ∧
          s''.disk = clearBits s'.disk (smapBase sb) b (b + n) ∧ s''.disk = s.disk

theorem smap_round_trip (s s' : State) (sb : SuperBlock) (n : Nat) (nr : Int)
    (super : getSuperBlock s rootDev = .ok sb) (behind : 2 ≤ sb.n1stSect) (some_ : 0 < n)
    (fits : ∀ b, LowestClear s.disk (smapBase sb) b → b + sb.n1stSect ≤ 2147483648)
    (done : allocSmapBit s rootDev n = .ok (nr, s')) : SmapRoundTrip s sb n nr s' := by
  obtain ⟨b, lowest, inMap⟩ := allocSmapBit_finds super some_ done
  have small := fits b lowest
  have start := freeSectNr_eq (by omega : 1 ≤ b + sb.n1stSect) small
  have answer : freeSectNr sb.n1stSect b ≠ 0 := by
    rw [start, sectOfBit]
    omega
  have run := allocSmapBit_free super some_ lowest answer done
  have whole : b + n ≤ smapBitCount sb := by
    by_contra short
    rw [allocSmapBit_short super run some_ answer (by omega)] at done
    cases done
  obtain ⟨t, done', -, disk⟩ := allocSmapBit_fits super run some_ answer whole
  rw [done', start, Except.ok.injEq, Prod.mk.injEq] at done
  obtain ⟨rfl, rfl⟩ := done
  have clear (i : Nat) (lower : b ≤ i) (upper : i < b + n) := run.clear i lower upper (by omega)
  refine ⟨b, lowest, whole, rfl, clear, disk, fun inode first_ count => ?_⟩
  have bit : smapBitOf sb inode = b := by
    rw [smapBitOf, first_, sectOfBit]
    unfold i32 u32
    split <;> omega
  have set : ∀ k, b ≤ k → k < b + n → bitAt t.disk (smapBase sb) k = true := by
    intro k lower upper
    rw [disk, bitAt_setBits, inside_iff.mpr ⟨lower, upper⟩, Bool.or_true]
  obtain ⟨s'', freed, -, restored⟩ := freeSmapBits_spec set
  rw [bit, count, Int.toNat_natCast]
  refine ⟨by omega, s'', freed, restored, ?_⟩
  rw [restored, disk, clearBits_setBits clear]

-- A run of 2048 bits that goes on in the second sector of the map.
theorem smap_round_trip_crossing :
    ∃ nr s', allocSmapBit (mounted (setBits (fun _ => 0) (smapBase (mkfsSuper 10000)) 0 4090)
        (mkfsSuper 10000) freeInode) rootDev 2048 = .ok (nr, s') ∧
      SmapRoundTrip (mounted (setBits (fun _ => 0) (smapBase (mkfsSuper 10000)) 0 4090)
        (mkfsSuper 10000) freeInode) (mkfsSuper 10000) 2048 nr s' := by
  have super := mounted_super (setBits (fun _ => 0) (smapBase (mkfsSuper 10000)) 0 4090) 10000
    freeInode
  generalize hsb : mkfsSuper 10000 = sb at super ⊢
  have n1st : sb.n1stSect = 262 := by
    rw [← hsb]
    decide
  have sects : smapBitCount sb = 12288 := by
    rw [← hsb]
    decide
  generalize hs : mounted (setBits (fun _ => 0) (smapBase sb) 0 4090) sb freeInode = s at super ⊢
  have bits (i : Nat) : bitAt s.disk (smapBase sb) i = inside 0 4090 i := by
    have clear : bitAt (fun _ => 0) (smapBase sb) i = false := Nat.zero_testBit _
    rw [← hs, mounted, bitAt_setBits, clear, Bool.false_or]
  have lowest : LowestClear s.disk (smapBase sb) 4090 := by
    constructor
    · rw [bits, inside_eq_false (by omega)]
    · intro i below
      rw [bits, inside_iff.mpr (by omega)]
  have run : FreeRun s.disk (smapBase sb) (smapBitCount sb) 4090 2048 :=
    ⟨fun i below _ => lowest.2 i below, fun i lower upper _ => by
      rw [bits, inside_eq_false (by omega)]⟩
  have answer : freeSectNr sb.n1stSect 4090 ≠ 0 := by
    rw [n1st]
    decide
  obtain ⟨s', done, -, -⟩ := allocSmapBit_fits super run (by omega) answer (by omega)
  refine ⟨_, s', done, smap_round_trip s s' sb 2048 _ super (by omega) (by omega) ?_ done⟩
  intro b first_
  rw [first_.unique lowest, n1st]
  omega

-- Bit 2^31 of the map is the lowest clear one: its sector is no `int`.
theorem smap_round_trip_wraps :
    ¬ ∀ (s s' : State) (sb : SuperBlock) (n : Nat) (nr : Int), getSuperBlock s rootDev = .ok sb →
      2 ≤ sb.n1stSect → bitAt s.disk (smapBase sb) 0 = true → 0 < n →
      allocSmapBit s rootDev n = .ok (nr, s') → SmapRoundTrip s sb n nr s' := by
  intro claim
  have super := mounted_super (clearBits (fun _ => 0xFF) (smapBase (mkfsSuper 2148532224))
    2147483648 2147483649) 2148532224 freeInode
  generalize hsb : mkfsSuper 2148532224 = sb at super
  have n1st : sb.n1stSect = 524804 := by
    rw [← hsb]
    decide
  have sects : smapBitCount sb = 2148536320 := by
    rw [← hsb]
    decide
  generalize hs : mounted (clearBits (fun _ => 0xFF) (smapBase sb) 2147483648 2147483649) sb
    freeInode = s at super
  have bits (i : Nat) : bitAt s.disk (smapBase sb) i =
      !inside 2147483648 2147483649 i := by
    have set : bitAt (fun _ => 0xFF) (smapBase sb) i = true :=
      full_byte.mp rfl (i % 8) (Nat.mod_lt _ (by decide))
    rw [← hs, mounted, bitAt_clearBits, set, Bool.true_and]
  have lowest : LowestClear s.disk (smapBase sb) 2147483648 := by
    constructor
    · rw [bits, inside_iff.mpr (by omega)]
      rfl
    · intro i below
      rw [bits, inside_eq_false (by omega)]
      rfl
  have run : FreeRun s.disk (smapBase sb) (smapBitCount sb) 2147483648 1 :=
    ⟨fun i below _ => lowest.2 i below, fun i lower upper _ => by
      rw [show i = 2147483648 by omega]
      exact lowest.1⟩
  have answer : freeSectNr sb.n1stSect 2147483648 < 0 := by
    rw [n1st]
    decide
  obtain ⟨s', done, -, -⟩ := allocSmapBit_fits super run (by omega) (by omega) (by omega)
  obtain ⟨b, lowest', -, nr, -⟩ := claim s s' sb 1 _ super (by omega) (lowest.2 0 (by omega))
    (by omega) done
  rw [← lowest.unique lowest'] at nr
  rw [nr, n1st] at answer
  revert answer
  decide

end RoundTrip

end Konix.Fs
