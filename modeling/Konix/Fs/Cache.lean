import Konix.Fs.Sectors

set_option autoImplicit false

namespace Konix.Fs

open Splice Words

structure OnDisk (f : Nat → UInt8) (pos : Nat) (inode : Inode) : Prop where
  mode : wordAt f pos = inode.iMode
  size : wordAt f (pos + 4) = inode.iSize
  start : wordAt f (pos + 8) = inode.iStartSect
  sects : wordAt f (pos + 12) = inode.iNrSects

theorem OnDisk.congr {f g : Nat → UInt8} {a b : Nat} {inode : Inode} (same : OnDisk f a inode)
    (agree : ∀ j, j < 16 → g (b + j) = f (a + j)) : OnDisk g b inode where
  mode := (wordAt_agree fun j bound => agree j (by omega)).trans same.mode
  size := (wordAt_agree fun j bound => by
    rw [Nat.add_assoc, Nat.add_assoc]
    exact agree (4 + j) (by omega)).trans same.size
  start := (wordAt_agree fun j bound => by
    rw [Nat.add_assoc, Nat.add_assoc]
    exact agree (8 + j) (by omega)).trans same.start
  sects := (wordAt_agree fun j bound => by
    rw [Nat.add_assoc, Nat.add_assoc]
    exact agree (12 + j) (by omega)).trans same.sects

-- The four fields that are stored on the disk, each an `u32`.
structure Stored (inode : Inode) : Prop where
  mode : inode.iMode < 2 ^ 32
  size : inode.iSize < 2 ^ 32
  start : inode.iStartSect < 2 ^ 32
  sects : inode.iNrSects < 2 ^ 32

theorem OnDisk.stored {f : Nat → UInt8} {pos : Nat} {inode : Inode} (same : OnDisk f pos inode) :
    Stored inode where
  mode := same.mode ▸ wordAt_lt ..
  size := same.size ▸ wordAt_lt ..
  start := same.start ▸ wordAt_lt ..
  sects := same.sects ▸ wordAt_lt ..

theorem storeInode_onDisk (f : Nat → UInt8) (pos : Nat) {inode : Inode} (stored : Stored inode) :
    OnDisk (storeInode f pos inode) pos inode where
  mode := by
    unfold storeInode
    rw [wordAt_putWord_outside _ _ (by omega), wordAt_putWord_outside _ _ (by omega),
      wordAt_putWord_outside _ _ (by omega), wordAt_putWord, Nat.mod_eq_of_lt stored.mode]
  size := by rw [storeInode_size, Nat.mod_eq_of_lt stored.size]
  start := by
    unfold storeInode
    rw [wordAt_putWord_outside _ _ (by omega), wordAt_putWord, Nat.mod_eq_of_lt stored.start]
  sects := by
    unfold storeInode
    rw [wordAt_putWord, Nat.mod_eq_of_lt stored.sects]

theorem OnDisk.store {f : Nat → UInt8} {pos other : Nat} {inode : Inode} (changed : Inode)
    (same : OnDisk f pos inode) (apart : pos + 16 ≤ other ∨ other + 16 ≤ pos) :
    OnDisk (storeInode f other changed) pos inode :=
  same.congr fun j bound => storeInode_outside f changed (by omega)

theorem storeInode_congr (f : Nat → UInt8) (pos : Nat) {x y : Inode} (mode : x.iMode = y.iMode)
    (size : x.iSize = y.iSize) (start : x.iStartSect = y.iStartSect)
    (sects : x.iNrSects = y.iNrSects) : storeInode f pos x = storeInode f pos y := by
  simp only [storeInode, mode, size, start, sects]

theorem findSlot_spec (table : Nat → Inode) (dev num fuel p : Nat) (q : Option Nat)
    (queued : ∀ x, q = some x → x < p ∧ (table x).iCnt = 0)
    (before : ∀ x, x < p → (table x).iCnt ≠ 0 → ¬ ((table x).iDev = dev ∧ (table x).iNum = num)) :
    (∃ x, findSlot table dev num fuel p q = .cached x ∧ x < p + fuel ∧ (table x).iCnt ≠ 0 ∧
        (table x).iDev = dev ∧ (table x).iNum = num) ∨
      (∃ x, findSlot table dev num fuel p q = .free x ∧ x < p + fuel ∧ (table x).iCnt = 0 ∧
        ∀ y, y < p + fuel → (table y).iCnt ≠ 0 → ¬ ((table y).iDev = dev ∧ (table y).iNum = num)) ∨
      findSlot table dev num fuel p q = .full := by
  induction fuel generalizing p q with
  | zero =>
    cases q with
    | none => exact .inr (.inr rfl)
    | some x =>
      have slot := queued x rfl
      exact .inr (.inl ⟨x, rfl, by omega, slot.2, before⟩)
  | succ fuel ih =>
    rw [show p + (fuel + 1) = p + 1 + fuel by omega]
    by_cases used : (table p).iCnt ≠ 0
    · by_cases here : (table p).iDev = dev ∧ (table p).iNum = num
      · exact .inl ⟨p, by rw [findSlot, if_pos used, if_pos here], by omega, used, here⟩
      · rw [findSlot, if_pos used, if_neg here]
        apply ih
        · intro x found
          have slot := queued x found
          exact ⟨by omega, slot.2⟩
        · intro x below cached
          by_cases last : x = p
          · rwa [last]
          · exact before x (by omega) cached
    · rw [findSlot, if_neg used]
      apply ih
      · intro x found
        cases q with
        | none =>
          cases found
          exact ⟨by omega, not_not.mp used⟩
        | some y =>
          cases found
          have slot := queued _ rfl
          exact ⟨by omega, slot.2⟩
      · intro x below cached
        by_cases last : x = p
        · subst last
          exact absurd cached used
        · exact before x (by omega) cached

theorem findSlot_full (table : Nat → Inode) (dev num fuel p : Nat) (q : Option Nat)
    (full : findSlot table dev num fuel p q = .full) :
    q = none ∧ ∀ x, p ≤ x → x < p + fuel → (table x).iCnt ≠ 0 := by
  induction fuel generalizing p q with
  | zero =>
    cases q with
    | none => exact ⟨rfl, fun x lower upper => by omega⟩
    | some x => cases full
  | succ fuel ih =>
    rw [findSlot] at full
    by_cases used : (table p).iCnt ≠ 0
    · rw [if_pos used] at full
      by_cases here : (table p).iDev = dev ∧ (table p).iNum = num
      · rw [if_pos here] at full
        cases full
      · rw [if_neg here] at full
        obtain ⟨none_, later⟩ := ih (p + 1) q full
        refine ⟨none_, fun x lower upper => ?_⟩
        by_cases last : x = p
        · rwa [last]
        · exact later x (by omega) (by omega)
    · rw [if_neg used] at full
      obtain ⟨none_, -⟩ := ih (p + 1) _ full
      cases q <;> cases none_

def Caches (table : Nat → Inode) (num p : Nat) : Prop :=
  (table p).iCnt ≠ 0 ∧ (table p).iDev = rootDev ∧ (table p).iNum = num

/--
What `get_inode()` of inode `num` does: the slot that caches it gets one more reference, or else
a free slot is filled from the disk.
-/
structure Fetched (s : State) (num p : Nat) (inode : Inode) (s' : State) : Prop where
  nonzero : num ≠ 0
  slot : p < nrInode
  dev : inode.iDev = rootDev
  iNum : inode.iNum = num
  only : DiskOnly (s.setInode p inode) s'
  disk : s'.disk = s.disk
  kind : Caches s.inodeTable num p ∧
        inode = { s.inodeTable p with iCnt := (s.inodeTable p).iCnt + 1 } ∨
      (s.inodeTable p).iCnt = 0 ∧ (∀ q, q < nrInode → ¬ Caches s.inodeTable num q) ∧
        inode.iCnt = 1 ∧ ∃ sb, getSuperBlock s rootDev = .ok sb ∧
          OnDisk s.disk (recordPos sb num) inode

theorem Fetched.before {s s₁ s' : State} {num p : Nat} {inode : Inode} (only : DiskOnly s s₁)
    (same : s₁.disk = s.disk) (fetched : Fetched s₁ num p inode s') : Fetched s num p inode s' where
  nonzero := fetched.nonzero
  slot := fetched.slot
  dev := fetched.dev
  iNum := fetched.iNum
  only := by
    refine DiskOnly.trans ?_ fetched.only
    unfold DiskOnly at only ⊢
    rw [only]
    rfl
  disk := fetched.disk.trans same
  kind := by
    have kind := fetched.kind
    rwa [only.inodeTable, only.getSuperBlock, same] at kind

theorem loadInode_onDisk (s : State) (old : Inode) (sb : SuperBlock) (num : Nat) :
    OnDisk s.disk (recordPos sb num)
      (loadInode old rootDev num
        (s.transfer .devRead rootDev (inodeBlk sb num * sectorSize) sectorSize).fsbuf
        (inodeOff num)) := by
  have fits := inodeOff_fits num
  simp only [inodeSize] at fits
  have bytes (a : Nat) (bound : a < sectorSize) :=
    State.transfer_read_fsbuf s rootDev (inodeBlk sb num * sectorSize) bound
  generalize s.transfer .devRead rootDev (inodeBlk sb num * sectorSize) sectorSize = r at bytes ⊢
  have word (k : Nat) (inside : k + 4 ≤ 16) :
      wordAt s.disk (recordPos sb num + k) = wordAt r.fsbuf (inodeOff num + k) := by
    apply wordAt_agree
    intro j bound
    rw [bytes _ (by omega), recordPos]
    exact congrArg s.disk (by omega)
  have mode := word 0 (by omega)
  rw [Nat.add_zero, Nat.add_zero] at mode
  exact ⟨mode, word 4 (by omega), word 8 (by omega), word 12 (by omega)⟩

theorem getInode_ok {s s' : State} {num p : Nat}
    (done : getInode s rootDev num = .ok (some p, s')) : ∃ inode, Fetched s num p inode s' := by
  unfold getInode at done
  by_cases zero : num = 0
  · simp only [zero, if_true, Except.ok.injEq, Prod.mk.injEq, reduceCtorEq, false_and] at done
  · rw [if_neg zero] at done
    rcases findSlot_spec s.inodeTable rootDev num nrInode 0 none
        (fun x found => by cases found) (fun x below => absurd below (Nat.not_lt_zero x)) with
      ⟨x, found, bound, used, dev, same⟩ | ⟨x, found, bound, free, none_⟩ | full
    · simp only [found, Except.ok.injEq, Prod.mk.injEq, Option.some.injEq] at done
      obtain ⟨rfl, rfl⟩ := done
      exact ⟨{ s.inodeTable x with iCnt := (s.inodeTable x).iCnt + 1 }, zero, by omega, dev, same,
        DiskOnly.refl _, rfl, .inl ⟨⟨used, dev, same⟩, rfl⟩⟩
    · simp only [found] at done
      obtain ⟨sb, super, rest⟩ := bind_ok done
      obtain ⟨u, -, rest⟩ := bind_ok rest
      rw [State.rdSect_rootDev] at rest
      simp only [bind, Except.bind, Except.ok.injEq, Prod.mk.injEq, Option.some.injEq] at rest
      obtain ⟨rfl, rfl⟩ := rest
      refine ⟨loadInode (s.inodeTable x) rootDev num (s.transfer .devRead rootDev
        (inodeBlk sb num * sectorSize) sectorSize).fsbuf (inodeOff num), zero, by omega, rfl, rfl,
        rfl, rfl, .inr ⟨free, ?_, rfl, sb, super, loadInode_onDisk s _ sb num⟩⟩
      rintro q below ⟨used, dev, same⟩
      exact none_ q (by omega) used ⟨dev, same⟩
    · simp only [full, reduceCtorEq] at done

theorem getInode_fetches {s : State} {sb : SuperBlock} {num q : Nat} (nonzero : num ≠ 0)
    (small : num < 2147483648) (super : getSuperBlock s rootDev = .ok sb) (slot : q < nrInode)
    (free : (s.inodeTable q).iCnt = 0) :
    ∃ p inode s', getInode s rootDev num = .ok (some p, s') ∧ Fetched s num p inode s' := by
  suffices done : ∃ p s', getInode s rootDev num = .ok (some p, s') by
    obtain ⟨p, s', done⟩ := done
    obtain ⟨inode, fetched⟩ := getInode_ok done
    exact ⟨p, inode, s', done, fetched⟩
  unfold getInode
  rw [if_neg nonzero]
  cases found : findSlot s.inodeTable rootDev num nrInode 0 none with
  | cached p => exact ⟨p, _, rfl⟩
  | free p =>
    simp only [super, small, decide_true, assertThat_true, State.rdSect_rootDev, bind, Except.bind]
    exact ⟨p, _, rfl⟩
  | full =>
    have used := (findSlot_full _ _ _ _ _ _ found).2 q (Nat.zero_le q) (by omega)
    exact absurd free used

theorem getInode_small {s s' : State} {num p : Nat}
    (done : getInode s rootDev num = .ok (some p, s')) :
    num < 2147483648 ∨ ∃ q, q < nrInode ∧ Caches s.inodeTable num q := by
  unfold getInode at done
  by_cases zero : num = 0
  · exact .inl (by omega)
  · rw [if_neg zero] at done
    rcases findSlot_spec s.inodeTable rootDev num nrInode 0 none
        (fun x found => by cases found) (fun x below => absurd below (Nat.not_lt_zero x)) with
      ⟨x, found, bound, used, dev, same⟩ | ⟨x, found, -⟩ | full
    · exact .inr ⟨x, by omega, used, dev, same⟩
    · simp only [found] at done
      obtain ⟨sb, -, rest⟩ := bind_ok done
      obtain ⟨u, small, -⟩ := bind_ok rest
      exact .inl (of_decide_eq_true (assertThat_ok.mp small))
    · simp only [full, reduceCtorEq] at done

theorem getInode_none {s s' : State} {dev num : Nat}
    (done : getInode s dev num = .ok (none, s')) : num = 0 ∧ s' = s := by
  unfold getInode at done
  by_cases zero : num = 0
  · rw [if_pos zero] at done
    cases done
    exact ⟨zero, rfl⟩
  · rw [if_neg zero] at done
    cases found : findSlot s.inodeTable dev num nrInode 0 none with
    | cached p => simp only [found, Except.ok.injEq, Prod.mk.injEq, reduceCtorEq, false_and] at done
    | full => simp only [found, reduceCtorEq] at done
    | free q =>
      simp only [found] at done
      obtain ⟨sb, -, rest⟩ := bind_ok done
      obtain ⟨u, -, rest⟩ := bind_ok rest
      obtain ⟨s₁, -, rest⟩ := bind_ok rest
      cases rest

theorem putInode_ok {s s' : State} {p : Nat} (done : putInode s p = .ok s') :
    (s.inodeTable p).iCnt > 0 ∧
      s' = s.setInode p { s.inodeTable p with iCnt := (s.inodeTable p).iCnt - 1 } := by
  obtain ⟨u, positive, rest⟩ := bind_ok done
  cases rest
  exact ⟨by simpa using assertThat_ok.mp positive, rfl⟩

theorem syncInode_ok {s s' : State} {p : Nat} (dev : (s.inodeTable p).iDev = rootDev)
    (done : syncInode s p = .ok s') :
    ∃ sb, getSuperBlock s rootDev = .ok sb ∧ DiskOnly s s' ∧
      s'.disk = storeInode s.disk (recordPos sb (s.inodeTable p).iNum) (s.inodeTable p) := by
  obtain ⟨sb, super, -⟩ := bind_ok done
  rw [dev] at super
  rw [syncInode_eq s p sb dev super] at done
  cases done
  exact ⟨sb, super, rfl, rfl⟩

theorem syncInode_only {s s' : State} {p : Nat} (done : syncInode s p = .ok s') :
    DiskOnly s s' := by
  obtain ⟨sb, -, rest⟩ := bind_ok done
  obtain ⟨s₁, read, rest⟩ := bind_ok rest
  exact (DiskOnly.rdSect read).trans ((DiskOnly.buffer s₁ _).trans (DiskOnly.wrSect rest))

end Konix.Fs
