import Konix.Fs.ReadWrite

set_option autoImplicit false

namespace Konix.Fs

open Splice

-- The message asks the root device's driver to read or write `n` whole sectors.
def ChunkMsg (n : Nat) (m : Message) : Prop :=
  (m.type = .devRead ∨ m.type = .devWrite) ∧ m.cnt = (n * sectorSize : Nat) ∧
    m.device = minor rootDev ∧ m.position % sectorSize = 0

/--
The loop has moved `t` bytes between the disk from byte `start` on and the caller's buffer from
byte `done` on, and nothing else that a later request can see.
-/
structure Moved (c : Rdwt) (n start done t : Nat) (s s' : State) : Prop where
  disk : s'.disk =
    if c.type = .read then s.disk
    else splice s.disk start t (window (s.userMem c.src) (c.buf + done))
  userMem : s'.userMem =
    if c.type = .read then
      Function.update s.userMem c.src
        (splice (s.userMem c.src) (c.buf + done) t (window s.disk start))
    else s.userMem
  descs : s'.fDescTable =
    Function.update s.fDescTable c.desc
      { s.fDescTable c.desc with fdPos := (s.fDescTable c.desc).fdPos + t }
  inodes : s'.inodeTable = s.inodeTable
  supers : s'.superBlock = s.superBlock
  filp : s'.filp = s.filp
  root : s'.rootInode = s.rootInode
  msg : s'.fsMsg = s.fsMsg
  sent : ∃ l, s'.driverMsgs = s.driverMsgs ++ l ∧ ∀ m ∈ l, ChunkMsg n m

theorem Moved.refl (c : Rdwt) (n start done : Nat) (s : State) : Moved c n start done 0 s s where
  disk := by simp
  userMem := by simp
  descs := by simp
  inodes := rfl
  supers := rfl
  filp := rfl
  root := rfl
  msg := rfl
  sent := ⟨[], by simp, by simp⟩

theorem Moved.trans {c : Rdwt} {n start done t u : Nat} {s s' s'' : State}
    (first : Moved c n start done t s s')
    (second : Moved c n (start + t) (done + t) u s' s'') :
    Moved c n start done (t + u) s s'' where
  disk := by
    rw [second.disk, first.disk, first.userMem]
    by_cases isRead : c.type = .read
    · simp only [isRead, if_true]
    · simp only [isRead, if_false]
      rw [← splice_append]
      congr 1
      funext j
      simp [Nat.add_assoc]
  userMem := by
    rw [second.userMem, first.userMem, first.disk]
    by_cases isRead : c.type = .read
    · simp only [isRead, if_true, Function.update_self, Function.update_idem]
      rw [← splice_append]
      congr 1
      rw [Nat.add_assoc]
      congr 1
      funext j
      simp [Nat.add_assoc]
    · simp only [isRead, if_false]
  descs := by
    rw [second.descs, first.descs]
    simp [Function.update_idem, Int.add_assoc]
  inodes := second.inodes.trans first.inodes
  supers := second.supers.trans first.supers
  filp := second.filp.trans first.filp
  root := second.root.trans first.root
  msg := second.msg.trans first.msg
  sent := by
    obtain ⟨l, hl, chunks⟩ := first.sent
    obtain ⟨l', hl', chunks'⟩ := second.sent
    refine ⟨l ++ l', by rw [hl', hl, List.append_assoc], ?_⟩
    intro m member
    rcases List.mem_append.mp member with left | right
    · exact chunks m left
    · exact chunks' m right

theorem Moved.zero_start {c : Rdwt} {n start done start' done' : Nat} {s s' : State}
    (moved : Moved c n start done 0 s s') : Moved c n start' done' 0 s s' where
  disk := by simpa using moved.disk
  userMem := by simpa using moved.userMem
  descs := moved.descs
  inodes := moved.inodes
  supers := moved.supers
  filp := moved.filp
  root := moved.root
  msg := moved.msg
  sent := moved.sent

theorem driverMsg_chunk {io : MsgType} (sect n : Nat) (moves : io = .devRead ∨ io = .devWrite) :
    ChunkMsg n (State.driverMsg io rootDev (sect * sectorSize) (n * sectorSize)) :=
  ⟨moves, rfl, rfl, Nat.mul_mod_left sect sectorSize⟩

theorem rdwtChunk_inRange {c : Rdwt} {i : Int} {v v' : RdwtVars} {s s' : State}
    (done : rdwtChunk c i v s = .ok (v', s')) : i * sectorSize < 2147483648 := by
  obtain ⟨u, inRange, -⟩ := bind_ok done
  exact of_decide_eq_true (assertThat_ok.mp inRange)

theorem rdwtChunk_moved (c : Rdwt) (n i off done left : Nat) (s : State)
    (chunk : c.chunk = n) (dev : c.dev = rootDev) (offBound : off ≤ n * sectorSize)
    (inRange : i * sectorSize < 2147483648) :
    ∃ s', rdwtChunk c i ⟨off, done, left⟩ s =
        .ok (⟨0, (done + min left (n * sectorSize - off) : Nat),
          (left - min left (n * sectorSize - off) : Nat)⟩, s') ∧
      Moved c n (i * sectorSize + off) done (min left (n * sectorSize - off)) s s' ∧
      s.driverMsgs.length < s'.driverMsgs.length := by
  have bytesEq : min (left : Int) ((n : Int) * (sectorSize : Nat) - off) =
      (min left (n * sectorSize - off) : Nat) := by
    simp only [sectorSize] at offBound ⊢
    omega
  generalize hb : min left (n * sectorSize - off) = b at bytesEq
  have bLe : b ≤ left := by omega
  have fits : off + b ≤ n * sectorSize := by omega
  have posEq : ((i : Int) * (sectorSize : Nat)).toNat = i * sectorSize := by
    simp only [sectorSize]; omega
  have sizeEq : ((n : Int) * (sectorSize : Nat)).toNat = n * sectorSize := by
    simp only [sectorSize]; omega
  have inRange' : decide ((i : Int) * (sectorSize : Nat) < 2147483648) = true := by
    apply decide_eq_true
    omega
  have notNeg : ¬ (b : Int) < 0 := by omega
  have leftEq : (left : Int) - (b : Int) = (left - b : Nat) := by omega
  have doneEq : (done : Int) + (b : Int) = (done + b : Nat) := by omega
  simp only [rdwtChunk, chunk, dev, bytesEq, inRange', assertThat_true, posEq, sizeEq,
    State.rwSector_rootDev, Int.toNat_natCast, State.copyToUser, State.copyFromUser, notNeg,
      if_false,
    leftEq, doneEq]
  clear inRange inRange'
  by_cases isRead : c.type = .read
  · refine ⟨_, by simp only [isRead, if_true]; rfl, ?_, by simp [State.setFileDesc, State.transfer]⟩
    constructor <;> simp [State.setFileDesc, State.transfer, isRead]
    case userMem =>
      congr 1
      apply splice_congr
      intro j bound
      simp only [window_apply]
      rw [splice_inside _ _ (Nat.zero_le _) (by omega)]
      simp [Nat.add_assoc]
    case sent => exact driverMsg_chunk i n (.inl rfl)
  · refine ⟨_, by simp only [isRead, if_false]; rfl, ?_, by
      simp [State.setFileDesc, State.transfer]⟩
    constructor <;> simp [State.setFileDesc, State.transfer, isRead]
    case disk => exact splice_modify _ _ _ fits
    case sent => exact ⟨driverMsg_chunk i n (.inl rfl), driverMsg_chunk i n (.inr rfl)⟩

-- How many bytes the iterations from sector `i` on move.
def movedBytes (n last : Nat) : Nat → Nat → Nat → Nat → Nat
  | 0, _, _, _ => 0
  | fuel + 1, i, off, left =>
    if i ≤ last then
      min left (n * sectorSize - off) +
        movedBytes n last fuel (i + n) 0 (left - min left (n * sectorSize - off))
    else 0

theorem movedBytes_le (n last fuel i off left : Nat) :
    movedBytes n last fuel i off left ≤ left := by
  induction fuel generalizing i off left with
  | zero => exact Nat.zero_le _
  | succ fuel ih =>
    have rest := ih (i + n) 0 (left - min left (n * sectorSize - off))
    unfold movedBytes
    split <;> omega

-- The chunks cover every sector from `i` to `last`, the last one perhaps more.
theorem movedBytes_covers (n last fuel i off left : Nat) (positive : 0 < n)
    (enough : last + 1 - i ≤ fuel) :
    min left ((last + 1 - i) * sectorSize - off) ≤ movedBytes n last fuel i off left := by
  induction fuel generalizing i off left with
  | zero =>
    have : last + 1 - i = 0 := by omega
    simp [this]
  | succ fuel ih =>
    unfold movedBytes
    by_cases running : i ≤ last
    · have rest := ih (i + n) 0 (left - min left (n * sectorSize - off)) (by omega)
      simp only [running, if_true]
      simp only [sectorSize] at rest ⊢
      omega
    · have : last + 1 - i = 0 := by omega
      simp [this, running]

/--
What a loop that ends has moved, and at least one request to the driver when the range is not empty.
-/
structure Looped (c : Rdwt) (n last fuel i off done left : Nat) (s : State) (v : RdwtVars)
    (s' : State) : Prop where
  total : v.bytesRw = (done + movedBytes n last fuel i off left : Nat)
  moved : Moved c n (i * sectorSize + off) done (movedBytes n last fuel i off left) s s'
  sent : i ≤ last → s.driverMsgs.length < s'.driverMsgs.length

-- Behind a chunk of `b` bytes either the next chunk goes on there, or nothing is left to move.
theorem Moved.chunk {c : Rdwt} {n last fuel i off done left b : Nat} {s s₁ s' : State}
    (first : Moved c n (i * sectorSize + off) done b s s₁) (offBound : off ≤ n * sectorSize)
    (bytes : min left (n * sectorSize - off) = b)
    (rest : Moved c n ((i + n) * sectorSize + 0) (done + b)
      (movedBytes n last fuel (i + n) 0 (left - b)) s₁ s') :
    Moved c n (i * sectorSize + off) done
      (b + movedBytes n last fuel (i + n) 0 (left - b)) s s' := by
  apply first.trans
  by_cases full : b = n * sectorSize - off
  · have start : (i + n) * sectorSize + 0 = i * sectorSize + off + b := by
      simp only [sectorSize] at full offBound ⊢
      omega
    rwa [start] at rest
  · have nothing : movedBytes n last fuel (i + n) 0 (left - b) = 0 := by
      have := movedBytes_le n last fuel (i + n) 0 (left - b)
      omega
    rw [nothing] at rest ⊢
    exact rest.zero_start

theorem rdwtLoop_looped (c : Rdwt) (n last fuel i off done left : Nat) (s : State)
    (chunk : c.chunk = n) (max : c.rwSectMax = last) (dev : c.dev = rootDev)
    (offBound : off ≤ n * sectorSize) {v : RdwtVars} {s' : State}
    (ran : rdwtLoop c fuel i ⟨off, done, left⟩ s = .ok (v, s')) :
    Looped c n last fuel i off done left s v s' := by
  induction fuel generalizing i off done left s with
  | zero =>
    by_cases running : (i : Int) ≤ last
    · simp only [rdwtLoop, max, running, if_true, reduceCtorEq] at ran
    · simp only [rdwtLoop, max, running, if_false] at ran
      cases ran
      exact ⟨by simp only [movedBytes, Nat.add_zero], Moved.refl .., fun within => by omega⟩
  | succ fuel ih =>
    by_cases running : (i : Int) ≤ last
    · simp only [rdwtLoop, max, running, if_true, chunk] at ran
      obtain ⟨⟨v₁, s₁⟩, first, rest⟩ := bind_ok ran
      have inRange := rdwtChunk_inRange first
      obtain ⟨s₁', chunkEq, moved, sent⟩ :=
        rdwtChunk_moved c n i off done left s chunk dev offBound (by omega)
      rw [chunkEq] at first
      cases first
      generalize hb : min left (n * sectorSize - off) = b at moved rest
      have next_ : ((i : Int) + n) = (i + n : Nat) := by push_cast; rfl
      rw [next_] at rest
      have looped := ih (i + n) 0 (done + b) (left - b) s₁ (Nat.zero_le _) rest
      have within : i ≤ last := by exact_mod_cast running
      refine ⟨?_, ?_, fun _ => ?_⟩
      · simp only [movedBytes, within, if_true, hb]
        rw [looped.total, Nat.add_assoc]
      · simp only [movedBytes, within, if_true, hb]
        exact moved.chunk offBound hb looped.moved
      · obtain ⟨l, hl, -⟩ := looped.moved.sent
        rw [hl, List.length_append]
        omega
    · simp only [rdwtLoop, max, running, if_false] at ran
      cases ran
      have past : ¬ i ≤ last := by exact_mod_cast running
      refine ⟨by simp only [movedBytes, past, if_false, Nat.add_zero], ?_,
        fun within => absurd within past⟩
      simp only [movedBytes, past, if_false]
      exact Moved.refl ..

theorem rdwtLoop_ends (c : Rdwt) (n last fuel i off done left : Nat) (s : State)
    (chunk : c.chunk = n) (positive : 0 < n) (max : c.rwSectMax = last) (dev : c.dev = rootDev)
    (offBound : off ≤ n * sectorSize) (enough : last + 1 - i ≤ fuel)
    (inRange : last * sectorSize < 2147483648) :
    ∃ v s', rdwtLoop c fuel i ⟨off, done, left⟩ s = .ok (v, s') := by
  induction fuel generalizing i off done left s with
  | zero =>
    have stop : ¬ ((i : Int) ≤ last) := by omega
    exact ⟨⟨off, done, left⟩, s, by simp only [rdwtLoop, max, stop, if_false]⟩
  | succ fuel ih =>
    by_cases running : i ≤ last
    · have here : i * sectorSize < 2147483648 :=
        lt_of_le_of_lt (Nat.mul_le_mul_right _ running) inRange
      obtain ⟨s₁, chunkEq, -⟩ := rdwtChunk_moved c n i off done left s chunk dev offBound here
      generalize min left (n * sectorSize - off) = b at chunkEq
      obtain ⟨v, s', loopEq⟩ := ih (i + n) 0 (done + b) (left - b) s₁ (Nat.zero_le _) (by omega)
      have runningInt : (i : Int) ≤ last := by exact_mod_cast running
      refine ⟨v, s', ?_⟩
      simp only [rdwtLoop, max, runningInt, if_true, chunkEq, chunk]
      exact_mod_cast loopEq
    · have stop : ¬ ((i : Int) ≤ last) := by omega
      exact ⟨⟨off, done, left⟩, s, by simp only [rdwtLoop, max, stop, if_false]⟩

end Konix.Fs
