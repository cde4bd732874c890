import Konix.Fs.FileAccess
import Konix.Hd.Driver

set_option autoImplicit false

namespace Konix.Fs

open Hd

variable {s s' : State} {d p : Nat}

theorem rdwtLoop_skipped {c : Rdwt} {i : Int} (fuel : Nat) (v : RdwtVars) (s : State)
    (past : c.rwSectMax < i) : rdwtLoop c fuel i v s = .ok (v, s) := by
  have stop : ¬ i ≤ c.rwSectMax := by omega
  cases fuel <;> simp only [rdwtLoop, stop, if_false]

theorem copy_negative (s : State) (src : Int) (va off : Nat) {bytes : Int} (negative : bytes < 0) :
    s.copyToUser src va off bytes = .error .outOfBounds ∧
      s.copyFromUser src va off bytes = .error .outOfBounds := by
  simp only [State.copyToUser, State.copyFromUser, negative, if_true, and_self]

theorem rdwtChunk_negative {c : Rdwt} {i : Int} {v : RdwtVars} (s : State) (dev : c.dev = rootDev)
    (negative : v.bytesLeft < 0) (r : RdwtVars × State) : rdwtChunk c i v s ≠ .ok r := by
  intro done
  have bytes : min v.bytesLeft (c.chunk * (sectorSize : Nat) - v.off) < 0 := by omega
  obtain ⟨u, -, rest⟩ := bind_ok done
  simp only [dev, State.rwSector_rootDev, bind, Except.bind] at rest
  by_cases isRead : c.type = .read
  · simp only [isRead, if_true, (copy_negative _ _ _ _ bytes).1, reduceCtorEq] at rest
  · simp only [isRead, if_false, (copy_negative _ _ _ _ bytes).2, reduceCtorEq] at rest

theorem updateSize_sent {count r : Int} (dev : (s.inodeTable p).iDev = rootDev)
    (done : updateSize s d p count = .ok (r, s')) :
    ∃ l, s'.driverMsgs = s.driverMsgs ++ l ∧ ∀ m ∈ l, ChunkMsg 1 m := by
  by_cases grows : u32 (s.fDescTable d).fdPos > (s.inodeTable p).iSize
  · have synced := done
    simp only [updateSize, grows, if_true] at synced
    obtain ⟨s₁, synced, -⟩ := bind_ok synced
    obtain ⟨sb, super, -⟩ := bind_ok synced
    simp only [State.setInode, Function.update_self, dev] at super
    rw [updateSize_grows count grows dev super] at done
    cases done
    refine ⟨_, rfl, ?_⟩
    intro m member
    have blk := driverMsg_chunk (inodeBlk sb (s.inodeTable p).iNum) 1
      (Or.inl (rfl : MsgType.devRead = .devRead))
    have blk' := driverMsg_chunk (inodeBlk sb (s.inodeTable p).iNum) 1
      (Or.inr (rfl : MsgType.devWrite = .devWrite))
    rw [Nat.one_mul] at blk blk'
    rcases List.mem_cons.mp member with rfl | member
    · exact blk
    · rw [List.mem_singleton.mp member]
      exact blk'
  · rw [updateSize_same count (by omega)] at done
    cases done
    exact ⟨[], by simp, by simp⟩

-- An end in front of the file wraps around to a huge unsigned value.
theorem posEnd_wraps {type : MsgType} {pos len : Int} {inode : Inode} (below : pos + len < 0)
    (lower : -2147483648 ≤ pos + len) (sizeUpper : inode.iSize < 2147483648)
    (sectsUpper : inode.iNrSects * sectorSize < 2147483648) :
    posEnd type pos len inode = transferLimit type inode := by
  have huge : 2147483648 ≤ u32 (pos + len) := by unfold u32; omega
  have sects : ((inode.iNrSects : Int) * (sectorSize : Nat)) =
      (inode.iNrSects * sectorSize : Nat) := by
    push_cast; rfl
  have word : (u32 (inode.iNrSects * sectorSize : Nat) : Int) =
      (inode.iNrSects * sectorSize : Nat) :=
    u32_of_bounds (by omega) (by omega)
  unfold posEnd transferLimit
  split
  · rw [i32_of_bounds (by omega)]
    omega
  · rw [sects, i32_of_bounds (by omega)]
    omega

-- The sector, counted from the start of the file, in which the clamped range ends.
def lastSect (s : State) (d p : Nat) : Int :=
  min ((s.fDescTable d).fdPos + s.fsMsg.cnt)
    (transferLimit s.fsMsg.type (s.inodeTable p)) / sectorSize

def firstSect (s : State) (d : Nat) : Int := (s.fDescTable d).fdPos / sectorSize

theorem OnFile.posEnd_cases (h : OnFile s d p) (lenLower : -2147483648 ≤ s.fsMsg.cnt)
    (lenUpper : s.fsMsg.cnt < 2147483648) :
    ∃ stop : Nat,
      posEnd s.fsMsg.type (s.fDescTable d).fdPos s.fsMsg.cnt (s.inodeTable p) = stop ∧
      (0 ≤ s.fsMsg.cnt → (stop / sectorSize : Nat) = lastSect s d p) ∧
      ((stop / sectorSize : Nat) < firstSect s d → lastSect s d p < firstSect s d) := by
  have posLower := h.posLower
  have posUpper := h.posUpper
  have size : sectorSize = 512 := rfl
  simp only [lastSect, firstSect, size]
  by_cases below : (s.fDescTable d).fdPos + s.fsMsg.cnt < 0
  · refine ⟨_, posEnd_wraps below (by omega) h.sizeUpper h.sectsUpper, ?_, ?_⟩ <;> omega
  · have sumLower : 0 ≤ (s.fDescTable d).fdPos + s.fsMsg.cnt := by omega
    have sumUpper : (s.fDescTable d).fdPos + s.fsMsg.cnt < 4294967296 := by omega
    have endEq := posEnd_eq s.fsMsg.type sumLower sumUpper h.sizeUpper h.sectsUpper
    refine ⟨(min ((s.fDescTable d).fdPos + s.fsMsg.cnt)
      (transferLimit s.fsMsg.type (s.inodeTable p))).toNat, ?_, ?_, ?_⟩ <;> omega

/--
The requests of an accepted READ or WRITE: those of the loop, all of one size and at least one
when the range is not empty, then those that write the inode back.
-/
theorem OnFile.rdwtFile_requests {r : Int} (h : OnFile s d p)
    (lenLower : -2147483648 ≤ s.fsMsg.cnt) (lenUpper : s.fsMsg.cnt < 2147483648)
    (done : rdwtFile s d p = .ok (r, s')) :
    ∃ l l', s'.driverMsgs = s.driverMsgs ++ (l ++ l') ∧ (∀ m ∈ l', ChunkMsg 1 m) ∧
      (lastSect s d p < firstSect s d ∧ l = [] ∨
        firstSect s d ≤ lastSect s d p ∧ l ≠ [] ∧
          ∃ n : Nat, (n : Int) = min (lastSect s d p - firstSect s d + 1) 2048 ∧
            ∀ m ∈ l, ChunkMsg n m) := by
  obtain ⟨stop, endEq, lastEq, beyond⟩ := h.posEnd_cases lenLower lenUpper
  rw [h.rdwtFile_eq endEq] at done
  obtain ⟨⟨v, s₁⟩, loop, finished⟩ := bind_ok done
  have posLower := h.posLower
  simp only [firstSect] at lastEq beyond ⊢
  generalize (s.fDescTable d).fdPos = pos at *
  generalize (s.inodeTable p).iStartSect = start at *
  obtain ⟨pos, rfl⟩ := Int.eq_ofNat_of_zero_le posLower
  have firstNat : (start : Int) + (pos : Int) / (sectorSize : Nat) =
      (start + pos / sectorSize : Nat) := by push_cast; rfl
  have lastNat : (start : Int) + (stop : Int) / (sectorSize : Nat) =
      (start + stop / sectorSize : Nat) := by push_cast; rfl
  have posNat : (pos : Int) / (sectorSize : Nat) = (pos / sectorSize : Nat) := by push_cast; rfl
  have offNat : (pos : Int) % (sectorSize : Nat) = (pos % sectorSize : Nat) := by push_cast; rfl
  simp only [firstNat, lastNat, offNat] at loop
  rw [posNat] at beyond ⊢
  by_cases ordered : pos / sectorSize ≤ stop / sectorSize
  · by_cases negative : s.fsMsg.cnt < 0
    · have fuel : (((start + stop / sectorSize : Nat) : Int) - (start + pos / sectorSize : Nat) +
          1).toNat = stop / sectorSize - pos / sectorSize + 1 := by omega
      rw [fuel] at loop
      simp only [rdwtLoop] at loop
      rw [if_pos (by omega)] at loop
      obtain ⟨r, chunk, -⟩ := bind_ok loop
      exact absurd chunk (rdwtChunk_negative s rfl negative r)
    · obtain ⟨len, lenEq⟩ := Int.eq_ofNat_of_zero_le (show 0 ≤ s.fsMsg.cnt by omega)
      let n := min (stop / sectorSize - pos / sectorSize + 1) 2048
      have chunk :
          min (((start + stop / sectorSize : Nat) : Int) - (start + pos / sectorSize : Nat) +
          1) (fsbufSize / sectorSize : Nat) = (n : Nat) := by
        have whole : fsbufSize / sectorSize = 2048 := by decide
        rw [whole]
        omega
      rw [chunk, lenEq] at loop
      have positive : 0 < n := by omega
      have looped := rdwtLoop_looped ⟨s.fsMsg.type, s.fsMsg.source, s.fsMsg.buf, d, rootDev, n,
          (start + stop / sectorSize : Nat)⟩ n (start + stop / sectorSize)
        (((start + stop / sectorSize : Nat) : Int) - (start + pos / sectorSize : Nat) + 1).toNat
        (start + pos / sectorSize) (pos % sectorSize) 0 len s rfl rfl rfl
        (by simp only [sectorSize]; omega) loop
      obtain ⟨l, grown, chunks⟩ := looped.moved.sent
      have nonempty : l ≠ [] := by
        have longer := looped.sent (by omega)
        rintro rfl
        rw [grown, List.append_nil] at longer
        exact absurd longer (lt_irrefl _)
      obtain ⟨l', grown', chunks'⟩ :=
        updateSize_sent (by rw [looped.moved.inodes]; exact h.dev) finished
      refine ⟨l, l', by rw [grown', grown, List.append_assoc], chunks',
        .inr ⟨?_, nonempty, n, ?_, chunks⟩⟩
      · rw [← lastEq (by omega)]
        omega
      · rw [← lastEq (by omega)]
        omega
  · have past : ((start + stop / sectorSize : Nat) : Int) < (start + pos / sectorSize : Nat) := by
      omega
    rw [rdwtLoop_skipped _ _ _ past] at loop
    cases loop
    obtain ⟨l', grown, chunks⟩ := updateSize_sent h.dev finished
    exact ⟨[], l', by simpa using grown, chunks, .inl ⟨beyond (by omega), rfl⟩⟩

theorem sectors_agree_iff (info : HdInfo) (driver : Message → Message) {r : Int}
    (h : OnFile s d p) (mode : (s.fDescTable d).fdMode &&& oRdwr ≠ 0)
    (lenLower : -2147483648 ≤ s.fsMsg.cnt) (lenUpper : s.fsMsg.cnt < 2147483648)
    (accepted : doRdwt driver s = .ok (r, s')) :
    (∀ m ∈ s'.driverMsgs.drop s.driverMsgs.length, SectorsAgree info m) ↔
      lastSect s d p < firstSect s d + 256 := by
  rw [h.doRdwt_eq driver, if_neg mode] at accepted
  obtain ⟨l, l', sent, single, loop⟩ := h.rdwtFile_requests lenLower lenUpper accepted
  have agree {m : Message} {n : Nat} (chunk : ChunkMsg n m) (positive : 0 < n) (bound : n ≤ 2048) :=
    sectorsAgree_iff info positive bound chunk.2.1 chunk.2.2.1 chunk.2.2.2
  have writeBack (m : Message) (member : m ∈ l') : SectorsAgree info m :=
    (agree (single m member) (by omega) (by omega)).mpr (by omega)
  rw [sent, List.drop_left]
  rcases loop with ⟨before, rfl⟩ | ⟨ordered, nonempty, n, count, chunks⟩
  · simp only [List.nil_append]
    exact ⟨fun _ => by omega, fun _ => writeBack⟩
  · constructor
    · intro all
      obtain ⟨m, member⟩ := List.exists_mem_of_ne_nil l nonempty
      have small := (agree (chunks m member) (by omega) (by omega)).mp
        (all m (List.mem_append_left l' member))
      omega
    · intro within m member
      rcases List.mem_append.mp member with inLoop | inSync
      · exact (agree (chunks m inLoop) (by omega) (by omega)).mpr (by omega)
      · exact writeBack m inSync

def sampleHdInfo : HdInfo := ⟨fun _ => ⟨0, 0⟩, fun _ => ⟨0, 0⟩⟩

theorem sectors_agree_short_read :
    ∃ r s', doRdwt id (sampleState .read 130000 0 1048576) = .ok (r, s') ∧
      ∀ m ∈ s'.driverMsgs, SectorsAgree sampleHdInfo m :=
  ⟨_, _, rfl, (sectors_agree_iff sampleHdInfo id (sampleState_readable 130000 0 1048576 (by decide)
    (by decide) (by decide)).toOnFile (by decide) (by decide) (by decide) rfl).mpr (by decide)⟩

-- The first 128 kilobytes of a file and one sector more: 257 sectors, of which one is programmed.
theorem sectors_disagree_long_read :
    ∃ r s', OnFile (sampleState .read 131072 0 1048576) 0 1 ∧
      doRdwt id (sampleState .read 131072 0 1048576) = .ok (r, s') ∧
      ∃ m ∈ s'.driverMsgs, ¬ SectorsAgree sampleHdInfo m := by
  have long : OnFile (sampleState .read 131072 0 1048576) 0 1 :=
    sampleState_onFile _ _ _ _ (.inl rfl) (by decide) (by decide) (by decide)
  refine ⟨_, _, long, rfl, _, List.mem_cons_self, ?_⟩
  rw [sectorsAgree_iff sampleHdInfo (n := 257) (by decide) (by decide) rfl rfl rfl]
  decide

end Konix.Fs
