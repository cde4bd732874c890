import Konix.Fs.Inode

set_option autoImplicit false

namespace Konix.Fs

open Splice

-- The disk as it will be once the sector in the buffer is written to byte `pos`.
def State.held (s : State) (pos : Nat) : Nat → UInt8 := splice s.disk pos sectorSize s.fsbuf

-- Nothing but the disk, the sector buffer and the log of driver requests has changed.
def DiskOnly (s s' : State) : Prop :=
  s' = { s with disk := s'.disk, fsbuf := s'.fsbuf, driverMsgs := s'.driverMsgs }

namespace DiskOnly

variable {s s' s'' : State}

theorem refl (s : State) : DiskOnly s s := rfl

theorem trans (first : DiskOnly s s') (second : DiskOnly s' s'') : DiskOnly s s'' := by
  unfold DiskOnly at *
  rw [second, first]

theorem inodeTable (only : DiskOnly s s') : s'.inodeTable = s.inodeTable := by
  rw [only]

theorem fDescTable (only : DiskOnly s s') : s'.fDescTable = s.fDescTable := by
  rw [only]

theorem superBlock (only : DiskOnly s s') : s'.superBlock = s.superBlock := by
  rw [only]

theorem rootInode (only : DiskOnly s s') : s'.rootInode = s.rootInode := by
  rw [only]

theorem filp (only : DiskOnly s s') : s'.filp = s.filp := by
  rw [only]

theorem userMem (only : DiskOnly s s') : s'.userMem = s.userMem := by
  rw [only]

theorem fsMsg (only : DiskOnly s s') : s'.fsMsg = s.fsMsg := by
  rw [only]

theorem getSuperBlock (only : DiskOnly s s') (dev : Nat) :
    Fs.getSuperBlock s' dev = Fs.getSuperBlock s dev := by
  rw [only]
  rfl

theorem transfer (s : State) (io : MsgType) (dev pos bytes : Nat) :
    DiskOnly s (s.transfer io dev pos bytes) := by
  unfold DiskOnly State.transfer
  split <;> rfl

theorem rwSector {io : MsgType} {dev pos bytes : Nat}
    (done : s.rwSector io dev pos bytes = .ok s') :
    DiskOnly s s' := by
  obtain ⟨u, -, rest⟩ := bind_ok done
  cases rest
  exact transfer s io dev pos bytes

theorem rdSect {dev sect : Nat} (done : s.rdSect dev sect = .ok s') : DiskOnly s s' :=
  rwSector done

theorem wrSect {dev sect : Nat} (done : s.wrSect dev sect = .ok s') : DiskOnly s s' :=
  rwSector done

theorem rdSect_disk {dev sect : Nat} (done : s.rdSect dev sect = .ok s') : s'.disk = s.disk := by
  obtain ⟨u, -, rest⟩ := bind_ok done
  cases rest
  rfl

theorem buffer (s : State) (buf : Nat → UInt8) : DiskOnly s { s with fsbuf := buf } := rfl

end DiskOnly

namespace State

variable (s : State) (dev pos : Nat)

theorem held_inside {j : Nat} (bound : j < sectorSize) : s.held pos (pos + j) = s.fsbuf j := by
  rw [held, splice_inside _ _ (by omega) (by omega), Nat.add_sub_cancel_left]

theorem held_outside {a : Nat} (out : a < pos ∨ pos + sectorSize ≤ a) :
    s.held pos a = s.disk a :=
  splice_outside _ _ out

@[simp] theorem transfer_read_disk : (s.transfer .devRead dev pos sectorSize).disk = s.disk := rfl

@[simp] theorem transfer_read_held : (s.transfer .devRead dev pos sectorSize).held pos = s.disk :=
  splice_readBack _ _ _ _

theorem transfer_read_fsbuf {j : Nat} (bound : j < sectorSize) :
    (s.transfer .devRead dev pos sectorSize).fsbuf j = s.disk (pos + j) := by
  rw [← held_inside _ pos bound, transfer_read_held]

@[simp] theorem transfer_write_disk :
    (s.transfer .devWrite dev pos sectorSize).disk = s.held pos := rfl

theorem held_update {j : Nat} (byte : UInt8) (bound : j < sectorSize) :
    ({ s with fsbuf := Function.update s.fsbuf j byte } : State).held pos =
      Function.update (s.held pos) (pos + j) byte :=
  splice_update _ _ _ bound

theorem held_splice {off n : Nat} (g : Nat → UInt8) (fits : off + n ≤ sectorSize) :
    ({ s with fsbuf := splice s.fsbuf off n g } : State).held pos =
      splice (s.held pos) (pos + off) n g :=
  splice_inner _ _ _ fits

end State

end Konix.Fs
