import Konix.Fs.Alloc
import Konix.Fs.Cache
import Konix.Fs.Directory

set_option autoImplicit false

namespace Konix.Fs

open Splice Words

def freshInode (inodeNr : Nat) (startSect : Int) : Inode :=
  ⟨iRegular, 0, u32 startSect, nrDefaultFileSects, rootDev, 1, inodeNr⟩

def newInode (s : State) (dev inodeNr : Nat) (startSect : Int) : Except Stop (Nat × State) := do
  match ← getInode s dev inodeNr with
  -- the fields are written through a null pointer
  | (none, _) => .error .outOfBounds
  | (some p, s) => do
    let s := s.setInode p { freshInode inodeNr startSect with iDev := dev }
    let s ← syncInode s p
    return (p, s)

def createFile (s : State) (pathname : List UInt8) : Except Stop (Option Nat × State) :=
  match stripPath pathname with
  | none => .ok (none, s)
  | some filename => do
    let dev := (s.inodeTable s.rootInode).iDev
    let (inodeNr, s) ← allocImapBit s dev
    let (freeSectNr, s) ← allocSmapBit s dev nrDefaultFileSects
    let (newino, s) ← newInode s dev inodeNr freeSectNr
    let s ← newDirEntry s (s.inodeTable newino).iNum filename
    return (some newino, s)

theorem freshInode_stored (inodeNr : Nat) (startSect : Int) :
    Stored (freshInode inodeNr startSect) := by
  constructor <;> simp only [freshInode, iRegular, u32, nrDefaultFileSects] <;> omega

theorem newInode_ok {s s' : State} {inodeNr p : Nat} {startSect : Int}
    (done : newInode s rootDev inodeNr startSect = .ok (p, s')) :
    (∃ old s₁, Fetched s inodeNr p old s₁) ∧ ∃ sb, getSuperBlock s rootDev = .ok sb ∧
      DiskOnly (s.setInode p (freshInode inodeNr startSect)) s' ∧
      s'.disk = storeInode s.disk (recordPos sb inodeNr) (freshInode inodeNr startSect) := by
  obtain ⟨⟨slot, s₁⟩, get, rest⟩ := bind_ok done
  cases slot with
  | none => cases rest
  | some q =>
    obtain ⟨s₂, sync, rest⟩ := bind_ok rest
    cases rest
    obtain ⟨old, fetched⟩ := getInode_ok get
    have filled : ({ freshInode inodeNr startSect with iDev := rootDev } : Inode) =
        freshInode inodeNr startSect := rfl
    rw [filled] at sync
    have slot : (s₁.setInode p (freshInode inodeNr startSect)).inodeTable p =
        freshInode inodeNr startSect := Function.update_self ..
    obtain ⟨sb, super, only, disk⟩ := syncInode_ok (by rw [slot]; rfl) sync
    rw [slot] at disk
    refine ⟨⟨old, s₁, fetched⟩, sb, ?_, ?_, ?_⟩
    · exact (fetched.only.getSuperBlock rootDev).symm.trans super
    · have merge : DiskOnly (s.setInode p (freshInode inodeNr startSect))
          (s₁.setInode p (freshInode inodeNr startSect)) := by
        have shape := fetched.only
        unfold DiskOnly at shape ⊢
        rw [shape]
        simp only [State.setInode, Function.update_idem]
      exact merge.trans only
    · rw [disk]
      show storeInode s₁.disk _ _ = _
      rw [fetched.disk]
      rfl

theorem newInode_makes {s s₁ : State} {sb : SuperBlock} {inodeNr p : Nat} (startSect : Int)
    (get : getInode s rootDev inodeNr = .ok (some p, s₁))
    (super : getSuperBlock s₁ rootDev = .ok sb) :
    ∃ s', newInode s rootDev inodeNr startSect = .ok (p, s') := by
  have here : (s₁.setInode p { freshInode inodeNr startSect with iDev := rootDev }).inodeTable p =
      freshInode inodeNr startSect := Function.update_self ..
  have sync := syncInode_eq (s₁.setInode p { freshInode inodeNr startSect with iDev := rootDev }) p
    sb (by rw [here]; rfl) super
  rw [here] at sync
  refine ⟨(s₁.setInode p { freshInode inodeNr startSect with iDev := rootDev }).synced sb
    (freshInode inodeNr startSect), ?_⟩
  rw [newInode, bind_of_ok _ get]
  simp only
  rw [bind_of_ok _ sync]
  rfl

theorem createFile_ok {s s' : State} {pathname : List UInt8} {p : Nat}
    (dev : (s.inodeTable s.rootInode).iDev = rootDev)
    (done : createFile s pathname = .ok (some p, s')) :
    ∃ filename inodeNr start s₁ s₂ s₃, stripPath pathname = some filename ∧
      allocImapBit s rootDev = .ok (inodeNr, s₁) ∧
      allocSmapBit s₁ rootDev nrDefaultFileSects = .ok (start, s₂) ∧
      newInode s₂ rootDev inodeNr start = .ok (p, s₃) ∧
      newDirEntry s₃ (s₃.inodeTable p).iNum filename = .ok s' := by
  unfold createFile at done
  cases strip : stripPath pathname with
  | none =>
    simp only [strip] at done
    cases done
  | some filename =>
    simp only [strip, dev] at done
    obtain ⟨⟨inodeNr, s₁⟩, imap, rest⟩ := bind_ok done
    obtain ⟨⟨start, s₂⟩, smap, rest⟩ := bind_ok rest
    obtain ⟨⟨q, s₃⟩, inode, rest⟩ := bind_ok rest
    obtain ⟨s₄, entry, rest⟩ := bind_ok rest
    cases rest
    exact ⟨filename, inodeNr, start, s₁, s₂, s₃, rfl, imap, smap, inode, entry⟩

theorem newDirEntry_ok {s s' : State} {inodeNr : Nat} {filename : List UInt8}
    (dev : (s.inodeTable s.rootInode).iDev = rootDev)
    (done : newDirEntry s inodeNr filename = .ok s') :
    ∃ sb size disk, getSuperBlock s rootDev = .ok sb ∧
      (size = (s.inodeTable s.rootInode).iSize ∨ size < 2 ^ 32) ∧
      DiskOnly (s.setInode s.rootInode { s.inodeTable s.rootInode with iSize := size }) s' ∧
      s'.disk = storeInode disk (recordPos sb (s.inodeTable s.rootInode).iNum)
        { s.inodeTable s.rootInode with iSize := size } ∧
      ∀ a, a < dirPos (s.inodeTable s.rootInode) → disk a = s.disk a := by
  generalize hdir : s.inodeTable s.rootInode = dir at dev ⊢
  obtain ⟨⟨stop, s₁⟩, scan, rest⟩ := bind_ok done
  rw [hdir] at scan rest
  cases stop with
  | none => cases rest
  | some e =>
    obtain ⟨s₂, write, sync⟩ := bind_ok rest
    obtain ⟨only, same⟩ := scanBlocks_reads scan
    obtain ⟨size, grown, bound⟩ : ∃ size, (if e.hit then dir
        else { dir with iSize := (dir.iSize + dirEntrySize) % 4294967296 }) =
          { dir with iSize := size } ∧ (size = dir.iSize ∨ size < 2 ^ 32) := by
      by_cases hit : e.hit = true
      · exact ⟨dir.iSize, by rw [if_pos hit], .inl rfl⟩
      · exact ⟨(dir.iSize + dirEntrySize) % 4294967296, by rw [if_neg hit], .inr (by omega)⟩
    rw [grown] at write
    have root₁ := only.rootInode
    rw [root₁] at write
    have only₂ := DiskOnly.wrSect write
    have merge : DiskOnly (s.setInode s.rootInode { dir with iSize := size }) s₂ := by
      refine DiskOnly.trans ?_ only₂
      unfold DiskOnly at only ⊢
      rw [only]
      rfl
    have root₂ : s₂.rootInode = s.rootInode := merge.rootInode
    have slot : s₂.inodeTable s₂.rootInode = { dir with iSize := size } := by
      rw [root₂, merge.inodeTable]
      exact Function.update_self ..
    obtain ⟨sb, super, only₃, disk⟩ := syncInode_ok (by rw [slot]; exact dev) sync
    rw [slot] at disk
    refine ⟨sb, size, s₂.disk, (merge.getSuperBlock rootDev).symm.trans super, bound,
      merge.trans only₃, disk, ?_⟩
    intro a below
    rw [dev, State.wrSect_rootDev] at write
    cases write
    have outside : a < (dir.iStartSect + e.blk) * sectorSize := by
      rw [Nat.add_mul]
      exact lt_of_lt_of_le below (Nat.le_add_right ..)
    rw [State.transfer_write_disk, State.held_outside _ _ (.inl outside)]
    exact congrFun same a

end Konix.Fs
