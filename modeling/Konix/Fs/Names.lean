import Konix.Fs.Insertion
import Konix.Fs.Lifetime

set_option autoImplicit false

namespace Konix.Fs

open Splice Words Bits

-- The directory without the entry in slot `x`; when that is the last one, only the live are
-- counted.
def shrunkDir (dir : Inode) (f : Nat → UInt8) (x : Nat) : Inode :=
  if x + 1 = nrDirEntries dir then
    { dir with iSize := dirEntrySize * liveBelow f (dirPos dir) x }
  else dir

def entryCleared (f : Nat → UInt8) (pos x : Nat) : Nat → UInt8 :=
  splice f (pos + x * dirEntrySize) dirEntrySize fun _ => 0

theorem liveBelow_le (f : Nat → UInt8) (pos n : Nat) : liveBelow f pos n ≤ n := by
  induction n with
  | zero => exact le_refl 0
  | succ n ih =>
    rw [liveBelow_succ]
    split <;> omega

section Clear

variable {s s' : State} {sb : SuperBlock} {inodeNr : Nat}

theorem State.held_entryCleared (s : State) (pos x : Nat) :
    ({ s with
        fsbuf := splice s.fsbuf (x % entriesPerSect * dirEntrySize) dirEntrySize fun _ => 0 } :
      State).held (pos + x / entriesPerSect * sectorSize) =
      entryCleared (s.held (pos + x / entriesPerSect * sectorSize)) pos x := by
  have fits : x % entriesPerSect * dirEntrySize + dirEntrySize ≤ sectorSize := by
    simp only [entriesPerSect, dirEntrySize, sectorSize]
    omega
  have place : pos + x / entriesPerSect * sectorSize + x % entriesPerSect * dirEntrySize =
      pos + x * dirEntrySize := by
    simp only [entriesPerSect, dirEntrySize, sectorSize]
    omega
  rw [State.held_splice _ _ _ fits, place]
  rfl

theorem freeDirEntry_bytes (dev : (s.inodeTable s.rootInode).iDev = rootDev)
    (super : getSuperBlock s rootDev = .ok sb)
    (apart : recordPos sb (s.inodeTable s.rootInode).iNum + 16 ≤ dirPos (s.inodeTable s.rootInode))
    (fits : (s.inodeTable s.rootInode).iSize + sectorSize < 4294967296)
    (done : freeDirEntry s inodeNr = .ok s') :
    ∃ x, slotOf (· == inodeNr) s.disk (dirPos (s.inodeTable s.rootInode))
        (nrDirEntries (s.inodeTable s.rootInode)) = x ∧
      x < nrDirEntries (s.inodeTable s.rootInode) ∧
      s'.inodeTable s'.rootInode = shrunkDir (s.inodeTable s.rootInode) s.disk x ∧
      ∀ a, dirPos (s.inodeTable s.rootInode) ≤ a →
        s'.disk a = entryCleared s.disk (dirPos (s.inodeTable s.rootInode)) x a := by
  generalize hdir : s.inodeTable s.rootInode = dir at dev apart fits ⊢
  obtain ⟨s₁, scan, only, -, held⟩ := @scanBlocks_all dir (· == inodeNr) dev s fits
  rw [freeDirEntry, hdir, bind_of_ok _ scan] at done
  obtain ⟨u, hit, rest⟩ := bind_ok done
  have inside := scanEnd_hit.mp (assertThat_ok.mp hit)
  generalize hx : slotOf (· == inodeNr) s.disk (dirPos dir) (nrDirEntries dir) = x at inside held
  have entry : (scanEnd (· == inodeNr) s.disk (dirPos dir) (nrDirEntries dir)).entry =
      x % entriesPerSect := by rw [← hx]; rfl
  have blk : (scanEnd (· == inodeNr) s.disk (dirPos dir) (nrDirEntries dir)).blk =
      x / entriesPerSect := by rw [← hx]; rfl
  have count : (scanEnd (· == inodeNr) s.disk (dirPos dir) (nrDirEntries dir)).m = x + 1 := by
    rw [← hx]; rfl
  have dirSize : (scanEnd (· == inodeNr) s.disk (dirPos dir) (nrDirEntries dir)).dirSize =
      dirEntrySize * liveBelow s.disk (dirPos dir) x := by rw [← hx]; rfl
  rw [entry, blk, count, dirSize] at rest
  obtain ⟨s₂, write, rest⟩ := bind_ok rest
  rw [dev, State.wrSect_rootDev] at write
  have place : (dir.iStartSect + x / entriesPerSect) * sectorSize =
      dirPos dir + x / entriesPerSect * sectorSize := Nat.add_mul ..
  rw [place] at write
  have only₂ : DiskOnly s s₂ := by
    cases write
    exact only.trans ((DiskOnly.buffer s₁ _).trans (DiskOnly.transfer ..))
  have disk₂ : s₂.disk = entryCleared s.disk (dirPos dir) x := by
    cases write
    rw [State.transfer_write_disk, State.held_entryCleared, held]
  refine ⟨x, rfl, inside, ?_⟩
  by_cases last : x + 1 = nrDirEntries dir
  next =>
    have small : dirEntrySize * liveBelow s.disk (dirPos dir) x % 4294967296 =
        dirEntrySize * liveBelow s.disk (dirPos dir) x := by
      have few := liveBelow_le s.disk (dirPos dir) x
      simp only [nrDirEntries, dirEntrySize, sectorSize] at last fits few ⊢
      omega
    rw [if_pos last, small] at rest
    have root₂ := only₂.rootInode
    rw [root₂] at rest
    generalize hd : ({ dir with iSize := dirEntrySize * liveBelow s.disk (dirPos dir) x } : Inode) =
      dir' at rest
    have slot : (s₂.setInode s.rootInode dir').inodeTable s.rootInode = dir' :=
      Function.update_self ..
    obtain ⟨sb', super', only₃, disk₃⟩ := syncInode_ok (by rw [slot, ← hd]; exact dev) rest
    have same : getSuperBlock (s₂.setInode s.rootInode dir') rootDev = getSuperBlock s rootDev :=
      only₂.getSuperBlock rootDev
    rw [same, super] at super'
    cases super'
    rw [slot] at disk₃
    have root₃ : s'.rootInode = s.rootInode := only₃.rootInode.trans root₂
    constructor
    · rw [root₃, only₃.inodeTable, slot, shrunkDir, if_pos last, hd]
    · intro a above
      have num : dir'.iNum = dir.iNum := by rw [← hd]
      have out : s'.disk a = s₂.disk a := by
        rw [disk₃, num]
        exact storeInode_outside _ _ (.inr (by omega))
      rw [out, disk₂]
  next =>
    rw [if_neg last] at rest
    cases rest
    constructor
    · rw [only₂.rootInode, only₂.inodeTable, hdir, shrunkDir, if_neg last]
    · exact fun a _ => congrFun disk₂ a

end Clear

structure NameOf (pathname filename : List UInt8) : Prop where
  strip : stripPath pathname = some filename
  nonempty : filename ≠ []
  noZero : 0 ∉ filename

-- How many slots `search_file()` compares in a directory of `n` slots.
def compared (n : Nat) : Nat := if n % entriesPerSect = 0 then n else n + 1

/--
The directory has live and freed slots in any order. A freed slot holds zeros, a live one the name
of some path, and no two live ones have the same name.
-/
structure Tidy (f : Nat → UInt8) (pos n : Nat) : Prop where
  freed : ∀ m, m < n → entryNr f pos m = invalidInode →
    ∀ c, c < dirEntrySize → f (pos + m * dirEntrySize + c) = 0
  live : ∀ m, m < n → entryNr f pos m ≠ invalidInode →
    ∃ pathname filename, NameOf pathname filename ∧ entryNamed f pos filename m = true
  distinct : ∀ m, m < n → ∀ k, k < n → ∀ filename, entryNr f pos m ≠ invalidInode →
    entryNr f pos k ≠ invalidInode → entryNamed f pos filename m = true →
    entryNamed f pos filename k = true → m = k

section Names

variable {f g : Nat → UInt8} {pos n m x y : Nat} {pathname filename other : List UInt8}

theorem NameOf.first (name : NameOf pathname filename) : filename.getD 0 0 ≠ 0 := by
  cases filename with
  | nil => exact absurd rfl name.nonempty
  | cons c rest =>
    intro zero
    exact name.noZero (zero ▸ List.mem_cons_self ..)

theorem getD_inside {c : Nat} (inside : c < filename.length) :
    filename.getD c 0 = filename[c] := by
  rw [List.getD_eq_getElem?_getD, List.getElem?_eq_getElem inside, Option.getD_some]

theorem getD_eq_zero {c : Nat} (noZero : 0 ∉ filename) (zero : filename.getD c 0 = 0) :
    filename.length ≤ c := by
  by_contra inside
  rw [getD_inside (by omega)] at zero
  exact noZero (zero ▸ List.getElem_mem _)

theorem name_ext (left : 0 ∉ filename) (right : 0 ∉ other)
    (short : filename.length ≤ maxFilenameLen) (short' : other.length ≤ maxFilenameLen)
    (same : ∀ c, c < maxFilenameLen → filename.getD c 0 = other.getD c 0) : filename = other := by
  have length : filename.length = other.length := by
    apply Nat.le_antisymm
    · by_contra longer
      have byte := same other.length (by omega)
      rw [name_padding (le_refl other.length)] at byte
      exact longer (getD_eq_zero left byte)
    · by_contra longer
      have byte := same filename.length (by omega)
      rw [name_padding (le_refl filename.length)] at byte
      exact longer (getD_eq_zero right byte.symm)
  apply List.ext_getElem length
  intro c inside inside'
  have byte := same c (by omega)
  rwa [getD_inside inside, getD_inside inside'] at byte

theorem NameOf.eq {pathname' : List UInt8} (left : NameOf pathname filename)
    (right : NameOf pathname' other) (named : entryNamed f pos filename m = true)
    (named' : entryNamed f pos other m = true) : filename = other := by
  apply name_ext left.noZero right.noZero (stripPath_length left.strip)
    (stripPath_length right.strip)
  intro c bound
  exact (nameIs_iff.mp named c bound).trans (nameIs_iff.mp named' c bound).symm

theorem NameOf.not_zeros (name : NameOf pathname filename)
    (zeros : ∀ c, c < dirEntrySize → f (pos + m * dirEntrySize + c) = 0) :
    entryNamed f pos filename m = false := by
  apply Bool.eq_false_of_not_eq_true
  intro named
  have byte := nameIs_iff.mp named 0 (by decide)
  rw [Nat.add_assoc, zeros 4 (by decide)] at byte
  exact name.first byte

theorem Tidy.unnamed (tidy : Tidy f pos n) (name : NameOf pathname filename) (inside : x < n)
    (live : entryNr f pos x ≠ invalidInode) (named : entryNamed f pos filename x = true)
    (other : y ≠ x) (bound : y < n) : entryNamed f pos filename y = false := by
  by_cases freed : entryNr f pos y = invalidInode
  next => exact name.not_zeros (tidy.freed y bound freed)
  next =>
    apply Bool.eq_false_of_not_eq_true
    exact fun named' => other (tidy.distinct y bound x inside filename freed live named' named)

theorem le_compared (n : Nat) : n ≤ compared n := by
  rw [compared]
  split <;> omega

theorem compared_le (n : Nat) : compared n ≤ n + 1 := by
  rw [compared]
  split <;> omega

theorem compared_mono : compared n ≤ compared (n + 1) := by
  have lower := le_compared (n + 1)
  have upper := compared_le n
  omega

theorem lookup_first (unnamed : Unnamed f pos filename x)
    (named : entryNamed f pos filename x = true) {bound : Nat} (inside : x < bound) :
    lookup f pos filename bound = entryNr f pos x := by
  have first_ : firstMatch (entryNamed f pos filename) bound = some x :=
    firstMatch_eq_some.mpr ⟨inside, named, unnamed⟩
  rw [lookup, first_]

theorem lookup_none {bound : Nat} (unnamed : Unnamed f pos filename bound) :
    lookup f pos filename bound = invalidInode := by
  have none_ : firstMatch (entryNamed f pos filename) bound = none :=
    firstMatch_eq_none.mpr unnamed
  rw [lookup, none_]
  rfl

theorem Tidy.lookup (tidy : Tidy f pos n) (name : NameOf pathname filename) (inside : x < n)
    (live : entryNr f pos x ≠ invalidInode) (named : entryNamed f pos filename x = true) :
    lookup f pos filename (compared n) = entryNr f pos x :=
  lookup_first (fun _ below => tidy.unnamed name inside live named (by omega) (by omega)) named
    (lt_of_lt_of_le inside (le_compared n))

end Names

structure Cleared (f g : Nat → UInt8) (pos x : Nat) : Prop where
  zeros : ∀ c, c < dirEntrySize → g (pos + x * dirEntrySize + c) = 0
  others : ∀ y, y ≠ x → ∀ c, c < dirEntrySize →
    g (pos + y * dirEntrySize + c) = f (pos + y * dirEntrySize + c)

section Cleared

variable {f g : Nat → UInt8} {pos n x y : Nat} {pathname filename : List UInt8}

theorem cleared_of_agree (agree : ∀ a, pos ≤ a → g a = entryCleared f pos x a) :
    Cleared f g pos x where
  zeros := by
    intro c bound
    rw [agree _ (by omega)]
    exact splice_inside _ _ (by omega) (by omega)
  others := by
    intro y other c bound
    rw [agree _ (by omega)]
    apply splice_outside
    simp only [dirEntrySize] at bound ⊢
    omega

theorem Cleared.nr (cleared : Cleared f g pos x) (other : y ≠ x) :
    entryNr g pos y = entryNr f pos y := entryNr_congr (cleared.others y other)

theorem Cleared.named (cleared : Cleared f g pos x) (other : y ≠ x) :
    entryNamed g pos filename y = entryNamed f pos filename y :=
  entryNamed_congr filename (cleared.others y other)

theorem Cleared.unnamed (cleared : Cleared f g pos x) (name : NameOf pathname filename)
    (unnamed : y ≠ x → entryNamed f pos filename y = false) :
    entryNamed g pos filename y = false := by
  by_cases here : y = x
  next =>
    rw [here]
    exact name.not_zeros cleared.zeros
  next =>
    rw [cleared.named here]
    exact unnamed here

end Cleared

/--
The entry of the name in slot `x` is the first one with its number. If it is not the last entry,
the slot behind the directory does not pass for one of the same name where it is compared. If it is
the last one, each live entry is among the slots that are compared in a directory of as many slots
as there are live ones.
-/
structure UnlinkFits (f : Nat → UInt8) (pos n : Nat) (filename : List UInt8) (x : Nat) : Prop where
  first : ∀ z, z < x → entryNr f pos z ≠ entryNr f pos x
  behind : x + 1 ≠ n → n % entriesPerSect ≠ 0 → entryNamed f pos filename n = true →
    entryNr f pos n = invalidInode
  last : x + 1 = n → ∀ y, y < x → entryNr f pos y ≠ invalidInode →
    y < compared (liveBelow f pos x)

section Unlink

variable {f g : Nat → UInt8} {pos n x y : Nat} {pathname filename : List UInt8}

-- How many slots the directory has without the entry in slot `x`.
def slotsWithout (f : Nat → UInt8) (pos n x : Nat) : Nat :=
  if x + 1 = n then liveBelow f pos x else n

theorem slotOf_first (first : ∀ z, z < x → entryNr f pos z ≠ entryNr f pos x) (inside : x < n) :
    slotOf (· == entryNr f pos x) f pos n = x := by
  have found : firstMatch (fun m => entryNr f pos m == entryNr f pos x) n = some x :=
    firstMatch_eq_some.mpr ⟨inside, beq_self_eq_true _, fun y below => beq_eq_false_iff_ne.mpr
      (first y below)⟩
  rw [slotOf, found, Option.getD_some]

theorem slotOf_number (inside : x < n) : slotOf (· == entryNr f pos x) f pos n ≤ x ∧
    entryNr f pos (slotOf (· == entryNr f pos x) f pos n) = entryNr f pos x ∧
    ∀ z, z < slotOf (· == entryNr f pos x) f pos n → entryNr f pos z ≠ entryNr f pos x := by
  unfold slotOf
  cases found : firstMatch (fun m => entryNr f pos m == entryNr f pos x) n with
  | none =>
    have no := firstMatch_eq_none.mp found x inside
    simp at no
  | some z =>
    obtain ⟨below, here, before⟩ := firstMatch_eq_some.mp found
    rw [Option.getD_some]
    refine ⟨?_, beq_iff_eq.mp here, fun w less => beq_eq_false_iff_ne.mp (before w less)⟩
    by_contra later
    have no := before x (by omega)
    simp at no

theorem UnlinkFits.here (fits : UnlinkFits f pos n filename x) (inside : x < n) :
    slotOf (· == entryNr f pos x) f pos n = x := slotOf_first fits.first inside

theorem UnlinkFits.reach (fits : UnlinkFits f pos n filename x) (bound : y < n) (other : y ≠ x)
    (live : entryNr f pos y ≠ invalidInode) : y < compared (slotsWithout f pos n x) := by
  by_cases last : x + 1 = n
  next =>
    rw [slotsWithout, if_pos last]
    exact fits.last last y (by omega) live
  next =>
    rw [slotsWithout, if_neg last]
    exact lt_of_lt_of_le bound (le_compared n)

section Slot

variable (tidy : Tidy f pos n) (name : NameOf pathname filename) (inside : x < n)
  (live : entryNr f pos x ≠ invalidInode) (named : entryNamed f pos filename x = true)

include tidy name inside live named

theorem Cleared.gone (cleared : Cleared f g pos x) (bound : y < n) :
    entryNamed g pos filename y = false :=
  cleared.unnamed name fun other => tidy.unnamed name inside live named other bound

theorem UnlinkFits.gone (fits : UnlinkFits f pos n filename x) (cleared : Cleared f g pos x) :
    lookup g pos filename (compared (slotsWithout f pos n x)) = invalidInode := by
  have gone (y : Nat) (bound : y < n) := cleared.gone tidy name inside live named bound
  by_cases last : x + 1 = n
  next =>
    have upper := compared_le (liveBelow f pos x)
    have most := liveBelow_le f pos x
    rw [slotsWithout, if_pos last]
    exact lookup_none fun y below => gone y (by omega)
  next =>
    rw [slotsWithout, if_neg last]
    by_cases aligned : n % entriesPerSect = 0
    next =>
      rw [compared, if_pos aligned]
      exact lookup_none gone
    next =>
      rw [compared, if_neg aligned]
      by_cases behind : entryNamed f pos filename n = true
      next =>
        rw [lookup_first gone ((cleared.named (by omega)).trans behind) (Nat.lt_succ_self n),
          cleared.nr (by omega)]
        exact fits.behind last aligned behind
      next =>
        refine lookup_none fun y below => ?_
        by_cases final : y = n
        next =>
          rw [final, cleared.named (by omega)]
          exact Bool.eq_false_of_not_eq_true behind
        next => exact gone y (by omega)

theorem cleared_here {z : Nat} (cleared : Cleared f g pos z) (notAfter : z ≤ x)
    (missing : lookup g pos filename (compared (slotsWithout f pos n z)) = invalidInode) :
    z = x := by
  by_contra earlier
  have unnamed : Unnamed g pos filename x := fun y below =>
    cleared.unnamed name fun _ => tidy.unnamed name inside live named (by omega) (by omega)
  rw [slotsWithout, if_neg (by omega), lookup_first unnamed ((cleared.named (by omega)).trans named)
    (lt_of_lt_of_le inside (le_compared n)), cleared.nr (by omega)] at missing
  exact live missing

theorem unlinkFits_of_lookups (cleared : Cleared f g pos x)
    (first : ∀ z, z < x → entryNr f pos z ≠ entryNr f pos x)
    (missing : lookup g pos filename (compared (slotsWithout f pos n x)) = invalidInode)
    (others : ∀ pathname' other y, NameOf pathname' other → other ≠ filename → y < n →
      entryNr f pos y ≠ invalidInode → entryNamed f pos other y = true →
      lookup g pos other (compared (slotsWithout f pos n x)) = entryNr f pos y) :
    UnlinkFits f pos n filename x := by
  constructor
  case first => exact first
  case behind =>
    intro notLast aligned behind
    have unnamed : Unnamed g pos filename n := fun y below =>
      cleared.gone tidy name inside live named below
    rw [slotsWithout, if_neg notLast, compared, if_neg aligned, lookup_first unnamed
      ((cleared.named (by omega)).trans behind) (Nat.lt_succ_self n), cleared.nr (by omega)]
      at missing
    exact missing
  case last =>
    intro last y below liveY
    obtain ⟨pathname', other, name', named'⟩ := tidy.live y (by omega) liveY
    have different : other ≠ filename := by
      rintro rfl
      have clash := tidy.unnamed name inside live named (by omega : y ≠ x) (by omega)
      rw [named'] at clash
      cases clash
    have found := others pathname' other y name' different (by omega) liveY named'
    rw [slotsWithout, if_pos last] at found
    by_contra outside
    have none_ : Unnamed g pos other (compared (liveBelow f pos x)) := by
      intro w less
      exact cleared.unnamed name' fun _ =>
        tidy.unnamed name' (by omega : y < n) liveY named' (by omega) (by omega)
    rw [lookup_none none_] at found
    exact liveY found.symm

end Slot

end Unlink

section Enter

variable {f g : Nat → UInt8} {pos n n' x y inodeNr : Nat} {pathname filename other : List UInt8}

theorem liveBelow_mono {k : Nat} (le : n ≤ k) : liveBelow f pos n ≤ liveBelow f pos k := by
  induction le with
  | refl => exact le_refl _
  | step le ih =>
    rw [liveBelow_succ]
    omega

theorem liveBelow_full (full : ∀ y, y < n → entryNr f pos y ≠ invalidInode) :
    liveBelow f pos n = n := by
  induction n with
  | zero => rfl
  | succ n ih =>
    rw [liveBelow_succ, if_pos (full n (by omega)), ih fun y below => full y (by omega)]

-- When `new_dir_entry()` goes behind the counted live entries, none of them lies there.
theorem not_at_end (below : y < x) (live : entryNr f pos y ≠ invalidInode)
    (full : ∀ w, w < liveBelow f pos x → entryNr f pos w ≠ invalidInode) :
    y ≠ liveBelow f pos x := by
  intro here
  have upTo : liveBelow f pos (liveBelow f pos x + 1) = liveBelow f pos x + 1 := by
    apply liveBelow_full
    intro w less
    by_cases last : w = liveBelow f pos x
    next => rwa [last, ← here]
    next => exact full w (by omega)
  have more : liveBelow f pos (liveBelow f pos x + 1) ≤ liveBelow f pos x :=
    liveBelow_mono (by omega)
  omega

theorem entered_unnamed (agree : ∀ a, pos ≤ a → g a = entryWritten f pos x inodeNr filename a)
    (short : filename.length < maxFilenameLen) (noZero : 0 ∉ filename)
    (name : NameOf pathname other) (different : other ≠ filename) :
    entryNamed g pos other x = false := by
  apply Bool.eq_false_of_not_eq_true
  intro named
  have byte (c : Nat) (inside : c ≤ filename.length) : other.getD c 0 = filename.getD c 0 := by
    have here := nameIs_iff.mp named c (by omega)
    rw [here, Nat.add_assoc, agree _ (by omega), entryWritten, splice_inside]
    · exact congrArg (fun k => filename.getD k 0) (by omega)
    · omega
    · simp only [maxFilenameLen, entriesPerSect, dirEntrySize, sectorSize] at short ⊢
      omega
  have behind : other.length ≤ filename.length :=
    getD_eq_zero name.noZero ((byte _ (le_refl _)).trans (name_padding (le_refl _)))
  apply different
  apply name_ext name.noZero noZero (stripPath_length name.strip) (le_of_lt short)
  intro c _
  by_cases inside : c ≤ filename.length
  next => exact byte c inside
  next => rw [name_padding (by omega), name_padding (by omega)]

theorem entered_others (agree : ∀ a, pos ≤ a → g a = entryWritten f pos x inodeNr filename a)
    (short : filename.length < maxFilenameLen) (elsewhere : y ≠ x) (c : Nat)
    (inside : c < dirEntrySize) :
    g (pos + y * dirEntrySize + c) = f (pos + y * dirEntrySize + c) := by
  rw [agree _ (by omega)]
  exact entryWritten_other (le_of_lt short) elsewhere inside fun _ _ full => by omega

theorem entered_lookup (agree : ∀ a, pos ≤ a → g a = entryWritten f pos x inodeNr filename a)
    (short : filename.length < maxFilenameLen) (noZero : 0 ∉ filename)
    (name : NameOf pathname other) (different : other ≠ filename)
    (unnamed : Unnamed f pos other y) (named : entryNamed f pos other y = true) (elsewhere : y ≠ x)
    (reach : y < compared n) (grown : n' = n ∨ n' = n + 1) :
    lookup g pos other (compared n') = entryNr f pos y := by
  have unnamed' : Unnamed g pos other y := by
    intro w below
    by_cases here : w = x
    next =>
      rw [here]
      exact entered_unnamed agree short noZero name different
    next =>
      exact (entryNamed_congr other (entered_others agree short here)).trans (unnamed w below)
  have reach' : y < compared n' := by
    rcases grown with rfl | rfl
    · exact reach
    · exact lt_of_lt_of_le reach compared_mono
  have others := entered_others agree short elsewhere
  rw [lookup_first unnamed' ((entryNamed_congr other others).trans named) reach']
  exact entryNr_congr others

end Enter

structure Root (s : State) (pos n : Nat) : Prop where
  dev : (s.inodeTable s.rootInode).iDev = rootDev
  place : dirPos (s.inodeTable s.rootInode) = pos
  count : (s.inodeTable s.rootInode).iSize = n * dirEntrySize

def rootSlots : Nat := entriesPerSect * nrDefaultFileSects

def Answers (s : State) (pathname : List UInt8) (inodeNr : Nat) : Prop :=
  ∃ t, searchFile s pathname = .ok (inodeNr, t)

section Root

variable {s s' t : State} {size pos n p inodeNr : Nat} {files : Finset Nat} {block : Nat → Nat}
  {pathname filename : List UInt8} {f g : Nat → UInt8}

theorem Root.slots (root : Root s pos n) : nrDirEntries (s.inodeTable s.rootInode) = n := by
  rw [nrDirEntries, root.count]
  exact Nat.mul_div_left _ (by decide)

theorem Root.fits (root : Root s pos n) (few : n ≤ rootSlots + 1) :
    (s.inodeTable s.rootInode).iSize + sectorSize < 4294967296 := by
  rw [root.count]
  simp only [rootSlots, entriesPerSect, nrDefaultFileSects, dirEntrySize, sectorSize] at few ⊢
  omega

theorem Root.answers (root : Root s pos n) (few : n ≤ rootSlots + 1)
    (name : NameOf pathname filename) :
    Answers s pathname inodeNr ↔ lookup s.disk pos filename (compared n) = inodeNr := by
  have found : lookupPath s pathname = lookup s.disk pos filename (compared n) := by
    have whole : (s.inodeTable s.rootInode).iSize % dirEntrySize = 0 := by
      rw [root.count]
      exact Nat.mul_mod_left ..
    have bound := searched_eq whole (by
      have fits := root.fits few
      simp only [sectorSize] at fits ⊢
      omega)
    rw [root.slots] at bound
    cases filename with
    | nil => exact absurd rfl name.nonempty
    | cons c rest =>
      simp only [lookupPath, name.strip]
      rw [bound, root.place]
      rfl
  obtain ⟨t, search, -, -⟩ := searchFile_eq s pathname root.dev
  rw [← found]
  constructor
  · rintro ⟨t', search'⟩
    rw [search, Except.ok.injEq, Prod.mk.injEq] at search'
    exact search'.1
  · rintro rfl
    exact ⟨t, search⟩

theorem slotOf_congr {hit : Nat → Bool} (agree : ∀ a, pos ≤ a → g a = f a) :
    slotOf hit g pos n = slotOf hit f pos n := by
  have same : firstMatch (fun m => hit (entryNr g pos m)) n =
      firstMatch (fun m => hit (entryNr f pos m)) n := by
    apply firstMatch_congr
    intro y _
    rw [entryNr_congr fun c _ => agree _ (by omega)]
  rw [slotOf, slotOf, same]

theorem liveBelow_congr (agree : ∀ a, pos ≤ a → g a = f a) :
    liveBelow g pos n = liveBelow f pos n := by
  apply List.countP_congr
  intro m _
  rw [entryNr_congr fun c _ => agree _ (by omega)]

theorem Volume.front (volume : Volume s size files block) (same : SameDirectory size t s)
    (root : Root t (dataBase size) n) : Root s (dataBase size) n ∧
      recordPos (mkfsSuper size) (s.inodeTable s.rootInode).iNum + 16 ≤
        dirPos (s.inodeTable s.rootInode) := by
  have known := volume.cache.known _ volume.rootSlot volume.root.cnt
  have place := record_inside size known.1 (known.bound volume.maps.range)
  have root' : Root s (dataBase size) n := by
    constructor <;> rw [same.inode]
    · exact root.dev
    · exact root.place
    · exact root.count
  rw [root'.place]
  exact ⟨root', place.2⟩

theorem Volume.removes (volume : Volume s size files block) (root : Root s (dataBase size) n)
    (few : n ≤ rootSlots) (path : pathnameOf s = .ok pathname) (done : doUnlink s = .ok (0, s')) :
    ∃ files', Volume s' size files' block ∧
      Cleared s.disk s'.disk (dataBase size)
        (slotOf (· == lookupPath s pathname) s.disk (dataBase size) n) ∧
      Root s' (dataBase size) (slotsWithout s.disk (dataBase size) n
        (slotOf (· == lookupPath s pathname) s.disk (dataBase size) n)) := by
  obtain ⟨pathname', t, path', -, volume', same, entry⟩ := volume.unlink done
  rw [path, Except.ok.injEq] at path'
  subst path'
  generalize lookupPath s pathname = nr at volume' entry ⊢
  obtain ⟨root', apart⟩ := volume'.front same root
  obtain ⟨x, slot, inside, shrunk, agree⟩ :=
    freeDirEntry_bytes root'.dev volume'.super apart (root'.fits (by omega)) entry
  rw [root'.place, root'.slots] at slot
  rw [root'.slots] at inside
  rw [root'.place] at agree
  have bytes (a : Nat) (above : dataBase size ≤ a) :
      s'.disk a = entryCleared s.disk (dataBase size) x a := by
    rw [agree a above]
    simp only [entryCleared, splice, same.bytes a above]
  rw [slotOf_congr same.bytes] at slot
  rw [slot]
  refine ⟨_, volume'.freeDirEntry entry, cleared_of_agree bytes, ?_⟩
  have live : liveBelow t.disk (dataBase size) x = liveBelow s.disk (dataBase size) x :=
    liveBelow_congr same.bytes
  rw [shrunkDir, root'.slots, root'.place, live] at shrunk
  by_cases last : x + 1 = n
  next =>
    rw [if_pos last] at shrunk
    rw [slotsWithout, if_pos last]
    constructor <;> rw [shrunk]
    · exact root'.dev
    · exact root'.place
    · exact Nat.mul_comm ..
  next =>
    rw [if_neg last] at shrunk
    rw [slotsWithout, if_neg last]
    constructor <;> rw [shrunk]
    · exact root'.dev
    · exact root'.place
    · exact root'.count

theorem Volume.enters (volume : Volume s size files block) (small : size < 2 ^ 32)
    (root : Root s (dataBase size) n) (few : n ≤ rootSlots)
    (done : Fs.createFile s pathname = .ok (some p, s')) :
    ∃ filename nr, stripPath pathname = some filename ∧
      (∀ a, dataBase size ≤ a → s'.disk a = entryWritten s.disk (dataBase size)
        (slotOf (· == 0) s.disk (dataBase size) n) nr filename a) ∧
      Root s' (dataBase size)
        (if slotOf (· == 0) s.disk (dataBase size) n < n then n else n + 1) := by
  obtain ⟨filename, nr, k, t, strip, -, -, -, volume', same, entry, -⟩ :=
    volume.createFile small done
  obtain ⟨root', apart⟩ := volume'.front same root
  obtain ⟨s'', entry', grown, agree⟩ :=
    newDirEntry_bytes nr filename root'.dev volume'.super apart (root'.fits (by omega))
  rw [entry, Except.ok.injEq] at entry'
  subst entry'
  rw [grownDir, freeSlotOf, root'.place, root'.slots, slotOf_congr same.bytes] at grown
  rw [freeSlotOf, root'.place, root'.slots, slotOf_congr same.bytes] at agree
  refine ⟨filename, nr, strip, fun a above => ?_, ?_⟩
  · rw [agree a above]
    simp only [entryWritten, putWord, splice, same.bytes a above]
  · by_cases inside : slotOf (· == 0) s.disk (dataBase size) n < n
    next =>
      rw [if_pos inside] at grown ⊢
      constructor <;> rw [grown]
      · exact root'.dev
      · exact root'.place
      · exact root'.count
    next =>
      rw [if_neg inside] at grown ⊢
      constructor <;> rw [grown]
      · exact root'.dev
      · exact root'.place
      · simp only [root'.count, Nat.succ_mul]

end Root

def OtherEntry (s : State) (filename pathname : List UInt8) : Prop :=
  ∃ other y, NameOf pathname other ∧ other ≠ filename ∧
    y < nrDirEntries (s.inodeTable s.rootInode) ∧
    entryNr s.disk (dirPos (s.inodeTable s.rootInode)) y ≠ invalidInode ∧
    entryNamed s.disk (dirPos (s.inodeTable s.rootInode)) other y = true

/--
The name is not found any more, every other name leads to the same inode as before, and it still
does after a file with a fresh name of less than twelve bytes has been created.
-/
structure OneNameGone (s : State) (pathname filename : List UInt8) (s' : State) : Prop where
  gone : Answers s' pathname invalidInode
  others : ∀ path, OtherEntry s filename path → ∀ nr, Answers s path nr → Answers s' path nr
  created : ∀ fresh new p s'', NameOf fresh new → new.length < maxFilenameLen →
    Answers s' fresh invalidInode → createFile s' fresh = .ok (some p, s'') →
    ∀ path, OtherEntry s filename path → ∀ nr, Answers s path nr → Answers s'' path nr

theorem slotOf_cases (hit : Nat → Bool) (f : Nat → UInt8) (pos n : Nat) :
    (slotOf hit f pos n < n ∧ hit (entryNr f pos (slotOf hit f pos n)) = true) ∨
      (slotOf hit f pos n = n ∧ ∀ y, y < n → hit (entryNr f pos y) = false) := by
  unfold slotOf
  cases found : firstMatch (fun m => hit (entryNr f pos m)) n with
  | none => exact .inr ⟨rfl, firstMatch_eq_none.mp found⟩
  | some x =>
    obtain ⟨inside, here, -⟩ := firstMatch_eq_some.mp found
    exact .inl ⟨inside, here⟩

section OneName

variable {f g : Nat → UInt8} {pos n x y : Nat}

theorem Cleared.elsewhere (cleared : Cleared f g pos x) (bound : y < n) (other : y ≠ x)
    (live : entryNr f pos y ≠ invalidInode) :
    y ≠ slotOf (· == 0) g pos (slotsWithout f pos n x) := by
  rcases slotOf_cases (· == 0) g pos (slotsWithout f pos n x) with ⟨-, free⟩ | ⟨ends, full⟩
  case inl =>
    intro here
    rw [← here, cleared.nr other, beq_iff_eq] at free
    exact live free
  case inr =>
    rw [ends]
    by_cases last : x + 1 = n
    next =>
      have few := liveBelow_le f pos x
      rw [slotsWithout, if_pos last] at full ⊢
      refine not_at_end (by omega) live fun w below => ?_
      have used := full w below
      rw [cleared.nr (by omega)] at used
      exact beq_eq_false_iff_ne.mp used
    next =>
      rw [slotsWithout, if_neg last]
      omega

end OneName

theorem slotsWithout_le {f : Nat → UInt8} {pos n x : Nat} :
    slotsWithout f pos n x ≤ n := by
  have few := liveBelow_le f pos x
  rw [slotsWithout]
  split <;> omega

theorem unlink_one_name_iff {s s' : State} {size n x : Nat} {files : Finset Nat}
    {block : Nat → Nat} {pathname filename : List UInt8} (small : size < 2 ^ 32)
    (volume : Volume s size files block)
    (slots : (s.inodeTable s.rootInode).iSize = n * dirEntrySize) (few : n ≤ rootSlots)
    (tidy : Tidy s.disk (dirPos (s.inodeTable s.rootInode)) n) (name : NameOf pathname filename)
    (inside : x < n) (live : entryNr s.disk (dirPos (s.inodeTable s.rootInode)) x ≠ invalidInode)
    (named : entryNamed s.disk (dirPos (s.inodeTable s.rootInode)) filename x = true)
    (path : pathnameOf s = .ok pathname) (done : doUnlink s = .ok (0, s')) :
    OneNameGone s pathname filename s' ↔
      UnlinkFits s.disk (dirPos (s.inodeTable s.rootInode)) n filename x := by
  have place : dirPos (s.inodeTable s.rootInode) = dataBase size := by
    rw [dirPos, volume.root.start]
    rfl
  have root : Root s (dataBase size) n := ⟨volume.root.dev, place, slots⟩
  have count := root.slots
  rw [place] at tidy live named ⊢
  have number : lookupPath s pathname = entryNr s.disk (dataBase size) x := by
    obtain ⟨t, search, -⟩ := searchFile_eq s pathname root.dev
    have found := (root.answers (by omega) name).mp ⟨t, search⟩
    rw [← found]
    exact tidy.lookup name inside live named
  obtain ⟨files', volume', cleared, root'⟩ := volume.removes root few path done
  rw [number] at cleared root'
  obtain ⟨notAfter, -, before⟩ := @slotOf_number s.disk (dataBase size) n x inside
  generalize slot : slotOf (· == entryNr s.disk (dataBase size) x) s.disk (dataBase size) n = z
    at notAfter before cleared root'
  have few' : slotsWithout s.disk (dataBase size) n z ≤ rootSlots :=
    le_trans slotsWithout_le few
  have answers {path name nr} (isName : NameOf path name) :
      Answers s' path nr ↔ lookup s'.disk (dataBase size) name
        (compared (slotsWithout s.disk (dataBase size) n z)) = nr :=
    root'.answers (by omega) isName
  -- what is asked of another entry, in terms of lookups
  have entry {path nr} (other : OtherEntry s filename path) (ans : Answers s path nr) :
      ∃ new y, NameOf path new ∧ new ≠ filename ∧ y < n ∧
        entryNr s.disk (dataBase size) y ≠ invalidInode ∧
        entryNamed s.disk (dataBase size) new y = true ∧ nr = entryNr s.disk (dataBase size) y := by
    obtain ⟨new, y, isName, different, bound, live', named'⟩ := other
    rw [count] at bound
    rw [place] at live' named'
    have found := (root.answers (by omega) isName).mp ans
    exact ⟨new, y, isName, different, bound, live', named',
      found.symm.trans (tidy.lookup isName bound live' named')⟩
  constructor
  case mp =>
    intro one
    have missing := (answers name).mp one.gone
    have here := cleared_here tidy name inside live named cleared notAfter missing
    subst here
    refine unlinkFits_of_lookups tidy name inside live named cleared before missing ?_
    intro path' other y isName different bound live' named'
    apply (answers isName).mp
    refine one.others path' ⟨other, y, isName, different, by rwa [count], by rwa [place],
      by rwa [place]⟩ _ ?_
    exact (root.answers (by omega) isName).mpr (tidy.lookup isName bound live' named')
  case mpr =>
    intro fits
    rw [fits.here inside] at slot
    subst slot
    have kept {path nr} (other : OtherEntry s filename path) (ans : Answers s path nr) :
        ∃ new y, NameOf path new ∧ Unnamed s'.disk (dataBase size) new y ∧
          entryNamed s'.disk (dataBase size) new y = true ∧
          nr = entryNr s'.disk (dataBase size) y ∧ nr ≠ invalidInode ∧
          y < compared (slotsWithout s.disk (dataBase size) n x) ∧
          y ≠ slotOf (· == 0) s'.disk (dataBase size)
            (slotsWithout s.disk (dataBase size) n x) := by
      obtain ⟨new, y, isName, different, bound, live', named', rfl⟩ := entry other ans
      have away : y ≠ x := by
        rintro rfl
        exact different (isName.eq name named' named)
      exact ⟨new, y, isName, fun w below => cleared.unnamed isName fun _ =>
          tidy.unnamed isName bound live' named' (by omega) (by omega),
        (cleared.named away).trans named', (cleared.nr away).symm, live',
        fits.reach bound away live', cleared.elsewhere bound away live'⟩
    constructor
    case gone => exact (answers name).mpr (fits.gone tidy name inside live named cleared)
    case others =>
      intro path' other nr ans
      obtain ⟨new, y, isName, unnamed, named', rfl, -, reach, -⟩ := kept other ans
      exact (answers isName).mpr (lookup_first unnamed named' reach)
    case created =>
      intro fresh new p s'' isNew short missing created path' other nr ans
      obtain ⟨old, y, isName, unnamed, named', rfl, nonzero, reach, away⟩ := kept other ans
      obtain ⟨new', nr', strip, agree, root''⟩ := volume'.enters small root' few' created
      rw [isNew.strip, Option.some.injEq] at strip
      subst strip
      have different : old ≠ new := by
        rintro rfl
        have found := (answers isNew).mp missing
        rw [lookup_first unnamed named' reach] at found
        exact nonzero found
      have upper : (if slotOf (· == 0) s'.disk (dataBase size)
          (slotsWithout s.disk (dataBase size) n x) < slotsWithout s.disk (dataBase size) n x then
            slotsWithout s.disk (dataBase size) n x
          else slotsWithout s.disk (dataBase size) n x + 1) ≤ rootSlots + 1 := by
        split <;> omega
      apply (root''.answers upper isName).mpr
      apply entered_lookup agree short isNew.noZero isName different unnamed named' away reach
      split
      · exact .inl rfl
      · exact .inr rfl

-- The files "a" to "d" have been created on a new disk, and "a" and "b" unlinked again.
def withFile (f : Nat → UInt8) (size nr k : Nat) : Nat → UInt8 :=
  storeInode (setBits (setBits f imapBase nr (nr + 1)) (smapBase (mkfsSuper size)) (blockBit k)
    (blockBit k + nrDefaultFileSects)) (recordPos (mkfsSuper size) nr)
    (freshInode nr (blockSect size k))

def eightSlots : Inode := { rootRecord (mkfsSuper 10000) with iSize := 8 * dirEntrySize }

def gapsEntries (f : Nat → UInt8) : Nat → UInt8 :=
  putEntry (putEntry f (dataBase 10000 + 6 * dirEntrySize) 7 [99])
    (dataBase 10000 + 7 * dirEntrySize) 8 [100]

def gapsDisk : Nat → UInt8 :=
  storeInode
    (gapsEntries (withFile (withFile (mkfsDisk (fun _ => 0) 10000) 10000 7 3) 10000 8 4))
    (recordPos (mkfsSuper 10000) rootInodeNr) eightSlots

-- INIT asks for "d" to be unlinked.
def unlinkD : Request where
  msg := { resetMsg with source := initPid, type := .unlink, m3i2 := 1 }
  memory := fun _ _ => 100

def gapsState : State := (mounted gapsDisk (mkfsSuper 10000) eightSlots).receive unlinkD

def gapsBlock : Nat → Nat := Function.update (Function.update (fun _ => 0) 7 3) 8 4

theorem gaps_volume : Volume gapsState 10000 {8, 7} gapsBlock := by
  have formatted := formatted_mkfs (fun _ => 0) (by decide : 10000 < 2 ^ 32)
  have maps₀ := maps_mkfs formatted (fun _ => 0)
  have clear {f : Nat → UInt8} {files : Finset Nat} {block : Nat → Nat} {nr : Nat}
      (maps : Maps f 10000 files block) (bound : nr < bitsPerSect)
      (free : ¬ (nr < nrConsoles + 2 ∨ nr ∈ files)) : bitAt f imapBase nr = false := by
    apply Bool.eq_false_of_not_eq_true
    rwa [maps.imap nr bound]
  have maps₁ : Maps (withFile (mkfsDisk (fun _ => 0) 10000) 10000 7 3) 10000 {7}
      (Function.update (fun _ => 0) 7 3) :=
    maps₀.create (by decide) (clear maps₀ (by decide) (by decide)) (by decide) (by decide)
      (by simp) (by decide) (freshInode_stored ..) rfl (by decide) rfl
  have maps₂ : Maps (withFile (withFile (mkfsDisk (fun _ => 0) 10000) 10000 7 3) 10000 8 4) 10000
      {8, 7} gapsBlock :=
    maps₁.create (by decide) (clear maps₁ (by decide) (by decide)) (by decide) (by decide)
      (by simp) (by decide) (freshInode_stored ..) rfl (by decide) rfl
  have stored : Stored eightSlots := by
    constructor <;> decide
  have maps₃ := maps₂.data (g := gapsEntries _) fun a below => by
    have first_ : a < dataBase 10000 + 6 * dirEntrySize := Nat.lt_add_right _ below
    have second : a < dataBase 10000 + 7 * dirEntrySize := Nat.lt_add_right _ below
    simp only [gapsEntries, putEntry]
    rw [splice_outside _ _ (.inl (by omega)), putWord_outside _ _ (.inl second),
      splice_outside _ _ (.inl (by omega)), putWord_outside _ _ (.inl first_)]
  have maps₄ := maps₃.store (y := rootInodeNr) (by decide) (by decide) stored
    (fun member => absurd member (by decide)) fun _ => by decide
  have record : OnDisk gapsDisk (recordPos (mkfsSuper 10000) rootInodeNr) eightSlots :=
    storeInode_onDisk _ _ stored
  rw [← gapsDisk] at maps₄
  have isRoot : IsRoot eightSlots 10000 := by
    constructor <;> decide
  exact (mounted_volume maps₄ isRoot Int.one_nonneg record).receive unlinkD

def nameField (f : Nat → UInt8) (pos m : Nat) : List UInt8 :=
  (List.range maxFilenameLen).map fun c => f (pos + m * dirEntrySize + 4 + c)

theorem nameField_same {f : Nat → UInt8} {pos m k : Nat} {filename : List UInt8}
    (left : entryNamed f pos filename m = true) (right : entryNamed f pos filename k = true) :
    nameField f pos m = nameField f pos k := by
  apply List.map_congr_left
  intro c member
  have bound := List.mem_range.mp member
  exact (nameIs_iff.mp left c bound).symm.trans (nameIs_iff.mp right c bound)

def gapsNames : List (List UInt8) :=
  [dotName, ttyName 0, ttyName 1, ttyName 2, [], [], [99], [100]]

theorem gaps_tidy : Tidy gapsDisk (dirPos eightSlots) 8 := by
  constructor
  case freed => decide +kernel
  case live =>
    intro m inside live
    have names : ∀ m, m < 8 → entryNr gapsDisk (dirPos eightSlots) m ≠ invalidInode →
        stripPath (gapsNames.getD m []) = some (gapsNames.getD m []) ∧
          gapsNames.getD m [] ≠ [] ∧ 0 ∉ gapsNames.getD m [] ∧
          entryNamed gapsDisk (dirPos eightSlots) (gapsNames.getD m []) m = true := by
      decide +kernel
    obtain ⟨strip, nonempty, noZero, named⟩ := names m inside live
    exact ⟨_, _, ⟨strip, nonempty, noZero⟩, named⟩
  case distinct =>
    intro m mInside k kInside filename mLive kLive mNamed kNamed
    have fields : ∀ m, m < 8 → ∀ k, k < 8 → entryNr gapsDisk (dirPos eightSlots) k ≠ 0 →
        nameField gapsDisk (dirPos eightSlots) m = nameField gapsDisk (dirPos eightSlots) k →
        m = k := by
      decide +kernel
    exact fields m mInside k kInside kLive (nameField_same mNamed kNamed)

-- Both before and after "d" is unlinked, "c" is looked up.
def lostC : Except Stop (Nat × Int × Nat) := do
  let (before, _) ← searchFile gapsState [99]
  let (result, s) ← doUnlink gapsState
  let (after, _) ← searchFile s [99]
  return (before, result, after)

theorem gaps_lost : ∃ s', doUnlink gapsState = .ok (0, s') ∧ Answers gapsState [99] 7 ∧
    Answers s' [99] 0 := by
  have answers : lostC = .ok (7, 0, 0) := by decide +kernel
  obtain ⟨⟨before, t⟩, found, rest⟩ := bind_ok answers
  obtain ⟨⟨result, s'⟩, unlinked, rest⟩ := bind_ok rest
  obtain ⟨⟨after, t'⟩, lost, rest⟩ := bind_ok rest
  simp only [pure, Except.pure, Except.ok.injEq, Prod.mk.injEq] at rest
  obtain ⟨rfl, rfl, rfl⟩ := rest
  exact ⟨s', unlinked, ⟨t, found⟩, t', lost⟩

theorem mounted_receives (f : Nat → UInt8) (sb : SuperBlock) (root : Inode) (request : Request) :
    ((mounted f sb root).receive request).disk = f ∧
      ((mounted f sb root).receive request).inodeTable
        ((mounted f sb root).receive request).rootInode = root :=
  ⟨rfl, rfl⟩

theorem gaps_disk : gapsState.disk = gapsDisk :=
  (mounted_receives ..).1

theorem gaps_dir : gapsState.inodeTable gapsState.rootInode = eightSlots :=
  (mounted_receives ..).2

theorem gaps_path : pathnameOf gapsState = .ok [100] := by
  decide +kernel

-- The slot of "d" is the last one of the directory.
structure LastSlot (s : State) (filename : List UInt8) (x : Nat) : Prop where
  slots : (s.inodeTable s.rootInode).iSize = (x + 1) * dirEntrySize
  few : x + 1 ≤ rootSlots
  tidy : Tidy s.disk (dirPos (s.inodeTable s.rootInode)) (x + 1)
  live : entryNr s.disk (dirPos (s.inodeTable s.rootInode)) x ≠ invalidInode
  named : entryNamed s.disk (dirPos (s.inodeTable s.rootInode)) filename x = true

theorem gaps_last : LastSlot gapsState [100] 7 := by
  constructor
  case slots =>
    rw [gaps_dir]
    decide
  case few => decide
  case tidy =>
    rw [gaps_disk, gaps_dir]
    exact gaps_tidy
  case live =>
    rw [gaps_disk, gaps_dir]
    decide +kernel
  case named =>
    rw [gaps_disk, gaps_dir]
    decide +kernel

theorem unlink_one_name_iff_gaps : ∃ s', doUnlink gapsState = .ok (0, s') ∧
    (OneNameGone gapsState [100] [100] s' ↔
      UnlinkFits gapsState.disk (dirPos (gapsState.inodeTable gapsState.rootInode)) 8 [100] 7) := by
  obtain ⟨s', unlinked, -⟩ := gaps_lost
  have name : NameOf [100] [100] := ⟨rfl, by decide, by decide⟩
  exact ⟨s', unlinked, unlink_one_name_iff (by decide) gaps_volume gaps_last.slots gaps_last.few
    gaps_last.tidy name (by decide) gaps_last.live gaps_last.named gaps_path unlinked⟩

-- The file "c" cannot be found any more.
theorem unlink_loses_name :
    ¬ ∀ (s s' : State) (size n x : Nat) (files : Finset Nat) (block : Nat → Nat)
      (pathname filename : List UInt8), size < 2 ^ 32 → Volume s size files block →
      (s.inodeTable s.rootInode).iSize = n * dirEntrySize → n ≤ rootSlots →
      Tidy s.disk (dirPos (s.inodeTable s.rootInode)) n → NameOf pathname filename → x < n →
      entryNr s.disk (dirPos (s.inodeTable s.rootInode)) x ≠ invalidInode →
      entryNamed s.disk (dirPos (s.inodeTable s.rootInode)) filename x = true →
      pathnameOf s = .ok pathname → doUnlink s = .ok (0, s') →
      OneNameGone s pathname filename s' := by
  intro claim
  obtain ⟨s', unlinked, found, t, lost⟩ := gaps_lost
  have name : NameOf [100] [100] := ⟨rfl, by decide, by decide⟩
  have one := claim gapsState s' 10000 8 7 {8, 7} gapsBlock [100] [100] (by decide) gaps_volume
    gaps_last.slots gaps_last.few gaps_last.tidy name (by decide) gaps_last.live gaps_last.named
    gaps_path unlinked
  have second : NameOf [99] [99] := ⟨rfl, by decide, by decide⟩
  have entry : OtherEntry gapsState [100] [99] := by
    refine ⟨[99], 6, second, by decide, ?_, ?_, ?_⟩
    case refine_1 =>
      rw [gaps_dir]
      decide
    case refine_2 =>
      rw [gaps_disk, gaps_dir]
      decide +kernel
    case refine_3 =>
      rw [gaps_disk, gaps_dir]
      decide +kernel
  obtain ⟨t', kept⟩ := one.others [99] entry 7 found
  rw [lost, Except.ok.injEq, Prod.mk.injEq] at kept
  exact absurd kept.1 (by decide)

end Konix.Fs
