import Konix.Fs.Mkfs

set_option autoImplicit false

namespace Konix.Fs

open Splice Words

section Directory

variable (f : Nat → UInt8) (pos n : Nat) (filename : List UInt8)

-- The first of the `n` entries of a directory that has the name and is in use.
def FirstLive (x : Nat) : Prop :=
  x < n ∧ entryNamed f pos filename x = true ∧ entryNr f pos x ≠ invalidInode ∧
    ∀ y, y < x → entryNamed f pos filename y = true → entryNr f pos y = invalidInode

def NoneLive : Prop :=
  ∀ y, y < n → entryNamed f pos filename y = true → entryNr f pos y = invalidInode

def Unnamed (x : Nat) : Prop := ∀ y, y < x → entryNamed f pos filename y = false

-- The answer is the number of the first entry in use that has the name, and else zero.
def AnswerExact (answer : Nat) : Prop :=
  ∀ k, k ≠ invalidInode →
    (answer = k ↔ ∃ x, FirstLive f pos n filename x ∧ entryNr f pos x = k)

end Directory

/--
Every entry can be reached; the slot behind the entries, where it is compared too, does not pass for
one; and no free slot that still has the name hides an entry in use.
-/
structure LookupFits (dir : Inode) (f : Nat → UInt8) (filename : List UInt8) : Prop where
  reach : 4294967296 ≤ dir.iSize + (sectorSize - 1) →
    NoneLive f (dirPos dir) (nrDirEntries dir) filename
  behind : dir.iSize + (sectorSize - 1) < 4294967296 → nrDirEntries dir % entriesPerSect ≠ 0 →
    Unnamed f (dirPos dir) filename (nrDirEntries dir) →
    entryNamed f (dirPos dir) filename (nrDirEntries dir) = true →
    entryNr f (dirPos dir) (nrDirEntries dir) = invalidInode
  hidden : ∀ x, x < nrDirEntries dir → Unnamed f (dirPos dir) filename x →
    entryNamed f (dirPos dir) filename x = true → entryNr f (dirPos dir) x = invalidInode →
    NoneLive f (dirPos dir) (nrDirEntries dir) filename

-- `search_file()` answers the number of the first entry in use that has the name, and else zero.
def SearchExact (s : State) (pathname filename : List UInt8) : Prop :=
  ∃ inodeNr s', searchFile s pathname = .ok (inodeNr, s') ∧
    ∀ k, k ≠ invalidInode → (inodeNr = k ↔ ∃ x,
      FirstLive s.disk (dirPos (s.inodeTable s.rootInode))
        (nrDirEntries (s.inodeTable s.rootInode)) filename x ∧
      entryNr s.disk (dirPos (s.inodeTable s.rootInode)) x = k)

section Lookup

variable {dir : Inode} {f : Nat → UInt8} {pos n : Nat} {filename : List UInt8}

theorem FirstLive.unique {x y : Nat} (left : FirstLive f pos n filename x)
    (right : FirstLive f pos n filename y) : x = y := by
  rcases Nat.lt_trichotomy x y with less | same | more
  · exact absurd (right.2.2.2 x less left.2.1) left.2.2.1
  · exact same
  · exact absurd (left.2.2.2 y more right.2.1) right.2.2.1

theorem firstLive_of_live {y : Nat} (bound : y < n) (named : entryNamed f pos filename y = true)
    (live : entryNr f pos y ≠ invalidInode) : ∃ x, FirstLive f pos n filename x := by
  induction y using Nat.strong_induction_on with
  | _ y ih =>
    by_cases earlier : ∃ z, z < y ∧ entryNamed f pos filename z = true ∧
        entryNr f pos z ≠ invalidInode
    next =>
      obtain ⟨z, less, named', live'⟩ := earlier
      exact ih z less (by omega) named' live'
    next =>
      refine ⟨y, bound, named, live, fun z less named' => ?_⟩
      by_contra live'
      exact earlier ⟨z, less, named', live'⟩

theorem zero_exact :
    AnswerExact f pos n filename invalidInode ↔ NoneLive f pos n filename := by
  constructor
  case mp =>
    intro exact_ y bound named
    by_contra live
    obtain ⟨x, first_⟩ := firstLive_of_live bound named live
    exact first_.2.2.1 ((exact_ _ first_.2.2.1).mpr ⟨x, first_, rfl⟩).symm
  case mpr =>
    intro none_ k nonzero
    constructor
    · exact fun zero => absurd zero.symm nonzero
    · rintro ⟨x, first_, -⟩
      exact absurd (none_ x first_.1 first_.2.1) first_.2.2.1

theorem searched_wraps (small : dir.iSize < 4294967296)
    (wraps : 4294967296 ≤ dir.iSize + (sectorSize - 1)) : searched dir = 0 := by
  simp only [searched, searchDirBlks, entriesPerSect, sectorSize, dirEntrySize] at wraps ⊢
  omega

theorem searched_eq (whole : dir.iSize % dirEntrySize = 0)
    (fits : dir.iSize + (sectorSize - 1) < 4294967296) :
    searched dir = if nrDirEntries dir % entriesPerSect = 0 then nrDirEntries dir
      else nrDirEntries dir + 1 := by
  by_cases aligned : nrDirEntries dir % entriesPerSect = 0
  next =>
    rw [if_pos aligned]
    simp only [searched, searchDirBlks, nrDirEntries, entriesPerSect, sectorSize, dirEntrySize]
      at whole fits aligned ⊢
    omega
  next =>
    rw [if_neg aligned]
    simp only [searched, searchDirBlks, nrDirEntries, entriesPerSect, sectorSize, dirEntrySize]
      at whole fits aligned ⊢
    omega

theorem searched_ge (whole : dir.iSize % dirEntrySize = 0)
    (fits : dir.iSize + (sectorSize - 1) < 4294967296) : nrDirEntries dir ≤ searched dir := by
  rw [searched_eq whole fits]
  split <;> omega

-- The one slot that is compared and is no entry.
theorem searched_behind {x : Nat} (whole : dir.iSize % dirEntrySize = 0)
    (fits : dir.iSize + (sectorSize - 1) < 4294967296) (below : x < searched dir)
    (outside : ¬ x < nrDirEntries dir) :
    x = nrDirEntries dir ∧ nrDirEntries dir % entriesPerSect ≠ 0 := by
  rw [searched_eq whole fits] at below
  split at below
  next => exact absurd below outside
  next unaligned => exact ⟨by omega, unaligned⟩

theorem lookup_wraps_iff (small : dir.iSize < 4294967296)
    (wraps : 4294967296 ≤ dir.iSize + (sectorSize - 1)) :
    AnswerExact f (dirPos dir) (nrDirEntries dir) filename
      (lookup f (dirPos dir) filename (searched dir)) ↔ LookupFits dir f filename := by
  have zero : lookup f (dirPos dir) filename (searched dir) = invalidInode := by
    rw [searched_wraps small wraps]
    rfl
  rw [zero, zero_exact]
  constructor
  case mp =>
    intro none_
    exact ⟨fun _ => none_, fun fits => by omega, fun _ _ _ _ _ => none_⟩
  case mpr => exact fun fits => fits.reach wraps

theorem lookup_misses (whole : dir.iSize % dirEntrySize = 0)
    (fits : dir.iSize + (sectorSize - 1) < 4294967296)
    (found : firstMatch (entryNamed f (dirPos dir) filename) (searched dir) = none) :
    NoneLive f (dirPos dir) (nrDirEntries dir) filename ∧ LookupFits dir f filename := by
  rw [firstMatch_eq_none] at found
  have atLeast := searched_ge whole fits
  have none_ : NoneLive f (dirPos dir) (nrDirEntries dir) filename := by
    intro y below named
    rw [found y (by omega)] at named
    cases named
  refine ⟨none_, fun wraps => by omega, ?_, fun _ _ _ _ _ => none_⟩
  intro _ unaligned _ named
  have compared : nrDirEntries dir < searched dir := by
    rw [searched_eq whole fits, if_neg unaligned]
    exact Nat.lt_succ_self _
  rw [found _ compared] at named
  cases named

section Found

variable {x : Nat} (named : entryNamed f (dirPos dir) filename x = true)
  (before : Unnamed f (dirPos dir) filename x)

include named before

theorem lookup_free_iff (free : entryNr f (dirPos dir) x = invalidInode) :
    NoneLive f (dirPos dir) (nrDirEntries dir) filename ↔ LookupFits dir f filename := by
  constructor
  case mp =>
    intro none_
    refine ⟨fun _ => none_, ?_, fun _ _ _ _ _ => none_⟩
    intro _ _ unnamed here
    have last : x = nrDirEntries dir := by
      by_contra other
      rcases Nat.lt_or_gt_of_ne other with less | more
      · rw [unnamed x less] at named
        cases named
      · rw [before _ more] at here
        cases here
    rwa [← last]
  case mpr =>
    intro hides
    by_cases inside : x < nrDirEntries dir
    next => exact hides.hidden x inside before named free
    next =>
      intro y less named'
      rw [before y (by omega)] at named'
      cases named'

theorem lookup_live (fits : dir.iSize + (sectorSize - 1) < 4294967296)
    (live : entryNr f (dirPos dir) x ≠ invalidInode)
    (inside : x < nrDirEntries dir) :
    AnswerExact f (dirPos dir) (nrDirEntries dir) filename (entryNr f (dirPos dir) x) ∧
      LookupFits dir f filename := by
  have first_ : FirstLive f (dirPos dir) (nrDirEntries dir) filename x := by
    refine ⟨inside, named, live, fun y less named' => ?_⟩
    rw [before y less] at named'
    cases named'
  constructor
  · intro k _
    constructor
    · exact fun same => ⟨x, first_, same⟩
    · rintro ⟨y, other, same⟩
      rwa [first_.unique other]
  · refine ⟨fun wraps => by omega, ?_, ?_⟩
    · intro _ _ unnamed _
      rw [unnamed x inside] at named
      cases named
    · intro y _ unnamed named' free
      rcases Nat.lt_trichotomy x y with less | same | more
      · rw [unnamed x less] at named
        cases named
      · rw [same] at live
        exact absurd free live
      · rw [before y more] at named'
        cases named'

-- The name is on the slot behind the entries, whose number is answered.
theorem lookup_behind (whole : dir.iSize % dirEntrySize = 0)
    (fits : dir.iSize + (sectorSize - 1) < 4294967296) (below : x < searched dir)
    (live : entryNr f (dirPos dir) x ≠ invalidInode)
    (outside : ¬ x < nrDirEntries dir) :
    ¬ AnswerExact f (dirPos dir) (nrDirEntries dir) filename (entryNr f (dirPos dir) x) ∧
      ¬ LookupFits dir f filename := by
  obtain ⟨last, unaligned⟩ := searched_behind whole fits below outside
  constructor
  · intro exact_
    obtain ⟨y, first_, -⟩ := (exact_ _ live).mp rfl
    have unnamed := before y (by have := first_.1; omega)
    rw [first_.2.1] at unnamed
    cases unnamed
  · intro stale
    have behind := stale.behind fits unaligned
    rw [← last] at behind
    exact absurd (behind before named) live

end Found

theorem lookup_exact_iff (whole : dir.iSize % dirEntrySize = 0) (small : dir.iSize < 4294967296) :
    AnswerExact f (dirPos dir) (nrDirEntries dir) filename
      (lookup f (dirPos dir) filename (searched dir)) ↔ LookupFits dir f filename := by
  by_cases wraps : 4294967296 ≤ dir.iSize + (sectorSize - 1)
  case pos => exact lookup_wraps_iff small wraps
  have fits : dir.iSize + (sectorSize - 1) < 4294967296 := by omega
  rw [lookup]
  cases found : firstMatch (entryNamed f (dirPos dir) filename) (searched dir) with
  | none =>
    obtain ⟨none_, holds⟩ := lookup_misses whole fits found
    exact iff_of_true (zero_exact.mpr none_) holds
  | some x =>
    obtain ⟨below, named, before⟩ := firstMatch_eq_some.mp found
    by_cases free : entryNr f (dirPos dir) x = invalidInode
    next =>
      simp only [free]
      exact zero_exact.trans (lookup_free_iff named before free)
    next =>
      by_cases inside : x < nrDirEntries dir
      next =>
        obtain ⟨exact_, holds⟩ := lookup_live named before fits free inside
        exact iff_of_true exact_ holds
      next =>
        obtain ⟨wrong, stale⟩ := lookup_behind named before whole fits below free inside
        exact iff_of_false wrong stale

end Lookup

theorem searchExact_iff {s : State} {pathname : List UInt8} {c : UInt8} {rest : List UInt8}
    (dev : (s.inodeTable s.rootInode).iDev = rootDev)
    (strip : stripPath pathname = some (c :: rest)) :
    SearchExact s pathname (c :: rest) ↔
      AnswerExact s.disk (dirPos (s.inodeTable s.rootInode))
        (nrDirEntries (s.inodeTable s.rootInode)) (c :: rest)
        (lookup s.disk (dirPos (s.inodeTable s.rootInode)) (c :: rest)
          (searched (s.inodeTable s.rootInode))) := by
  obtain ⟨s', done, -, -⟩ := searchFile_eq s pathname dev
  have answer : lookupPath s pathname =
      lookup s.disk (dirPos (s.inodeTable s.rootInode)) (c :: rest)
      (searched (s.inodeTable s.rootInode)) := by
    rw [lookupPath, strip]
  rw [answer] at done
  constructor
  · rintro ⟨inodeNr, t, done', exact_⟩
    rw [done, Except.ok.injEq, Prod.mk.injEq] at done'
    rwa [done'.1]
  · exact fun exact_ => ⟨_, s', done, exact_⟩

theorem search_file_exact_iff (s : State) (pathname : List UInt8) (c : UInt8) (rest : List UInt8)
    (dev : (s.inodeTable s.rootInode).iDev = rootDev)
    (strip : stripPath pathname = some (c :: rest))
    (whole : (s.inodeTable s.rootInode).iSize % dirEntrySize = 0)
    (small : (s.inodeTable s.rootInode).iSize < 4294967296) :
    SearchExact s pathname (c :: rest) ↔
      LookupFits (s.inodeTable s.rootInode) s.disk (c :: rest) :=
  (searchExact_iff dev strip).trans (lookup_exact_iff whole small)

-- A directory of five slots in the first data sector, and in the sixth one the entry "b" of
-- inode 6.
def fiveSlots : Inode := ⟨iDirectory, 5 * dirEntrySize, 262, nrDefaultFileSects, rootDev, 1, 1⟩

def staleDisk : Nat → UInt8 := putEntry (fun _ => 0) (262 * sectorSize + 5 * dirEntrySize) 6 [98]

theorem search_file_exact_missing :
    SearchExact (mounted staleDisk (mkfsSuper 10000) fiveSlots) [slash, 97] [97] ↔
      LookupFits fiveSlots staleDisk [97] :=
  search_file_exact_iff (mounted staleDisk (mkfsSuper 10000) fiveSlots) [slash, 97] 97 [] rfl
    (by decide) (by decide) (by decide)

-- The entry behind the last one is found.
theorem search_file_stale :
    ¬ ∀ (s : State) (pathname : List UInt8) (c : UInt8) (rest : List UInt8),
      (s.inodeTable s.rootInode).iDev = rootDev → stripPath pathname = some (c :: rest) →
      (s.inodeTable s.rootInode).iSize % dirEntrySize = 0 →
      (s.inodeTable s.rootInode).iSize < 4294967296 → SearchExact s pathname (c :: rest) := by
  intro claim
  have exact_ := claim (mounted staleDisk (mkfsSuper 10000) fiveSlots) [slash, 98] 98 [] rfl
    (by decide) (by decide) (by decide)
  rw [searchExact_iff rfl (by decide), lookup_exact_iff (by decide) (by decide)] at exact_
  have unnamed : Unnamed staleDisk (dirPos fiveSlots) [98] (nrDirEntries fiveSlots) := by
    intro y below
    have small : y < 5 := below
    interval_cases y <;> decide +kernel
  have zero := exact_.behind (by decide) (by decide) unnamed (by decide +kernel)
  revert zero
  decide +kernel

end Konix.Fs
