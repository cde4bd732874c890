import Konix.Fs.Search
import Konix.Lib.CString

set_option autoImplicit false

namespace Konix.Fs

open CString

-- What `strip_path()` leaves behind: its answer, the bytes of `filename` and `*ppinode`.
structure Stripped where
  ret : Int
  filename : Nat → UInt8
  ppinode : Nat

/--
The loop of `strip_path()` with so much room left in `filename`: `s` is the next character of the
pathname and `t` the next byte of `filename`. Without a slash it ends at `t`.
-/
def stripLoop (mem : Nat → UInt8) : Nat → Nat → Nat → (Nat → UInt8) →
    Option Nat × (Nat → UInt8)
  | 0, _, t, filename => (some t, filename)
  | room + 1, s, t, filename =>
    if mem s = 0 then (some t, filename)
    else if mem s = slash then (none, filename)
    else stripLoop mem room (s + 1) (t + 1) (Function.update filename t (mem s))

-- `strip_path()` on the pathname in memory at `pathname`.
def stripPathname (mem : Nat → UInt8) (rootInode pathname : Nat) (filename : Nat → UInt8)
    (ppinode : Nat) : Stripped :=
  if pathname = 0 then ⟨-1, filename, ppinode⟩
  else
    let s := if mem pathname = slash then pathname + 1 else pathname
    match stripLoop mem maxFilenameLen s 0 filename with
    | (none, filename) => ⟨-1, filename, ppinode⟩
    | (some t, filename) => ⟨0, Function.update filename t 0, rootInode⟩

def basename (path : List UInt8) : List UInt8 :=
  if path.head? = some slash then path.tail else path

-- `stripName` is the first bytes of the name, and looks for a slash in no others.
theorem stripName_eq (room : Nat) (path : List UInt8) :
    stripName room path = if slash ∈ path.take room then none else some (path.take room) := by
  induction room generalizing path with
  | zero => rfl
  | succ room ih =>
    cases path with
    | nil => rfl
    | cons c rest =>
      rw [stripName, List.take_succ_cons, ih]
      by_cases isSlash : c = slash
      next =>
        rw [if_pos isSlash, if_pos (by simp [isSlash])]
      next =>
        have other : slash ≠ c := Ne.symm isSlash
        by_cases later : slash ∈ rest.take room <;> simp [isSlash, other, later]

theorem stripPath_eq (path : List UInt8) :
    stripPath path = if slash ∈ (basename path).take maxFilenameLen then none
      else some ((basename path).take maxFilenameLen) :=
  stripName_eq maxFilenameLen (basename path)

def Written (filename buf : Nat → UInt8) (t : Nat) (name : List UInt8) : Prop :=
  (∀ j, j < t → buf j = filename j) ∧ ∀ j (h : j < name.length), buf (t + j) = name[j]

theorem written_nil (filename : Nat → UInt8) (t : Nat) : Written filename filename t [] :=
  ⟨fun _ _ => rfl, fun j inside => absurd inside (Nat.not_lt_zero j)⟩

theorem Written.cons {filename buf : Nat → UInt8} {t : Nat} {c : UInt8} {name : List UInt8}
    (written : Written (Function.update filename t c) buf (t + 1) name) :
    Written filename buf t (c :: name) := by
  obtain ⟨before, copied⟩ := written
  constructor
  next =>
    intro j below
    rw [before j (by omega), Function.update_of_ne (by omega)]
  next =>
    intro j inside
    cases j with
    | zero =>
      have first : buf t = c := by
        rw [before t (Nat.lt_succ_self t), Function.update_self]
      exact first
    | succ j =>
      have moved : t + (j + 1) = t + 1 + j := by omega
      rw [moved]
      exact copied j (by simpa using inside)

variable {mem : Nat → UInt8}

theorem stripLoop_none {s t room : Nat} {path : List UInt8} (filename : Nat → UInt8)
    (string : StringAt mem s path) (refused : stripName room path = none) :
    (stripLoop mem room s t filename).1 = none := by
  induction room generalizing s t path filename with
  | zero => cases refused
  | succ room ih =>
    cases path with
    | nil => cases refused
    | cons c rest =>
      obtain ⟨here, nonzero, tail⟩ := string
      rw [stripLoop, here, if_neg nonzero]
      rw [stripName] at refused
      by_cases isSlash : c = slash
      next => rw [if_pos isSlash]
      next =>
        rw [if_neg isSlash] at refused ⊢
        exact ih _ tail (Option.map_eq_none_iff.mp refused)

theorem stripLoop_some {s t room : Nat} {path name : List UInt8} (filename : Nat → UInt8)
    (string : StringAt mem s path) (strips : stripName room path = some name) :
    ∃ buf, stripLoop mem room s t filename = (some (t + name.length), buf) ∧
      Written filename buf t name := by
  induction room generalizing s t path name filename with
  | zero =>
    cases strips
    exact ⟨filename, rfl, written_nil filename t⟩
  | succ room ih =>
    cases path with
    | nil =>
      have ended : mem s = 0 := string
      cases strips
      rw [stripLoop, if_pos ended]
      exact ⟨filename, rfl, written_nil filename t⟩
    | cons c rest =>
      obtain ⟨here, nonzero, tail⟩ := string
      rw [stripName] at strips
      by_cases isSlash : c = slash
      next =>
        rw [if_pos isSlash] at strips
        cases strips
      next =>
        rw [if_neg isSlash] at strips
        obtain ⟨name', strips', rfl⟩ := Option.map_eq_some_iff.mp strips
        rw [stripLoop, here, if_neg nonzero, if_neg isSlash]
        obtain ⟨buf, done, written⟩ := ih (t := t + 1) (Function.update filename t c) tail strips'
        refine ⟨buf, ?_, written.cons⟩
        rw [done, List.length_cons, Nat.add_comm name'.length 1, Nat.add_assoc]

theorem string_basename {pathname : Nat} {path : List UInt8}
    (string : StringAt mem pathname path) :
    StringAt mem (if mem pathname = slash then pathname + 1 else pathname) (basename path) := by
  cases path with
  | nil =>
    have ended : mem pathname = 0 := string
    rw [ended, if_neg (by decide)]
    exact string
  | cons c rest =>
    have here : mem pathname = c := string.1
    by_cases isSlash : c = slash
    next =>
      rw [here, if_pos isSlash, basename, if_pos (by rw [isSlash]; rfl)]
      exact string.2.2
    next =>
      have notHead : (c :: rest).head? ≠ some slash := fun head => isSlash (Option.some.inj head)
      rw [here, if_neg isSlash, basename, if_neg notHead]
      exact string

theorem stripPathname_none (rootInode ppinode : Nat) {pathname : Nat} {path : List UInt8}
    (filename : Nat → UInt8) (string : StringAt mem pathname path)
    (refused : stripPath path = none) :
    ∃ buf, stripPathname mem rootInode pathname filename ppinode = ⟨-1, buf, ppinode⟩ := by
  by_cases isNull : pathname = 0
  next => exact ⟨filename, by rw [stripPathname, if_pos isNull]⟩
  next =>
    have ended := stripLoop_none (t := 0) filename (string_basename string) refused
    simp only [stripPathname, isNull, if_false]
    generalize stripLoop mem maxFilenameLen _ 0 filename = r at ended
    obtain ⟨t, buf⟩ := r
    cases ended
    exact ⟨buf, rfl⟩

theorem stripPathname_some (rootInode ppinode : Nat) {pathname : Nat} {path name : List UInt8}
    (filename : Nat → UInt8) (notNull : pathname ≠ 0) (string : StringAt mem pathname path)
    (strips : stripPath path = some name) :
    ∃ buf, stripPathname mem rootInode pathname filename ppinode = ⟨0, buf, rootInode⟩ ∧
      StringAt buf 0 name := by
  obtain ⟨buf, done, -, copied⟩ := stripLoop_some (t := 0) filename (string_basename string) strips
  have nonzero : ∀ c, c ∈ name → c ≠ 0 := by
    rw [stripPath_eq] at strips
    by_cases refused : slash ∈ (basename path).take maxFilenameLen
    next =>
      rw [if_pos refused] at strips
      cases strips
    next =>
      rw [if_neg refused] at strips
      cases strips
      intro c member
      exact (string_basename string).nonzero c (List.mem_of_mem_take member)
  refine ⟨Function.update buf (0 + name.length) 0, ?_, stringAt_of_chars ?_ nonzero ?_⟩
  · rw [stripPathname, if_neg notNull]
    simp only [done]
  · intro j inside
    rw [Function.update_of_ne (by omega)]
    exact copied j inside
  · rw [Function.update_self]

/--
The grammar of pathnames: at most one slash, at the front. An accepted name is cut to the length
of a directory entry's name.
-/
structure ByGrammar (path : List UInt8) (rootInode : Nat) (r : Stripped) : Prop where
  accepted : r.ret = 0 ↔ slash ∉ basename path
  otherwise : r.ret = 0 ∨ r.ret = -1
  result : slash ∉ basename path →
    StringAt r.filename 0 ((basename path).take maxFilenameLen) ∧ r.ppinode = rootInode

-- A slash behind the bytes that are kept is not looked for.
theorem strip_path_by_grammar_iff {rootInode pathname ppinode : Nat} {path : List UInt8}
    (filename : Nat → UInt8) (notNull : pathname ≠ 0) (string : StringAt mem pathname path) :
    ByGrammar path rootInode (stripPathname mem rootInode pathname filename ppinode) ↔
      (slash ∈ basename path → slash ∈ (basename path).take maxFilenameLen) := by
  have strips := stripPath_eq path
  by_cases early : slash ∈ (basename path).take maxFilenameLen
  next =>
    have present : slash ∈ basename path := List.mem_of_mem_take early
    rw [if_pos early] at strips
    obtain ⟨buf, done⟩ := stripPathname_none rootInode ppinode filename string strips
    rw [done]
    refine iff_of_true ⟨?_, .inr rfl, fun absent => absurd present absent⟩ fun _ => early
    exact iff_of_false (show ¬ (-1 : Int) = 0 by decide) (not_not_intro present)
  next =>
    rw [if_neg early] at strips
    obtain ⟨buf, done, name⟩ := stripPathname_some rootInode ppinode filename notNull string strips
    rw [done]
    constructor
    next =>
      intro grammar present
      exact absurd present (grammar.accepted.mp rfl)
    next =>
      intro onlyEarly
      have absent : slash ∉ basename path := fun present => early (onlyEarly present)
      exact ⟨iff_of_true rfl absent, .inl rfl, fun _ => ⟨name, rfl⟩⟩

theorem strip_path_by_grammar_blah : ByGrammar [47, 98, 108, 97, 104] 0
    (stripPathname (fun a => [47, 98, 108, 97, 104].getD (a - 4096) 0) 0 4096 (fun _ => 0) 7) :=
  (strip_path_by_grammar_iff (fun _ => 0) (by decide) (by decide)).mpr (by decide)

-- `abcdefghijkl/x` names the file `abcdefghijkl`.
theorem strip_path_takes_slash :
    let path : List UInt8 := [97, 98, 99, 100, 101, 102, 103, 104, 105, 106, 107, 108, 47, 120]
    let mem : Nat → UInt8 := fun a => path.getD (a - 4096) 0
    StringAt mem 4096 path ∧ slash ∈ basename path ∧
      (stripPathname mem 0 4096 (fun _ => 0) 7).ret = 0 ∧
      ¬ ByGrammar path 0 (stripPathname mem 0 4096 (fun _ => 0) 7) := by
  intro path mem
  have string : StringAt mem 4096 path := by decide
  have present : slash ∈ basename path := by decide
  have accepted : (stripPathname mem 0 4096 (fun _ => 0) 7).ret = 0 := by decide
  exact ⟨string, present, accepted, fun grammar => grammar.accepted.mp accepted present⟩

end Konix.Fs
