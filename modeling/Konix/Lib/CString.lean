import Mathlib.Tactic

set_option autoImplicit false

namespace CString

def StringAt (mem : Nat → UInt8) : Nat → List UInt8 → Prop
  | a, [] => mem a = 0
  | a, c :: rest => mem a = c ∧ c ≠ 0 ∧ StringAt mem (a + 1) rest

instance decidableStringAt (mem : Nat → UInt8) :
    (a : Nat) → (str : List UInt8) → Decidable (StringAt mem a str)
  | a, [] => inferInstanceAs (Decidable (mem a = 0))
  | a, c :: rest =>
    have := decidableStringAt mem (a + 1) rest
    inferInstanceAs (Decidable (mem a = c ∧ c ≠ 0 ∧ StringAt mem (a + 1) rest))

variable {mem : Nat → UInt8} {a : Nat} {str : List UInt8}

theorem StringAt.nonzero (string : StringAt mem a str) : ∀ c, c ∈ str → c ≠ 0 := by
  induction str generalizing a with
  | nil =>
    intro c member
    cases member
  | cons d rest ih =>
    obtain ⟨-, nonzero, tail⟩ := string
    intro c member
    rcases List.mem_cons.mp member with same | later
    · rwa [same]
    · exact ih tail c later

theorem StringAt.unique {other : List UInt8} (string : StringAt mem a str)
    (string' : StringAt mem a other) : str = other := by
  induction str generalizing a other with
  | nil =>
    cases other with
    | nil => rfl
    | cons d rest => exact absurd (string'.1.symm.trans string) string'.2.1
  | cons c rest ih =>
    cases other with
    | nil => exact absurd (string.1.symm.trans string') string.2.1
    | cons d rest' =>
      have head : c = d := string.1.symm.trans string'.1
      rw [head, ih string.2.2 string'.2.2]

theorem stringAt_of_chars (chars : ∀ j (h : j < str.length), mem (a + j) = str[j])
    (nonzero : ∀ c, c ∈ str → c ≠ 0) (terminated : mem (a + str.length) = 0) :
    StringAt mem a str := by
  induction str generalizing a with
  | nil => exact terminated
  | cons c rest ih =>
    refine ⟨chars 0 (by simp), nonzero c (by simp), ih ?_ ?_ ?_⟩
    · intro j inside
      have moved : a + 1 + j = a + (j + 1) := by omega
      rw [moved]
      exact chars (j + 1) (by simpa using inside)
    · intro d member
      exact nonzero d (by simp [member])
    · have moved : a + 1 + rest.length = a + (c :: rest).length := by
        rw [List.length_cons]
        omega
      rw [moved]
      exact terminated

-- The string at `a`, if its zero byte is one of the next `room` bytes.
def readString (mem : Nat → UInt8) : Nat → Nat → Option (List UInt8)
  | 0, _ => none
  | room + 1, a => if mem a = 0 then some [] else (readString mem room (a + 1)).map (mem a :: ·)

theorem readString_eq_some {room : Nat} :
    readString mem room a = some str ↔ StringAt mem a str ∧ str.length < room := by
  induction room generalizing a str with
  | zero => exact iff_of_false (fun read => by cases read) (by omega)
  | succ room ih =>
    rw [readString]
    by_cases ended : mem a = 0
    next =>
      rw [if_pos ended]
      constructor
      next =>
        intro read
        cases read
        exact ⟨ended, Nat.succ_pos room⟩
      next =>
        rintro ⟨string, -⟩
        have empty : StringAt mem a [] := ended
        rw [string.unique empty]
    next =>
      rw [if_neg ended]
      cases str with
      | nil =>
        refine iff_of_false ?_ fun string => ended string.1
        intro read
        obtain ⟨rest, -, cons⟩ := Option.map_eq_some_iff.mp read
        cases cons
      | cons c rest =>
        rw [Option.map_eq_some_iff, List.length_cons]
        constructor
        next =>
          rintro ⟨rest', read, cons⟩
          cases cons
          have tail := ih.mp read
          exact ⟨⟨rfl, ended, tail.1⟩, Nat.succ_lt_succ tail.2⟩
        next =>
          rintro ⟨⟨here, -, tail⟩, short⟩
          exact ⟨rest, ih.mpr ⟨tail, Nat.lt_of_succ_lt_succ short⟩, by rw [here]⟩

end CString
