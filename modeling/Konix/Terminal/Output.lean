import Konix.Terminal.Window

set_option autoImplicit false

namespace Konix.Terminal

structure Console.Writable (nr : Nat) (con : Console) : Prop extends con.Placed nr where
  lower : con.originalAddr ≤ con.cursor
  upper : con.cursor < con.originalAddr + con.vMemLimit

def AllWritable (s : Screen) : Prop := ∀ nr, nr < nrConsoles → (s.consoleTable nr).Writable nr

namespace Console

variable {con : Console} {nr : Nat}

theorem Writable.typed (writable : con.Writable nr) (ch : UInt8) : (con.typed ch).Writable nr := by
  have region : con.vMemLimit = 5461 := writable.limit
  have lower := writable.lower
  have upper := writable.upper
  obtain ⟨original, limit, -⟩ := con.typed_window ch
  rw [region] at limit upper
  refine ⟨writable.toPlaced.typed ch, ?_, ?_⟩
  · rw [original, con.typed_cursor]
    split_ifs <;> omega
  · rw [original, limit, con.typed_cursor]
    split_ifs <;> first | omega | (simp only [scrWidth] at *; omega)

theorem Writable.moved (writable : con.Writable nr) {start : Nat}
    (lines : ∃ k, start = con.originalAddr + scrWidth * k) :
    Console.Writable nr { con with currentStartAddr := start } :=
  ⟨⟨writable.original, writable.limit, lines⟩, writable.lower, writable.upper⟩

end Console

namespace Screen

variable {s : Screen} {nr : Nat}

-- While the cursor is below the screen, the window can be moved: a region holds its cursor.
theorem scrollToCursor_returns {fuel : Nat} (writable : (s.consoleTable nr).Writable nr)
    (enough : (s.consoleTable nr).cursor <
      (s.consoleTable nr).currentStartAddr + scrSize + scrWidth * fuel) :
    ∃ s', scrollToCursor (fuel + 1) s nr = some s' := by
  induction fuel generalizing s with
  | zero =>
    rw [Nat.mul_zero, Nat.add_zero] at enough
    exact ⟨s, by rw [scrollToCursor, if_neg (by omega)]⟩
  | succ fuel ih =>
    rw [scrollToCursor]
    by_cases below : (s.consoleTable nr).cursor ≥ (s.consoleTable nr).currentStartAddr + scrSize
    next =>
      rw [if_pos below]
      have moves : (s.consoleTable nr).currentStartAddr + scrSize <
          (s.consoleTable nr).originalAddr + (s.consoleTable nr).vMemLimit :=
        lt_of_le_of_lt below writable.upper
      have here : (s.scrollScreen nr scrDn).consoleTable nr = (s.consoleTable nr).movedDown 1 := by
        rw [scrollScreen_consoleTable, Function.update_self, Console.scrolled_down moves]
      apply ih
      · rw [here]
        exact writable.moved (writable.toPlaced.movedDown 1).lines
      · rw [here]
        simp only [Console.movedDown, scrWidth] at enough ⊢
        omega
    next =>
      rw [if_neg below]
      exact ⟨s, rfl⟩

theorem outChar_writable (writable : (s.consoleTable nr).Writable nr) (ch : UInt8) :
    ∃ s', s.outChar nr ch = some s' ∧ (s'.consoleTable nr).Writable nr ∧
      ∀ other, other ≠ nr → s'.consoleTable other = s.consoleTable other := by
  have typed := writable.typed ch
  have here : (s.putChar nr ch).consoleTable nr = (s.consoleTable nr).typed ch := by
    rw [putChar_consoleTable, Function.update_self]
  have start : ((s.consoleTable nr).typed ch).originalAddr ≤
      ((s.consoleTable nr).typed ch).currentStartAddr := by
    obtain ⟨k, lines⟩ := typed.lines
    rw [lines]
    exact Nat.le_add_right ..
  have limit : ((s.consoleTable nr).typed ch).vMemLimit = 5461 := typed.limit
  have upper := typed.upper
  obtain ⟨s₁, scrolled⟩ := @scrollToCursor_returns (s.putChar nr ch) nr (vMemSize - 1)
    (by rw [here]; exact typed) (by rw [here]; simp only [vMemSize, scrSize, scrWidth]; omega)
  obtain ⟨m, table, -, -⟩ := scrollToCursor_some scrolled
  rw [here, putChar_consoleTable, Function.update_idem] at table
  refine ⟨s₁.flush nr, ?_, ?_, fun other different => ?_⟩
  · show (scrollToCursor (vMemSize - 1 + 1) (s.putChar nr ch) nr).map _ = _
    rw [scrolled]
    rfl
  · rw [flush_consoleTable, table, Function.update_self]
    exact typed.moved (typed.toPlaced.movedDown m).lines
  · rw [flush_consoleTable, table, Function.update_of_ne different]

theorem outChar_returns (writable : AllWritable s) (bound : nr < nrConsoles) (ch : UInt8) :
    ∃ s', s.outChar nr ch = some s' ∧ AllWritable s' := by
  obtain ⟨s', done, here, others⟩ := outChar_writable (writable nr bound) ch
  refine ⟨s', done, fun other bound' => ?_⟩
  by_cases same : other = nr
  next =>
    subst same
    exact here
  next =>
    rw [others other same]
    exact writable other bound'

theorem scrollScreen_writable (writable : AllWritable s) (direction : Int) :
    AllWritable (s.scrollScreen nr direction) := by
  intro other bound
  rw [scrollScreen_consoleTable]
  by_cases same : other = nr
  next =>
    subst same
    rw [Function.update_self]
    have here := writable other bound
    have cursor : (s.consoleTable other).scrolled direction = { s.consoleTable other with
        currentStartAddr := ((s.consoleTable other).scrolled direction).currentStartAddr } := by
      rw [Console.scrolled]
      split_ifs <;> rfl
    have placed := here.toPlaced.scrolled direction
    have original : ((s.consoleTable other).scrolled direction).originalAddr =
        (s.consoleTable other).originalAddr := by rw [cursor]
    rw [cursor]
    refine here.moved ?_
    rw [← original]
    exact placed.lines
  next =>
    rw [Function.update_of_ne same]
    exact writable other bound

theorem selectConsole_writable (writable : AllWritable s) (nrConsole : Int) :
    AllWritable (s.selectConsole nrConsole) := by
  intro other bound
  rw [selectConsole_consoleTable]
  exact writable other bound

theorem outChars_writable (text : List UInt8) (writable : (s.consoleTable nr).Writable nr) :
    ∃ s', s.outChars nr text = some s' ∧ (s'.consoleTable nr).Writable nr ∧
      ∀ other, other ≠ nr → s'.consoleTable other = s.consoleTable other := by
  induction text generalizing s with
  | nil => exact ⟨s, rfl, writable, fun _ _ => rfl⟩
  | cons ch rest ih =>
    obtain ⟨s₁, typed, here, others⟩ := outChar_writable writable ch
    obtain ⟨s₂, done, here', others'⟩ := ih here
    refine ⟨s₂, ?_, here', fun other different => ?_⟩
    · rw [outChars, typed]
      exact done
    · rw [others' other different, others other different]

theorem flush_vMem (s : Screen) (nr : Nat) : (s.flush nr).vMem = s.vMem := by
  rw [flush]
  split <;> rfl

theorem scrollScreen_vMem (s : Screen) (nr : Nat) (direction : Int) :
    (s.scrollScreen nr direction).vMem = s.vMem := by
  rw [scrollScreen, flush_vMem]
  split_ifs <;> rfl

theorem scrollToCursor_vMem {s' : Screen} {fuel : Nat} (done : scrollToCursor fuel s nr = some s') :
    s'.vMem = s.vMem := by
  induction fuel generalizing s with
  | zero => cases done
  | succ fuel ih =>
    rw [scrollToCursor] at done
    split at done
    next => rw [ih done, scrollScreen_vMem]
    next =>
      cases done
      rfl

end Screen

-- The cells that `out_char()` writes.
def Console.writes (con : Console) (ch : UInt8) : List Nat :=
  if ch = newline then []
  else if ch = backspace then if con.cursor > con.originalAddr then [con.cursor - 1] else []
  else if con.cursor < con.originalAddr + con.vMemLimit - 1 then [con.cursor] else []

def Screen.writes (s : Screen) : Act → List Nat
  | .outChar nr ch => (s.consoleTable nr).writes ch
  | .scrollScreen _ _ => []

-- The cells of the console that are its own.
def Console.Owns (con : Console) (cell : Nat) : Prop :=
  con.originalAddr ≤ cell ∧ cell < con.originalAddr + con.vMemLimit

instance (con : Console) (cell : Nat) : Decidable (con.Owns cell) := by
  unfold Console.Owns
  infer_instance

theorem Console.Writable.writes {con : Console} {nr : Nat} (writable : con.Writable nr)
    (ch : UInt8) :
    ∀ cell ∈ con.writes ch, con.Owns cell := by
  have lower := writable.lower
  have upper := writable.upper
  intro cell written
  rw [Console.writes] at written
  rw [Console.Owns]
  split_ifs at written with line back erases room
  · cases written
  · rw [List.mem_singleton.mp written]
    omega
  · cases written
  · rw [List.mem_singleton.mp written]
    omega
  · cases written

theorem Screen.putChar_vMem (s : Screen) (nr : Nat) (ch : UInt8) {cell : Nat}
    (kept : cell ∉ (s.consoleTable nr).writes ch) : (s.putChar nr ch).vMem cell = s.vMem cell := by
  rw [Console.writes] at kept
  simp only [putChar]
  split_ifs at kept ⊢
  · rfl
  · rfl
  · exact Function.update_of_ne (List.ne_of_not_mem_cons kept) ..
  · rfl
  · exact Function.update_of_ne (List.ne_of_not_mem_cons kept) ..
  · rfl

section Output

open Runs

variable {s s' : Screen} {a : Act} {cell : Nat}

theorem Step.vMem (step : Step s a s') (kept : cell ∉ s.writes a) : s'.vMem cell = s.vMem cell := by
  obtain ⟨-, done⟩ := step
  cases a with
  | outChar nr ch =>
    obtain ⟨s₁, scrolled, rfl⟩ := Option.map_eq_some_iff.mp done
    rw [Screen.flush_vMem, Screen.scrollToCursor_vMem scrolled]
    exact s.putChar_vMem nr ch kept
  | scrollScreen nr direction =>
    cases done
    rw [Screen.scrollScreen_vMem]

theorem AllWritable.step (writable : AllWritable s) (step : Step s a s') : AllWritable s' := by
  obtain ⟨bound, done⟩ := step
  cases a with
  | outChar nr ch =>
    obtain ⟨s₁, returns, after⟩ := Screen.outChar_returns writable bound ch
    cases done.symm.trans returns
    exact after
  | scrollScreen nr direction =>
    cases done
    exact Screen.scrollScreen_writable writable direction

-- After `init_screen()` of each console, the first one with a cursor in its region.
def InitialisedInside (s : Screen) : Prop :=
  ∃ s₀ dispPos, dispPos / 2 < conVMemSize ∧ Screen.initScreens s₀ dispPos = some s

theorem initConsole_writable {nr cursor : Nat} (lower : nr * conVMemSize ≤ cursor)
    (upper : cursor < nr * conVMemSize + conVMemSize) : (initConsole nr cursor).Writable nr :=
  ⟨initConsole_placed nr cursor, lower, upper⟩

theorem Screen.initScreen_writable (s : Screen) (dispPos nr : Nat)
    (first : nr = 0 → dispPos / 2 < conVMemSize) :
    ∃ s', s.initScreen dispPos nr = some s' ∧ (s'.consoleTable nr).Writable nr ∧
      ∀ other, other ≠ nr → s'.consoleTable other = s.consoleTable other := by
  by_cases isFirst : nr = 0
  next =>
    subst isFirst
    refine ⟨_, rfl, ?_, fun other different => Function.update_of_ne different ..⟩
    show ((s.setConsole 0 (initConsole 0 (dispPos / 2))).consoleTable 0).Writable 0
    rw [setConsole_consoleTable, Function.update_self]
    exact initConsole_writable (by omega) (by have := first rfl; omega)
  next =>
    have here : (s.setConsole nr (initConsole nr (nr * conVMemSize))).consoleTable nr =
        initConsole nr (nr * conVMemSize) := Function.update_self ..
    have begun : ((s.setConsole nr (initConsole nr (nr * conVMemSize))).consoleTable nr).Writable
        nr := by
      rw [here]
      exact initConsole_writable (le_refl _) (by simp only [conVMemSize_eq]; omega)
    obtain ⟨s', done, writable, others⟩ := outChars_writable (prompt nr) begun
    refine ⟨s'.setCursor (s'.consoleTable nr).cursor, ?_, writable, fun other different => ?_⟩
    · rw [initScreen, if_neg isFirst, done]
      rfl
    · rw [setCursor_consoleTable, others other different]
      exact Function.update_of_ne different ..

theorem InitialisedInside.allWritable (init : InitialisedInside s) : AllWritable s := by
  obtain ⟨s₀, dispPos, small, done⟩ := init
  obtain ⟨s₁, done₁, here₁, -⟩ := s₀.initScreen_writable dispPos 0 fun _ => small
  obtain ⟨s₂, done₂, here₂, others₂⟩ := s₁.initScreen_writable 0 1 fun first => by cases first
  obtain ⟨s₃, done₃, here₃, others₃⟩ := s₂.initScreen_writable 0 2 fun first => by cases first
  simp only [Screen.initScreens, done₁, done₂, done₃, Option.bind_eq_bind, Option.bind_some] at done
  cases done
  apply Screen.selectConsole_writable
  intro nr bound
  obtain rfl | rfl | rfl : nr = 0 ∨ nr = 1 ∨ nr = 2 := by
    simp only [nrConsoles] at bound
    omega
  · rw [others₃ 0 (by decide), others₂ 0 (by decide)]
    exact here₁
  · rw [others₃ 1 (by decide)]
    exact here₂
  · exact here₃

/--
Whatever is printed and scrolled, each console writes into its own region only and keeps its cursor
there, and no character makes `out_char()` scroll for ever.
-/
theorem output_stays_inside (run : Run InitialisedInside Step) :
    (∀ t, t ≤ run.length → ∀ nr, nr < nrConsoles →
      ((run.state t).consoleTable nr).Owns ((run.state t).consoleTable nr).cursor ∧
        ∀ ch, ((run.state t).outChar nr ch).isSome = true) ∧
      ∀ t, t < run.length →
        (∀ cell ∈ (run.state t).writes (run.act t),
          ((run.state t).consoleTable (run.act t).console).Owns cell) ∧
        ∀ cell, cell ∉ (run.state t).writes (run.act t) →
          (run.state (t + 1)).vMem cell = (run.state t).vMem cell := by
  have writable : ∀ t, t ≤ run.length → AllWritable (run.state t) :=
    run.invariant (fun _ init => init.allWritable) fun _ _ _ writable step => writable.step step
  constructor
  · intro t within nr bound
    have here := writable t within nr bound
    refine ⟨⟨here.lower, here.upper⟩, fun ch => ?_⟩
    obtain ⟨s', returns, -⟩ := Screen.outChar_writable here ch
    rw [returns]
    rfl
  · intro t within
    have step := run.steps t within
    refine ⟨fun cell written => ?_, fun cell kept => step.vMem kept⟩
    cases act : run.act t with
    | outChar nr ch =>
      rw [act] at step written
      exact (writable t (by omega) nr step.1).writes ch cell written
    | scrollScreen nr direction =>
      rw [act] at written
      cases written

end Output

end Konix.Terminal
