import Konix.Terminal.Screen
import Konix.Lib.Run

set_option autoImplicit false

namespace Konix.Terminal

open Runs

-- What `scroll_screen()` and `out_char()` do to the console itself.
def Console.scrolled (con : Console) (direction : Int) : Console :=
  if direction = scrUp then
    if con.currentStartAddr > con.originalAddr then
      { con with currentStartAddr := con.currentStartAddr - scrWidth }
    else con
  else if direction = scrDn then
    if con.currentStartAddr + scrSize < con.originalAddr + con.vMemLimit then
      { con with currentStartAddr := con.currentStartAddr + scrWidth }
    else con
  else con

def Console.typed (con : Console) (ch : UInt8) : Console :=
  if ch = newline then
    if con.cursor < con.originalAddr + con.vMemLimit - scrWidth then
      { con with
        cursor := con.originalAddr +
          scrWidth * ((con.cursor - con.originalAddr) / scrWidth + 1) }
    else con
  else if ch = backspace then
    if con.cursor > con.originalAddr then { con with cursor := con.cursor - 1 } else con
  else if con.cursor < con.originalAddr + con.vMemLimit - 1 then
    { con with cursor := con.cursor + 1 }
  else con

def Console.movedDown (con : Console) (lines : Nat) : Console :=
  { con with currentStartAddr := con.currentStartAddr + scrWidth * lines }

namespace Screen

variable {s s' : Screen} {nr : Nat}

@[simp] theorem setCursor_consoleTable (s : Screen) (position : Nat) :
    (s.setCursor position).consoleTable = s.consoleTable := rfl

@[simp] theorem flush_consoleTable (s : Screen) (nr : Nat) :
    (s.flush nr).consoleTable = s.consoleTable := by
  rw [flush]
  split <;> rfl

@[simp] theorem selectConsole_consoleTable (s : Screen) (nrConsole : Int) :
    (s.selectConsole nrConsole).consoleTable = s.consoleTable := by
  rw [selectConsole]
  split <;> rfl

@[simp] theorem setConsole_consoleTable (s : Screen) (nr : Nat) (con : Console) :
    (s.setConsole nr con).consoleTable = Function.update s.consoleTable nr con := rfl

theorem scrollScreen_consoleTable (s : Screen) (nr : Nat) (direction : Int) :
    (s.scrollScreen nr direction).consoleTable =
      Function.update s.consoleTable nr ((s.consoleTable nr).scrolled direction) := by
  simp only [scrollScreen, flush_consoleTable, Console.scrolled]
  by_cases up : direction = scrUp
  next =>
    simp only [up, if_true]
    split
    next => rfl
    next => exact (Function.update_eq_self ..).symm
  next =>
    by_cases down : direction = scrDn
    next =>
      simp only [down, if_true]
      rw [if_neg (show ¬ scrDn = scrUp by decide), if_neg (show ¬ scrDn = scrUp by decide)]
      split
      next => rfl
      next => exact (Function.update_eq_self ..).symm
    next =>
      simp only [up, down, if_false]
      exact (Function.update_eq_self ..).symm

theorem putChar_consoleTable (s : Screen) (nr : Nat) (ch : UInt8) :
    (s.putChar nr ch).consoleTable =
      Function.update s.consoleTable nr ((s.consoleTable nr).typed ch) := by
  simp only [putChar, Console.typed]
  split
  next =>
    split
    next => rfl
    next => exact (Function.update_eq_self ..).symm
  next =>
    split
    next =>
      split
      next => rfl
      next => exact (Function.update_eq_self ..).symm
    next =>
      split
      next => rfl
      next => exact (Function.update_eq_self ..).symm

/--
Where the scrolling of `out_char()` ends: no further than the cursor needs. A turn that cannot
scroll leaves everything as it is, and is followed by turns that cannot either.
-/
theorem scrollToCursor_some {fuel : Nat} (done : scrollToCursor fuel s nr = some s') :
    ∃ m, s'.consoleTable =
        Function.update s.consoleTable nr ((s.consoleTable nr).movedDown m) ∧
      (s.consoleTable nr).cursor <
        (s.consoleTable nr).currentStartAddr + scrWidth * m + scrSize ∧
      (m = 0 ∨ (s.consoleTable nr).currentStartAddr + scrWidth * m + scrSize ≤
        (s.consoleTable nr).cursor + scrWidth) := by
  induction fuel generalizing s with
  | zero => cases done
  | succ fuel ih =>
    rw [scrollToCursor] at done
    by_cases below : (s.consoleTable nr).cursor ≥ (s.consoleTable nr).currentStartAddr + scrSize
    next =>
      rw [if_pos below] at done
      obtain ⟨m, table, reached, least⟩ := ih done
      rw [scrollScreen_consoleTable, Function.update_self] at table reached least
      rw [Function.update_idem] at table
      rw [Console.scrolled, if_neg (show ¬ scrDn = scrUp by decide),
        if_pos rfl] at table reached least
      by_cases moves : (s.consoleTable nr).currentStartAddr + scrSize <
          (s.consoleTable nr).originalAddr + (s.consoleTable nr).vMemLimit
      next =>
        rw [if_pos moves] at table reached least
        have lines : (s.consoleTable nr).currentStartAddr + scrWidth * (m + 1) =
            (s.consoleTable nr).currentStartAddr + scrWidth + scrWidth * m := by
          rw [Nat.mul_succ]
          omega
        refine ⟨m + 1, ?_, ?_, .inr ?_⟩
        · rw [table, Console.movedDown, Console.movedDown, lines]
        · rw [lines]
          exact reached
        · rw [lines]
          rcases least with none_ | least
          · rw [none_, Nat.mul_zero]
            omega
          · exact least
      next =>
        rw [if_neg moves] at table reached least
        exact ⟨m, table, reached, least⟩
    next =>
      rw [if_neg below] at done
      cases done
      refine ⟨0, (Function.update_eq_self ..).symm, ?_, .inl rfl⟩
      rw [Nat.mul_zero]
      omega

end Screen

-- What the screen shows of a console is inside the console's part of the video memory.
def Console.Inside (con : Console) : Prop :=
  con.originalAddr ≤ con.currentStartAddr ∧
    con.currentStartAddr + scrSize ≤ con.originalAddr + con.vMemLimit

instance (con : Console) : Decidable con.Inside := by unfold Console.Inside; infer_instance

-- Console `nr` has its own part of the video memory, and is scrolled by whole lines.
structure Console.Placed (nr : Nat) (con : Console) : Prop where
  original : con.originalAddr = nr * conVMemSize
  limit : con.vMemLimit = conVMemSize
  lines : ∃ k, con.currentStartAddr = con.originalAddr + scrWidth * k

theorem conVMemSize_eq : conVMemSize = 5461 := rfl

namespace Console

variable {con : Console} {nr : Nat}

theorem Placed.movedDown (placed : con.Placed nr) (m : Nat) : (con.movedDown m).Placed nr := by
  obtain ⟨k, lines⟩ := placed.lines
  refine ⟨placed.original, placed.limit, k + m, ?_⟩
  show con.currentStartAddr + scrWidth * m = con.originalAddr + scrWidth * (k + m)
  rw [lines, Nat.mul_add, Nat.add_assoc]

theorem scrolled_down (moves : con.currentStartAddr + scrSize < con.originalAddr + con.vMemLimit) :
    con.scrolled scrDn = con.movedDown 1 := by
  rw [scrolled, if_neg (show ¬ scrDn = scrUp by decide), if_pos rfl, if_pos moves]
  rfl

theorem movedDown_movedDown (con : Console) (m n : Nat) :
    (con.movedDown m).movedDown n = con.movedDown (m + n) := by
  simp only [Console.movedDown, Nat.mul_add, Nat.add_assoc]

theorem Placed.scrolled (placed : con.Placed nr) (direction : Int) :
    (con.scrolled direction).Placed nr := by
  obtain ⟨k, lines⟩ := placed.lines
  rw [Console.scrolled]
  by_cases up : direction = scrUp
  next =>
    rw [if_pos up]
    split
    next lower =>
      refine ⟨placed.original, placed.limit, k - 1, ?_⟩
      show con.currentStartAddr - scrWidth = con.originalAddr + scrWidth * (k - 1)
      simp only [scrWidth] at lines ⊢
      omega
    next => exact placed
  next =>
    rw [if_neg up]
    split
    next =>
      split
      next => exact placed.movedDown 1
      next => exact placed
    next => exact placed

theorem typed_window (con : Console) (ch : UInt8) :
    (con.typed ch).originalAddr = con.originalAddr ∧ (con.typed ch).vMemLimit = con.vMemLimit ∧
      (con.typed ch).currentStartAddr = con.currentStartAddr := by
  rw [typed]
  split_ifs <;> exact ⟨rfl, rfl, rfl⟩

theorem typed_cursor (con : Console) (ch : UInt8) : (con.typed ch).cursor =
    if ch = newline then
      if con.cursor < con.originalAddr + con.vMemLimit - scrWidth then
        con.originalAddr + scrWidth * ((con.cursor - con.originalAddr) / scrWidth + 1)
      else con.cursor
    else if ch = backspace then
      if con.cursor > con.originalAddr then con.cursor - 1 else con.cursor
    else if con.cursor < con.originalAddr + con.vMemLimit - 1 then con.cursor + 1
    else con.cursor := by
  rw [typed]
  split_ifs <;> rfl

theorem Placed.typed (placed : con.Placed nr) (ch : UInt8) : (con.typed ch).Placed nr := by
  obtain ⟨original, limit, start⟩ := con.typed_window ch
  refine ⟨original.trans placed.original, limit.trans placed.limit, ?_⟩
  rw [original, start]
  exact placed.lines

theorem Placed.typed_cursor (placed : con.Placed nr) (cursor : Nat) :
    Console.Placed nr { con with cursor := cursor } :=
  ⟨placed.original, placed.limit, placed.lines⟩

-- The region ends in the middle of a line; this is the number of its whole lines.
def rows (con : Console) : Nat := con.vMemLimit / scrWidth

-- The character leaves the cursor in a whole line of the region.
def StaysInRows (con : Console) (ch : UInt8) : Prop :=
  let place := con.cursor - con.originalAddr
  if ch = newline then
    if con.cursor < con.originalAddr + con.vMemLimit - scrWidth then place / scrWidth + 1 < con.rows
    else place < scrWidth * con.rows
  else if ch = backspace then place ≤ scrWidth * con.rows
  else place + 1 < scrWidth * con.rows

theorem staysInRows_iff (placed : con.Placed nr) (ch : UInt8) :
    con.StaysInRows ch ↔ (con.typed ch).cursor < con.originalAddr + scrWidth * con.rows := by
  have region : con.vMemLimit = 5461 := placed.limit
  have count : con.rows = 68 := by rw [rows, region]; rfl
  rw [StaysInRows, typed_cursor, count]
  split_ifs <;> simp only [scrWidth] at * <;> omega

-- After the scrolling, the window is in the region if and only if the cursor is in a whole line.
theorem movedDown_inside_iff (placed : con.Placed nr) (inside : con.Inside) {m cursor : Nat}
    (reached : cursor < con.currentStartAddr + scrWidth * m + scrSize)
    (least : m = 0 ∨ con.currentStartAddr + scrWidth * m + scrSize ≤ cursor + scrWidth) :
    (con.movedDown m).Inside ↔ cursor < con.originalAddr + scrWidth * con.rows := by
  have region : con.vMemLimit = 5461 := placed.limit
  have count : con.rows = 68 := by rw [rows, region]; rfl
  obtain ⟨k, lines⟩ := placed.lines
  simp only [Inside, movedDown, count, region, scrWidth, scrSize] at lines inside reached least ⊢
  omega

end Console

inductive Act
  | outChar (nr : Nat) (ch : UInt8)
  | scrollScreen (nr : Nat) (direction : Int)
deriving DecidableEq, Repr

def Act.console : Act → Nat
  | .outChar nr _ => nr
  | .scrollScreen nr _ => nr

def Screen.perform (s : Screen) : Act → Option Screen
  | .outChar nr ch => s.outChar nr ch
  | .scrollScreen nr direction => some (s.scrollScreen nr direction)

def Step (s : Screen) (a : Act) (s' : Screen) : Prop :=
  a.console < nrConsoles ∧ s.perform a = some s'

def Initialised (s : Screen) : Prop := ∃ s₀ dispPos, Screen.initScreens s₀ dispPos = some s

/--
The call does not take the window out of its region: a scroll down does not start from the last
whole lines, and a character leaves the cursor in a whole line.
-/
def KeepsWindow (s : Screen) : Act → Prop
  | .outChar nr ch => (s.consoleTable nr).StaysInRows ch
  | .scrollScreen nr direction => direction = scrDn →
    let con := s.consoleTable nr
    ¬ (con.currentStartAddr + scrSize < con.originalAddr + con.vMemLimit ∧
      con.originalAddr + con.vMemLimit < con.currentStartAddr + scrSize + scrWidth)

def AllPlaced (s : Screen) : Prop := ∀ nr, nr < nrConsoles → (s.consoleTable nr).Placed nr

def AllInside (s : Screen) : Prop := ∀ nr, nr < nrConsoles → (s.consoleTable nr).Inside

variable {s s' : Screen} {nr : Nat} {a : Act}

theorem scrolled_inside_iff {con : Console} (placed : con.Placed nr) (inside : con.Inside)
    (direction : Int) : (con.scrolled direction).Inside ↔ (direction = scrDn →
      ¬ (con.currentStartAddr + scrSize < con.originalAddr + con.vMemLimit ∧
        con.originalAddr + con.vMemLimit < con.currentStartAddr + scrSize + scrWidth)) := by
  obtain ⟨k, lines⟩ := placed.lines
  by_cases down : direction = scrDn
  next =>
    by_cases moves : con.currentStartAddr + scrSize < con.originalAddr + con.vMemLimit
    next =>
      rw [down, Console.scrolled_down moves]
      simp only [Console.Inside, Console.movedDown, scrWidth, scrSize,
        forall_const] at inside moves ⊢
      omega
    next =>
      rw [down, Console.scrolled, if_neg (show ¬ scrDn = scrUp by decide), if_pos rfl, if_neg moves]
      exact iff_of_true inside fun _ both => moves both.1
  next =>
    refine iff_of_true ?_ fun same => absurd same down
    rw [Console.scrolled, if_neg down]
    split
    next =>
      split
      next =>
        simp only [Console.Inside, scrWidth, scrSize] at lines inside ⊢
        omega
      next => exact inside
    next => exact inside

theorem perform_console (placed : AllPlaced s) (step : Step s a s') :
    ∃ con, s'.consoleTable = Function.update s.consoleTable a.console con ∧
      con.Placed a.console ∧
      ((s.consoleTable a.console).Inside → (con.Inside ↔ KeepsWindow s a)) := by
  obtain ⟨bound, done⟩ := step
  cases a with
  | scrollScreen nr direction =>
    have here : (s.consoleTable nr).Placed nr := placed nr bound
    cases done
    exact ⟨_, s.scrollScreen_consoleTable nr direction, here.scrolled direction,
      fun inside => scrolled_inside_iff here inside direction⟩
  | outChar nr ch =>
    have here : (s.consoleTable nr).Placed nr := placed nr bound
    obtain ⟨s₁, scrolled, rfl⟩ := Option.map_eq_some_iff.mp done
    obtain ⟨m, table, reached, least⟩ := Screen.scrollToCursor_some scrolled
    rw [Screen.putChar_consoleTable, Function.update_self] at table reached least
    rw [Function.update_idem] at table
    have typed := here.typed ch
    obtain ⟨original, limit, start⟩ := (s.consoleTable nr).typed_window ch
    refine ⟨_, (s₁.flush_consoleTable nr).trans table, typed.movedDown m, fun inside => ?_⟩
    have same : ((s.consoleTable nr).typed ch).Inside := by
      rw [Console.Inside, original, limit, start]
      exact inside
    have rows : ((s.consoleTable nr).typed ch).rows = (s.consoleTable nr).rows := by
      rw [Console.rows, limit]
      rfl
    rw [Console.movedDown_inside_iff typed same reached least, original, rows]
    exact (Console.staysInRows_iff here ch).symm

theorem AllPlaced.step (placed : AllPlaced s) (step : Step s a s') : AllPlaced s' := by
  obtain ⟨con, table, here, -⟩ := perform_console placed step
  intro nr bound
  rw [table]
  by_cases same : nr = a.console
  next =>
    subst same
    rw [Function.update_self]
    exact here
  next =>
    rw [Function.update_of_ne same]
    exact placed nr bound

theorem allInside_step_iff (placed : AllPlaced s) (inside : AllInside s) (step : Step s a s') :
    AllInside s' ↔ KeepsWindow s a := by
  obtain ⟨con, table, -, window⟩ := perform_console placed step
  rw [← window (inside _ step.1)]
  constructor
  next =>
    intro all
    have here := all _ step.1
    rwa [table, Function.update_self] at here
  next =>
    intro here nr bound
    rw [table]
    by_cases same : nr = a.console
    next =>
      subst same
      rw [Function.update_self]
      exact here
    next =>
      rw [Function.update_of_ne same]
      exact inside nr bound

theorem Screen.outChar_onScreen {ch : UInt8}
    (below : ((s.consoleTable nr).typed ch).cursor <
      (s.consoleTable nr).currentStartAddr + scrSize) :
    s.outChar nr ch = some ((s.putChar nr ch).flush nr) := by
  have start := ((s.consoleTable nr).typed_window ch).2.2
  have stays : ¬ ((s.putChar nr ch).consoleTable nr).cursor ≥
      ((s.putChar nr ch).consoleTable nr).currentStartAddr + scrSize := by
    rw [Screen.putChar_consoleTable, Function.update_self, start]
    omega
  show (Screen.scrollToCursor (vMemSize - 1 + 1) (s.putChar nr ch) nr).map _ = _
  rw [Screen.scrollToCursor, if_neg stays]
  rfl

theorem outChars_short (text : List UInt8) (erases : backspace ∉ text)
    (placed : (s.consoleTable nr).Placed nr)
    (inside : (s.consoleTable nr).originalAddr ≤ (s.consoleTable nr).cursor)
    (short : (s.consoleTable nr).cursor + scrWidth * text.length <
      (s.consoleTable nr).currentStartAddr + scrSize) :
    ∃ s' cursor, s.outChars nr text = some s' ∧ s'.consoleTable =
      Function.update s.consoleTable nr { s.consoleTable nr with cursor := cursor } := by
  induction text generalizing s with
  | nil => exact ⟨s, _, rfl, (Function.update_eq_self ..).symm⟩
  | cons ch rest ih =>
    rw [List.length_cons] at short
    have moved : ∃ cursor, (s.consoleTable nr).typed ch =
        { s.consoleTable nr with cursor := cursor } ∧ (s.consoleTable nr).cursor ≤ cursor ∧
        cursor ≤ (s.consoleTable nr).cursor + scrWidth := by
      have other : ch ≠ backspace := fun same => erases (same ▸ List.mem_cons_self ..)
      rw [Console.typed]
      by_cases line : ch = newline
      next =>
        rw [if_pos line]
        split
        next =>
          refine ⟨_, rfl, ?_⟩
          simp only [scrWidth]
          omega
        next => exact ⟨_, rfl, le_refl _, Nat.le_add_right ..⟩
      next =>
        rw [if_neg line, if_neg other]
        split
        next => exact ⟨_, rfl, by simp only [scrWidth]; omega⟩
        next => exact ⟨_, rfl, le_refl _, Nat.le_add_right ..⟩
    obtain ⟨cursor, typed, lower, upper⟩ := moved
    have onScreen : ((s.consoleTable nr).typed ch).cursor <
        (s.consoleTable nr).currentStartAddr + scrSize := by
      rw [typed]
      simp only [scrWidth] at short upper ⊢
      omega
    have table : ((s.putChar nr ch).flush nr).consoleTable = Function.update s.consoleTable nr
        { s.consoleTable nr with cursor := cursor } := by
      rw [Screen.flush_consoleTable, Screen.putChar_consoleTable, typed]
    have here : ((s.putChar nr ch).flush nr).consoleTable nr =
        { s.consoleTable nr with cursor := cursor } := by
      rw [table, Function.update_self]
    obtain ⟨s', cursor', done, table'⟩ := @ih ((s.putChar nr ch).flush nr)
      (fun member => erases (List.mem_cons_of_mem _ member))
      (by rw [here]; exact placed.typed_cursor cursor)
      (by rw [here]; exact inside.trans lower)
      (by rw [here]; simp only [scrWidth] at short upper ⊢; omega)
    refine ⟨s', cursor', ?_, ?_⟩
    · rw [Screen.outChars, Screen.outChar_onScreen onScreen]
      exact done
    · rw [table', table, Function.update_idem, Function.update_self]

theorem initConsole_placed (nr cursor : Nat) : (initConsole nr cursor).Placed nr :=
  ⟨rfl, rfl, 0, (Nat.add_zero _).symm⟩

theorem initConsole_inside (nr cursor : Nat) : (initConsole nr cursor).Inside :=
  ⟨le_refl _, Nat.add_le_add_left (show scrSize ≤ conVMemSize by decide) _⟩

theorem prompt_plain : ∀ nr, nr < nrConsoles → backspace ∉ prompt nr := by decide

theorem Screen.initScreen_ok (s : Screen) (dispPos : Nat) {nr : Nat} (bound : nr < nrConsoles) :
    ∃ s' cursor, s.initScreen dispPos nr = some s' ∧
      s'.consoleTable = Function.update s.consoleTable nr (initConsole nr cursor) := by
  by_cases first : nr = 0
  next =>
    refine ⟨(s.setConsole nr (initConsole nr (dispPos / 2))).setCursor
      ((s.setConsole nr (initConsole nr (dispPos / 2))).consoleTable nr).cursor, dispPos / 2,
        ?_, rfl⟩
    rw [initScreen, if_pos first]
    rfl
  next =>
    have here : (s.setConsole nr (initConsole nr (nr * conVMemSize))).consoleTable nr =
        initConsole nr (nr * conVMemSize) := Function.update_self ..
    obtain ⟨s', cursor, done, table⟩ := outChars_short
      (s := s.setConsole nr (initConsole nr (nr * conVMemSize))) (prompt nr) (prompt_plain nr bound)
      (by rw [here]; exact initConsole_placed nr _)
      (by rw [here]; exact le_refl _)
      (by rw [here]; exact Nat.add_lt_add_left (show scrWidth * 9 < scrSize by decide) _)
    refine ⟨s'.setCursor (s'.consoleTable nr).cursor, cursor, ?_, ?_⟩
    · rw [initScreen, if_neg first, done]
      rfl
    · rw [setCursor_consoleTable, table, setConsole_consoleTable, Function.update_idem,
        Function.update_self]
      rfl

theorem Screen.initScreens_ok (s : Screen) (dispPos : Nat) :
    ∃ s', s.initScreens dispPos = some s' ∧
      ∀ nr, nr < nrConsoles → ∃ cursor, s'.consoleTable nr = initConsole nr cursor := by
  obtain ⟨s₀, c₀, done₀, table₀⟩ := s.initScreen_ok dispPos (show 0 < nrConsoles by decide)
  obtain ⟨s₁, c₁, done₁, table₁⟩ := s₀.initScreen_ok 0 (show 1 < nrConsoles by decide)
  obtain ⟨s₂, c₂, done₂, table₂⟩ := s₁.initScreen_ok 0 (show 2 < nrConsoles by decide)
  refine ⟨s₂.selectConsole 0, ?_, ?_⟩
  · simp only [initScreens, done₀, done₁, done₂, Option.bind_eq_bind, Option.bind_some]
    rfl
  · intro nr bound
    rw [selectConsole_consoleTable, table₂, table₁, table₀]
    obtain rfl | rfl | rfl : nr = 0 ∨ nr = 1 ∨ nr = 2 := by
      simp only [nrConsoles] at bound
      omega
    · exact ⟨c₀, rfl⟩
    · exact ⟨c₁, rfl⟩
    · exact ⟨c₂, rfl⟩

theorem Initialised.consoles (init : Initialised s) :
    ∀ nr, nr < nrConsoles → ∃ cursor, s.consoleTable nr = initConsole nr cursor := by
  obtain ⟨s₀, dispPos, done⟩ := init
  obtain ⟨s', done', consoles⟩ := s₀.initScreens_ok dispPos
  cases done.symm.trans done'
  exact consoles

theorem Initialised.allPlaced (init : Initialised s) : AllPlaced s := by
  intro nr bound
  obtain ⟨cursor, here⟩ := init.consoles nr bound
  rw [here]
  exact initConsole_placed nr cursor

theorem Initialised.allInside (init : Initialised s) : AllInside s := by
  intro nr bound
  obtain ⟨cursor, here⟩ := init.consoles nr bound
  rw [here]
  exact initConsole_inside nr cursor

theorem run_allPlaced (run : Run Initialised Step) :
    ∀ t, t ≤ run.length → AllPlaced (run.state t) :=
  run.invariant (fun _ init => init.allPlaced) fun _ _ _ placed step => placed.step step

/--
The windows stay in their regions exactly as long as no call takes one out of the whole lines of its
console: behind them `scroll_screen()` still finds a part of a line.
-/
theorem window_stays_iff (run : Run Initialised Step) :
    (∀ t, t ≤ run.length → AllInside (run.state t)) ↔
      ∀ t, t < run.length → KeepsWindow (run.state t) (run.act t) := by
  constructor
  next =>
    intro inside t within
    exact (allInside_step_iff (run_allPlaced run t (by omega)) (inside t (by omega))
      (run.steps t within)).mp (inside (t + 1) within)
  next =>
    intro keeps
    refine run.timed_invariant (P := fun _ => AllInside) (fun _ init => init.allInside) ?_
    intro t within inside
    exact (allInside_step_iff (run_allPlaced run t (by omega)) inside (run.steps t within)).mpr
      (keeps t within)

-- The last console, scrolled down line by line.
def scrolledDown (s : Screen) : Nat → Screen
  | 0 => s
  | t + 1 => (scrolledDown s t).scrollScreen 2 scrDn

theorem scrolledDown_console {cursor : Nat} (here : s.consoleTable 2 = initConsole 2 cursor)
    {t : Nat}
    (bound : t ≤ 44) :
    (scrolledDown s t).consoleTable 2 = (initConsole 2 cursor).movedDown t := by
  induction t with
  | zero => exact here
  | succ t ih =>
    have before := ih (by omega)
    have moves : ((initConsole 2 cursor).movedDown t).currentStartAddr + scrSize <
        ((initConsole 2 cursor).movedDown t).originalAddr +
          ((initConsole 2 cursor).movedDown t).vMemLimit := by
      simp only [Console.movedDown, initConsole, conVMemSize_eq, scrWidth, scrSize]
      omega
    rw [scrolledDown, Screen.scrollScreen_consoleTable, Function.update_self, before,
      Console.scrolled_down moves, Console.movedDown_movedDown]

-- Forty-four lines down, the last console shows words behind the video memory.
theorem window_leaves : ∃ run : Run Initialised Step,
    run.length = 44 ∧ (∀ t, t < 44 → run.act t = .scrollScreen 2 scrDn) ∧
      ¬ AllInside (run.state 44) ∧
      vMemSize >>> 1 < ((run.state 44).consoleTable 2).currentStartAddr + scrSize := by
  let blank : Screen := ⟨fun _ => ⟨0, 0, 0, 0⟩, fun _ => ⟨0, 0⟩, fun _ => 0, 0⟩
  obtain ⟨s, done, consoles⟩ := blank.initScreens_ok 0
  obtain ⟨cursor, here⟩ := consoles 2 (by decide)
  have last : (scrolledDown s 44).consoleTable 2 = (initConsole 2 cursor).movedDown 44 :=
    scrolledDown_console here (le_refl 44)
  refine ⟨⟨44, scrolledDown s, fun _ => .scrollScreen 2 scrDn, ⟨blank, 0, done⟩,
    fun t _ => ⟨by decide, rfl⟩⟩, rfl, fun _ _ => rfl, ?_, ?_⟩
  · intro inside
    have window := (inside 2 (by decide)).2
    simp only [last, Console.movedDown, initConsole, conVMemSize_eq, scrWidth, scrSize] at window
    omega
  · simp only [last, Console.movedDown, initConsole, conVMemSize_eq, scrWidth, scrSize]
    decide

end Konix.Terminal
