import Konix.Lib.Reactive
import Konix.Terminal.Consoles

set_option autoImplicit false

namespace Konix.Terminal

open RingBuffers Reactive Runs Klib Session

namespace Task

-- What comes to the consoles with an action: a key is for the one on the screen, and what other
-- processes store is for none of the consoles that there are.
def inputs (s : Task) : Action → List (Nat × Input)
  | .interrupt => []
  | .turn key => key.toList.map fun key => (s.screen.nrCurrentConsole, .key key)
  | .serve segBase msg =>
    match msg.type with
    | .devOpen => [(msg.device.toNat, .opened msg.source)]
    | .devRead => [(msg.device.toNat, .read msg (segBase msg.procNr))]
    | .devWrite =>
      [(msg.device.toNat, .write msg (bufText s.mem
        ((segBase msg.procNr + msg.buf) % 4294967296) msg.cnt.toNat))]
    | _ => []
  | .taken => []
  | .printx nr str procReady =>
    match sysPrintx str procReady with
    | .halts => []
    | .prints text => [(nr, .print text)]
  | .stores place ch => [(nrConsoles, .stores place ch)]

def inputsOf (run : Run Started Step) : Nat → List (Nat × Input)
  | 0 => []
  | t + 1 => inputsOf run t ++ (run.state t).inputs (run.act t)

-- The loop goes over the TTYs that there are.
def OnTable : Place → Prop
  | .tty n => n < nrConsoles
  | .receive => True
  | .send next => OnTable next

-- The consoles in their TTYs.
structure Simulates (s : Task) (readers : Nat → Option Reader) : Prop where
  idle : ∀ n, n < nrConsoles → Idle (s.session n)
  number : ∀ n, n < nrConsoles → (s.ttyTable n).console = n
  shows : ∀ n, n < nrConsoles → Shows (s.ttyTable n) (readers n)
  place : OnTable s.place

variable {s s' : Task} {readers : Nat → Option Reader}

theorem Started.simulates (started : Started s) : Simulates s fun _ => none where
  idle n bound := by
    obtain ⟨w₀, -, here⟩ := started.ttys n bound
    have inBuf : (s.ttyTable n).inBuf = .empty w₀.tty.inBuf.buf := congrArg Tty.inBuf here
    have number : (s.ttyTable n).console = n := congrArg Tty.console here
    refine ⟨⟨?_, started.screen.allWritable, ?_⟩, ?_⟩
    · show (s.ttyTable n).inBuf.Valid ttyInBytes
      rw [inBuf]
      exact RingBuffer.empty_valid _ (by decide)
    · show (s.ttyTable n).console < nrConsoles
      rw [number]
      exact bound
    · show (s.ttyTable n).inBuf.count = 0
      rw [inBuf]
      rfl
  number n bound := by
    obtain ⟨w₀, -, here⟩ := started.ttys n bound
    exact congrArg Tty.console here
  shows n bound := by
    obtain ⟨w₀, nobody, here⟩ := started.ttys n bound
    exact (congrArg Tty.ttyLeftCnt here).trans nobody
  place := by
    rw [started.place]
    show 0 < nrConsoles
    decide

theorem behind_onTable {next : Place} (onTable : OnTable next) : OnTable (s.behind s' next) := by
  rw [behind]
  split_ifs
  · exact onTable
  · exact onTable

theorem Simulates.answers {n : Nat} {input : Input} {w' : Session} (simulates : Simulates s readers)
    (bound : n < nrConsoles) (answers : Answers n (readers n) input (s.session n) w')
    {place : Place}
    (onTable : OnTable place) :
    Simulates { s.withSession n w' with place := place }
      (run (side fun _ => console) readers [(n, input)]).1 ∧
    s.world.performAll (run (side fun _ => console) readers [(n, input)]).2 =
      some (s.withSession n w').world := by
  rw [run_singleton]
  refine ⟨⟨fun m inside => ?_, fun m inside => ?_, fun m inside => ?_, onTable⟩, answers.performs⟩
  · by_cases here : m = n
    · subst here
      refine ⟨⟨?_, answers.idle.screen, ?_⟩, ?_⟩
      all_goals simp only [session, withSession, Function.update_self]
      · exact answers.idle.inBuf
      · exact answers.idle.console
      · exact answers.idle.empty
    · have other := simulates.idle m inside
      refine ⟨⟨?_, answers.idle.screen, ?_⟩, ?_⟩
      all_goals simp only [session, withSession, Function.update_of_ne here]
      · exact other.inBuf
      · exact other.console
      · exact other.empty
  · by_cases here : m = n
    · subst here
      simp only [withSession, Function.update_self]
      exact answers.same.trans (simulates.number m bound)
    · simp only [withSession, Function.update_of_ne here]
      exact simulates.number m inside
  · by_cases here : m = n
    · subst here
      simp only [withSession, side, Function.update_self]
      exact answers.shows
    · simp only [withSession, side, Function.update_of_ne here]
      exact simulates.shows m inside

def nextPlace (n : Nat) : Place := if n + 1 < nrConsoles then .tty (n + 1) else .receive

theorem nextPlace_onTable (n : Nat) : OnTable (nextPlace n) := by
  rw [nextPlace]
  split_ifs with more
  · exact more
  · exact trivial

theorem ttyDevWrite_turn {n : Nat} {s₁ : Task} {key : Option Nat} {w' : Session}
    (read : s.ttyDevRead n = some (s₁, key)) (write : (s₁.session n).ttyDevWrite = some w')
    (empty : w'.tty.inBuf.count = 0) :
    s.turn n = some ({ s₁.withSession n w' with
      place := s₁.behind (s₁.withSession n w') (nextPlace n) }, key) := by
  rw [turn, read]
  simp only [Option.bind_eq_bind, Option.bind_some, write, Option.pure_def, nextPlace]
  rw [if_neg (not_not_intro empty)]

theorem Simulates.turn_nothing {n : Nat} (simulates : Simulates s readers)
    (bound : n < nrConsoles) (keyboard : Keyboard)
    (read : s.ttyDevRead n = some ({ s with keyboard := keyboard }, none)) :
    s.turn n = some ({ s with keyboard := keyboard, place := nextPlace n }, none) := by
  have empty := (simulates.idle n bound).empty
  rw [ttyDevWrite_turn read (ttyDevWrite_empty (w := s.session n) empty) empty]
  simp only [withSession, session, Function.update_eq_self, behind, if_true]

theorem Simulates.turn_key {n key : Nat} {keyboard : Keyboard} (simulates : Simulates s readers)
    (bound : n < nrConsoles) (current : s.isCurrentConsole (s.ttyTable n).console = true)
    (read : s.keyboard.keyboardRead = some (keyboard, some key)) :
    ∃ w' place, s.turn n =
        some ({ s.withSession n w' with keyboard := keyboard, place := place }, some key) ∧
      OnTable place ∧ Answers n (readers n) (.key key) (s.session n) w' := by
  obtain ⟨w', done, answers⟩ :=
    key_answers (simulates.idle n bound) (simulates.shows n bound) key
  have number : (s.session n).tty.console = n := simulates.number n bound
  rw [number] at answers
  let s₁ := { s with keyboard := keyboard }.withSession n ((s.session n).inProcess key)
  have reads : s.ttyDevRead n = some (s₁, some key) := by
    rw [ttyDevRead, if_pos current, read]
    rfl
  have here : s₁.session n = (s.session n).inProcess key := by
    simp only [s₁, session, withSession, Function.update_self]
  refine ⟨w', s₁.behind (s₁.withSession n w') (nextPlace n), ?_,
    behind_onTable (nextPlace_onTable n), answers⟩
  rw [ttyDevWrite_turn reads (here ▸ done) answers.idle.empty]
  simp only [s₁, withSession, Function.update_idem]

-- What the consoles do by themselves at the inputs of an action, the task does.
def Refines (s : Task) (readers : Nat → Option Reader) (a : Action) (s' : Task) : Prop :=
  Simulates s' (Reactive.run (side fun _ => console) readers (s.inputs a)).1 ∧
    s.world.performAll (Reactive.run (side fun _ => console) readers (s.inputs a)).2 = some s'.world

theorem Simulates.quiet (simulates : Simulates s readers) (ttyTable : s'.ttyTable = s.ttyTable)
    (world : s'.world = s.world) (onTable : OnTable s'.place) :
    Simulates s' readers := by
  have screen : s'.screen = s.screen := congrArg World.screen world
  refine ⟨fun n bound => ?_, ?_, ?_, onTable⟩
  · have idle := simulates.idle n bound
    refine ⟨⟨?_, ?_, ?_⟩, ?_⟩
    all_goals simp only [session, ttyTable, screen]
    · exact idle.inBuf
    · exact idle.screen
    · exact idle.console
    · exact idle.empty
  · rw [ttyTable]
    exact simulates.number
  · rw [ttyTable]
    exact simulates.shows

theorem Simulates.refines_turn {n : Nat} {key : Option Nat} (simulates : Simulates s readers)
    (here : s.place = .tty n) (done : s.turn n = some (s', key)) :
    Refines s readers (.turn key) s' := by
  have bound : n < nrConsoles := by
    have onTable := simulates.place
    rwa [here] at onTable
  have nothing (keyboard : Keyboard)
      (read : s.ttyDevRead n = some ({ s with keyboard := keyboard }, none)) :
      Refines s readers (.turn key) s' := by
    cases done.symm.trans (simulates.turn_nothing bound keyboard read)
    exact ⟨simulates.quiet rfl rfl (nextPlace_onTable n), rfl⟩
  by_cases current : s.isCurrentConsole (s.ttyTable n).console = true
  next =>
    cases read : s.keyboard.keyboardRead with
    | none =>
      have stuck : s.turn n = none := by
        rw [turn, ttyDevRead, if_pos current, read]
        rfl
      rw [stuck] at done
      cases done
    | some found =>
      obtain ⟨keyboard, given⟩ := found
      cases given with
      | none =>
        apply nothing keyboard
        rw [ttyDevRead, if_pos current, read]
        rfl
      | some given =>
        obtain ⟨w', place, turns, onTable, answers⟩ := simulates.turn_key bound current read
        cases done.symm.trans turns
        have isHere : s.screen.nrCurrentConsole = n := by
          rw [isCurrentConsole, simulates.number n bound, decide_eq_true_eq] at current
          exact current.symm
        have refines := simulates.answers bound answers onTable
        rw [Refines, Task.inputs, isHere]
        exact ⟨refines.1.quiet rfl rfl onTable, refines.2⟩
  next =>
    apply nothing s.keyboard
    rw [ttyDevRead, if_neg current]

theorem Simulates.refines_serve (segBase : Int → Nat) {msg : Message}
    (simulates : Simulates s readers) (legal : Legal msg) :
    ∃ s', s.serve segBase msg = some s' ∧ Refines s readers (.serve segBase msg) s' := by
  have start (s' : Task) : OnTable (s.behind s' (.tty 0)) :=
    behind_onTable (show 0 < nrConsoles by decide)
  have type := legal.type
  simp only [List.mem_cons, List.not_mem_nil, or_false] at type
  have onTable (transfers : msg.type ∈ [.devRead, .devWrite]) : msg.device.toNat < nrConsoles := by
    have device := legal.device transfers
    omega
  obtain open_ | read | write | hardInt := type
  · refine ⟨_, by rw [serve, branch, open_]; rfl, ?_⟩
    rw [Refines, Task.inputs, open_, run_singleton]
    refine ⟨?_, rfl⟩
    have same : (side (fun _ => console) readers (msg.device.toNat, .opened msg.source)).1 =
        readers := Function.update_eq_self ..
    rw [same]
    exact ⟨fun n bound => ⟨⟨(simulates.idle n bound).inBuf, (simulates.idle n bound).screen,
      (simulates.idle n bound).console⟩, (simulates.idle n bound).empty⟩,
      simulates.number, simulates.shows, start _⟩
  · have transfers : msg.type ∈ [.devRead, .devWrite] := by rw [read]; decide
    have bound := onTable transfers
    have answers := ttyDoRead_answers (readers msg.device.toNat) (simulates.idle _ bound)
      (segBase msg.procNr) (legal.cnt transfers).1 (legal.cnt transfers).2
    rw [show (s.session msg.device.toNat).tty.console = msg.device.toNat from
      simulates.number _ bound] at answers
    refine ⟨_, by rw [serve, branch, read]; rfl, ?_⟩
    rw [Refines, Task.inputs, read]
    exact simulates.answers bound answers (start _)
  · have transfers : msg.type ∈ [.devRead, .devWrite] := by rw [write]; decide
    have bound := onTable transfers
    obtain ⟨w', done, answers⟩ := ttyDoWrite_answers (simulates.idle _ bound)
      (simulates.shows _ bound) (segBase msg.procNr) (legal.cnt transfers).1
    rw [show (s.session msg.device.toNat).tty.console = msg.device.toNat from
      simulates.number _ bound] at answers
    refine ⟨_, by rw [serve, branch, write]; simp only [done]; rfl, ?_⟩
    rw [Refines, Task.inputs, write]
    exact simulates.answers bound answers (start _)
  · refine ⟨_, by rw [serve, branch, hardInt]; rfl, ?_⟩
    rw [Refines, Task.inputs, hardInt]
    exact ⟨simulates.quiet rfl rfl (start _), rfl⟩

theorem Simulates.refines_printx {nr : Nat} {str : List UInt8} {procReady : Int}
    (simulates : Simulates s readers) (bound : nr < nrConsoles)
    (done : s.printx nr str procReady = some s') :
    Refines s readers (.printx nr str procReady) s' := by
  rw [printx] at done
  rw [Refines, Task.inputs]
  cases printed : sysPrintx str procReady with
  | halts =>
    rw [printed] at done
    cases done
  | prints text =>
    have writable : AllWritable s.screen := (simulates.idle nr bound).screen
    obtain ⟨screen, shown, writable'⟩ := outChars_returns writable bound text
    simp only [printed] at done ⊢
    rw [shown] at done
    cases done
    have same : (side (fun _ => console) readers (nr, .print text)).1 = readers :=
      Function.update_eq_self ..
    rw [run_singleton, same]
    refine ⟨⟨fun n inside => ?_, simulates.number, simulates.shows, simulates.place⟩,
      performs_outChars (w := s.world) shown⟩
    have idle := simulates.idle n inside
    exact ⟨⟨idle.inBuf, writable', idle.console⟩, idle.empty⟩

theorem Simulates.refines_stores (simulates : Simulates s readers) (place : Nat) (ch : UInt8) :
    Refines s readers (.stores place ch) { s with mem := Function.update s.mem place ch } := by
  have same : (side (fun _ => console) readers (nrConsoles, .stores place ch)).1 = readers :=
    Function.update_eq_self ..
  rw [Refines, Task.inputs, run_singleton, same]
  refine ⟨⟨fun n inside => ?_, simulates.number, simulates.shows, simulates.place⟩, rfl⟩
  have idle := simulates.idle n inside
  exact ⟨⟨idle.inBuf, idle.screen, idle.console⟩, idle.empty⟩

theorem Simulates.step {a : Action} (simulates : Simulates s readers) (step : Step s a s') :
    Refines s readers a s' := by
  cases a with
  | interrupt =>
    obtain ⟨k, -, rfl⟩ := step
    exact ⟨simulates.quiet rfl rfl simulates.place, rfl⟩
  | turn key =>
    obtain ⟨n, here, done⟩ := step
    exact simulates.refines_turn here done
  | serve segBase msg =>
    obtain ⟨-, legal, done⟩ := step
    obtain ⟨s₁, serves, refines⟩ := simulates.refines_serve segBase legal
    cases done.symm.trans serves
    exact refines
  | taken =>
    obtain ⟨next, here, rfl⟩ := step
    have onTable := simulates.place
    rw [here] at onTable
    exact ⟨simulates.quiet rfl rfl onTable, rfl⟩
  | printx nr str procReady =>
    obtain ⟨bound, done⟩ := step
    exact simulates.refines_printx bound done
  | stores place ch =>
    cases step
    exact simulates.refines_stores place ch

theorem run_simulates (run : Run Started Step) {t : Nat} (within : t ≤ run.length) :
    Simulates (run.state t)
      (Reactive.run (side fun _ => console) (fun _ => none) (inputsOf run t)).1 ∧
    (run.state 0).world.performAll
      (Reactive.run (side fun _ => console) (fun _ => none) (inputsOf run t)).2 =
        some (run.state t).world := by
  induction t with
  | zero => exact ⟨run.start.simulates, rfl⟩
  | succ t ih =>
    obtain ⟨simulates, world⟩ := ih (by omega)
    obtain ⟨simulates', world'⟩ := simulates.step (run.steps t (by omega))
    rw [inputsOf, Reactive.run_append]
    refine ⟨simulates', ?_⟩
    rw [performAll_append, world]
    exact world'

end Task

end Konix.Terminal
