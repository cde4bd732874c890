import Konix.Terminal.Independence
import Konix.Terminal.Typing

set_option autoImplicit false

namespace Konix.Terminal

open RingBuffers Reactive Runs Klib Session

-- What the keyboard driver knows between two keys.
structure Flags where
  shiftL : Bool
  shiftR : Bool
  altL : Bool
  altR : Bool
  ctrlL : Bool
  ctrlR : Bool
  capsLock : Bool
  numLock : Bool
  scrollLock : Bool
deriving DecidableEq, Repr

namespace Flags

def keyboard (f : Flags) : Keyboard :=
  ⟨.empty fun _ => 0, [], f.shiftL, f.shiftR, f.altL, f.altR, f.ctrlL, f.ctrlR, f.capsLock,
    f.numLock, f.scrollLock⟩

def initial : Flags := ⟨false, false, false, false, false, false, false, true, false⟩

end Flags

def Keyboard.flags (k : Keyboard) : Flags :=
  ⟨k.shiftL, k.shiftR, k.altL, k.altR, k.ctrlL, k.ctrlR, k.capsLock, k.numLock, k.scrollLock⟩

def bytesOf (codes : List Code) : List UInt8 := codes.flatMap Code.bytes

-- What a code means, whenever its bytes come and whenever they are read.
def strike (f : Flags) (code : Code) : Flags × List Nat :=
  let read := f.keyboard.decode code.scan
  (read.1.flags, read.2.toList)

section Reading

variable {k : Keyboard} {code : Code} {rest : List UInt8}

theorem switchKey_flags (k : Keyboard) (key : Nat) (make : Bool) :
    (k.switchKey key make).flags = (k.flags.keyboard.switchKey key make).flags := by
  have either {c : Prop} [Decidable c] {p p' q q' : Keyboard} (yes : p.flags = p'.flags)
      (no : q.flags = q'.flags) : (if c then p else q).flags = (if c then p' else q').flags := by
    split_ifs
    · exact yes
    · exact no
  rw [Keyboard.switchKey, Keyboard.switchKey]
  -- every branch sets a flag or a lock
  iterate 6
    refine either rfl ?_
  iterate 3
    refine either (either rfl rfl) ?_
  rfl

-- The second half of `keyboard_read()` does not look at the buffer.
theorem decode_flags (k : Keyboard) (scan : Scan) :
    (k.decode scan).1.flags = (k.flags.keyboard.decode scan).1.flags ∧
      (k.decode scan).2 = (k.flags.keyboard.decode scan).2 := by
  have shown {k k' : Keyboard} (same : k.flags = k'.flags) (key : Nat) :
      k.withFlags key = k'.withFlags key := by
    cases k
    cases k'
    cases same
    rfl
  have column : k.column scan = k.flags.keyboard.column scan := rfl
  simp only [Keyboard.decode, column]
  by_cases special : scan.key = keyPauseBreak ∨ scan.key = keyPrintScreen
  next =>
    simp only [if_pos special]
    exact ⟨rfl, trivial⟩
  next =>
    simp only [if_neg special]
    refine ⟨switchKey_flags .., ?_⟩
    split_ifs
    · exact congrArg some (shown (switchKey_flags ..) _)
    · rfl

theorem keyboardRead_strikes (valid : k.kbIn.Valid kbInBytes) (some_ : k.kbIn.count ≠ 0)
    (unambiguous : code.Unambiguous) (next_ : k.stream = code.bytes ++ rest) :
    ∃ k' given, k.keyboardRead = some (k', given) ∧ k'.kbIn.Valid kbInBytes ∧ k'.stream = rest ∧
      (k'.flags, given.toList) = strike k.flags code := by
  obtain ⟨k₁, done, fed⟩ := Keyboard.readScan_ok valid unambiguous next_
  obtain ⟨buffer, wire⟩ := k₁.decode_stream code.scan
  have same : k₁.flags = k.flags := by
    rw [fed.same]
    rfl
  obtain ⟨flags, given⟩ := decode_flags k₁ code.scan
  refine ⟨(k₁.decode code.scan).1, (k₁.decode code.scan).2, ?_, ?_, ?_, ?_⟩
  · rw [Keyboard.keyboardRead, if_neg some_, done]
    rfl
  · rw [buffer]
    exact fed.valid
  · rw [Keyboard.stream, buffer, wire]
    exact fed.stream
  · rw [flags, given, same]
    rfl

end Reading

def Action.keys : Action → List Nat
  | .interrupt => []
  | .keyboardRead given => given.toList

-- The first `n` codes have been read, with all of their bytes and no other; `keys` is what they
-- mean.
structure Spelled (codes : List Code) (n : Nat) (k : Keyboard) (keys : List Nat) : Prop where
  within : n ≤ codes.length
  stream : k.stream = bytesOf (codes.drop n)
  valid : k.kbIn.Valid kbInBytes
  meant : (k.flags, keys) = run strike Flags.initial (codes.take n)

section Spelling

variable {codes : List Code} {n : Nat} {k k' : Keyboard} {keys : List Nat}

theorem Spelled.more (spelled : Spelled codes n k keys) (some_ : k.kbIn.count ≠ 0) :
    n < codes.length := by
  by_contra last
  have nothing : k.stream = [] := by
    rw [spelled.stream, List.drop_eq_nil_of_le (Nat.not_lt.mp last)]
    rfl
  have length := congrArg List.length nothing
  rw [Keyboard.stream, List.length_append, RingBuffer.contents_length, List.length_nil] at length
  exact some_ (by omega)

theorem Spelled.next_ (spelled : Spelled codes n k keys) (more : n < codes.length) :
    k.stream = codes[n].bytes ++ bytesOf (codes.drop (n + 1)) := by
  rw [spelled.stream, List.drop_eq_getElem_cons more]
  rfl

theorem interrupt_fed (valid : k.kbIn.Valid kbInBytes) (typed : Typed k .interrupt k') :
    Keyboard.Fed k.stream k k' := by
  obtain ⟨room, arrives⟩ := typed
  have waits : k.wire ≠ [] := by
    intro none_
    rw [Keyboard.interrupt, none_] at arrives
    cases arrives
  obtain ⟨k₁, done, fed, -⟩ := Keyboard.interrupt_ok valid room waits
  cases arrives.symm.trans done
  exact fed

theorem Spelled.typed {a : Action} (unambiguous : ∀ code ∈ codes, code.Unambiguous)
    (spelled : Spelled codes n k keys) (typed : Typed k a k') :
    ∃ n', Spelled codes n' k' (keys ++ a.keys) := by
  cases a with
  | interrupt =>
    have fed := interrupt_fed spelled.valid typed
    refine ⟨n, spelled.within, fed.stream.trans spelled.stream, fed.valid, ?_⟩
    rw [Action.keys, List.append_nil, ← spelled.meant, fed.same]
    rfl
  | keyboardRead given =>
    have reads : k.keyboardRead = some (k', given) := typed
    by_cases empty : k.kbIn.count = 0
    next =>
      rw [Keyboard.keyboardRead, if_pos empty] at reads
      cases reads
      refine ⟨n, spelled.within, spelled.stream, spelled.valid, ?_⟩
      rw [Action.keys, Option.toList_none, List.append_nil]
      exact spelled.meant
    next =>
      have more := spelled.more empty
      obtain ⟨k₁, given₁, done, valid, rest, meant⟩ := keyboardRead_strikes spelled.valid empty
        (unambiguous _ (List.getElem_mem more)) (spelled.next_ more)
      cases reads.symm.trans done
      have before := Prod.mk.inj spelled.meant
      refine ⟨n + 1, more, rest, valid, ?_⟩
      rw [Action.keys, List.take_succ_eq_append_getElem more, run_append, run_singleton, ← before.1,
        ← before.2, ← meant]

theorem bytesOf_nil {codes : List Code} (none_ : bytesOf codes = []) : codes = [] := by
  cases codes with
  | nil => rfl
  | cons code codes =>
    obtain ⟨first, -⟩ := List.append_eq_nil_iff.mp none_
    cases code with
    | printScreen make => cases make <;> cases first
    | _ => cases first

theorem Spelled.rest (spelled : Spelled codes n k keys) :
    ∃ later, (run strike Flags.initial codes).2 = keys ++ later ∧ (k.stream = [] → later = []) := by
  have keys_ := (Prod.mk.inj spelled.meant).2
  have whole : (run strike Flags.initial codes).2 = keys ++
      (run strike (run strike Flags.initial (codes.take n)).1 (codes.drop n)).2 := by
    rw [keys_, ← List.take_append_drop n codes, run_append, List.take_append_drop]
  refine ⟨_, whole, fun none_ => ?_⟩
  rw [bytesOf_nil (spelled.stream.symm.trans none_)]
  rfl

end Spelling

def keysOf (inputs : List (Nat × Input)) : List (Nat × Nat) :=
  inputs.filterMap fun
    | (nr, .key key) => some (nr, key)
    | _ => none

theorem keysOf_append (before after : List (Nat × Input)) :
    keysOf (before ++ after) = keysOf before ++ keysOf after :=
  List.filterMap_append

namespace Task

variable {s s' : Task} {a : Action}

-- Only interrupts and the turns of the console on the screen work on the keyboard.
theorem Step.keyboard (step : Step s a s')
    (kept : a = .interrupt → s.keyboard.kbIn.count < kbInBytes) :
    s'.keyboard = s.keyboard ∧ keysOf (s.inputs a) = [] ∨
      ∃ b : Terminal.Action, Typed s.keyboard b s'.keyboard ∧
        keysOf (s.inputs a) = b.keys.map fun key => (s.screen.nrCurrentConsole, key) := by
  cases a with
  | interrupt =>
    obtain ⟨k, arrives, rfl⟩ := step
    exact .inr ⟨.interrupt, ⟨kept rfl, arrives⟩, rfl⟩
  | turn key =>
    obtain ⟨n, -, done⟩ := step
    obtain ⟨⟨s₁, key₁⟩, read, done⟩ := Option.bind_eq_some_iff.mp done
    obtain ⟨w, -, done⟩ := Option.bind_eq_some_iff.mp done
    cases done
    have same : keysOf (s.inputs (.turn key)) =
        key.toList.map fun key => (s.screen.nrCurrentConsole, key) := by
      cases key <;> rfl
    rw [same]
    rw [ttyDevRead] at read
    split_ifs at read
    · obtain ⟨⟨keyboard, given⟩, reads, rest⟩ := Option.bind_eq_some_iff.mp read
      cases given with
      | none =>
        cases rest
        exact .inr ⟨.keyboardRead none, reads, rfl⟩
      | some given =>
        cases rest
        exact .inr ⟨.keyboardRead (some given), reads, rfl⟩
    · cases read
      exact .inl ⟨rfl, rfl⟩
  | serve segBase msg =>
    obtain ⟨-, legal, done⟩ := step
    obtain ⟨s₁, branched, rfl⟩ := Option.map_eq_some_iff.mp done
    have type := legal.type
    simp only [List.mem_cons, List.not_mem_nil, or_false] at type
    obtain is_ | is_ | is_ | is_ := type
    all_goals rw [branch, is_] at branched
    all_goals rw [inputs, is_]
    · cases branched
      exact .inl ⟨rfl, rfl⟩
    · cases branched
      exact .inl ⟨rfl, rfl⟩
    · obtain ⟨w, -, rfl⟩ := Option.map_eq_some_iff.mp branched
      exact .inl ⟨rfl, rfl⟩
    · cases branched
      exact .inl ⟨rfl, rfl⟩
  | taken =>
    obtain ⟨next, -, rfl⟩ := step
    exact .inl ⟨rfl, rfl⟩
  | printx nr str procReady =>
    obtain ⟨-, done⟩ := step
    rw [printx] at done
    rw [inputs]
    cases printed : sysPrintx str procReady with
    | halts =>
      rw [printed] at done
      cases done
    | prints text =>
      rw [printed] at done
      obtain ⟨screen, -, rfl⟩ := Option.map_eq_some_iff.mp done
      exact .inl ⟨rfl, rfl⟩
  | stores place ch =>
    cases step
    exact .inl ⟨rfl, rfl⟩

-- No code is lost: the buffer has room when it comes.
def KeepsCodes (run : Run Started Step) : Prop :=
  ∀ t, t < run.length → run.act t = .interrupt → (run.state t).keyboard.kbIn.count < kbInBytes

theorem run_spelled {codes : List Code} (unambiguous : ∀ code ∈ codes, code.Unambiguous)
    (run : Run Started Step) (wire : (run.state 0).keyboard.wire = bytesOf codes)
    (keeps : KeepsCodes run) {t : Nat} (within : t ≤ run.length) :
    ∃ n, Spelled codes n (run.state t).keyboard ((keysOf (inputsOf run t)).map Prod.snd) := by
  induction t with
  | zero =>
    obtain ⟨k₀, initialised⟩ := run.start.keyboard
    refine ⟨0, Nat.zero_le _, ?_, ?_, ?_⟩
    · rw [Keyboard.stream, wire, initialised]
      rfl
    · rw [initialised]
      exact RingBuffer.empty_valid _ (by decide)
    · rw [initialised]
      rfl
  | succ t ih =>
    obtain ⟨n, spelled⟩ := ih (by omega)
    rw [inputsOf, keysOf_append, List.map_append]
    obtain ⟨same, none_⟩ | ⟨b, typed, keys⟩ :=
      (run.steps t (by omega)).keyboard (keeps t (by omega))
    · rw [none_, same, List.map_nil, List.append_nil]
      exact ⟨n, spelled⟩
    · rw [keys, List.map_map, show Prod.snd ∘ (fun key => (_, key)) = id from rfl, List.map_id]
      exact spelled.typed unambiguous typed

end Task

-- The entry of the key map for a key with the scan code, alone or with shift.
def legend (scanCode : UInt8) (shift : Bool) : Nat := keyrow scanCode (if shift then 1 else 0)

def entryOf (ch : UInt8) : Nat :=
  if ch = newline then keyEnter else if ch = backspace then keyBackspace else ch.toNat

-- The first key that has the character on it, and whether it needs shift.
def keyFor (ch : UInt8) : Option (UInt8 × Bool) :=
  ((List.range 128).flatMap fun n => [(UInt8.ofNat n, false), (UInt8.ofNat n, true)]).find? fun p =>
    legend p.1 p.2 = entryOf ch

-- The key goes down and up: its break code is the make code with `FLAG_BREAK`.
def hit (scanCode : UInt8) : List Code := [.plain scanCode, .plain (scanCode ||| 0x80)]

-- The left Shift key is held where it is needed.
def codesOf (ch : UInt8) : List Code :=
  match keyFor ch with
  | none => []
  | some (scanCode, false) => hit scanCode
  | some (scanCode, true) => .plain 0x2A :: hit scanCode ++ [.plain 0xAA]

def typing (text : List UInt8) : List Code := text.flatMap codesOf

def Typable (ch : UInt8) : Prop := printable ch ∨ ch = newline ∨ ch = backspace

instance (ch : UInt8) : Decidable (Typable ch) := by unfold Typable; infer_instance

-- The character that a key puts into the buffer of the console, if any.
def charOf (key : Nat) : Option UInt8 := (keyPut key).map UInt8.ofNat

def OnlyChar (key : Nat) : Prop := keyPut key ≠ none ∨ looks key = []

instance (key : Nat) : Decidable (OnlyChar key) := by unfold OnlyChar; infer_instance

-- The codes mean just the characters of the text, and leave the flags as they were.
structure Means (codes : List Code) (text : List UInt8) : Prop where
  unambiguous : ∀ code ∈ codes, code.Unambiguous
  flags : (run strike .initial codes).1 = .initial
  chars : (run strike .initial codes).2.filterMap charOf = text
  only : ∀ key ∈ (run strike .initial codes).2, OnlyChar key

theorem codesOf_means {ch : UInt8} (typable : Typable ch) : Means (codesOf ch) [ch] := by
  have all : ∀ n < 128, Typable (UInt8.ofNat n) →
      (∀ code ∈ codesOf (UInt8.ofNat n), code.Unambiguous) ∧
      (run strike .initial (codesOf (UInt8.ofNat n))).1 = .initial ∧
      (run strike .initial (codesOf (UInt8.ofNat n))).2.filterMap charOf = [UInt8.ofNat n] ∧
      ∀ key ∈ (run strike .initial (codesOf (UInt8.ofNat n))).2, OnlyChar key := by
    decide +kernel
  have small : ch.toNat < 128 := by
    obtain ⟨-, upper⟩ | rfl | rfl := typable
    · have bound : ch.toNat ≤ 126 := UInt8.le_iff_toNat_le.mp upper
      omega
    · decide
    · decide
  have here := all ch.toNat small
  rw [UInt8.ofNat_toNat] at here
  obtain ⟨unambiguous, flags, chars, only⟩ := here typable
  exact ⟨unambiguous, flags, chars, only⟩

theorem Means.append {codes codes' : List Code} {text text' : List UInt8} (means : Means codes text)
    (means' : Means codes' text') : Means (codes ++ codes') (text ++ text') := by
  have both : run strike .initial (codes ++ codes') = ((run strike .initial codes').1,
      (run strike .initial codes).2 ++ (run strike .initial codes').2) := by
    rw [run_append, means.flags]
  refine ⟨?_, ?_, ?_, ?_⟩
  · exact List.forall_mem_append.mpr ⟨means.unambiguous, means'.unambiguous⟩
  · rw [both]
    exact means'.flags
  · rw [both, List.filterMap_append, means.chars, means'.chars]
  · rw [both]
    exact List.forall_mem_append.mpr ⟨means.only, means'.only⟩

theorem typing_means {text : List UInt8} (typable : ∀ ch ∈ text, Typable ch) :
    Means (typing text) text := by
  induction text with
  | nil =>
    exact ⟨fun _ member => absurd member List.not_mem_nil, rfl, rfl,
      fun _ member => absurd member List.not_mem_nil⟩
  | cons ch text ih =>
    have first := codesOf_means (typable ch List.mem_cons_self)
    exact first.append (ih fun ch member => typable ch (List.mem_cons_of_mem _ member))

section OnScreen

theorem scrollScreen_current (screen : Screen) (nr : Nat) (direction : Int) :
    (screen.scrollScreen nr direction).nrCurrentConsole = screen.nrCurrentConsole := by
  have flushed (screen : Screen) :
      (screen.flush nr).nrCurrentConsole = screen.nrCurrentConsole := by
    rw [Screen.flush]
    split_ifs <;> rfl
  rw [Screen.scrollScreen, flushed]
  split_ifs <;> rfl

theorem outChar_current {screen screen' : Screen} {nr : Nat} {ch : UInt8}
    (done : screen.outChar nr ch = some screen') :
    screen'.nrCurrentConsole = screen.nrCurrentConsole := by
  have scrolled : ∀ (fuel : Nat) (screen screen' : Screen),
      Screen.scrollToCursor fuel screen nr = some screen' →
        screen'.nrCurrentConsole = screen.nrCurrentConsole := by
    intro fuel
    induction fuel with
    | zero => exact fun _ _ none_ => by cases none_
    | succ fuel ih =>
      intro screen screen' done
      rw [Screen.scrollToCursor] at done
      split_ifs at done
      · exact (ih _ _ done).trans (scrollScreen_current ..)
      · cases done
        rfl
  have put : (screen.putChar nr ch).nrCurrentConsole = screen.nrCurrentConsole := by
    rw [Screen.putChar]
    split_ifs <;> rfl
  obtain ⟨screen₁, done₁, rfl⟩ := Option.map_eq_some_iff.mp done
  rw [Screen.flush]
  split_ifs <;> exact (scrolled _ _ _ done₁).trans put

theorem perform_current {w w' : World} {x : Nat × Effect} (done : w.perform x = some w')
    (other : ∀ nr, x.2 ≠ .select nr) : w'.screen.nrCurrentConsole = w.screen.nrCurrentConsole := by
  obtain ⟨nr, effect⟩ := x
  cases effect with
  | outChar ch =>
    obtain ⟨screen, shown, rfl⟩ := Option.map_eq_some_iff.mp done
    exact outChar_current shown
  | scroll direction =>
    cases done
    exact scrollScreen_current ..
  | select nrConsole => exact absurd rfl (other nrConsole)
  | store place ch =>
    cases done
    rfl
  | send dest msg =>
    cases done
    rfl

theorem performAll_current {w w' : World} {effects : List (Nat × Effect)}
    (done : w.performAll effects = some w') (other : ∀ x ∈ effects, ∀ nr, x.2 ≠ .select nr) :
    w'.screen.nrCurrentConsole = w.screen.nrCurrentConsole := by
  induction effects generalizing w with
  | nil =>
    cases done
    rfl
  | cons x effects ih =>
    obtain ⟨w₁, first, rest⟩ := Option.bind_eq_some_iff.mp done
    rw [ih rest fun y member => other y (List.mem_cons_of_mem _ member)]
    exact perform_current first (other x List.mem_cons_self)

theorem console_select {reader : Option Reader} {input : Input} {nr : Int}
    (only : ∀ key, input = .key key → OnlyChar key) :
    .select nr ∉ (console reader input).2 := by
  intro member
  cases input with
  | key key =>
    rw [console] at member
    cases puts : keyPut key with
    | none =>
      simp only [puts, (only key rfl).resolve_left (not_not_intro puts)] at member
      cases member
    | some put =>
      simp only [puts] at member
      cases reader with
      | none => cases member
      | some r =>
        simp only [Reader.typed, Reader.echo] at member
        split_ifs at member <;> simp at member
  | opened source => simp [console] at member
  | read msg segBase => simp [console] at member
  | write msg text => simp [console] at member
  | print text => simp [console] at member
  | stores place ch => simp [console] at member

theorem side_select {inputs : List (Nat × Input)} {readers : Nat → Option Reader}
    (only : ∀ x ∈ keysOf inputs, OnlyChar x.2) :
    ∀ x ∈ (Reactive.run (side fun _ => console) readers inputs).2, ∀ nr, x.2 ≠ .select nr := by
  induction inputs generalizing readers with
  | nil => exact fun x member => absurd member List.not_mem_nil
  | cons input inputs ih =>
    obtain ⟨k, input⟩ := input
    rw [Reactive.run, List.forall_mem_append]
    constructor
    · intro x member nr is_
      obtain ⟨effect, performed, rfl⟩ := List.mem_map.mp member
      subst is_
      refine console_select (fun key same => only (k, key) ?_) performed
      refine List.mem_filterMap.mpr ⟨(k, input), List.mem_cons_self, ?_⟩
      cases same
      rfl
    · refine ih fun x member => only x ?_
      obtain ⟨input', member', is_⟩ := List.mem_filterMap.mp member
      exact List.mem_filterMap.mpr ⟨input', List.mem_cons_of_mem _ member', is_⟩

theorem InitialisedInside.current {screen : Screen} (init : InitialisedInside screen) :
    screen.nrCurrentConsole = 0 := by
  obtain ⟨s₀, dispPos, -, done⟩ := init
  rw [Screen.initScreens] at done
  simp only [Option.bind_eq_bind, Option.bind_eq_some_iff, Option.pure_def,
    Option.some.injEq] at done
  obtain ⟨s₁, -, s₂, -, s₃, -, rfl⟩ := done
  rfl

end OnScreen

def charsOf (inputs : List (Nat × Input)) : List (Nat × UInt8) :=
  (keysOf inputs).filterMap fun x => (charOf x.2).map fun ch => (x.1, ch)

namespace Task

-- The first console stays on the screen as long as no key asks for another one.
theorem run_current (run : Run Started Step) {t : Nat} (within : t ≤ run.length)
    (only : ∀ x ∈ keysOf (inputsOf run t), OnlyChar x.2) :
    (run.state t).screen.nrCurrentConsole = 0 :=
  (performAll_current (run_simulates run within).2
    (side_select only)).trans run.start.screen.current

theorem keys_current (run : Run Started Step) (keeps : KeepsCodes run) {t : Nat}
    (within : t ≤ run.length) (only : ∀ x ∈ keysOf (inputsOf run t), OnlyChar x.2) :
    ∀ x ∈ keysOf (inputsOf run t), x.1 = 0 := by
  induction t with
  | zero => exact fun x member => absurd member List.not_mem_nil
  | succ t ih =>
    rw [inputsOf, keysOf_append, List.forall_mem_append] at only ⊢
    refine ⟨ih (by omega) only.1, ?_⟩
    obtain ⟨-, none_⟩ | ⟨b, -, keys⟩ := (run.steps t (by omega)).keyboard (keeps t (by omega))
    · rw [none_]
      exact fun x member => absurd member List.not_mem_nil
    · rw [keys, run_current run (by omega) only.1]
      intro x member
      obtain ⟨key, -, rfl⟩ := List.mem_map.mp member
      rfl

def blankScreen : Screen :=
    ⟨fun nr => initConsole nr 0, fun _ => ⟨32, defaultCharColor⟩, fun _ => 0, 0⟩

def shownScreen : Screen := (blankScreen.initScreens 0).getD blankScreen

theorem shownScreen_initialised : InitialisedInside shownScreen := by
  have shown : (blankScreen.initScreens 0).isSome = true := by decide +kernel
  refine ⟨blankScreen, 0, by decide, ?_⟩
  rw [shownScreen]
  cases done : blankScreen.initScreens 0 with
  | none =>
    rw [done] at shown
    cases shown
  | some screen => rfl

-- The task has started, and someone types `Hi`.
def typistTask : Task where
  ttyTable := fun n => ⟨.empty fun _ => 0, 0, 0, 0, 0, 0, n⟩
  keyboard := { Flags.initial.keyboard with wire := bytesOf (typing [72, 105]) }
  screen := shownScreen
  mem := fun _ => 0
  sent := []
  place := .tty 0

theorem typistTask_started : Started typistTask where
  keyboard := ⟨typistTask.keyboard, rfl⟩
  screen := by
    simp only [typistTask]
    exact shownScreen_initialised
  ttys := fun n _ => ⟨typistTask.session n, rfl, rfl⟩
  place := rfl

-- All six codes come, and then the task goes around its loop. It reads the Shift key with the first
-- code, `H` with the second one and `i` with the fifth one.
def typistAct (t : Nat) : Action :=
  if t < 6 then .interrupt
  else if t = 6 then .turn (some (keyShiftL ||| flagShiftL))
  else if t = 10 then .turn (some (72 ||| flagShiftL))
  else if t = 22 then .turn (some 105)
  else if t % 4 = 1 then .serve (fun _ => 0) { resetMsg with type := .hardInt }
  else .turn none

def typistTurn (s : Task) : Action → Option Task
  | .interrupt => s.keyboard.interrupt.map fun k => { s with keyboard := k }
  | .turn key =>
    match s.place with
    | .tty n =>
      match s.turn n with
      | some (s', key') => if key' = key then some s' else none
      | none => none
    | _ => none
  | .serve segBase msg =>
    if s.place = .receive ∧ msg.type = .hardInt then s.serve segBase msg else none
  | _ => none

theorem step_typistTurn {s s' : Task} {a : Action} (done : typistTurn s a = some s') :
    Step s a s' := by
  cases a with
  | interrupt =>
    obtain ⟨k, arrives, rfl⟩ := Option.map_eq_some_iff.mp done
    exact ⟨k, arrives, rfl⟩
  | turn key =>
    rw [typistTurn] at done
    split at done
    · split at done
      · split_ifs at done with same
        cases done
        subst same
        exact ⟨_, by assumption, by assumption⟩
      · cases done
    · cases done
  | serve segBase msg =>
    rw [typistTurn] at done
    split_ifs at done with ready
    refine ⟨ready.1, ⟨?_, ?_, ?_⟩, done⟩
    all_goals rw [ready.2]
    · decide
    · exact fun member => absurd member (by decide)
    · exact fun member => absurd member (by decide)
  | taken => cases done
  | printx nr str procReady => cases done
  | stores place ch => cases done

def typistState : Nat → Task
  | 0 => typistTask
  | t + 1 => (typistTurn (typistState t) (typistAct t)).getD typistTask

def typistRun : Run Started Step where
  length := 30
  state := typistState
  act := typistAct
  start := typistTask_started
  steps t within := by
    have goesOn : ∀ t, t < 30 → (typistTurn (typistState t) (typistAct t)).isSome := by
      decide +kernel
    obtain ⟨s', done⟩ := Option.isSome_iff_exists.mp (goesOn t within)
    rw [typistState, done]
    exact step_typistTurn done

/--
Every text can be typed: if the keys of its characters are hit one after the other, with the left
Shift key held where it is needed, then its characters come to the first console in their order,
whatever else the task serves and whenever it finds the time to read the keyboard, as long as no
code is lost; and when all codes have been read, the text has come whole.
-/
theorem text_typed {text : List UInt8} (typable : ∀ ch ∈ text, Typable ch) (run : Run Started Step)
    (wire : (run.state 0).keyboard.wire = bytesOf (typing text)) (keeps : KeepsCodes run) :
    ∀ t, t ≤ run.length →
      charsOf (inputsOf run t) <+: (text.map fun ch => (0, ch)) ∧
      ((run.state t).keyboard.stream = [] →
        charsOf (inputsOf run t) = text.map fun ch => (0, ch)) := by
  intro t within
  have means := typing_means typable
  obtain ⟨n, spelled⟩ := run_spelled means.unambiguous run wire keeps within
  obtain ⟨later, whole, last⟩ := spelled.rest
  have only : ∀ x ∈ keysOf (inputsOf run t), OnlyChar x.2 := by
    intro x member
    apply means.only
    rw [whole]
    exact List.mem_append_left _ (List.mem_map.mpr ⟨x, member, rfl⟩)
  have first := keys_current run keeps within only
  have labelled : charsOf (inputsOf run t) =
      (((keysOf (inputsOf run t)).map Prod.snd).filterMap charOf).map fun ch => (0, ch) := by
    rw [charsOf, List.filterMap_map, List.map_filterMap]
    exact List.filterMap_congr fun x member => by rw [Function.comp_apply, first x member]
  have chars := means.chars
  rw [whole, List.filterMap_append] at chars
  rw [labelled]
  refine ⟨List.IsPrefix.map _ ⟨_, chars⟩, fun none_ => ?_⟩
  rw [last none_, List.filterMap_nil, List.append_nil] at chars
  rw [chars]

theorem text_typed_hi : charsOf (inputsOf typistRun 30) = [(0, 72), (0, 105)] := by
  have typable : ∀ ch ∈ [(72 : UInt8), 105], Typable ch := by
    intro ch member
    obtain rfl | rfl : ch = 72 ∨ ch = 105 := by simpa using member
    · decide
    · decide
  have room : ∀ t, t < 30 → (typistState t).keyboard.kbIn.count < kbInBytes := by
    decide +kernel
  exact (text_typed typable typistRun rfl (fun t within _ => room t within) 30 (le_refl _)).2
    (by decide +kernel)

end Task

end Konix.Terminal
