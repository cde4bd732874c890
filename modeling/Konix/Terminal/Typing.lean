import Konix.Terminal.Modifiers
import Konix.Lib.Run

set_option autoImplicit false

namespace Konix.Terminal

open RingBuffers Runs

-- A scan code arrives in the buffer, or `keyboard_read()` is called and gives a key or none.
inductive Action
  | interrupt
  | keyboardRead (given : Option Nat)
deriving DecidableEq, Repr

def Started (strokes : List Stroke) (k : Keyboard) : Prop :=
  ∃ k₀ : Keyboard, k₀.wire = encode strokes ∧ k = k₀.initKeyboard

-- No code is lost: the buffer has room when it comes.
def Typed (k : Keyboard) : Action → Keyboard → Prop
  | .interrupt, k' => k.kbIn.count < kbInBytes ∧ k.interrupt = some k'
  | .keyboardRead given, k' => k.keyboardRead = some (k', given)

def Takes (k : Keyboard) : Action → Prop
  | .interrupt => False
  | .keyboardRead _ => k.kbIn.count ≠ 0

instance (k : Keyboard) : DecidablePred (Takes k)
  | .interrupt => isFalse id
  | .keyboardRead _ => inferInstanceAs (Decidable (k.kbIn.count ≠ 0))

variable {strokes : List Stroke}

def calls (run : Run (Started strokes) Typed) : Nat → Nat
  | 0 => 0
  | t + 1 => calls run t + if Takes (run.state t) (run.act t) then 1 else 0

-- The first `n` strokes have been read, with all of their bytes and no other.
structure Framed (strokes : List Stroke) (n : Nat) (k : Keyboard) : Prop where
  within : n ≤ strokes.length
  stream : k.stream = encode (strokes.drop n)

def Tracks (strokes : List Stroke) (n : Nat) (k : Keyboard) : Prop :=
  ∀ m : Modifier, k.down m = held (strokes.take n) m.key

-- The flags of the key are those of the modifiers that are down after `n` strokes.
def Flagged (strokes : List Stroke) (n : Nat) (key : Nat) : Prop :=
  ∀ m : Modifier, key &&& m.flag ≠ 0 ↔ held (strokes.take n) m.key = true

-- What every state of a run has, whatever the strokes.
structure Settled (strokes : List Stroke) (n : Nat) (k : Keyboard) : Prop
    extends Framed strokes n k where
  valid : k.kbIn.Valid kbInBytes
  altR : k.altR = false

theorem Started.settled {k : Keyboard} (started : Started strokes k) : Settled strokes 0 k := by
  obtain ⟨k₀, wire, rfl⟩ := started
  exact ⟨⟨Nat.zero_le _, wire⟩, RingBuffer.empty_valid _ (by decide), rfl⟩

theorem Started.tracks {k : Keyboard} (started : Started strokes k) : Tracks strokes 0 k := by
  obtain ⟨k₀, -, rfl⟩ := started
  intro m
  cases m <;> rfl

theorem changed_altR (make : Bool) (down : Modifier → Bool) (m : Option Modifier) :
    Keyboard.changed make down m .altR = down .altR := by
  cases m with
  | none => rfl
  | some m => cases m <;> rfl

theorem Settled.more {n : Nat} {k : Keyboard} (settled : Settled strokes n k)
    (some_ : k.kbIn.count ≠ 0) : n < strokes.length := by
  by_contra last
  have nothing : k.stream = [] := by
    rw [settled.stream, List.drop_eq_nil_of_le (Nat.not_lt.mp last)]
    rfl
  have length := congrArg List.length nothing
  rw [Keyboard.stream, List.length_append, RingBuffer.contents_length, List.length_nil] at length
  exact some_ (by omega)

theorem Settled.next_ {n : Nat} {k : Keyboard} (settled : Settled strokes n k)
    (more : n < strokes.length) :
    k.stream = strokes[n].bytes ++ encode (strokes.drop (n + 1)) := by
  rw [settled.stream, List.drop_eq_getElem_cons more]
  rfl

/--
A step reads the next stroke or none, and then the key that is given has the flags of the variables,
which agree with the keys that are down if the stroke is not one that they are mistaken in.
-/
theorem Settled.step {n : Nat} {k k' : Keyboard} {a : Action} (settled : Settled strokes n k)
    (typed : Typed k a k') :
    (¬ Takes k a ∧ Settled strokes n k' ∧ k'.down = k.down ∧ ∀ key, a ≠ .keyboardRead (some key)) ∨
    (Takes k a ∧ Settled strokes (n + 1) k' ∧ ∃ s, strokes[n]? = some s ∧
      k'.down = Keyboard.changed s.pressed k.down s.key.modifier ∧
      ∀ key, a = .keyboardRead (some key) → ∀ m : Modifier, key &&& m.flag ≠ 0 ↔
        k'.down m = true) := by
  cases a with
  | interrupt =>
    obtain ⟨room, arrives⟩ := typed
    have waits : k.wire ≠ [] := by
      intro none_
      rw [Keyboard.interrupt, none_] at arrives
      cases arrives
    obtain ⟨k₁, done, fed, -⟩ := Keyboard.interrupt_ok settled.valid room waits
    cases arrives.symm.trans done
    refine .inl ⟨id, ⟨⟨settled.within, fed.stream.trans settled.stream⟩, fed.valid, ?_⟩, ?_, ?_⟩
    · rw [fed.same]
      exact settled.altR
    · rw [fed.same]
      rfl
    · exact fun _ is_ => Action.noConfusion is_
  | keyboardRead given =>
    have reads : k.keyboardRead = some (k', given) := typed
    by_cases empty : k.kbIn.count = 0
    next =>
      rw [Keyboard.keyboardRead, if_pos empty] at reads
      cases reads
      exact .inl ⟨not_not_intro empty, settled, rfl, fun _ is_ => by cases is_⟩
    next =>
      have more := settled.more empty
      obtain ⟨k₁, given₁, done, valid, rest, down, flags⟩ :=
        Keyboard.keyboardRead_ok settled.valid empty (settled.next_ more)
      cases reads.symm.trans done
      refine .inr ⟨empty, ⟨⟨more, rest⟩, valid, ?_⟩, strokes[n], List.getElem?_eq_getElem more,
        down, ?_⟩
      · exact (congrFun down .altR).trans ((changed_altR ..).trans settled.altR)
      · intro key is_ m
        cases is_
        exact flags key rfl m

-- As long as the variables agree with the keys, the right Alt key is up.
theorem Tracks.step {n : Nat} {k k' : Keyboard} {s : Stroke} (tracks : Tracks strokes n k)
    (altR : k.altR = false) (next_ : strokes[n]? = some s)
    (down : k'.down = Keyboard.changed s.pressed k.down s.key.modifier) :
    Tracks strokes (n + 1) k' ↔ s.Tracked (held (strokes.take n)) := by
  have unnoticed : held (strokes.take n) .rAlt = false := (tracks .altR).symm.trans altR
  have more : held (strokes.take (n + 1)) =
      Function.update (held (strokes.take n)) s.key s.pressed := by
    rw [List.take_add_one, next_]
    exact held_concat _ s
  have now : k.down = fun m => held (strokes.take n) m.key := funext tracks
  rw [← changed_iff unnoticed, Tracks, down, now, more]
  exact ⟨funext, congrFun⟩

theorem run_settled (run : Run (Started strokes) Typed) :
    ∀ t, t ≤ run.length → Settled strokes (calls run t) (run.state t) := by
  refine run.timed_invariant (fun _ => Started.settled) ?_
  intro t within settled
  obtain ⟨not_, settled', -⟩ | ⟨takes, settled', -⟩ := settled.step (run.steps t within)
  · rwa [calls, if_neg not_]
  · rwa [calls, if_pos takes]

theorem run_tracks_iff (run : Run (Started strokes) Typed) {t : Nat} (within : t ≤ run.length) :
    (∀ u, u ≤ t → Tracks strokes (calls run u) (run.state u)) ↔
      ∀ i s, i < calls run t → strokes[i]? = some s → s.Tracked (held (strokes.take i)) := by
  induction t with
  | zero =>
    refine ⟨fun _ i _ before => absurd before (Nat.not_lt_zero i), fun _ u before => ?_⟩
    rw [Nat.le_zero.mp before]
    exact run.start.tracks
  | succ t ih =>
    have earlier := ih (by omega)
    have split : (∀ u, u ≤ t + 1 → Tracks strokes (calls run u) (run.state u)) ↔
        (∀ u, u ≤ t → Tracks strokes (calls run u) (run.state u)) ∧
          Tracks strokes (calls run (t + 1)) (run.state (t + 1)) := by
      refine ⟨fun all => ⟨fun u before => all u (by omega), all (t + 1) (le_refl _)⟩, ?_⟩
      rintro ⟨before, now⟩ u bound
      obtain rfl | less := Nat.eq_or_lt_of_le bound
      · exact now
      · exact before u (by omega)
    have settled := run_settled run t (by omega)
    rw [split, earlier]
    obtain ⟨not_, -, same, -⟩ | ⟨takes, -, s, next_, down, -⟩ :=
      settled.step (run.steps t (by omega))
    next =>
      rw [calls, if_neg not_, Nat.add_zero]
      refine ⟨And.left, fun good => ⟨good, fun m => ?_⟩⟩
      rw [same]
      exact earlier.mpr good t (le_refl t) m
    next =>
      rw [calls, if_pos takes]
      constructor
      · rintro ⟨good, now⟩ i s' before at_
        by_cases last : i = calls run t
        next =>
          subst last
          cases next_.symm.trans at_
          exact ((earlier.mpr good t (le_refl t)).step settled.altR next_ down).mp now
        next => exact good i s' (by omega) at_
      · intro all
        have good : ∀ i s, i < calls run t → strokes[i]? = some s →
            s.Tracked (held (strokes.take i)) := fun i s' before => all i s' (by omega)
        refine ⟨good, ?_⟩
        exact ((earlier.mpr good t (le_refl t)).step settled.altR next_ down).mpr
          (all _ s (Nat.lt_succ_self _) next_)

theorem Settled.reads {n : Nat} {k : Keyboard} (settled : Settled strokes n k) :
    ∃ k' given, k.keyboardRead = some (k', given) := by
  by_cases empty : k.kbIn.count = 0
  next => exact ⟨k, none, if_pos empty⟩
  next =>
    have more : n < strokes.length := settled.more empty
    obtain ⟨k', given, done, -⟩ :=
      Keyboard.keyboardRead_ok settled.valid empty (settled.next_ more)
    exact ⟨k', given, done⟩

/--
Every call returns, and one that finds a byte reads exactly one stroke. The variables agree with the
keys that are down in every state, and every key that is given has the flags of the modifiers that
are down, if and only if no stroke read is a press of the right Alt key, or its release while the
left one is down.
-/
theorem modifiers_tracked_iff (run : Run (Started strokes) Typed) :
    (∀ t, t ≤ run.length → Framed strokes (calls run t) (run.state t) ∧
      ∃ k' given, (run.state t).keyboardRead = some (k', given)) ∧
    ((∀ t, t ≤ run.length → Tracks strokes (calls run t) (run.state t)) ∧
        (∀ t, t < run.length → ∀ key, run.act t = .keyboardRead (some key) →
          Flagged strokes (calls run (t + 1)) key) ↔
      ∀ i s, i < calls run run.length → strokes[i]? = some s →
        s.Tracked (held (strokes.take i))) := by
  refine ⟨fun t within =>
    ⟨(run_settled run t within).toFramed, (run_settled run t within).reads⟩, ?_⟩
  rw [← run_tracks_iff run (le_refl _)]
  refine ⟨And.left, fun tracks => ⟨tracks, fun t within key given m => ?_⟩⟩
  obtain ⟨-, -, -, none_⟩ | ⟨-, -, s, -, -, flags⟩ :=
    (run_settled run t (by omega)).step (run.steps t within)
  · exact absurd given (none_ key)
  · rw [flags key given m, tracks (t + 1) within m]

-- A keyboard on which the right Alt key is about to be pressed,
def rightAlt : Keyboard :=
  Keyboard.initKeyboard ⟨.empty fun _ => 0, encode [.press .rAlt], false, false, false, false,
    false, false, false, true, false⟩

-- when its first code has arrived,
def rightAltComes : Keyboard :=
  { rightAlt with kbIn := rightAlt.kbIn.put kbInBytes 0xE0, wire := [0x38] }

-- and when it has been read.
def rightAltRead : Keyboard :=
  { rightAltComes with
    kbIn := ((rightAltComes.kbIn.drop kbInBytes).put kbInBytes 0x38).drop kbInBytes
    wire := []
    altL := true }

-- The right Alt key is down, but the variable of the left one is set.
theorem right_alt_taken_for_left : ∃ run : Run (Started [.press .rAlt]) Typed,
    run.length = 2 ∧ calls run 2 = 1 ∧ ¬ Tracks [.press .rAlt] (calls run 2) (run.state 2) ∧
      (run.state 2).altR = false ∧ (run.state 2).altL = true ∧
      run.act 1 = .keyboardRead (some (keyAltR + flagAltL)) := by
  refine ⟨⟨2, fun t => if t = 0 then rightAlt else if t = 1 then rightAltComes else rightAltRead,
    fun t => if t = 0 then .interrupt else .keyboardRead (some (keyAltR + flagAltL)),
    ⟨_, rfl, rfl⟩, ?_⟩, rfl, rfl, ?_, rfl, rfl, rfl⟩
  · intro t within
    interval_cases t
    · exact ⟨by decide, rfl⟩
    · rfl
  · intro tracks
    exact absurd (tracks .altR) (by decide)

end Konix.Terminal
