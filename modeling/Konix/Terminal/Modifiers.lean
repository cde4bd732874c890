import Konix.Terminal.Keyboard

set_option autoImplicit false

namespace Konix.Terminal

open RingBuffers

inductive Modifier
  | shiftL | shiftR | ctrlL | ctrlR | altL | altR
deriving DecidableEq, Repr

def modifierOf (key : Nat) : Option Modifier :=
  if key = keyShiftL then some .shiftL
  else if key = keyShiftR then some .shiftR
  else if key = keyCtrlL then some .ctrlL
  else if key = keyCtrlR then some .ctrlR
  else if key = keyAltL then some .altL
  else if key = keyAltR then some .altR
  else none

def Key.modifier : Key → Option Modifier
  | .lShft => some .shiftL
  | .rShft => some .shiftR
  | .lCtrl => some .ctrlL
  | .rCtrl => some .ctrlR
  | .lAlt => some .altL
  | .rAlt => some .altR
  | _ => none

namespace Modifier

def key : Modifier → Key
  | .shiftL => .lShft
  | .shiftR => .rShft
  | .ctrlL => .lCtrl
  | .ctrlR => .rCtrl
  | .altL => .lAlt
  | .altR => .rAlt

def flag : Modifier → Nat
  | .shiftL => flagShiftL
  | .shiftR => flagShiftR
  | .ctrlL => flagCtrlL
  | .ctrlR => flagCtrlR
  | .altL => flagAltL
  | .altR => flagAltR

end Modifier

-- A key goes down or up; the release of Pause is no stroke, as it sends nothing.
inductive Stroke
  | press (key : Key)
  | release (key : Key) (sends : key ≠ .pause)

namespace Stroke

def key : Stroke → Key
  | .press key => key
  | .release key _ => key

def pressed : Stroke → Bool
  | .press _ => true
  | .release _ _ => false

def bytes : Stroke → List UInt8
  | .press key => key.makeCode
  | .release key _ => key.breakCode

end Stroke

def encode (strokes : List Stroke) : List UInt8 := strokes.flatMap Stroke.bytes

def held (strokes : List Stroke) : Key → Bool :=
  strokes.foldl (fun down s => Function.update down s.key s.pressed) fun _ => false

inductive Code
  | plain (scanCode : UInt8)
  | extended (scanCode : UInt8)
  | printScreen (make : Bool)
  | pause

namespace Code

def bytes : Code → List UInt8
  | .plain scanCode => [scanCode]
  | .extended scanCode => [0xE0, scanCode]
  | .printScreen true => [0xE0, 0x2A, 0xE0, 0x37]
  | .printScreen false => [0xE0, 0xB7, 0xE0, 0xAA]
  | .pause => [0xE1, 0x1D, 0x45, 0xE1, 0x9D, 0xC5]

def scan : Code → Scan
  | .plain scanCode => ⟨scanCode, false, 0⟩
  | .extended scanCode => ⟨scanCode, true, 0⟩
  | .printScreen true => ⟨0x2A, false, keyPrintScreen⟩
  | .printScreen false => ⟨0xB7, false, keyPrintScreen⟩
  | .pause => ⟨0xE1, false, keyPauseBreak⟩

def Unambiguous : Code → Prop
  | .plain scanCode => scanCode ≠ 0xE0 ∧ scanCode ≠ 0xE1
  | .extended scanCode => scanCode ≠ 0x2A ∧ scanCode ≠ 0xB7
  | _ => True

end Code

instance : DecidablePred Code.Unambiguous
  | .plain scanCode => inferInstanceAs (Decidable (scanCode ≠ 0xE0 ∧ scanCode ≠ 0xE1))
  | .extended scanCode => inferInstanceAs (Decidable (scanCode ≠ 0x2A ∧ scanCode ≠ 0xB7))
  | .printScreen _ => isTrue trivial
  | .pause => isTrue trivial

-- The entries of the key map that a code can select.
def Code.entries : Code → List Nat
  | .plain scanCode => [keyrow scanCode 0, keyrow scanCode 1]
  | .extended scanCode => [keyrow scanCode 2]
  | _ => []

/--
The bytes have the shape of the code, and all its entries stand for the modifier that the key is, if
any; then the code tells whether the key goes down.
-/
structure Code.Means (code : Code) (bytes : List UInt8) (key : Key) (pressed : Bool) : Prop where
  bytes : bytes = code.bytes
  unambiguous : code.Unambiguous
  entries : ∀ entry ∈ code.entries, modifierOf entry = key.modifier
  modifier : key.modifier = none ∨
    code.scan.key = 0 ∧ decide (code.scan.scanCode &&& 0x80 = 0) = pressed

theorem makeCode_means (key : Key) : ∃ code : Code, code.Means key.makeCode key true := by
  cases key <;> first
    | exact ⟨.plain _, rfl, by decide, by decide +kernel, by decide⟩
    | exact ⟨.extended _, rfl, by decide, by decide +kernel, by decide⟩
    | exact ⟨.printScreen true, rfl, trivial, by decide, by decide⟩
    | exact ⟨.pause, rfl, trivial, by decide, by decide⟩

theorem breakCode_means {key : Key} (sends : key ≠ .pause) :
    ∃ code : Code, code.Means key.breakCode key false := by
  cases key <;> first
    | exact absurd rfl sends
    | exact ⟨.plain _, rfl, by decide, by decide +kernel, by decide⟩
    | exact ⟨.extended _, rfl, by decide, by decide +kernel, by decide⟩
    | exact ⟨.printScreen false, rfl, trivial, by decide, by decide⟩

theorem Stroke.means (s : Stroke) : ∃ code : Code, code.Means s.bytes s.key s.pressed := by
  cases s with
  | press key => exact makeCode_means key
  | release key sends => exact breakCode_means sends

namespace Keyboard

variable {k k' k'' : Keyboard} {rest : List UInt8}

def stream (k : Keyboard) : List UInt8 := k.kbIn.contents kbInBytes ++ k.wire

-- Bytes have arrived and have been read up to `rest`; no other variable has changed.
structure Fed (rest : List UInt8) (k k' : Keyboard) : Prop where
  valid : k'.kbIn.Valid kbInBytes
  stream : k'.stream = rest
  same : k' = { k with kbIn := k'.kbIn, wire := k'.wire }

theorem Fed.trans {rest' : List UInt8} (first : Fed rest' k k') (second : Fed rest k' k'') :
    Fed rest k k'' := by
  refine ⟨second.valid, second.stream, second.same.trans ?_⟩
  rw [first.same]

theorem interrupt_ok (valid : k.kbIn.Valid kbInBytes) (room : k.kbIn.count < kbInBytes)
    (waits : k.wire ≠ []) :
    ∃ k', k.interrupt = some k' ∧ Fed k.stream k k' ∧ k'.kbIn.count = k.kbIn.count + 1 := by
  obtain ⟨scanCode, wire, first⟩ := List.exists_cons_of_ne_nil waits
  refine ⟨{ k with kbIn := k.kbIn.put kbInBytes scanCode, wire := wire }, ?_, ⟨?_, ?_, rfl⟩, rfl⟩
  · rw [interrupt, first]
    exact congrArg some (if_pos room)
  · exact valid.put scanCode room
  · show (k.kbIn.put kbInBytes scanCode).contents kbInBytes ++ wire = k.stream
    rw [RingBuffer.put_contents valid scanCode room, stream, first, List.append_assoc]
    rfl

theorem getByteFromKbuf_ok {scanCode : UInt8} (valid : k.kbIn.Valid kbInBytes)
    (next_ : k.stream = scanCode :: rest) :
    ∃ k', k.getByteFromKbuf = some (scanCode, k') ∧ Fed rest k k' := by
  have taken {k₀ : Keyboard} (valid₀ : k₀.kbIn.Valid kbInBytes) (some_ : 0 < k₀.kbIn.count)
      (next₀ : k₀.stream = scanCode :: rest) : k₀.kbIn.front = scanCode ∧
        Fed rest k₀ { k₀ with kbIn := k₀.kbIn.drop kbInBytes } := by
    rw [stream, RingBuffer.contents_cons valid₀ some_, List.cons_append, List.cons.injEq] at next₀
    exact ⟨next₀.1, valid₀.drop some_, next₀.2, rfl⟩
  by_cases empty : k.kbIn.count = 0
  next =>
    have waits : k.wire ≠ [] := by
      intro none_
      have nothing : k.kbIn.contents kbInBytes = [] :=
        List.eq_nil_of_length_eq_zero (RingBuffer.contents_length.trans empty)
      rw [stream, nothing, none_] at next_
      cases next_
    obtain ⟨k₁, arrives, fed, count⟩ := interrupt_ok valid (by rw [empty]; decide) waits
    obtain ⟨front, fed'⟩ := taken fed.valid (by omega) (fed.stream.trans next_)
    refine ⟨_, ?_, fed.trans fed'⟩
    rw [getByteFromKbuf, if_pos empty, arrives, ← front]
    rfl
  next =>
    obtain ⟨front, fed⟩ := taken valid (by omega) next_
    refine ⟨_, ?_, fed⟩
    rw [getByteFromKbuf, if_neg empty, ← front]
    rfl

theorem matchCodes_ok {codes : List UInt8} (valid : k.kbIn.Valid kbInBytes)
    (next_ : k.stream = codes ++ rest) :
    ∃ k', matchCodes codes k = some (true, k') ∧ Fed rest k k' := by
  induction codes generalizing k with
  | nil => exact ⟨k, rfl, valid, next_, rfl⟩
  | cons code codes ih =>
    obtain ⟨k₁, done₁, fed₁⟩ := getByteFromKbuf_ok valid next_
    obtain ⟨k₂, done₂, fed₂⟩ := ih fed₁.valid fed₁.stream
    refine ⟨k₂, ?_, fed₁.trans fed₂⟩
    rw [matchCodes, done₁]
    exact (if_neg (not_not_intro rfl)).trans done₂

-- Behind `E0`, only the two codes that PrintScreen begins with are read further.
theorem readScan_extended {second : UInt8} {codes : List UInt8} (valid : k.kbIn.Valid kbInBytes)
    (next_ : k.stream = 0xE0 :: second :: (codes ++ rest))
    (shape : second = 0x2A ∧ codes = [0xE0, 0x37] ∨ second = 0xB7 ∧ codes = [0xE0, 0xAA] ∨
      second ≠ 0x2A ∧ second ≠ 0xB7 ∧ codes = []) :
    ∃ k', k.readScan =
        some (if codes = [] then ⟨second, true, 0⟩ else ⟨second, false, keyPrintScreen⟩, k') ∧
      Fed rest k k' := by
  obtain ⟨k₁, done₁, fed₁⟩ := getByteFromKbuf_ok valid next_
  obtain ⟨k₂, done₂, fed₂⟩ := getByteFromKbuf_ok fed₁.valid fed₁.stream
  obtain ⟨k₃, done₃, fed₃⟩ := matchCodes_ok fed₂.valid fed₂.stream
  obtain ⟨rfl, rfl⟩ | ⟨rfl, rfl⟩ | ⟨notMake, notBreak, rfl⟩ := shape
  · refine ⟨k₃, ?_, (fed₁.trans fed₂).trans fed₃⟩
    rw [readScan, done₁]
    show (k₁.getByteFromKbuf).bind _ = _
    rw [done₂]
    show (matchCodes [0xE0, 0x37] k₂).bind _ = _
    rw [done₃]
    rfl
  · refine ⟨k₃, ?_, (fed₁.trans fed₂).trans fed₃⟩
    rw [readScan, done₁]
    show (k₁.getByteFromKbuf).bind _ = _
    rw [done₂]
    show (matchCodes [0xE0, 0xAA] k₂).bind _ = _
    rw [done₃]
    rfl
  · refine ⟨k₂, ?_, fed₁.trans fed₂⟩
    rw [readScan, done₁]
    show (k₁.getByteFromKbuf).bind _ = _
    rw [done₂]
    exact (if_neg notMake).trans (if_neg notBreak)

theorem readScan_ok {code : Code} (valid : k.kbIn.Valid kbInBytes)
    (unambiguous : code.Unambiguous) (next_ : k.stream = code.bytes ++ rest) :
    ∃ k', k.readScan = some (code.scan, k') ∧ Fed rest k k' := by
  cases code with
  | plain scanCode =>
    obtain ⟨k₁, done₁, fed₁⟩ := getByteFromKbuf_ok valid next_
    refine ⟨k₁, ?_, fed₁⟩
    rw [readScan, done₁]
    exact (if_neg unambiguous.2).trans (if_neg unambiguous.1)
  | extended scanCode =>
    exact @readScan_extended _ rest _ [] valid next_
      (.inr (.inr ⟨unambiguous.1, unambiguous.2, rfl⟩))
  | printScreen make =>
    cases make with
    | true => exact readScan_extended valid next_ (.inl ⟨rfl, rfl⟩)
    | false => exact readScan_extended valid next_ (.inr (.inl ⟨rfl, rfl⟩))
  | pause =>
    obtain ⟨k₁, done₁, fed₁⟩ := getByteFromKbuf_ok valid next_
    obtain ⟨k₂, done₂, fed₂⟩ :=
      @matchCodes_ok _ rest [0x1D, 0x45, 0xE1, 0x9D, 0xC5] fed₁.valid fed₁.stream
    refine ⟨k₂, ?_, fed₁.trans fed₂⟩
    rw [readScan, done₁]
    show (matchCodes [0x1D, 0x45, 0xE1, 0x9D, 0xC5] k₁).bind _ = _
    rw [done₂]
    rfl

def down (k : Keyboard) : Modifier → Bool
  | .shiftL => k.shiftL
  | .shiftR => k.shiftR
  | .ctrlL => k.ctrlL
  | .ctrlR => k.ctrlR
  | .altL => k.altL
  | .altR => k.altR

-- What a key does to the six variables.
def changed (make : Bool) (down : Modifier → Bool) : Option Modifier → Modifier → Bool
  | some .altR => Function.update down .altL make
  | some m => Function.update down m make
  | none => down

theorem switchKey_down (k : Keyboard) (key : Nat) (make : Bool) :
    (k.switchKey key make).down = changed make k.down (modifierOf key) := by
  rw [switchKey, modifierOf]
  by_cases isShiftL : key = keyShiftL
  next =>
    rw [if_pos isShiftL, if_pos isShiftL]
    funext m
    cases m <;> rfl
  rw [if_neg isShiftL, if_neg isShiftL]
  by_cases isShiftR : key = keyShiftR
  next =>
    rw [if_pos isShiftR, if_pos isShiftR]
    funext m
    cases m <;> rfl
  rw [if_neg isShiftR, if_neg isShiftR]
  by_cases isCtrlL : key = keyCtrlL
  next =>
    rw [if_pos isCtrlL, if_pos isCtrlL]
    funext m
    cases m <;> rfl
  rw [if_neg isCtrlL, if_neg isCtrlL]
  by_cases isCtrlR : key = keyCtrlR
  next =>
    rw [if_pos isCtrlR, if_pos isCtrlR]
    funext m
    cases m <;> rfl
  rw [if_neg isCtrlR, if_neg isCtrlR]
  by_cases isAltL : key = keyAltL
  next =>
    rw [if_pos isAltL, if_pos isAltL]
    funext m
    cases m <;> rfl
  rw [if_neg isAltL, if_neg isAltL]
  by_cases isAltR : key = keyAltR
  next =>
    rw [if_pos isAltR, if_pos isAltR]
    funext m
    cases m <;> rfl
  rw [if_neg isAltR, if_neg isAltR]
  split_ifs <;> rfl

theorem switchKey_stream (k : Keyboard) (key : Nat) (make : Bool) :
    (k.switchKey key make).kbIn = k.kbIn ∧ (k.switchKey key make).wire = k.wire := by
  -- every branch sets a flag or a lock
  have lock {p : Keyboard} (same : p.kbIn = k.kbIn ∧ p.wire = k.wire) :
      (if make then p else k).kbIn = k.kbIn ∧ (if make then p else k).wire = k.wire := by
    cases make with
    | true => exact same
    | false => exact ⟨rfl, rfl⟩
  rw [switchKey]
  iterate 6
    refine iteInduction (motive := fun p : Keyboard => p.kbIn = k.kbIn ∧ p.wire = k.wire)
      (fun _ => ⟨rfl, rfl⟩) fun _ => ?_
  iterate 3
    refine iteInduction (motive := fun p : Keyboard => p.kbIn = k.kbIn ∧ p.wire = k.wire)
      (fun _ => lock ⟨rfl, rfl⟩) fun _ => ?_
  exact ⟨rfl, rfl⟩

theorem decode_stream (k : Keyboard) (scan : Scan) :
    (k.decode scan).1.kbIn = k.kbIn ∧ (k.decode scan).1.wire = k.wire := by
  rw [decode]
  split_ifs
  · exact ⟨rfl, rfl⟩
  · exact k.switchKey_stream _ _

theorem column_entries {code : Code} (k : Keyboard) (plain : code.scan.key = 0) :
    keyrow code.scan.scanCode (k.column code.scan) ∈ code.entries := by
  cases code with
  | plain scanCode =>
    have either : ∀ caps : Bool, keyrow scanCode (if caps then 1 else 0) ∈
        [keyrow scanCode 0, keyrow scanCode 1] := by
      intro caps
      cases caps with
      | true => exact List.mem_cons_of_mem _ (List.mem_singleton_self _)
      | false => exact List.mem_cons_self
    exact either _
  | extended scanCode => exact List.mem_singleton_self _
  | printScreen make => cases make <;> cases plain
  | pause => cases plain

theorem decode_down {code : Code} {bytes : List UInt8} {key : Key} {pressed : Bool} (k : Keyboard)
    (means : code.Means bytes key pressed) :
    (k.decode code.scan).1.down = changed pressed k.down key.modifier := by
  have special : (code.scan.key = keyPauseBreak ∨ code.scan.key = keyPrintScreen) ↔
      code.scan.key ≠ 0 := by
    cases code with
    | printScreen make => cases make <;> decide
    | pause => decide
    | _ => exact ⟨fun is_ => by cases is_ <;> contradiction, fun not_ => absurd rfl not_⟩
  rw [decode]
  by_cases plain : code.scan.key = 0
  next =>
    rw [if_neg (fun is_ => special.mp is_ plain)]
    show (k.switchKey _ _).down = _
    rw [switchKey_down, means.entries _ (k.column_entries plain)]
    obtain none_ | ⟨-, tells⟩ := means.modifier
    · rw [none_]
      rfl
    · rw [tells]
  next =>
    rw [if_pos (special.mpr plain), means.modifier.resolve_right fun both => plain both.1]
    rfl

theorem keymap_small : ∀ entry ∈ keymap, entry < 512 := by decide +kernel

theorem keyrow_small (scanCode : UInt8) (column : Nat) : keyrow scanCode column < 512 := by
  rw [keyrow, List.getD_eq_getElem?_getD]
  cases found : keymap[(scanCode &&& 0x7F).toNat * mapCols + column]? with
  | none => decide
  | some entry => exact keymap_small entry (List.mem_of_getElem? found)

theorem padKey_small {key : Nat} (numLock : Bool) (small : key < 512) :
    padKey numLock key < 512 := by
  have digit : numLock ∧ pad0 ≤ key ∧ key ≤ pad9 → key - pad0 + '0'.toNat < 512 := by
    rintro ⟨-, -, upper⟩
    exact Nat.lt_of_le_of_lt (Nat.add_le_add_right (Nat.sub_le_sub_right upper _) _) (by decide)
  rw [padKey]
  iterate 5
    refine iteInduction (motive := fun key => key < 512) (fun _ => by decide) fun _ => ?_
  refine iteInduction (motive := fun key => key < 512) digit fun _ => ?_
  iterate 11
    refine iteInduction (motive := fun key => key < 512) (fun _ => by decide) fun _ => ?_
  exact small

theorem flags_flag (k : Keyboard) (pad : Bool) (m : Modifier) :
    (flag k.shiftL flagShiftL ||| flag k.shiftR flagShiftR ||| flag k.ctrlL flagCtrlL |||
      flag k.ctrlR flagCtrlR ||| flag k.altL flagAltL ||| flag k.altR flagAltR |||
      flag pad flagPad) &&& m.flag ≠ 0 ↔ k.down m = true := by
  have all : ∀ a b c d e f : Bool, (flag a flagShiftL ||| flag b flagShiftR ||| flag c flagCtrlL |||
      flag d flagCtrlR ||| flag e flagAltL ||| flag f flagAltR |||
        flag pad flagPad) &&& m.flag ≠ 0 ↔
      (match m with
        | .shiftL => a | .shiftR => b | .ctrlL => c | .ctrlR => d | .altL => e | .altR => f) =
            true := by
    cases pad <;> cases m <;> decide
  have here := all k.shiftL k.shiftR k.ctrlL k.ctrlR k.altL k.altR
  cases m <;> exact here

theorem small_flag {key : Nat} (small : key < 512) (m : Modifier) : key &&& m.flag = 0 := by
  have bit (i : Nat) (above : 9 ≤ i) : key &&& 2 ^ i = 0 := by
    have bound : key < 2 ^ i := small.trans_le (Nat.pow_le_pow_right Nat.two_pos above)
    apply Nat.eq_of_testBit_eq
    intro j
    rw [Nat.testBit_and, Nat.testBit_two_pow, Nat.zero_testBit]
    by_cases same : i = j
    next => rw [← same, Nat.testBit_lt_two_pow bound, Bool.false_and]
    next => rw [decide_eq_false same, Bool.and_false]
  cases m with
  | shiftL => exact bit 9 (by decide)
  | shiftR => exact bit 10 (by decide)
  | ctrlL => exact bit 11 (by decide)
  | ctrlR => exact bit 12 (by decide)
  | altL => exact bit 13 (by decide)
  | altR => exact bit 14 (by decide)

theorem withFlags_flag (k : Keyboard) {key : Nat} (small : key < 512) (m : Modifier) :
    k.withFlags key &&& m.flag ≠ 0 ↔ k.down m = true := by
  have base (pad : Bool) : (if pad then padKey k.numLock key else key) < 512 :=
    iteInduction (motive := fun key => key < 512) (fun _ => padKey_small _ small) fun _ => small
  simp only [withFlags, Nat.or_assoc]
  rw [Nat.and_or_distrib_right, small_flag (base _), Nat.zero_or]
  simp only [← Nat.or_assoc]
  exact k.flags_flag _ m

theorem decode_flag {k : Keyboard} {scan : Scan} {key : Nat}
    (given : (k.decode scan).2 = some key) (m : Modifier) :
    key &&& m.flag ≠ 0 ↔ (k.decode scan).1.down m = true := by
  rw [decode] at given ⊢
  split_ifs at given ⊢
  simp only at given
  split_ifs at given
  cases given
  exact withFlags_flag _ (keyrow_small _ _) m

/--
A call that finds a byte takes the bytes of one stroke, changes its modifier and gives the key with
the flags of the variables.
-/
theorem keyboardRead_ok {k : Keyboard} {s : Stroke} {rest : List UInt8}
    (valid : k.kbIn.Valid kbInBytes) (some_ : k.kbIn.count ≠ 0)
    (next_ : k.stream = s.bytes ++ rest) :
    ∃ k' given, k.keyboardRead = some (k', given) ∧ k'.kbIn.Valid kbInBytes ∧ k'.stream = rest ∧
      k'.down = changed s.pressed k.down s.key.modifier ∧
      ∀ key, given = some key → ∀ m : Modifier, key &&& m.flag ≠ 0 ↔ k'.down m = true := by
  obtain ⟨code, means⟩ := s.means
  rw [means.bytes] at next_
  obtain ⟨k₁, done, fed⟩ := readScan_ok valid means.unambiguous next_
  obtain ⟨buffer, wire⟩ := k₁.decode_stream code.scan
  refine ⟨(k₁.decode code.scan).1, (k₁.decode code.scan).2, ?_, ?_, ?_, ?_, ?_⟩
  · rw [keyboardRead, if_neg some_, done]
    rfl
  · rw [buffer]
    exact fed.valid
  · rw [stream, buffer, wire]
    exact fed.stream
  · have same : k₁.down = k.down := by
      rw [fed.same]
      rfl
    rw [k₁.decode_down means, same]
  · intro key given m
    exact decode_flag given m

end Keyboard

theorem Key.modifier_eq {key : Key} {m : Modifier} : key.modifier = some m ↔ key = m.key := by
  constructor
  · intro is_
    cases key <;> cases is_ <;> rfl
  · rintro rfl
    cases m <;> rfl

theorem held_concat (strokes : List Stroke) (s : Stroke) :
    held (strokes ++ [s]) = Function.update (held strokes) s.key s.pressed := by
  rw [held, List.foldl_append]
  rfl

-- The stroke is not one that `ALT_R` is mistaken in, where `down` tells the keys that are down.
def Stroke.Tracked (down : Key → Bool) (s : Stroke) : Prop :=
  s.key = .rAlt → s.pressed = false ∧ down .lAlt = false

-- The six variables are those of the keys that are down, and the right Alt key has never been
-- noticed.
theorem changed_iff {down : Key → Bool} {s : Stroke} (unnoticed : down .rAlt = false) :
    (Keyboard.changed s.pressed (fun m => down m.key) s.key.modifier =
      fun m => Function.update down s.key s.pressed m.key) ↔ s.Tracked down := by
  cases which : s.key.modifier with
  | none =>
    have other (m : Modifier) : m.key ≠ s.key := by
      intro is_
      rw [Key.modifier_eq.mpr is_.symm] at which
      cases which
    refine ⟨fun _ is_ => absurd is_.symm (other .altR), fun _ => ?_⟩
    funext m
    exact (Function.update_of_ne (other m) _ _).symm
  | some n =>
    have is_ := Key.modifier_eq.mp which
    by_cases right : n = .altR
    next =>
      subst right
      rw [Stroke.Tracked, is_]
      constructor
      · intro same _
        have left := congrFun same .altL
        have wrong := congrFun same .altR
        exact ⟨(wrong.symm.trans unnoticed), left.symm.trans (wrong.symm.trans unnoticed)⟩
      · intro tracked
        obtain ⟨released, up⟩ := tracked rfl
        rw [released]
        funext m
        cases m <;> first | rfl | exact up.symm | exact unnoticed
    next =>
      have keys : ∀ m : Modifier, m.key = s.key ↔ m = n := by
        intro m
        rw [is_]
        cases m <;> cases n <;> decide
      refine ⟨fun _ rAlt => absurd ((keys .altR).mp rAlt.symm).symm right, fun _ => ?_⟩
      have plain : Keyboard.changed s.pressed (fun m => down m.key) (some n) =
          Function.update (fun m => down m.key) n s.pressed := by
        cases n <;> first | rfl | exact absurd rfl right
      rw [plain]
      funext m
      by_cases same : m = n
      next => rw [same, Function.update_self, ← (keys n).mpr rfl, Function.update_self]
      next =>
        rw [Function.update_of_ne same, Function.update_of_ne (fun key => same ((keys m).mp key))]

end Konix.Terminal
