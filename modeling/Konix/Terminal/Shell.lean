import Mathlib.Data.List.TakeWhile
import Konix.Klib.Strings
import Konix.Lib.Reactive
import Konix.Terminal.Consoles

set_option autoImplicit false

namespace Konix.Terminal

open CString Words Klib Runs Session

def rdbufSize : Nat := 128
def readCnt : Nat := 70

-- Where the process has its buffer, the argument and the buffer of `printf()`, and the literal. As
-- the objects of any C program these do not overlap, and none of them is the null pointer.
structure Frame where
  rdbuf : Nat
  args : Nat
  buf : Nat
  hello : Nat
  procnr : Int
  rdbufSet : rdbuf ≠ 0
  helloSet : hello ≠ 0
  argsApart : args + 4 ≤ rdbuf ∨ rdbuf + rdbufSize ≤ args
  helloApart : hello + 6 ≤ rdbuf ∨ rdbuf + rdbufSize ≤ hello
  bound : rdbuf + rdbufSize ≤ 4294967296

-- Where the process is in its loop.
inductive Turn
  | prompt
  | ask
  | wait
  | got (r : Nat)
deriving DecidableEq, Repr

-- A process of `TestB()` with its console; its segments begin at zero.
structure Shell where
  reader : Option Reader
  mem : Nat → UInt8
  shown : List UInt8
  turn : Turn

namespace Shell

-- What the console does, as far as the process or who looks at the console can tell. FS passes the
-- answer on to the process.
def take (s : Shell) : Effect → Shell
  | .outChar ch => { s with shown := s.shown ++ [ch] }
  | .store place ch => { s with mem := Function.update s.mem place ch }
  | .send _ msg => if msg.type = .resumeProc then { s with turn := .got msg.cnt.toNat } else s
  | _ => s

def input (s : Shell) (i : Input) : Shell :=
  (console s.reader i).2.foldl take { s with reader := (console s.reader i).1 }

-- The message that FS sends for a call of the process.
def request (F : Frame) (type : MsgType) (buf : Nat) (cnt : Int) : Message :=
  { resetMsg with source := taskFs, type := type, m3i2 := cnt, m3i3 := F.procnr, m3p2 := buf }

-- `printf()` of a format with at most one argument. Nobody else writes to its buffer.
def printf (F : Frame) (s : Shell) (fmt : List UInt8) (arg : Nat) : Option Shell :=
  match vsprintf (fmt.length + 1) (fun j => fmt.getD j 0) (putWord s.mem F.args arg) F.args with
  | .error _ => none
  | .ok f => some (s.input (.write (request F .devWrite F.buf f.text.length) f.text))

def promptFormat : List UInt8 := ascii ['$', ' ']
def helloFormat : List UInt8 :=
  ascii ['h', 'e', 'l', 'l', 'o', ' ', 'w', 'o', 'r', 'l', 'd', '!', '\n']
def bracesFormat : List UInt8 := ascii ['\x7b', '%', 's', '\x7d', '\n']
def helloText : List UInt8 := ascii ['h', 'e', 'l', 'l', 'o']

-- What is printed for the line, where `d` is what `strcmp()` says of it.
def reply (F : Frame) (s : Shell) (d : Int) : Option Shell :=
  if d = 0 then s.printf F helloFormat 0
  else if s.mem F.rdbuf ≠ 0 then s.printf F bracesFormat F.rdbuf
  else some s

-- The next part of the loop of `TestB()`.
def proceed (F : Frame) (s : Shell) : Option Shell :=
  match s.turn with
  | .prompt => (s.printf F promptFormat 0).map fun s => { s with turn := .ask }
  | .ask =>
    some { s.input (.read (request F .devRead F.rdbuf readCnt) 0) with turn := .wait }
  | .wait => some s
  | .got r => do
    let s := { s with mem := Function.update s.mem (F.rdbuf + r) 0 }
    let d ← strcmp s.mem rdbufSize F.rdbuf F.hello
    let s ← s.reply F d
    return { s with turn := .prompt }

inductive Act
  | key (key : Nat)
  | proceed
deriving DecidableEq, Repr

def Step (F : Frame) (s : Shell) : Act → Shell → Prop
  | .key key, s' => s' = s.input (.key key)
  | .proceed, s' => s.proceed F = some s'

structure Starts (F : Frame) (s : Shell) : Prop where
  reader : s.reader = none
  shown : s.shown = []
  turn : s.turn = .prompt
  hello : StringAt s.mem F.hello helloText

-- What the process says to a line.
def answerTo (text : List UInt8) : List UInt8 :=
  if text = helloText then helloFormat
  else if text = [] then []
  else ascii ['\x7b'] ++ text ++ ascii ['\x7d', '\n']

def echoed (text : List UInt8) (ch : UInt8) : List UInt8 :=
  if printable ch ∨ ch = backspace ∧ text ≠ [] then [ch] else []

-- What is on the screen of someone who types to the process: the line that is being edited, and at
-- its end the answer and the next prompt.
def dialog (text : List UInt8) (ch : UInt8) : List UInt8 × List UInt8 :=
  if ch = newline ∨ (Line.edit text ch).length = readCnt then
    ([], echoed text ch ++ [newline] ++ (answerTo (Line.edit text ch) ++ promptFormat))
  else (Line.edit text ch, echoed text ch)

-- The characters that are typed while the process waits for them.
def accepts (s : Shell) : Act → List UInt8
  | .key key => if s.reader.isSome then ((keyPut key).map UInt8.ofNat).toList else []
  | .proceed => []

def accepted {F : Frame} (run : Run (Starts F) (Step F)) : Nat → List UInt8
  | 0 => []
  | t + 1 => accepted run t ++ (run.state t).accepts (run.act t)

def due (F : Frame) (s : Shell) : List UInt8 :=
  match s.turn with
  | .prompt => promptFormat
  | .got r => answerTo (bufText s.mem F.rdbuf r) ++ promptFormat
  | _ => []

section Formats

variable {fmt mem : Nat → UInt8} {text rest : List UInt8} {fuel pos nextArg : Nat}

theorem vsprintfFrom_plain {out : List UInt8} (string : StringAt fmt pos (text ++ rest))
    (plain : chPercent ∉ text) :
    vsprintfFrom fmt mem (fuel + text.length) pos nextArg out =
      vsprintfFrom fmt mem fuel (pos + text.length) nextArg (out ++ text) := by
  induction text generalizing pos out with
  | nil => simp only [List.length_nil, Nat.add_zero, List.append_nil]
  | cons c text ih =>
    obtain ⟨here, nonzero, later⟩ := string
    have moved : pos + 1 + text.length = pos + (c :: text).length := by
      rw [List.length_cons]
      omega
    have notHere : c ≠ chPercent := fun same => plain (same ▸ List.mem_cons_self)
    rw [List.length_cons, ← Nat.add_assoc, vsprintfFrom, here, if_neg nonzero, if_pos notHere,
      ih later fun member => plain (List.mem_cons_of_mem c member), moved, List.append_assoc]
    rfl

theorem vsprintf_plain (string : StringAt fmt 0 text) (plain : chPercent ∉ text) :
    vsprintf (text.length + 1) fmt mem nextArg = .ok ⟨text, text.length⟩ := by
  have whole : StringAt fmt 0 (text ++ []) := by rwa [List.append_nil]
  have ended : fmt (0 + text.length) = 0 := stringAt_append whole
  rw [vsprintf, Nat.add_comm, vsprintfFrom_plain whole plain, vsprintfFrom, if_pos ended,
    List.nil_append, Nat.zero_add]

theorem vsprintf_braces (string : StringAt mem (wordAt mem nextArg) text)
    (short : text.length < strDefaultLen) :
    vsprintf (bracesFormat.length + 1) (fun j => bracesFormat.getD j 0) mem nextArg =
      .ok ⟨ascii ['\x7b'] ++ text ++ ascii ['\x7d', '\n'], 5⟩ := by
  have format : StringAt (fun j => bracesFormat.getD j 0) 0 bracesFormat := by decide
  have read : readString mem strDefaultLen (wordAt mem nextArg) = some text :=
    readString_eq_some.mpr ⟨string, short⟩
  have converted : convert mem 115 nextArg = .ok (text, nextArg + 4) := by
    rw [convert, if_neg (by decide), if_neg (by decide), if_neg (by decide), if_pos rfl, read]
  have whole : text.takeWhile (· ≠ 0) = text := by
    exact List.takeWhile_eq_self_iff.mpr fun c member => decide_eq_true (string.nonzero c member)
  have noPadding : padding [] text = [] := by
    rw [padding]
    show List.replicate (0 - (text.length : Int)).toNat _ = []
    rw [show (0 - (text.length : Int)).toNat = 0 by omega, List.replicate_zero]
  have behind : StringAt (fun j => bracesFormat.getD j 0) 3 (ascii ['\x7d', '\n'] ++ []) := by
    decide
  have start : vsprintf (bracesFormat.length + 1) (fun j => bracesFormat.getD j 0) mem nextArg =
      vsprintfFrom (fun j => bracesFormat.getD j 0) mem (4 + 1) 1 nextArg (ascii ['\x7b']) := rfl
  rw [start]
  refine (vsprintfFrom_directive rfl (show StringAt _ (1 + 1) ([] ++ ascii ['s', '\x7d', '\n']) by
    decide) (by simp) (by decide) (by decide) (by decide)).trans ?_
  show (convert mem 115 nextArg).bind _ = _
  rw [converted]
  show vsprintfFrom (fun j => bracesFormat.getD j 0) mem (2 + 2) 3 (nextArg + 4)
    (ascii ['\x7b'] ++ padding [] (text.takeWhile (· ≠ 0)) ++ text.takeWhile (· ≠ 0)) = _
  rw [whole, noPadding, List.append_nil]
  exact vsprintfFrom_plain behind (by decide)

end Formats

section Taking

variable {F : Frame} {s : Shell} {text : List UInt8}

theorem take_outChars (s : Shell) (text : List UInt8) :
    (text.map Effect.outChar).foldl take s = { s with shown := s.shown ++ text } := by
  induction text generalizing s with
  | nil =>
    rw [List.append_nil]
    rfl
  | cons ch text ih =>
    rw [List.map_cons, List.foldl_cons, ih, take]
    simp only [List.append_assoc, List.singleton_append]

theorem input_write (s : Shell) (buf : Nat) (cnt : Int) (text : List UInt8) :
    s.input (.write (request F .devWrite buf cnt) text) = { s with shown := s.shown ++ text } := by
  have other : ¬ MsgType.syscallRet = .resumeProc := nofun
  rw [input, console, List.foldl_append, take_outChars, List.foldl_cons, List.foldl_nil, take,
    if_neg other]

theorem input_read (s : Shell) :
    s.input (.read (request F .devRead F.rdbuf readCnt) 0) =
      { s with reader := some ⟨taskFs, F.procnr, F.rdbuf, readCnt, []⟩ } := by
  have place : (0 + F.rdbuf) % 4294967296 = F.rdbuf := by
    have bound := F.bound
    have size : rdbufSize = 128 := rfl
    omega
  have other : ¬ MsgType.suspendProc = .resumeProc := nofun
  have some_ : ¬ (request F .devRead F.rdbuf readCnt).cnt = 0 := by
    show ¬ (readCnt : Int) = 0
    decide
  rw [input, console, List.foldl_cons, List.foldl_nil, take, if_neg other, if_neg some_]
  simp only [request, Message.buf, place]
  rfl

theorem looks_take (s : Shell) (key : Nat) : (looks key).foldl take s = s := by
  rw [looks]
  split_ifs <;> rfl

theorem printf_plain {fmt : List UInt8} (s : Shell) (arg : Nat)
    (string : StringAt (fun j => fmt.getD j 0) 0 fmt) (plain : chPercent ∉ fmt) :
    s.printf F fmt arg = some { s with shown := s.shown ++ fmt } := by
  rw [printf, vsprintf_plain string plain]
  exact congrArg some (input_write ..)

end Taking

section Memory

variable {F : Frame} {mem mem' : Nat → UInt8} {text : List UInt8} {a : Nat}

theorem stringAt_congr {str : List UInt8} (string : StringAt mem a str)
    (agree : ∀ b, a ≤ b → b ≤ a + str.length → mem' b = mem b) : StringAt mem' a str := by
  induction str generalizing a with
  | nil => exact (agree a (le_refl _) (le_refl _)).trans string
  | cons c rest ih =>
    obtain ⟨here, nonzero, tail⟩ := string
    rw [List.length_cons] at agree
    exact ⟨(agree a (le_refl _) (by omega)).trans here, nonzero,
      ih tail fun b lower upper => agree b (by omega) (by omega)⟩

theorem rdbuf_place (F : Frame) {j : Nat} (inside : j < rdbufSize) :
    u32 (F.rdbuf + j) = F.rdbuf + j := by
  have bound := F.bound
  simp only [u32]
  omega

theorem bufText_length (mem : Nat → UInt8) (p n : Nat) : (bufText mem p n).length = n := by
  rw [bufText, List.length_map, List.length_range]

theorem bufText_getElem (mem : Nat → UInt8) {n j : Nat} (small : n ≤ rdbufSize)
    (inside : j < (bufText mem F.rdbuf n).length) :
    (bufText mem F.rdbuf n)[j] = mem (F.rdbuf + j) := by
  rw [bufText_length] at inside
  simp only [bufText, List.getElem_map, List.getElem_range]
  rw [rdbuf_place F (by omega)]

structure Holds (F : Frame) (mem : Nat → UInt8) (text : List UInt8) : Prop where
  bytes : bufText mem F.rdbuf text.length = text
  prints : ∀ c ∈ text, printable c
  fits : text.length ≤ readCnt

theorem Holds.append (holds : Holds F mem text) (room : text.length < readCnt) {ch : UInt8}
    (prints : printable ch) :
    Holds F (Function.update mem (F.rdbuf + text.length) ch) (text ++ [ch]) := by
  refine ⟨?_, ?_, ?_⟩
  · rw [List.length_append, List.length_singleton, bufText, List.range_succ, List.map_append]
    have last : u32 (F.rdbuf + (text.length : Nat)) = F.rdbuf + text.length :=
      rdbuf_place F (lt_trans room (by decide))
    congr 1
    · rw [← holds.bytes, bufText_length]
      apply List.map_congr_left
      intro j member
      have before : j < text.length := List.mem_range.mp member
      have inside : j < rdbufSize := lt_trans (lt_trans before room) (by decide)
      rw [rdbuf_place F inside]
      exact Function.update_of_ne (by omega) ..
    · rw [List.map_singleton, last, Function.update_self]
  · intro c member
    rcases List.mem_append.mp member with earlier | last
    · exact holds.prints c earlier
    · rwa [List.mem_singleton.mp last]
  · rw [List.length_append]
    exact room

theorem Holds.dropLast (holds : Holds F mem text) : Holds F mem text.dropLast := by
  refine ⟨?_, fun c member => holds.prints c (List.mem_of_mem_dropLast member), ?_⟩
  · conv_rhs => rw [← holds.bytes]
    rw [List.length_dropLast, bufText, bufText, ← List.map_dropLast]
    congr 1
    cases text.length with
    | zero => rfl
    | succ n => rw [List.range_succ, List.dropLast_concat, Nat.add_sub_cancel]
  · rw [List.length_dropLast]
    exact le_trans (Nat.sub_le ..) holds.fits

theorem Holds.string (holds : Holds F mem text) :
    StringAt (Function.update mem (F.rdbuf + text.length) 0) F.rdbuf text := by
  have fits := holds.fits
  have size : rdbufSize = 128 ∧ readCnt = 70 := ⟨rfl, rfl⟩
  apply stringAt_of_chars
  · intro j inside
    have inside' : j < (bufText mem F.rdbuf text.length).length := by rwa [bufText_length]
    have byte := bufText_getElem mem (by omega) inside'
    simp only [holds.bytes] at byte
    rw [Function.update_of_ne (by omega), byte]
  · intro c member zero
    have prints := holds.prints c member
    rw [zero] at prints
    exact absurd prints (by decide)
  · exact Function.update_self ..

end Memory

section Typing

variable {F : Frame} {s : Shell} {text out : List UInt8}

theorem hello_kept {mem : Nat → UInt8} (string : StringAt mem F.hello helloText) {j : Nat}
    (inside : j < rdbufSize) (ch : UInt8) :
    StringAt (Function.update mem (F.rdbuf + j) ch) F.hello helloText := by
  have apart := F.helloApart
  have five : helloText.length = 5 := rfl
  apply stringAt_congr string
  intro b lower upper
  exact Function.update_of_ne (by omega) ..

def edited (mem : Nat → UInt8) (place : Nat) (ch : UInt8) : Nat → UInt8 :=
  if printable ch then Function.update mem place ch else mem

theorem take_echo (s : Shell) (r : Reader) (ch : UInt8) :
    (r.echo ch).foldl take s =
      { s with
        shown := s.shown ++ echoed r.text ch
        mem := edited s.mem ((r.buf + r.text.length) % 4294967296) ch } := by
  rw [Reader.echo, echoed, edited]
  by_cases prints : printable ch
  · have shows : printable ch ∨ ch = backspace ∧ r.text ≠ [] := .inl prints
    rw [if_pos prints, if_pos shows, if_pos prints]
    rfl
  · rw [if_neg prints, if_neg prints]
    by_cases erases : ch = backspace ∧ r.text ≠ []
    · have shows : printable ch ∨ ch = backspace ∧ r.text ≠ [] := .inr erases
      rw [if_pos erases, if_pos shows]
      rfl
    · rw [if_neg erases, if_neg (not_or.mpr ⟨prints, erases⟩), List.append_nil]
      rfl

theorem Holds.edited {mem : Nat → UInt8} (holds : Holds F mem text) (room : text.length < readCnt)
    (ch : UInt8) :
    Holds F (Shell.edited mem ((F.rdbuf + text.length) % 4294967296) ch) (Line.edit text ch) := by
  have place : (F.rdbuf + text.length) % 4294967296 = F.rdbuf + text.length := by
    have bound := F.bound
    have size : rdbufSize = 128 ∧ readCnt = 70 := ⟨rfl, rfl⟩
    omega
  rw [Shell.edited, Line.edit, place]
  by_cases prints : printable ch
  · rw [if_pos prints, if_pos prints]
    exact holds.append room prints
  · rw [if_neg prints, if_neg prints]
    by_cases erases : ch = backspace
    · rw [if_pos erases]
      exact holds.dropLast
    · rw [if_neg erases]
      exact holds

theorem hello_edited {mem : Nat → UInt8} (string : StringAt mem F.hello helloText)
    (room : text.length < readCnt) (ch : UInt8) :
    StringAt (edited mem ((F.rdbuf + text.length) % 4294967296) ch) F.hello helloText := by
  have bound := F.bound
  have size : rdbufSize = 128 ∧ readCnt = 70 := ⟨rfl, rfl⟩
  have place : (F.rdbuf + text.length) % 4294967296 = F.rdbuf + text.length := by omega
  rw [edited, place]
  by_cases prints : printable ch
  · rw [if_pos prints]
    exact hello_kept string (by omega) ch
  · rw [if_neg prints]
    exact string

-- Where the process and its console are together, with the text of the line that is edited.
def Meets (F : Frame) (s : Shell) (text : List UInt8) : Prop :=
  match s.turn with
  | .wait => s.reader = some ⟨taskFs, F.procnr, F.rdbuf, readCnt, text⟩ ∧
      text.length < readCnt ∧ Holds F s.mem text
  | .got r => s.reader = none ∧ text = [] ∧ ∃ line, line.length = r ∧ Holds F s.mem line
  | _ => s.reader = none ∧ text = []

structure Talks (F : Frame) (s : Shell) (text out : List UInt8) : Prop where
  hello : StringAt s.mem F.hello helloText
  shown : s.shown ++ due F s = promptFormat ++ out
  meets : Meets F s text

theorem Starts.talks (starts : Starts F s) : Talks F s [] [] where
  hello := starts.hello
  shown := by
    rw [starts.shown, due, starts.turn, List.nil_append, List.append_nil]
  meets := by
    rw [Meets, starts.turn]
    exact ⟨starts.reader, rfl⟩

theorem Talks.typed (talks : Talks F s text out) (waits : s.turn = .wait) {key put : Nat}
    (puts : keyPut key = some put) :
    Talks F (s.input (.key key)) (dialog text (UInt8.ofNat put)).1
      (out ++ (dialog text (UInt8.ofNat put)).2) := by
  have meets := talks.meets
  rw [Meets, waits] at meets
  obtain ⟨reader, room, holds⟩ := meets
  have before : s.shown = promptFormat ++ out := by
    have shown := talks.shown
    rwa [due, waits, List.append_nil] at shown
  have holds' := holds.edited room (UInt8.ofNat put)
  have hello' := hello_edited talks.hello room (UInt8.ofNat put)
  have taken : s.input (.key key) =
      (Reader.typed ⟨taskFs, F.procnr, F.rdbuf, readCnt, text⟩ (UInt8.ofNat put)).2.foldl take
        { s with
          reader := (Reader.typed ⟨taskFs, F.procnr, F.rdbuf, readCnt, text⟩
            (UInt8.ofNat put)).1 } := by
    rw [input, reader]
    simp only [console, puts]
  rw [taken, Reader.typed, dialog]
  by_cases ends : UInt8.ofNat put = newline ∨ (Line.edit text (UInt8.ofNat put)).length = readCnt
  next =>
    rw [if_pos ends, if_pos ends, List.foldl_append, take_echo]
    refine ⟨hello', ?_, rfl, rfl, Line.edit text (UInt8.ofNat put), rfl, holds'⟩
    show s.shown ++ echoed text (UInt8.ofNat put) ++ [newline] ++
      (answerTo (bufText (edited s.mem ((F.rdbuf + text.length) % 4294967296) (UInt8.ofNat put))
        F.rdbuf (Line.edit text (UInt8.ofNat put)).length) ++ promptFormat) = _
    rw [holds'.bytes, before]
    simp only [List.append_assoc]
  next =>
    have fits := holds'.fits
    rw [if_neg ends, if_neg ends, take_echo]
    refine ⟨hello', ?_, ?_⟩
    · show s.shown ++ echoed text (UInt8.ofNat put) ++ due F
          { s with reader := _, shown := _, mem := _ } = _
      rw [due, before]
      simp only [waits, List.append_nil, List.append_assoc]
    · rw [Meets]
      simp only [waits]
      exact ⟨trivial, lt_of_le_of_ne fits fun full => ends (.inr full), holds'⟩

end Typing

section Proceeding

variable {F : Frame} {s s' : Shell} {text out : List UInt8}

theorem Holds.head (holds : Holds F s.mem text) (terminated : s.mem (F.rdbuf + text.length) = 0) :
    s.mem F.rdbuf ≠ 0 ↔ text ≠ [] := by
  have same : Function.update s.mem (F.rdbuf + text.length) 0 = s.mem := by
    rw [← terminated, Function.update_eq_self]
  have string := holds.string
  rw [same] at string
  cases text with
  | nil => exact iff_of_false (not_not_intro string) (not_not_intro rfl)
  | cons c rest =>
    refine iff_of_true ?_ (List.cons_ne_nil c rest)
    rw [string.1]
    exact string.2.1

theorem printf_braces (holds : Holds F s.mem text)
    (string : StringAt s.mem F.rdbuf text) :
    s.printf F bracesFormat F.rdbuf =
      some { s with shown := s.shown ++ (ascii ['\x7b'] ++ text ++ ascii ['\x7d', '\n']) } := by
  have bound := F.bound
  have apart := F.argsApart
  have fits := holds.fits
  have size : rdbufSize = 128 ∧ readCnt = 70 ∧ strDefaultLen = 1024 := ⟨rfl, rfl, rfl⟩
  have arg : wordAt (putWord s.mem F.args F.rdbuf) F.args = F.rdbuf := by
    rw [wordAt_putWord, Nat.mod_eq_of_lt (by omega)]
  have kept : StringAt (putWord s.mem F.args F.rdbuf) F.rdbuf text := by
    apply stringAt_congr string
    intro b lower upper
    exact putWord_outside _ _ (by omega)
  rw [printf, vsprintf_braces (by rwa [arg]) (by omega)]
  exact congrArg some (input_write ..)

theorem reply_ok (holds : Holds F s.mem text) (terminated : s.mem (F.rdbuf + text.length) = 0)
    (string : StringAt s.mem F.rdbuf text) {d : Int} (compared : d = 0 ↔ text = helloText) :
    s.reply F d = some { s with shown := s.shown ++ answerTo text } := by
  rw [reply, answerTo]
  by_cases greets : text = helloText
  next =>
    rw [if_pos (compared.mpr greets), if_pos greets]
    exact printf_plain s 0 (by decide) (by decide)
  next =>
    rw [if_neg (mt compared.mp greets), if_neg greets]
    by_cases empty : text = []
    next =>
      rw [if_neg fun some_ => (holds.head terminated).mp some_ empty, if_pos empty, List.append_nil]
    next =>
      rw [if_pos ((holds.head terminated).mpr empty), if_neg empty]
      exact printf_braces holds string

theorem Talks.got (talks : Talks F s text out) {r : Nat} (turn : s.turn = .got r) :
    ∃ s', s.proceed F = some s' ∧ Talks F s' text out := by
  have meets := talks.meets
  rw [Meets, turn] at meets
  obtain ⟨reader, rfl, line, length, holds⟩ := meets
  have fits := holds.fits
  have size : rdbufSize = 128 ∧ readCnt = 70 := ⟨rfl, rfl⟩
  have shown : s.shown ++ (answerTo line ++ promptFormat) = promptFormat ++ out := by
    have shown := talks.shown
    rw [due, turn] at shown
    rw [← shown, ← length]
    simp only [holds.bytes]
  let s₁ : Shell := { s with mem := Function.update s.mem (F.rdbuf + r) 0, turn := .got r }
  have string : StringAt s₁.mem F.rdbuf line := by
    simp only [s₁, ← length]
    exact holds.string
  have hello : StringAt s₁.mem F.hello helloText := hello_kept talks.hello (by omega) 0
  have holds₁ : Holds F s₁.mem line := by
    refine ⟨?_, holds.prints, fits⟩
    conv_rhs => rw [← holds.bytes]
    apply List.map_congr_left
    intro j member
    have inside : j < line.length := List.mem_range.mp member
    rw [rdbuf_place F (by omega)]
    exact Function.update_of_ne (by omega) ..
  have terminated : s₁.mem (F.rdbuf + line.length) = 0 := by
    simp only [s₁, length, Function.update_self]
  obtain ⟨d, done, compared⟩ := strcmp_strings string hello F.rdbufSet F.helloSet
    (show line.length < rdbufSize by omega)
  refine ⟨{ s₁ with shown := s₁.shown ++ answerTo line, turn := .prompt }, ?_, hello, ?_, ?_⟩
  · rw [proceed, turn]
    show (strcmp s₁.mem rdbufSize F.rdbuf F.hello).bind _ = _
    rw [done]
    show (s₁.reply F d).bind _ = _
    rw [reply_ok holds₁ terminated string compared]
    rfl
  · show s.shown ++ answerTo line ++ promptFormat = _
    rw [List.append_assoc]
    exact shown
  · exact ⟨reader, rfl⟩

theorem Talks.proceeds (talks : Talks F s text out) :
    ∃ s', s.proceed F = some s' ∧ Talks F s' text out := by
  cases turn : s.turn with
  | prompt =>
    have meets := talks.meets
    have shown := talks.shown
    rw [Meets, turn] at meets
    rw [due, turn] at shown
    refine ⟨{ s with shown := s.shown ++ promptFormat, turn := .ask }, ?_, talks.hello, ?_, meets⟩
    · rw [proceed, turn]
      simp only [printf_plain s 0 (show StringAt (fun j => promptFormat.getD j 0) 0 promptFormat by
        decide) (by decide), Option.map_some]
    · rw [due]
      exact (List.append_nil _).trans shown
  | ask =>
    have meets := talks.meets
    have shown := talks.shown
    rw [Meets, turn] at meets
    rw [due, turn] at shown
    obtain ⟨-, rfl⟩ := meets
    refine ⟨{ s with reader := some ⟨taskFs, F.procnr, F.rdbuf, readCnt, []⟩, turn := .wait },
      ?_, talks.hello, shown, rfl, by decide, rfl, nofun, Nat.zero_le _⟩
    rw [proceed, turn]
    simp only [input_read]
  | wait =>
    refine ⟨s, ?_, talks⟩
    rw [proceed, turn]
  | got r => exact talks.got turn

theorem Talks.key (talks : Talks F s text out) (key : Nat) :
    ∃ text' out', Talks F (s.input (.key key)) text' (out ++ out') ∧
      Reactive.run dialog text (s.accepts (.key key)) = (text', out') := by
  have idle (silent : s.input (.key key) = s) (nothing : s.accepts (.key key) = []) :
      ∃ text' out', Talks F (s.input (.key key)) text' (out ++ out') ∧
        Reactive.run dialog text (s.accepts (.key key)) = (text', out') := by
    refine ⟨text, [], ?_, ?_⟩
    · rw [silent, List.append_nil]
      exact talks
    · rw [nothing]
      rfl
  cases puts : keyPut key with
  | none =>
    apply idle
    · rw [input]
      simp only [console, puts, looks_take]
    · rw [accepts, puts]
      exact ite_self _
  | some put =>
    by_cases waits : s.turn = .wait
    next =>
      have meets := talks.meets
      rw [Meets, waits] at meets
      have takes : s.accepts (.key key) = [UInt8.ofNat put] := by
        rw [accepts, meets.1, puts]
        rfl
      exact ⟨_, _, talks.typed waits puts, by rw [takes, Reactive.run_singleton]⟩
    next =>
      have nobody : s.reader = none := by
        have meets := talks.meets
        rw [Meets] at meets
        cases turn : s.turn with
        | wait => exact absurd turn waits
        | prompt => rw [turn] at meets; exact meets.1
        | ask => rw [turn] at meets; exact meets.1
        | got r => rw [turn] at meets; exact meets.1
      apply idle
      · rw [input, nobody]
        simp only [console, puts, List.foldl_nil]
        rw [← nobody]
      · rw [accepts, nobody]
        rfl

end Proceeding

section Conversation

variable {F : Frame}

theorem run_talks (run : Run (Starts F) (Step F)) {t : Nat} (within : t ≤ run.length) :
    Talks F (run.state t) (Reactive.run dialog [] (accepted run t)).1
      (Reactive.run dialog [] (accepted run t)).2 := by
  induction t with
  | zero => exact run.start.talks
  | succ t ih =>
    have talks := ih (by omega)
    have step := run.steps t (by omega)
    rw [accepted, Reactive.run_append]
    cases act : run.act t with
    | key key =>
      rw [act] at step
      obtain ⟨text', out', talks', takes⟩ := talks.key key
      rw [takes, show run.state (t + 1) = (run.state t).input (.key key) from step]
      exact talks'
    | proceed =>
      rw [act] at step
      obtain ⟨s', done, talks'⟩ := talks.proceeds
      cases (show (run.state t).proceed F = some (run.state (t + 1)) from step).symm.trans done
      rw [accepts]
      simp only [Reactive.run, List.append_nil]
      exact talks'

/--
Whatever is typed, and whenever, on a console on which nobody else prints: it has shown the prompt
and what a plain dialogue makes of the characters that were typed while the process waited, up to
what the process is about to show. However the line is edited, no part of the loop fails.
-/
theorem shell_transcript (run : Run (Starts F) (Step F)) :
    let last := run.state run.length
    last.shown ++ due F last =
      promptFormat ++ (Reactive.run dialog [] (accepted run run.length)).2 ∧
    ∃ s', last.proceed F = some s' := by
  intro last
  have talks := run_talks run (le_refl _)
  obtain ⟨s', done, -⟩ := talks.proceeds
  exact ⟨talks.shown, s', done⟩

-- Someone types `hello`, and then `hi` with a letter that is taken back.
def testB : Frame where
  rdbuf := 0x48100
  args := 0x480C0
  buf := 0x47F00
  hello := 0x3A200
  procnr := 7
  rdbufSet := by decide
  helloSet := by decide
  argsApart := by decide
  helloApart := by decide
  bound := by decide

def helloKeys : List Nat :=
  [104, 101, 108, 108, 111, keyEnter, 104, 106, keyBackspace, 105, keyEnter]

def helloAct (t : Nat) : Act :=
  if t < 2 then .proceed
  else if t < 8 then .key (helloKeys.getD (t - 2) 0)
  else if t < 11 then .proceed
  else if t < 16 then .key (helloKeys.getD (t - 5) 0)
  else .proceed

def helloTurn (s : Shell) : Act → Option Shell
  | .key key => some (s.input (.key key))
  | .proceed => s.proceed testB

def helloState : Nat → Shell
  | 0 => ⟨none, fun a => if a < testB.hello then 0 else helloText.getD (a - testB.hello) 0, [],
      .prompt⟩
  | t + 1 => (helloTurn (helloState t) (helloAct t)).getD (helloState t)

theorem step_helloTurn {s s' : Shell} {a : Act} (done : helloTurn s a = some s') :
    Step testB s a s' := by
  cases a with
  | key key =>
    cases done
    rfl
  | proceed => exact done

def helloRun : Run (Starts testB) (Step testB) where
  length := 18
  state := helloState
  act := helloAct
  start := ⟨rfl, rfl, rfl, by decide⟩
  steps t within := by
    have goesOn : ∀ t, t < 18 → (helloTurn (helloState t) (helloAct t)).isSome := by
      decide +kernel
    obtain ⟨s', done⟩ := Option.isSome_iff_exists.mp (goesOn t within)
    rw [helloState, done]
    exact step_helloTurn done

theorem shell_transcript_hello :
    (helloState 18).shown ++ due testB (helloState 18) =
      promptFormat ++ (helloText ++ [newline] ++ helloFormat ++ promptFormat) ++
        (ascii ['h', 'j'] ++ [backspace] ++ ascii ['i'] ++ [newline] ++
          ascii ['\x7b', 'h', 'i', '\x7d', '\n'] ++ promptFormat) := by
  have dialogue : (Reactive.run dialog [] (accepted helloRun 18)).2 =
      (helloText ++ [newline] ++ helloFormat ++ promptFormat) ++
        (ascii ['h', 'j'] ++ [backspace] ++ ascii ['i'] ++ [newline] ++
          ascii ['\x7b', 'h', 'i', '\x7d', '\n'] ++ promptFormat) := by
    decide +kernel
  have transcript := (shell_transcript helloRun).1
  rw [show helloRun.length = 18 from rfl, dialogue, ← List.append_assoc] at transcript
  exact transcript

end Conversation

end Shell

end Konix.Terminal
