import Konix.Mm.ForkExit
import Konix.Kernel.Calls
import Konix.Kernel.Outcome

set_option autoImplicit false

namespace Konix.Servers

open Kernel

-- The next `sendrec()` of a process.
inductive Call
  | send (dest : Int) (m : Message)
  | receive (src : Int)
deriving DecidableEq, Repr

-- The requests of the library: open, close, read, write, unlink, fork, exit, wait, getpid (and
-- get_ticks, which TestC uses).
def IsRequest (server : Int) (type : MsgType) : Prop :=
  server = taskFs ∧ type ∈ [.open_, .close, .read, .write, .unlink] ∨
    server = taskMm ∧ type ∈ [.fork, .exit, .wait] ∨
    server = taskSys ∧ type ∈ [.getPid, .getTicks]

structure Request where
  server : Int
  m : Message
  valid : IsRequest server m.type

-- A user process: not there, computing, or in one of the two halves of `send_recv(BOTH, ..)`.
inductive User
  | absent
  | run
  | request (r : Request)
  | await (server : Int)

def User.call : User → Option Call
  | .absent => none
  | .run => none
  | .request r => some (.send r.server r.m)
  | .await server => some (.receive server)

def User.sent : User → User
  | .request r => .await r.server
  | user => user

def User.got : User → User
  | .await _ => .run
  | user => user

/--
`task_fs()`. A request is served with any number of disk requests; on a terminal it ends with one
request to TTY. `client` is empty in `init_fs()`.
-/
inductive Fs
  | init
  | main
  | work (src : Int) (type : MsgType)
  | disk (client : Option (Int × MsgType)) (m : Message)
  | diskWait (client : Option (Int × MsgType))
  | tty (src : Int) (type : MsgType) (device cnt : Int)
  | ttyWait (src : Int) (type : MsgType)
  | reply (dest : Int) (m : Message)
  | stopped

-- The driver message of `do_open()` or `do_rdwt()` for a terminal.
def ttyMsg (src : Int) (type : MsgType) (device cnt : Int) : Message :=
  { resetMsg with
    type := match type with | .open_ => .devOpen | .read => .devRead | _ => .devWrite
    m3i2 := cnt
    m3i3 := src
    m3i4 := device }

namespace Fs

def call : Fs → Option Call
  | .main => some (.receive any)
  | .disk _ m => some (.send taskHd m)
  | .diskWait _ => some (.receive taskHd)
  | .tty src type device cnt => some (.send taskTty (ttyMsg src type device cnt))
  | .ttyWait _ _ => some (.receive taskTty)
  | .reply dest m => some (.send dest m)
  | _ => none

def sent : Fs → Fs
  | .disk client _ => .diskWait client
  | .tty src type _ _ => .ttyWait src type
  | .reply _ _ => .main
  | fs => fs

def got (m : Message) : Fs → Fs
  | .main =>
    match m.type with
    | .open_ | .close | .read | .write | .unlink | .fork | .exit => .work m.source m.type
    | .resumeProc => .reply m.procNr { m with type := .syscallRet }
    | _ => .stopped
  | .diskWait none => .init
  | .diskWait (some (src, type)) => .work src type
  | .ttyWait src type =>
    if type ≠ .open_ ∧ m.type = .suspendProc then .main
    else .reply src { m with type := .syscallRet }
  | fs => fs

end Fs

-- `task_mm()` with its place in `do_fork()`, `do_exit()`, `cleanup()` and `do_wait()`.
inductive Mm
  | main
  | serve (m : Message)
  | forkTell (m : Message) (child : Int)
  | forkWait (m : Message) (child : Int)
  | birth (m : Message) (child : Int)
  | reply (dest : Int) (m : Message)
  | exitTell (pid parentPid status : Int)
  | exitWait (pid parentPid status : Int)
  | leave (pid parentPid status : Int)
  | collect (parent : Int) (m : Message) (proc pid : Int) (rest : List Int)
  | release (proc pid : Int) (rest : List Int)
  | adopt (pid : Int) (rest : List Int)
  | stopped

namespace Mm

def call : Mm → Option Call
  | .main => some (.receive any)
  | .forkTell _ child => some (.send taskFs { resetMsg with type := .fork, m3i2 := child })
  | .forkWait _ _ => some (.receive taskFs)
  | .birth _ child => some (.send child { resetMsg with type := .syscallRet })
  | .reply dest m => some (.send dest m)
  | .exitTell pid _ _ => some (.send taskFs { resetMsg with type := .exit, m3i2 := pid })
  | .exitWait _ _ _ => some (.receive taskFs)
  | .collect parent m _ _ _ => some (.send parent m)
  | _ => none

def sent : Mm → Mm
  | .forkTell m child => .forkWait m child
  | .birth m child => .reply m.source { m with m3i1 := 0, m3i2 := child, type := .syscallRet }
  | .reply _ _ => .main
  | .exitTell pid parentPid status => .exitWait pid parentPid status
  | .collect _ _ proc pid rest => .release proc pid rest
  | mm => mm

def got (m : Message) : Mm → Mm
  | .main =>
    match m.type with
    | .fork | .exit | .wait => .serve m
    | _ => .stopped
  | .forkWait request child => .birth request child
  | .exitWait pid parentPid status => .leave pid parentPid status
  | mm => mm

end Mm

-- `task_hd()`: a request may ask for the time and wait for interrupts any number of times.
inductive Hd
  | main
  | work (src : Int)
  | tick (src : Int)
  | tickWait (src : Int)
  | intr (src : Int)
  | reply (dest : Int) (m : Message)
  | spin

namespace Hd

def call : Hd → Option Call
  | .main => some (.receive any)
  | .tick _ => some (.send taskSys { resetMsg with type := .getTicks })
  | .tickWait _ => some (.receive taskSys)
  | .intr _ => some (.receive interrupt)
  | .reply dest m => some (.send dest m)
  | _ => none

def sent : Hd → Hd
  | .tick src => .tickWait src
  | .reply _ _ => .main
  | hd => hd

def got (m : Message) : Hd → Hd
  | .main =>
    match m.type with
    | .devOpen | .devClose | .devRead | .devWrite | .devIoctl => .work m.source
    | _ => .spin
  | .tickWait src => .work src
  | .intr src => .work src
  | hd => hd

end Hd

-- The fields of `TTY` about the request that is being read.
structure Line where
  caller : Int
  procnr : Int
  leftCnt : Int
  transCnt : Int

inductive Key
  | printable
  | backspace
  | newline
  | other
deriving DecidableEq, Repr

-- `tty_dev_write()` for one character.
def Line.put (line : Line) (key : Key) : Line :=
  if line.leftCnt = 0 then line
  else
    match key with
    | .printable => { line with transCnt := line.transCnt + 1, leftCnt := line.leftCnt - 1 }
    | .backspace =>
      if line.transCnt ≠ 0 then
        { line with transCnt := line.transCnt - 1, leftCnt := line.leftCnt + 1 }
      else line
    | _ => line

def Line.ends (line : Line) (key : Key) : Bool :=
  line.leftCnt ≠ 0 ∧ (key = .newline ∨ (line.put key).leftCnt = 0)

inductive Tty
  | poll
  | main
  | answer (dest : Int) (m : Message)
  | resume (device : Int)

namespace Tty

def call (lines : Int → Line) : Tty → Option Call
  | .poll => none
  | .main => some (.receive any)
  | .answer dest m => some (.send dest m)
  | .resume device =>
    some (.send (lines device).caller
      { resetMsg with
        type := .resumeProc
        m3i3 := (lines device).procnr
        m3i2 := (lines device).transCnt })

def got (m : Message) : Tty → Tty
  | .main =>
    match m.type with
    | .devOpen => .answer m.source { resetMsg with type := .syscallRet }
    | .devRead => .answer m.source { m with type := .suspendProc }
    | .devWrite => .answer m.source { m with type := .syscallRet }
    | _ => .poll
  | tty => tty

end Tty

inductive Sys
  | main
  | reply (dest : Int) (m : Message)
  | stopped

namespace Sys

def call : Sys → Option Call
  | .main => some (.receive any)
  | .reply dest m => some (.send dest m)
  | .stopped => none

def sent : Sys → Sys
  | .reply _ _ => .main
  | sys => sys

def got (ticks : Int) (m : Message) : Sys → Sys
  | .main =>
    match m.type with
    | .getTicks => .reply m.source { m with m3i1 := ticks }
    | .getPid => .reply m.source { m with type := .syscallRet, m3i2 := m.source }
    | _ => .stopped
  | sys => sys

end Sys

structure System where
  kernel : State
  user : Int → User
  fs : Fs
  mm : Mm
  hd : Hd
  tty : Tty
  lines : Int → Line
  sys : Sys
  ticks : Int

namespace System

def call (s : System) (p : Int) : Option Call :=
  if p = taskTty then s.tty.call s.lines
  else if p = taskSys then s.sys.call
  else if p = taskHd then s.hd.call
  else if p = taskFs then s.fs.call
  else if p = taskMm then s.mm.call
  else (s.user p).call

-- `tty_do_read()` fills in the line before TTY answers.
def ttyGot (s : System) (m : Message) : System :=
  { s with
    tty := s.tty.got m
    lines :=
      match s.tty, m.type with
      | .main, .devRead => Function.update s.lines m.device ⟨m.source, m.procNr, m.cnt, 0⟩
      | _, _ => s.lines }

def ttySent (s : System) : System :=
  { s with
    tty := .poll
    lines :=
      match s.tty with
      | .resume device =>
        Function.update s.lines device { s.lines device with leftCnt := 0 }
      | _ => s.lines }

-- The SEND of `p` is over.
def sent (s : System) (p : Int) : System :=
  if p = taskTty then s.ttySent
  else if p = taskSys then { s with sys := s.sys.sent }
  else if p = taskHd then { s with hd := s.hd.sent }
  else if p = taskFs then { s with fs := s.fs.sent }
  else if p = taskMm then { s with mm := s.mm.sent }
  else { s with user := Function.update s.user p (s.user p).sent }

-- The RECEIVE of `p` is over, with the message `m`.
def got (s : System) (p : Int) (m : Message) : System :=
  if p = taskTty then s.ttyGot m
  else if p = taskSys then { s with sys := s.sys.got s.ticks m }
  else if p = taskHd then { s with hd := s.hd.got m }
  else if p = taskFs then { s with fs := s.fs.got m }
  else if p = taskMm then { s with mm := s.mm.got m }
  else { s with user := Function.update s.user p (s.user p).got }

-- The message of `p` has reached `d`.
def transfer (s : System) (p d : Int) (m : Message) : System :=
  (s.sent p).got d { m with source := p }

end System

-- What MM does between two of its calls.
def mmThink (memorySize : Int) (s : System) : Option System :=
  match s.mm with
  | .serve m =>
    match m.type with
    | .fork =>
      match Mm.freeSlot s.kernel with
      | none =>
        some { s with mm := .reply m.source { m with m3i1 := -1, type := .syscallRet } }
      | some child =>
        if child ≥ nrTasks + nrNativeProcs then
          match Mm.duplicate memorySize s.kernel m.source child with
          | .ok k => some { s with
              kernel := k
              user := Function.update s.user child (s.user m.source)
              mm := .forkTell m child }
          | .error _ => none
        else none
    | .exit =>
      some { s with mm := .exitTell m.source (s.kernel.procTable m.source).pParent m.status }
    | .wait =>
      match Mm.scan s.kernel m.source 0 Mm.slots with
      | .hanging child => some { s with mm := collecting s.kernel child m.source [] }
      | .children 0 =>
        some { s with mm := .reply m.source { resetMsg with type := .syscallRet, m3i2 := noTask } }
      | .children _ =>
        some { s with kernel := s.kernel.modify m.source Mm.Proc.waits, mm := .main }
    | _ => none
  | .leave pid parentPid status =>
    let k := s.kernel.modify pid (Mm.Proc.exits status)
    if (k.procTable parentPid).pFlags.waiting then
      let k := k.modify parentPid Mm.Proc.stopsWaiting
      some { s with kernel := k, mm := collecting k pid pid Mm.slots }
    else some { s with kernel := k.modify pid Mm.Proc.hangs, mm := .adopt pid Mm.slots }
  | .adopt _ [] => some { s with mm := .main }
  | .adopt pid (i :: rest) =>
    if (s.kernel.procTable i).pParent = pid then
      let k := s.kernel.modify i Mm.Proc.adopted
      if (k.procTable initPid).pFlags.waiting ∧ (k.procTable i).pFlags.hanging then
        let k := k.modify initPid Mm.Proc.stopsWaiting
        some { s with kernel := k, mm := collecting k i pid rest }
      else some { s with kernel := k, mm := .adopt pid rest }
    else some { s with mm := .adopt pid rest }
  | .release proc pid rest =>
    some { s with
      kernel := s.kernel.modify proc Mm.Proc.released
      user := Function.update s.user proc .absent
      mm := .adopt pid rest }
  | _ => none
where
  -- `cleanup()` up to its SEND.
  collecting (k : State) (proc pid : Int) (rest : List Int) : Mm :=
    .collect (k.procTable proc).pParent
      { resetMsg with
        type := .syscallRet
        m3i2 := proc
        m3i1 := (k.procTable proc).exitStatus }
      proc pid rest

def DiskRequest (m : Message) : Prop := m.type ∈ [.devOpen, .devRead, .devWrite, .devIoctl]

/-- What a process does between two calls. -/
inductive Thinks (s : System) : Int → System → Prop
  | user (p : Int) (r : Request) (isUser : taskMm < p) (runs : s.user p = .run) :
      Thinks s p { s with user := Function.update s.user p (.request r) }
  | fsInitDisk (m : Message) (isDisk : DiskRequest m) (init : s.fs = .init) :
      Thinks s taskFs { s with fs := .disk none m }
  | fsInitDone (init : s.fs = .init) : Thinks s taskFs { s with fs := .main }
  | fsDisk (src : Int) (type : MsgType) (m : Message) (isDisk : DiskRequest m)
      (works : s.fs = .work src type) (uses : type ∈ [.open_, .read, .write, .unlink]) :
      Thinks s taskFs { s with fs := .disk (some (src, type)) m }
  | fsTty (src : Int) (type : MsgType) (device cnt : Int) (works : s.fs = .work src type)
      (uses : type ∈ [.open_, .read, .write]) :
      Thinks s taskFs { s with fs := .tty src type device cnt }
  | fsReply (src : Int) (type : MsgType) (m : Message) (works : s.fs = .work src type) :
      Thinks s taskFs { s with fs := .reply src { m with type := .syscallRet } }
  | mm (memorySize : Int) {s' : System} (thinks : mmThink memorySize s = some s') :
      Thinks s taskMm s'
  | hdTick (src : Int) (works : s.hd = .work src) : Thinks s taskHd { s with hd := .tick src }
  | hdIntr (src : Int) (works : s.hd = .work src) : Thinks s taskHd { s with hd := .intr src }
  | hdReply (src : Int) (m : Message) (works : s.hd = .work src) :
      Thinks s taskHd { s with hd := .reply src m }
  | ttyMain (polls : s.tty = .poll) : Thinks s taskTty { s with tty := .main }
  | ttyKey (device : Int) (key : Key) (polls : s.tty = .poll) :
      Thinks s taskTty { s with
        lines := Function.update s.lines device ((s.lines device).put key)
        tty := if (s.lines device).ends key then .resume device else .poll }

inductive Event
  | send (p : Int)
  | receive (p : Int)
  | inform (taskNr : Int)
  | think (p : Int)
  | clock

/--
One step of the system. A call runs in the kernel as it is; it is over when the flag that the
kernel sets for it is gone again. The message itself goes from buffer to buffer unchanged.
-/
inductive Step (s : System) : Event → System → Prop
  | sendWaits (p dest : Int) (m : Message) (buf : Nat) {k' : State} (inTable : InTable p)
      (runs : (s.kernel.procTable p).pFlags = .clear) (calls : s.call p = some (.send dest m))
      (done : sysSendrec s.kernel .send dest buf p = .ok k')
      (waits : (k'.wire p).sending = true) : Step s (.send p) { s with kernel := k' }
  | sendDelivers (p dest : Int) (m : Message) (buf : Nat) {k' : State} (inTable : InTable p)
      (runs : (s.kernel.procTable p).pFlags = .clear) (calls : s.call p = some (.send dest m))
      (done : sysSendrec s.kernel .send dest buf p = .ok k')
      (over_ : (k'.wire p).sending = false) :
      Step s (.send p) ({ s with kernel := k' }.transfer p dest m)
  | receiveWaits (p src : Int) (buf : Nat) {k' : State} (inTable : InTable p)
      (runs : (s.kernel.procTable p).pFlags = .clear) (calls : s.call p = some (.receive src))
      (done : sysSendrec s.kernel .receive src buf p = .ok k')
      (waits : (k'.wire p).receiving = true) : Step s (.receive p) { s with kernel := k' }
  | receiveInterrupt (p src : Int) (buf : Nat) {k' : State} (inTable : InTable p)
      (runs : (s.kernel.procTable p).pFlags = .clear) (calls : s.call p = some (.receive src))
      (done : sysSendrec s.kernel .receive src buf p = .ok k')
      (takes : takesInterrupt s.kernel p src = true) :
      Step s (.receive p) ({ s with kernel := k' }.got p interruptMsg)
  | receiveFrom (p src q : Int) (m : Message) (buf : Nat) {k' : State} (inTable : InTable p)
      (runs : (s.kernel.procTable p).pFlags = .clear) (calls : s.call p = some (.receive src))
      (done : sysSendrec s.kernel .receive src buf p = .ok k')
      (waited : (s.kernel.wire q).sending = true) (over_ : (k'.wire q).sending = false)
      (sends : s.call q = some (.send p m)) :
      Step s (.receive p) ({ s with kernel := k' }.transfer q p m)
  | informWakes (taskNr : Int) {k' : State} (device : taskNr = taskHd ∨ taskNr = taskTty)
      (done : informInt s.kernel taskNr = .ok k')
      (waited : (s.kernel.wire taskNr).receiving = true)
      (over_ : (k'.wire taskNr).receiving = false) :
      Step s (.inform taskNr) ({ s with kernel := k' }.got taskNr interruptMsg)
  | informPends (taskNr : Int) {k' : State} (device : taskNr = taskHd ∨ taskNr = taskTty)
      (done : informInt s.kernel taskNr = .ok k')
      (same : (k'.wire taskNr).receiving = (s.kernel.wire taskNr).receiving) :
      Step s (.inform taskNr) { s with kernel := k' }
  | think (p : Int) {s' : System} (runs : (s.kernel.procTable p).pFlags = .clear)
      (thinks : Thinks s p s') : Step s (.think p) s'
  | clock : Step s .clock
      { s with ticks := if s.ticks + 1 ≥ maxTicks then 0 else s.ticks + 1 }

def Starts (s : System) : Prop :=
  Boots s.kernel ∧ (∀ p, s.user p = if p < nrTasks + nrNativeProcs then .run else .absent) ∧
    s.fs = .init ∧ s.mm = .main ∧ s.hd = .main ∧ s.tty = .poll ∧ (∀ i, (s.lines i).leftCnt = 0) ∧
    s.sys = .main

end Konix.Servers
