import Konix.Servers.Thinking

set_option autoImplicit false

namespace Konix.Mm

open Kernel

-- `*p = proc_table[pid]`, and the parent of the child.
def copyEntry (k : Kernel.State) (pid childPid : Int) : Kernel.State :=
  k.modify childPid fun _ => Proc.child pid (k.procTable pid)

theorem copyEntry_child (k : Kernel.State) (pid childPid : Int) :
    (copyEntry k pid childPid).procTable childPid = Proc.child pid (k.procTable pid) :=
  State.modify_self k childPid fun _ => Proc.child pid (k.procTable pid)

theorem copyEntry_other (k : Kernel.State) (pid : Int) {childPid p : Int} (other : p ≠ childPid) :
    (copyEntry k pid childPid).procTable p = k.procTable p :=
  State.modify_other k (fun _ => Proc.child pid (k.procTable pid)) other

-- From there to `phys_copy()`: the base of the child's memory, and the memory with the copy.
def childImage (memorySize : Int) (k : Kernel.State) (pid childPid : Int) :
    Except Halted (Int × Kernel.State) := do
  let callerTBase := segBase (k.procTable pid).ldtC
  let callerTLimit := reassembly 0 0 ((k.procTable pid).ldtC.limitHighAttr2 &&& 0xF) 16
    (k.procTable pid).ldtC.limitLow
  let callerTSize := segSize (k.procTable pid).ldtC callerTLimit
  let callerDSBase := segBase (k.procTable pid).ldtRw
  let callerDSLimit := reassembly ((k.procTable pid).ldtRw.limitHighAttr2 &&& 0xF) 16 0 0
    (k.procTable pid).ldtRw.limitLow
  let callerDSSize := segSize (k.procTable pid).ldtRw callerTLimit
  k.assertThat (callerTBase = callerDSBase ∧ callerTLimit = callerDSLimit ∧
    callerTSize = callerDSSize)
  let childBase ← allocMem memorySize k childPid callerTSize
  return (childBase, copySegment k childBase callerTBase callerTSize)

def Proc.textIn (base : Int) (p : Proc) : Proc := { p with ldtC := childSegment base daC }

def Proc.dataIn (base : Int) (p : Proc) : Proc := { p with ldtRw := childSegment base daDRW }

-- `do_fork()` is these steps, one after the other.
theorem duplicate_steps (memorySize : Int) (k : Kernel.State) (pid childPid : Int) :
    duplicate memorySize k pid childPid = do
      let (base, k') ← childImage memorySize (copyEntry k pid childPid) pid childPid
      return (k'.modify childPid (Proc.textIn base)).modify childPid (Proc.dataIn base) := by
  have both (k' : Kernel.State) (base : Int) :
      (k'.modify childPid (Proc.textIn base)).modify childPid (Proc.dataIn base) =
        k'.modify childPid (Proc.inMemory base) := by
    simp only [Kernel.State.modify, Function.update_self, Function.update_idem]
    rfl
  simp only [both]
  unfold duplicate childImage copyEntry
  simp only [bind_assoc]
  rfl

theorem childImage_table {memorySize base : Int} {k k' : Kernel.State} {pid childPid : Int}
    (done : childImage memorySize k pid childPid = .ok (base, k')) :
    k'.procTable = k.procTable := by
  unfold childImage at done
  obtain ⟨_, -, done⟩ := bind_ok done
  obtain ⟨childBase, -, done⟩ := bind_ok done
  cases done
  rfl

end Konix.Mm

namespace Konix.Servers

open Kernel Runs

/--
How far MM is in `do_fork()` between copying the caller's entry and setting the second of the
child's LDT descriptors.
-/
inductive Window
  | closed
  | entry (child : Int)
  | image (child base : Int)
  | text (child base : Int)

def Window.child : Window → Option Int
  | .closed => none
  | .entry child => some child
  | .image child _ => some child
  | .text child _ => some child

structure Forking where
  sys : System
  window : Window

inductive ForkEvent
  | other (event : Event)
  | copy
  | image
  | text
  | data

-- MM has a FORK to serve and a slot for the child.
def ForksNow (s : System) : Prop :=
  ∃ m child, s.mm = .serve m ∧ m.type = .fork ∧ Mm.freeSlot s.kernel = some child

def copied (s : System) (m : Message) (child : Int) : System :=
  { s with
    kernel := Mm.copyEntry s.kernel m.source child
    user := Function.update s.user child (s.user m.source) }

/--
The system with `do_fork()` taken apart: all others may go on between its steps, MM goes on with
them only when it runs.
-/
inductive ForkStep (memorySize : Int) (f : Forking) : ForkEvent → Forking → Prop
  | other (event : Event) {t : System} (step : Step f.sys event t)
      (elsewhere : event = .think taskMm → f.window = .closed ∧ ¬ ForksNow f.sys) :
      ForkStep memorySize f (.other event) ⟨t, f.window⟩
  | copy (m : Message) (child : Int) (closed : f.window = .closed)
      (runs : (f.sys.kernel.procTable taskMm).pFlags = .clear) (mm : f.sys.mm = .serve m)
      (isFork : m.type = .fork) (found : Mm.freeSlot f.sys.kernel = some child)
      (above : child ≥ nrTasks + nrNativeProcs) :
      ForkStep memorySize f .copy ⟨copied f.sys m child, .entry child⟩
  | image (m : Message) (child base : Int) {k' : State} (entered : f.window = .entry child)
      (runs : (f.sys.kernel.procTable taskMm).pFlags = .clear) (mm : f.sys.mm = .serve m)
      (done : Mm.childImage memorySize f.sys.kernel m.source child = .ok (base, k')) :
      ForkStep memorySize f .image ⟨{ f.sys with kernel := k' }, .image child base⟩
  | text (child base : Int) (entered : f.window = .image child base)
      (runs : (f.sys.kernel.procTable taskMm).pFlags = .clear) :
      ForkStep memorySize f .text
        ⟨{ f.sys with kernel := f.sys.kernel.modify child (Mm.Proc.textIn base) },
          .text child base⟩
  | data (m : Message) (child base : Int) (entered : f.window = .text child base)
      (runs : (f.sys.kernel.procTable taskMm).pFlags = .clear) (mm : f.sys.mm = .serve m) :
      ForkStep memorySize f .data
        ⟨{ f.sys with
            kernel := f.sys.kernel.modify child (Mm.Proc.dataIn base), mm := .forkTell m child },
          .closed⟩

def ForkStarts (f : Forking) : Prop := Starts f.sys ∧ f.window = .closed

def ChildSuspended (f : Forking) : Prop :=
  ∀ child, f.window.child = some child → (f.sys.kernel.procTable child).pFlags ≠ .clear

-- The caller of `fork()` has come to the second half of its `send_recv()`.
def CallerBlocked (f : Forking) : Prop :=
  ∀ m, f.sys.mm = .serve m → (f.sys.kernel.procTable m.source).pFlags ≠ .clear

-- Nothing of the table changes but the segments of the child.
structure SegmentsOnly (k k' : State) (child : Int) : Prop where
  others : ∀ q, q ≠ child → k'.procTable q = k.procTable q
  flags : (k'.procTable child).pFlags = (k.procTable child).pFlags
  wire : k'.wire child = k.wire child

theorem segmentsOnly_image {k k' : State} (child : Int) (table : k'.procTable = k.procTable) :
    SegmentsOnly k k' child where
  others q _ := by rw [table]
  flags := by rw [table]
  wire := by rw [State.wire, table, State.wire]

theorem segmentsOnly_modify (k : State) (child : Int) {f : Proc → Proc}
    (flags : ∀ proc : Proc, (f proc).pFlags = proc.pFlags)
    (wire : ∀ proc : Proc, (f proc).wire = proc.wire) :
    SegmentsOnly k (k.modify child f) child where
  others _ other := State.modify_other k f other
  flags := by rw [State.modify_self, flags]
  wire := by rw [State.wire, State.modify_self, wire, State.wire]

/-- While the window is open the child is a second process that waits for MM. -/
structure Opened (s : System) (child : Int) : Prop where
  serves : ∃ m, s.mm = .serve m ∧ m.type = .fork ∧ m.source ≠ child
  above : nrTasks + nrNativeProcs ≤ child
  waits : s.call child = some (.receive taskMm)
  alive : Mm.Alive s.kernel child

def WaitsForMm (s : System) (p : Int) : Prop :=
  (s.kernel.wire p).receiving = true ∧ (s.kernel.wire p).recvFrom = taskMm

section Window

variable {s t : System} {child p d src : Int} {m : Message} {k' : State} {memorySize : Int}

theorem Opened.isUser (opened : Opened s child) : IsUser child :=
  user_of_awaits_mm opened.waits

theorem Opened.idle (opened : Opened s child) : s.call taskMm = none := by
  obtain ⟨m, mm, -⟩ := opened.serves
  exact Mm.call_serve mm

theorem Opened.not_receiver (opened : Opened s child) (sends : s.call p = some (.send d m))
    (waits : s.call d = some (.receive src)) (admits : src = p ∨ src = any) :
    d ≠ child ∧ d ≠ taskMm ∧ p ≠ child ∧ p ≠ taskMm := by
  have notMm : p ≠ taskMm := by
    intro same
    rw [same, opened.idle] at sends
    cases sends
  refine ⟨?_, ?_, ?_, notMm⟩
  · intro same
    rw [same, opened.waits] at waits
    cases waits
    rcases admits with same | same
    · exact notMm same.symm
    · cases same
  · intro same
    rw [same, opened.idle] at waits
    cases waits
  · intro same
    rw [same, opened.waits] at sends
    cases sends

theorem Opened.keeps (opened : Opened s child) (keeps : Keeps s.kernel t.kernel)
    (mm : t.mm = s.mm) (call : t.call child = s.call child) : Opened t child where
  serves := by
    rw [mm]
    exact opened.serves
  above := opened.above
  waits := by
    rw [call]
    exact opened.waits
  alive := opened.alive.keeps keeps

theorem Opened.message (opened : Opened s child) (keeps : Keeps s.kernel k')
    (sends : s.call p = some (.send d m)) (waits : s.call d = some (.receive src))
    (admits : src = p ∨ src = any) :
    Opened (({ s with kernel := k' } : System).transfer p d m) child := by
  obtain ⟨notReceiver, dNotMm, notSender, pNotMm⟩ := opened.not_receiver sends waits admits
  have distinct := distinct_of_calls sends waits
  refine opened.keeps ?_ ?_ ?_
  · unfold System.transfer
    rw [got_kernel, sent_kernel]
    exact keeps
  · obtain ⟨same, -⟩ | ⟨same, -⟩ | ⟨-, -, mm⟩ :=
      transfer_mm (s := { s with kernel := k' }) (m := m) distinct
    · exact absurd same dNotMm
    · exact absurd same pNotMm
    · exact mm
  · rw [call_transfer_other notSender.symm notReceiver.symm]
    rfl

theorem Opened.interrupt (opened : Opened s child) (keeps : Keeps s.kernel k')
    (waits : s.call d = some (.receive src)) (fromInt : src = any ∨ src = interrupt) :
    Opened (({ s with kernel := k' } : System).got d interruptMsg) child := by
  have notReceiver : child ≠ d := by
    intro same
    rw [← same, opened.waits] at waits
    cases waits
    rcases fromInt with same | same <;> cases same
  have notMm : d ≠ taskMm := by
    intro same
    rw [same, opened.idle] at waits
    cases waits
  refine opened.keeps ?_ (got_mm_other _ _ notMm) (call_got_other _ _ notReceiver)
  rw [got_kernel]
  exact keeps

theorem Opened.think (opened : Opened s child) (thinks : Thinks s p t) (notMm : p ≠ taskMm) :
    Opened t child ∧ t.kernel = s.kernel := by
  have isUser := opened.isUser
  have call (user : t.user child = s.user child) : t.call child = s.call child := by
    rw [call_user _ isUser, call_user _ isUser, user]
  have place (user : t.user child = s.user child) (kernel : t.kernel = s.kernel)
      (mm : t.mm = s.mm) : Opened t child ∧ t.kernel = s.kernel :=
    ⟨opened.keeps (by rw [kernel]) mm (call user), kernel⟩
  cases thinks with
  | user p r isUser' runs =>
    have other : child ≠ p := by
      intro same
      have waits := opened.waits
      rw [call_user s isUser, same, runs] at waits
      cases waits
    exact place (Function.update_of_ne other _ _) rfl rfl
  | mm memorySize thinks => exact absurd rfl notMm
  | fsInitDisk m isDisk init => exact place rfl rfl rfl
  | fsInitDone init => exact place rfl rfl rfl
  | fsDisk src type m isDisk works uses => exact place rfl rfl rfl
  | fsTty src type device cnt works uses => exact place rfl rfl rfl
  | fsReply src type m works => exact place rfl rfl rfl
  | hdTick src works => exact place rfl rfl rfl
  | hdIntr src works => exact place rfl rfl rfl
  | hdReply src m works => exact place rfl rfl rfl
  | ttyMain polls => exact place rfl rfl rfl
  | ttyKey device key polls => exact place rfl rfl rfl

theorem Opened.send_wire (opened : Opened s child) (safe : Safe s)
    (calls : s.call p = some (.send d m)) {buf : Nat}
    (done : sysSendrec s.kernel .send d buf p = .ok k') : k'.wire child = s.kernel.wire child := by
  obtain ⟨receiving, admits, rewires⟩ | rewires := sysSendrec_send done
  · have waits := safe.receiving d receiving
    exact rewires.other (opened.not_receiver calls waits admits).1.symm
  · apply rewires.other
    intro same
    rw [← same, opened.waits] at calls
    cases calls

theorem Opened.receive_wire (opened : Opened s child) (safe : Safe s) (other : p ≠ child)
    {buf : Nat} (done : sysSendrec s.kernel .receive src buf p = .ok k') :
    k'.wire child = s.kernel.wire child := by
  obtain ⟨-, wires⟩ | ⟨-, ⟨q, -, sending, -, rewires⟩ | rewires⟩ := sysSendrec_receive done
  · rw [wires]
  · apply rewires.other
    intro same
    rw [← same, safe.toWired.not_sending opened.waits] at sending
    cases sending
  · exact rewires.other other.symm

theorem Opened.inform_wire (opened : Opened s child) {taskNr : Int}
    (device : taskNr = taskHd ∨ taskNr = taskTty) (done : informInt s.kernel taskNr = .ok k') :
    k'.wire child = s.kernel.wire child := by
  obtain ⟨-, -, rewires⟩ | wires := informInt_rewires done
  · apply rewires.other
    intro same
    have above := opened.above
    rcases device with isHd | isTty
    · rw [same, isHd] at above
      exact absurd above (by decide)
    · rw [same, isTty] at above
      exact absurd above (by decide)
  · rw [wires]

theorem WaitsForMm.not_clear (waits : WaitsForMm s p) :
    (s.kernel.procTable p).pFlags ≠ .clear := by
  intro clear
  have flag := waits.1
  rw [(wire_of_clear clear).2] at flag
  cases flag

theorem WaitsForMm.same (waits : WaitsForMm s p) (wire : t.kernel.wire p = s.kernel.wire p) :
    WaitsForMm t p := by
  rw [WaitsForMm, wire]
  exact waits

theorem transfer_kernel : (s.transfer p d m).kernel = s.kernel := by
  unfold System.transfer
  rw [got_kernel, sent_kernel]

theorem Opened.other (opened : Opened s child) (safe : Safe s) {event : Event}
    (step : Step s event t) (elsewhere : event ≠ .think taskMm) :
    Opened t child ∧ (WaitsForMm s child → WaitsForMm t child) := by
  cases step with
  | sendWaits p dest m buf inTable runs calls done waits =>
    refine ⟨opened.keeps (sysSendrec_keeps done) rfl rfl, fun waiting => waiting.same ?_⟩
    exact opened.send_wire safe calls done
  | sendDelivers p dest m buf inTable runs calls done over_ =>
    obtain ⟨receiving, admits, -⟩ | rewires := sysSendrec_send done
    · refine ⟨opened.message (sysSendrec_keeps done) calls (safe.receiving dest receiving) admits,
        fun waiting => waiting.same ?_⟩
      rw [transfer_kernel]
      exact opened.send_wire safe calls done
    · rw [rewires.self] at over_
      cases over_
  | receiveWaits p src buf inTable runs calls done waits =>
    refine ⟨opened.keeps (sysSendrec_keeps done) rfl rfl, fun waiting => waiting.same ?_⟩
    refine opened.receive_wire safe (fun same => ?_) done
    exact waiting.not_clear (same ▸ runs)
  | receiveInterrupt p src buf inTable runs calls done takes =>
    simp only [takesInterrupt, decide_eq_true_eq] at takes
    refine ⟨opened.interrupt (sysSendrec_keeps done) calls takes.2, fun waiting => waiting.same ?_⟩
    rw [got_kernel]
    refine opened.receive_wire safe (fun same => ?_) done
    exact waiting.not_clear (same ▸ runs)
  | receiveFrom p src q m buf inTable runs calls done waited over_ sends =>
    have distinct := distinct_of_calls sends calls
    obtain ⟨admits, -⟩ := sysSendrec_takes done distinct.symm waited over_
    refine ⟨opened.message (sysSendrec_keeps done) sends calls admits, fun waiting =>
      waiting.same ?_⟩
    rw [transfer_kernel]
    exact opened.receive_wire safe (opened.not_receiver sends calls admits).1 done
  | informWakes taskNr device done waited over_ =>
    obtain ⟨receiving, fromInt, -⟩ | wires := informInt_rewires done
    · refine ⟨opened.interrupt (informInt_keeps done) (safe.receiving taskNr receiving)
        fromInt.symm, fun waiting => waiting.same ?_⟩
      rw [got_kernel]
      exact opened.inform_wire device done
    · rw [wires, waited] at over_
      cases over_
  | informPends taskNr device done same =>
    refine ⟨opened.keeps (informInt_keeps done) rfl rfl, fun waiting => waiting.same ?_⟩
    exact opened.inform_wire device done
  | think p runs thinks =>
    obtain ⟨opened', kernel⟩ := opened.think thinks fun same => elsewhere (same ▸ rfl)
    refine ⟨opened', fun waiting => waiting.same ?_⟩
    rw [kernel]
  | clock => exact ⟨opened.keeps (Keeps.refl _) rfl rfl, fun waiting => waiting⟩

theorem Opened.places (opened : Opened s child) (safe : Safe s) {mm : Mm}
    (serves : ∃ m, s.mm = .serve m ∧ (mm = .serve m ∨ mm = .forkTell m child))
    (only : SegmentsOnly s.kernel k' child) : Safe { s with kernel := k', mm := mm } := by
  obtain ⟨m, serving, becomes⟩ := serves
  obtain ⟨waits, alive⟩ := safe.server_of_serve serving
  have distinct : m.source ≠ child := by
    obtain ⟨m', serving', -, other⟩ := opened.serves
    cases serving.symm.trans serving'
    exact other
  have awake : Mm.Alive k' child := by
    rw [Mm.Alive, only.flags]
    exact opened.alive
  have calls : (s.user child).call = some (.receive taskMm) := by
    rw [← call_user s opened.isUser]
    exact opened.waits
  have callers : ∀ c ∈ mm.callers, c = m.source ∨ c = child := by
    intro c caller
    rcases becomes with rfl | rfl
    · exact .inl (List.mem_singleton.mp caller)
    · simpa [Mm.callers] using caller
  have dying : mm.dying = [] := by
    rcases becomes with rfl | rfl <;> rfl
  have once : mm.clients.Nodup := by
    rcases becomes with rfl | rfl
    · exact List.nodup_singleton _
    · simpa [Mm.clients, Mm.callers, Mm.dying] using distinct
  have same : s.user = Function.update s.user child (s.user child) :=
    (Function.update_eq_self child s.user).symm
  rw [same]
  refine safe.thinkLife (Mm.call_serve serving) opened.isUser only.others ?_ ?_ (fun _ => calls)
    once ?_ ⟨awake.1, awake.2.1⟩ ?_ dying ?_ ?_ ?_
  · intro e owes
    have waiting := safe.debts e child owes
    rw [opened.waits] at waiting
    cases waiting
    rfl
  · intro c client other
    rw [Mm.clients, dying, List.append_nil] at client
    rw [(callers c client).resolve_right other]
    exact waits
  · intro p caller
    rcases callers p caller with rfl | rfl
    · rw [Mm.Alive, only.others _ distinct]
      exact alive
    · exact awake
  · intro flag
    rw [awake.2.2] at flag
    cases flag
  · intro pid parentPid status
    rcases becomes with rfl | rfl <;> refine ⟨?_, ?_, ?_⟩ <;> intro same <;> cases same
  · intro flag
    rw [only.wire, safe.toWired.not_sending opened.waits] at flag
    cases flag
  · intro flag
    rw [only.wire] at flag ⊢
    rw [← call_user s opened.isUser]
    exact safe.receiving child flag

theorem Opened.segments (opened : Opened s child) (only : SegmentsOnly s.kernel k' child) :
    Opened { s with kernel := k' } child where
  serves := opened.serves
  above := opened.above
  waits := opened.waits
  alive := by
    show Mm.Alive k' child
    rw [Mm.Alive, only.flags]
    exact opened.alive

theorem Safe.slot_absent (safe : Safe s) (mm : s.mm = .serve m)
    (found : Mm.freeSlot s.kernel = some child) (above : child ≥ nrTasks + nrNativeProcs) :
    IsUser child ∧ s.call child = none ∧ m.source ≠ child := by
  have isUser : IsUser child := by
    refine isUser_of_lt ?_
    simp only [nrTasks, nrNativeProcs] at above
    simp only [taskMm]
    omega
  have absent : s.call child = none := by
    refine safe.free child isUser ?_
    rw [(Mm.freeSlot_found found).2]
    rfl
  refine ⟨isUser, absent, fun same => ?_⟩
  have waits := (safe.server_of_serve mm).1
  rw [same, absent] at waits
  cases waits

theorem Safe.copied_opened (safe : Safe s) (mm : s.mm = .serve m) (isFork : m.type = .fork)
    (found : Mm.freeSlot s.kernel = some child) (above : child ≥ nrTasks + nrNativeProcs) :
    Opened (copied s m child) child := by
  obtain ⟨isUser, -, distinct⟩ := safe.slot_absent mm found above
  obtain ⟨waits, alive⟩ := safe.server_of_serve mm
  refine ⟨⟨m, mm, isFork, distinct⟩, above, ?_, ?_⟩
  · rw [call_user _ isUser]
    simp only [copied, Function.update_self]
    rw [← call_user s (user_of_awaits_mm waits)]
    exact waits
  · simp only [copied, Mm.Alive, Mm.copyEntry_child]
    exact alive

theorem Safe.copied (safe : Safe s) (mm : s.mm = .serve m)
    (found : Mm.freeSlot s.kernel = some child) (above : child ≥ nrTasks + nrNativeProcs) :
    Safe (copied s m child) := by
  obtain ⟨isUser, absent, distinct⟩ := safe.slot_absent mm found above
  obtain ⟨waits, alive⟩ := safe.server_of_serve mm
  have calls : (s.user m.source).call = s.call m.source :=
    (call_user s (user_of_awaits_mm waits)).symm
  have wire : (Mm.copyEntry s.kernel m.source child).wire child = s.kernel.wire m.source := by
    rw [State.wire, Mm.copyEntry_child]
    rfl
  have awake : Mm.Alive (Mm.copyEntry s.kernel m.source child) child := by
    rw [Mm.Alive, Mm.copyEntry_child]
    exact alive
  have callers (c : Int) (caller : c ∈ s.mm.callers) : c = m.source := by
    rw [mm] at caller
    exact List.mem_singleton.mp caller
  have dying : s.mm.dying = [] := by
    rw [mm]
    rfl
  show Safe { s with
    kernel := Mm.copyEntry s.kernel m.source child
    user := Function.update s.user child (s.user m.source)
    mm := s.mm }
  refine safe.thinkLife (Mm.call_serve mm) isUser (fun _ => Mm.copyEntry_other _ _) ?_ ?_ ?_
    safe.once ?_ ⟨awake.1, awake.2.1⟩ ?_ dying ?_ ?_ ?_
  · intro e owes
    have waiting := safe.debts e child owes
    rw [absent] at waiting
    cases waiting
  · exact fun c client _ => safe.mm_client client
  · intro _
    rw [calls]
    exact waits
  · intro p caller
    rw [callers p caller, Mm.Alive, Mm.copyEntry_other _ _ distinct]
    exact alive
  · intro flag
    rw [awake.2.2] at flag
    cases flag
  · intro pid parentPid status
    rw [mm]
    refine ⟨?_, ?_, ?_⟩ <;> intro same <;> cases same
  · intro flag
    rw [wire] at flag ⊢
    obtain ⟨m', sends⟩ := safe.sending m.source flag
    exact ⟨m', calls.trans sends⟩
  · intro flag
    rw [wire] at flag ⊢
    exact calls.trans (safe.receiving m.source flag)

/-- In every run the system stays in order, and the child is a second caller while it is made. -/
structure Births (f : Forking) : Prop where
  safe : Safe f.sys
  opened : ∀ child, f.window.child = some child → Opened f.sys child

def WaitsInWindow (f : Forking) : Prop :=
  ∀ child, f.window.child = some child → WaitsForMm f.sys child

variable {f g : Forking} {event : ForkEvent}

theorem Births.segments (births : Births f) (isChild : f.window.child = some child)
    (only : SegmentsOnly f.sys.kernel k' child) {window : Window}
    (same : window.child = some child) : Births ⟨{ f.sys with kernel := k' }, window⟩ := by
  have opened := births.opened child isChild
  obtain ⟨m, mm, -⟩ := opened.serves
  refine ⟨opened.places births.safe ⟨m, mm, .inl mm⟩ only, fun child' isChild' => ?_⟩
  cases same.symm.trans isChild'
  exact opened.segments only

theorem Births.step (births : Births f) (step : ForkStep memorySize f event g) : Births g := by
  cases step with
  | other event step elsewhere =>
    refine ⟨births.safe.step step, fun child isChild => ?_⟩
    refine ((births.opened child isChild).other births.safe step fun isMm => ?_).1
    have closed := (elsewhere isMm).1
    rw [closed] at isChild
    cases isChild
  | copy m child closed runs mm isFork found above =>
    refine ⟨births.safe.copied mm found above, fun child' isChild => ?_⟩
    cases isChild
    exact births.safe.copied_opened mm isFork found above
  | image m child base entered runs mm done =>
    have isChild : f.window.child = some child := by rw [entered]; rfl
    exact births.segments isChild (segmentsOnly_image child (Mm.childImage_table done)) rfl
  | text child base entered runs =>
    have isChild : f.window.child = some child := by rw [entered]; rfl
    have only := segmentsOnly_modify f.sys.kernel child (f := Mm.Proc.textIn base)
      (fun _ => rfl) (fun _ => rfl)
    exact births.segments isChild only rfl
  | data m child base entered runs mm =>
    have opened := births.opened child (by rw [entered]; rfl)
    have only := segmentsOnly_modify f.sys.kernel child (f := Mm.Proc.dataIn base)
      (fun _ => rfl) (fun _ => rfl)
    exact ⟨opened.places births.safe ⟨m, mm, .inr rfl⟩ only, nofun⟩

theorem Safe.waitsForMm (safe : Safe s) (waits : s.call p = some (.receive taskMm))
    (alive : Mm.Alive s.kernel p) (blocked : (s.kernel.procTable p).pFlags ≠ .clear) :
    WaitsForMm s p := by
  have receiving : (s.kernel.wire p).receiving = true := by
    by_contra awake
    apply blocked
    have notReceiving : (s.kernel.procTable p).pFlags.receiving = false :=
      Bool.eq_false_iff.mpr awake
    have notSending : (s.kernel.procTable p).pFlags.sending = false :=
      safe.toWired.not_sending waits
    obtain ⟨notWaiting, notHanging, notFree⟩ := alive
    generalize (s.kernel.procTable p).pFlags = flags at *
    cases flags
    simp_all [PFlags.clear]
  have call := waits.symm.trans (safe.receiving p receiving)
  exact ⟨receiving, (Call.receive.inj (Option.some.inj call)).symm⟩

-- A caller that has not come to its RECEIVE is the only way to a child that may run.
theorem Births.waits_step (births : Births f) (waiting : WaitsInWindow f)
    (step : ForkStep memorySize f event g) (blocked : event = .copy → CallerBlocked f) :
    WaitsInWindow g := by
  cases step with
  | other event step elsewhere =>
    intro child isChild
    refine ((births.opened child isChild).other births.safe step fun isMm => ?_).2
      (waiting child isChild)
    have closed := (elsewhere isMm).1
    rw [closed] at isChild
    cases isChild
  | copy m child closed runs mm isFork found above =>
    intro child' isChild
    cases isChild
    obtain ⟨waits, alive⟩ := births.safe.server_of_serve mm
    have waitsForMm := births.safe.waitsForMm waits alive (blocked rfl m mm)
    have wire : (copied f.sys m child).kernel.wire child = f.sys.kernel.wire m.source := by
      simp only [copied, State.wire, Mm.copyEntry_child]
      rfl
    rw [WaitsForMm, wire]
    exact waitsForMm
  | image m child base entered runs mm done =>
    intro child' isChild
    cases isChild
    exact (waiting child (by rw [entered]; rfl)).same
      (segmentsOnly_image child (Mm.childImage_table done)).wire
  | text child base entered runs =>
    intro child' isChild
    cases isChild
    have only := segmentsOnly_modify f.sys.kernel child (f := Mm.Proc.textIn base)
      (fun _ => rfl) (fun _ => rfl)
    exact (waiting child (by rw [entered]; rfl)).same only.wire
  | data m child base entered runs mm =>
    intro child' isChild
    cases isChild

theorem ForkStep.copied_flags (step : ForkStep memorySize f .copy g) (mm : f.sys.mm = .serve m) :
    ∃ child, g.window.child = some child ∧
      (g.sys.kernel.procTable child).pFlags = (f.sys.kernel.procTable m.source).pFlags := by
  cases step with
  | copy m' child closed runs mm' isFork found above =>
    cases mm.symm.trans mm'
    refine ⟨child, rfl, ?_⟩
    simp only [copied, Mm.copyEntry_child]
    rfl

theorem births_run (run : Run ForkStarts (ForkStep memorySize)) {t : Nat}
    (within : t ≤ run.length) : Births (run.state t) := by
  refine run.invariant (P := Births) ?_ (fun _ _ _ births => births.step) t within
  intro f ⟨starts, closed⟩
  refine ⟨Safe.starts starts, fun child isChild => ?_⟩
  rw [closed] at isChild
  cases isChild

end Window

/--
The child can run nowhere between the copy and the last of its segments, in a run in which MM finds
each caller of `fork()` blocked when it copies its entry, and in no other run.
-/
theorem child_suspended_iff (memorySize : Int) (run : Run ForkStarts (ForkStep memorySize)) :
    (∀ t, t ≤ run.length → ChildSuspended (run.state t)) ↔
      ∀ t, t < run.length → run.act t = .copy → CallerBlocked (run.state t) := by
  constructor
  · intro suspended t within isCopy m mm
    have step := run.steps t within
    rw [isCopy] at step
    obtain ⟨child, isChild, flags⟩ := step.copied_flags mm
    rw [← flags]
    exact suspended (t + 1) within child isChild
  · intro blocked t within child isChild
    have waits : WaitsInWindow (run.state t) := by
      refine run.timed_invariant (P := fun _ => WaitsInWindow) ?_ ?_ t within
      · rintro f ⟨-, closed⟩ child isChild
        rw [closed] at isChild
        cases isChild
      · intro u inside waiting
        exact (births_run run inside.le).waits_step waiting (run.steps u inside) (blocked u inside)
    exact (waits child isChild).not_clear

section Samples

def forkRequest : Request := ask taskMm .fork fork_isRequest

def mmWaits : System := blocks boots .receive any 4096 taskMm

def initForks : System :=
  { mmWaits with user := Function.update mmWaits.user initPid (.request forkRequest) }

def forkSent : System := delivers initForks initPid taskMm forkRequest.m 8192

-- MM waits for requests, INIT sends it a FORK and loses the processor before its RECEIVE.
def preempted : Nat → Forking
  | 0 => ⟨boots, .closed⟩
  | 1 => ⟨mmWaits, .closed⟩
  | 2 => ⟨initForks, .closed⟩
  | 3 => ⟨forkSent, .closed⟩
  | _ => ⟨copied forkSent { forkRequest.m with source := initPid } 9, .entry 9⟩

def preemptedEvents : Nat → ForkEvent
  | 0 => .other (.receive taskMm)
  | 1 => .other (.think initPid)
  | 2 => .other (.send initPid)
  | _ => .copy

theorem mmWaits_step : Step boots (.receive taskMm) mmWaits :=
  receive_blocks (by decide +kernel) rfl (by decide +kernel)

theorem initForks_step : Step mmWaits (.think initPid) initForks :=
  .think initPid (by decide +kernel) (.user initPid forkRequest (by decide) rfl)

theorem forkSent_step : Step initForks (.send initPid) forkSent :=
  send_delivers (by decide +kernel) rfl (by decide +kernel)

def preemptedRun : Run ForkStarts (ForkStep 33554432) where
  length := 4
  state := preempted
  act := preemptedEvents
  start := ⟨boots_starts, rfl⟩
  steps := by
    intro t inside
    match t, inside with
    | 0, _ => exact .other _ mmWaits_step nofun
    | 1, _ => exact .other _ initForks_step nofun
    | 2, _ => exact .other _ forkSent_step nofun
    | 3, _ => exact .copy _ 9 rfl (by decide +kernel) rfl rfl (by decide +kernel) (by decide)
    | t + 4, inside => exact absurd inside (by omega)

-- The child may run, with the segments of its parent.
theorem child_runs_early :
    ¬ ∀ (memorySize : Int) (run : Run ForkStarts (ForkStep memorySize)) (t : Nat),
      t ≤ run.length → ChildSuspended (run.state t) := by
  intro always
  have suspended := always 33554432 preemptedRun 4 (Nat.le_refl 4) 9 rfl
  exact suspended (by decide +kernel)

end Samples

end Konix.Servers
