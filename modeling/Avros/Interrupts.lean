import Avros.KernelRounds

/-! Interrupts on their way to the tasks that handle them: usart0_event() of
`drivers/tty.c` and tickd() of `servers/ts.c`. Each sets the enable bits of its sources,
waits for an event, clears the bit of the source that fired and reports to its server. The
handlers run with interrupts disabled; all other tasks call the kernel as they like. -/
namespace Avros.Interrupts
open Kernel Run Queue

def eventTimer1ovf : Nat := 0x0001
def eventUsart0rx : Nat := 0x0002
def eventUsart0tx : Nat := 0x0004
def taskPrioRt : Nat := 0

inductive Message where
  | vfsRdInterrupt | vfsWrInterrupt | tsTick
  deriving DecidableEq, Repr

/- A handler: the events it enables, what it gives waitevent(), the call and the server it
reports with, and what it says of each event. -/
structure Handler where
  pid : Pid
  sources : List Nat
  mask : Nat
  report : Kcall
  server : Pid
  messages : Nat → List Message

def usart0Event (pid vfs : Pid) : Handler :=
  ⟨pid,[eventUsart0rx,eventUsart0tx],eventUsart0rx ||| eventUsart0tx,.send,vfs,fun code =>
    if code = eventUsart0rx then [.vfsRdInterrupt]
    else if code = eventUsart0tx then [.vfsWrInterrupt]
    else []⟩

def tickd (pid ts : Pid) : Handler :=
  ⟨pid,[eventTimer1ovf],eventTimer1ovf ||| preemptOnEvent,.sendrec,ts,fun _ => [.tsTick]⟩

/- Where a handler stands: `early` is before its kirqdis(), `top` between that and its
first waitevent(), and with `reporting` its server has been called. -/
inductive Phase where
  | early | top | waiting
  | woken (code : Nat)
  | reporting (code : Nat)
  deriving DecidableEq, Repr

structure Tasks where
  usart0 : Pid
  tickd : Pid
  vfs : Pid
  ts : Pid
  apart : usart0 ≠ tickd

def Tasks.tty (T : Tasks) : Handler := usart0Event T.usart0 T.vfs
def Tasks.tick (T : Tasks) : Handler := Interrupts.tickd T.tickd T.ts

-- `enabled` are RXCIE0 and TXCIE0 of UCSR0B and TOIE1 of TIMSK1, by event code.
structure Station where
  kernel : State
  usart0 : Phase
  tickd : Phase
  enabled : Nat → Bool

inductive Note where
  | arrived (code : Nat)
  | reported (message : Message)
  deriving DecidableEq, Repr

def running (s : State) : Pid := (scheduler s).current.headD 0

def Own (h : Handler) (s : State) (i : Input) : Prop := i.eventcode = eventNone ∧ running s = h.pid

instance (h : Handler) (s : State) (i : Input) : Decidable (Own h s i) := inferInstanceAs (Decidable (_ ∧ _))

def called (ph : Phase) (c : Ctxt) : Phase :=
  match ph,c.kcall with
  | .early,.irqdis => .top
  | .top,.waitevent => .waiting
  | .woken code,_ => .reporting code
  | .reporting _,.waitevent => .waiting
  | ph,_ => ph

def after (h : Handler) (ph : Phase) (s : State) (i : Input) (out : List Event) : Phase :=
  if i.eventcode ≠ eventNone then
    if .signal h.pid i.eventcode ∈ out then .woken i.eventcode else ph
  else if running s = h.pid then called ph i.ctxt
  else ph

def writes (h : Handler) (ph : Phase) (c : Ctxt) (enabled : Nat → Bool) : Nat → Bool :=
  match ph with
  | .woken code => fun x => if x = code then false else enabled x
  | ph => if called ph c = .waiting then fun x => if x ∈ h.sources then true else enabled x else enabled

def written (h : Handler) (ph : Phase) (s : State) (i : Input) (enabled : Nat → Bool) : Nat → Bool :=
  if Own h s i then writes h ph i.ctxt enabled else enabled

def reports (h : Handler) (ph : Phase) (s : State) (i : Input) : List Note :=
  match ph with
  | .woken code => if Own h s i then (h.messages code).map .reported else []
  | _ => []

def arrivals (i : Input) : List Note := if i.eventcode = eventNone then [] else [.arrived i.eventcode]

def step (T : Tasks) : Step Station Input Note := fun s i => do
  let (k,out) ← kernel s.kernel i
  some (⟨k,after T.tty s.usart0 s.kernel i out,after T.tick s.tickd s.kernel i out,
      written T.tty s.usart0 s.kernel i (written T.tick s.tickd s.kernel i s.enabled)⟩,
    arrivals i ++ reports T.tty s.usart0 s.kernel i ++ reports T.tick s.tickd s.kernel i)

def Next (h : Handler) : Phase → Ctxt → Prop
  | .early,_ => True
  | .top,c => c.kcall = .yield ∨ c.kcall = .waitevent ∧ c.p0 = h.mask
  | .woken _,c => c.kcall = h.report ∧ c.p0 = h.server
  | .reporting _,c => c.kcall = .waitevent ∧ c.p0 = h.mask
  | .waiting,_ => False

/- A handler is created with TASK_PRIO_RT and keeps to its code, and nobody restarts it. -/
structure Plays (h : Handler) (ph : Phase) (s : State) (i : Input) : Prop where
  next : Own h s i → Next h ph i.ctxt
  urgent : Own h s i → ph = .early → i.ctxt.kcall = .irqdis → prioOf s h.pid = taskPrioRt
  spared : i.eventcode = eventNone → ph ≠ .early → ¬ Named i.ctxt h.pid

def Shut (vfs : Pid) (s : State) (p : Pid) : Prop :=
  ∀ prio irqdis, flags s p = some (prio,irqdis) → prio = taskPrioRt ∨ p = vfs → irqdis = true

/- The time server, tickd and VFS have called kirqdis() before usart0_event starts its
loop, never call kirqen(), and no task is made urgent after them. -/
structure Settled (T : Tasks) (s : Station) (i : Input) : Prop where
  ready : Own T.tty s.kernel i → s.usart0 = .early → i.ctxt.kcall = .irqdis →
    (flags s.kernel T.vfs).isSome ∧ ∀ p, p ≠ T.usart0 → Shut T.vfs s.kernel p
  created : i.eventcode = eventNone → s.usart0 ≠ .early → i.ctxt.kcall = .createtask → i.ctxt.p0 % 256 ≠ taskPrioRt
  shut : i.eventcode = eventNone → s.usart0 ≠ .early → i.ctxt.kcall = .irqen →
    running s.kernel ≠ T.vfs ∧ prioOf s.kernel (running s.kernel) ≠ taskPrioRt
  kept : i.eventcode = eventNone → s.usart0 ≠ .early → ¬ (i.ctxt.kcall = .deletetask ∧ i.ctxt.p0 = T.vfs) ∧
    ¬ (i.ctxt.kcall = .exittask ∧ running s.kernel = T.vfs)

-- An interrupt enters while its source is enabled and the running task lets it.
structure Runs (T : Tasks) (s : Station) (i : Input) : Prop where
  legal : Legal s.kernel i
  interrupt : i.eventcode ≠ eventNone → s.enabled i.eventcode = true ∧
    ∃ prio, flags s.kernel (running s.kernel) = some (prio,false)
  tty : Plays T.tty s.usart0 s.kernel i
  tick : Plays T.tick s.tickd s.kernel i
  settled : Settled T s i

-- No interrupt of USART0 comes while usart0_event is held up in its send to VFS.
def Unheld (T : Tasks) (s : Station) (i : Input) : Prop :=
  i.eventcode ∈ T.tty.sources → ¬ PendingSend s.kernel T.usart0 T.vfs

-- Only a handler that has called waitevent() reads as waiting for the interrupt.
def Alone (T : Tasks) (s : Station) (i : Input) : Prop :=
  i.eventcode ≠ eventNone → ∀ p, Waits i s.kernel p →
    p = T.usart0 ∧ s.usart0 = .waiting ∨ p = T.tickd ∧ s.tickd = .waiting

structure Clear (T : Tasks) (s : Station) (i : Input) : Prop where
  unheld : Unheld T s i
  alone : Alone T s i

def Opened (b : Boot) (s : Station) : Prop :=
  Booted b s.kernel ∧ s.usart0 = .early ∧ s.tickd = .early ∧ s.enabled = fun _ => false

/-! Where a handler can be in each phase. -/

def Masked (h : Handler) (s : State) : Prop := flags s h.pid = some (taskPrioRt,true)

def Pends (s : State) (p code : Nat) : Prop :=
  p ∈ s.blocked ∧ ∃ c, trapFrame s p = some c ∧ c.kcall = .waitevent ∧ c.p0 &&& code ≠ 0

def Sleeps (h : Handler) (s : State) : Prop :=
  h.pid ∈ s.blocked ∧ ∃ c, trapFrame s h.pid = some c ∧ c.kcall = .waitevent ∧ c.p0 = h.mask

def Held (h : Handler) (s : State) : Prop :=
  h.pid ∈ s.blocked ∧ ∃ c, trapFrame s h.pid = some c ∧ c.kcall = .send ∧ c.p0 = h.server

/- The handler has called its server: it still runs, or it is held up, or the server has
received from it, and then the server or an urgent task runs until the handler does. -/
def Returning (h : Handler) (s : State) : Prop :=
  s.current = [h.pid] ∨ Held h s ∨ h.pid ∈ s.queue 0 ∧ ∀ p ∈ s.current, p = h.server ∨ prioOf s p = taskPrioRt

def Single (h : Handler) : Prop := ∃ code, h.sources = [code]

def Stands (h : Handler) (ph : Phase) (s : State) (enabled : Nat → Bool) : Prop :=
  match ph with
  | .early => ∀ c ∈ h.sources, enabled c = false
  | .top => Masked h s ∧ ∀ c ∈ h.sources, enabled c = false
  | .waiting => Masked h s ∧ Sleeps h s
  | .woken code => Masked h s ∧ s.current = [h.pid] ∧ code ∈ h.sources
  | .reporting code => Masked h s ∧ code ∈ h.sources ∧ enabled code = false ∧ (Single h ∨ Returning h s)

def Message.event : Message → Nat
  | .vfsRdInterrupt => eventUsart0rx
  | .vfsWrInterrupt => eventUsart0tx
  | .tsTick => eventTimer1ovf

/- What the handlers' own values promise: the mask covers the sources, who has several
sends, and each event is told in one message of its own. -/
structure Fit (h : Handler) : Prop where
  covers : ∀ code ∈ h.sources, h.mask &&& code ≠ 0
  reports : h.report = .send ∨ h.report = .sendrec ∧ Single h
  tells : ∀ code ∈ h.sources, ∀ m : Message, (h.messages code).count m = if code = m.event then 1 else 0

theorem ttyFit (T : Tasks) : Fit T.tty where
  covers := by simp [Tasks.tty,usart0Event,eventUsart0rx,eventUsart0tx]
  reports := .inl rfl
  tells := by
    intro code source m
    simp only [Tasks.tty,usart0Event,List.mem_cons,List.not_mem_nil,or_false] at source
    rcases source with rfl | rfl <;> cases m <;> rfl

theorem tickFit (T : Tasks) : Fit T.tick where
  covers := by simp [Tasks.tick,Interrupts.tickd,eventTimer1ovf,preemptOnEvent]
  reports := .inr ⟨rfl,_,rfl⟩
  tells := by
    intro code source m
    cases List.mem_singleton.mp source
    cases m <;> rfl

section
variable {h : Handler} {ph : Phase} {s s' : State} {i : Input} {enabled enabled' : Nat → Bool} {cur : Pid} {rest : List Pid}

theorem runningHead (line : (scheduler s).current = cur::rest) : running s = cur := by
  rw [running,line]
  rfl

theorem Masked.prio (masked : Masked h s) : prioOf s h.pid = taskPrioRt := by
  unfold Masked flags at masked
  obtain ⟨t,there,same⟩ := Option.map_eq_some_iff.mp masked
  rw [prioOf,there]
  exact congrArg Prod.fst same

theorem currentAlone (placed : Placed s) (line : s.current = cur::rest) : s.current = [cur] := by
  have single := placed.single
  rw [line,List.length_cons] at single
  have none : rest = [] := List.length_eq_zero_iff.mp (by omega)
  rw [line,none]

theorem enterTask {p : Pid} (other : p ≠ cur) : (enter i s cur).task p = s.task p := setTaskOther _ _ other

theorem trapFrameSame {p : Pid} (same : s'.task p = s.task p) : trapFrame s' p = trapFrame s p := by
  rw [trapFrame,same]
  rfl

theorem dispatchedFlags (placed : Placed s) (line : (scheduler s).current = cur::rest) :
    ∃ irqdis, flags s cur = some (prioOf s cur,irqdis) := by
  have live := ((schedulerPlaced placed).live (occursSomewhere (.inl (line ▸ List.mem_cons_self)))).1
  rw [schedulerTask] at live
  obtain ⟨t,there⟩ := Option.isSome_iff_exists.mp live
  exact ⟨t.irqdis,by simp [flags,prioOf,there]⟩

theorem dispatchedUrgent {server : Pid} (placed : Placed s) (ready : h.pid ∈ s.queue 0)
    (urgent : ∀ p ∈ s.current, p = server ∨ prioOf s p = taskPrioRt) (line : (scheduler s).current = cur::rest) :
    (cur = server ∨ prioOf s cur = taskPrioRt) ∧ (cur = h.pid ∨ h.pid ∈ (scheduler s).queue 0) := by
  rcases schedulerUrgent ready line with same | ⟨member,others⟩
  · rw [same] at line ⊢
    exact ⟨urgent cur (line ▸ List.mem_cons_self),.inr ready⟩
  · refine ⟨.inr (placed.own 0 cur member),?_⟩
    by_cases mine : h.pid = cur
    · exact .inl mine.symm
    · exact .inr (others h.pid ready mine)

def Interruptible (s : State) (cur : Pid) : Prop := ∀ prio irqdis, flags s cur = some (prio,irqdis) → irqdis = false

theorem Masked.apart (masked : Masked h s) (open_ : Interruptible s cur) : cur ≠ h.pid := by
  rintro rfl
  exact absurd (open_ _ _ masked) (by decide)

theorem currentApart (masked : Masked h s) (open_ : Interruptible s cur) (line : (scheduler s).current = cur::rest) :
    s.current ≠ [h.pid] := by
  intro current
  rw [schedulerBusy (by simp [current]),current] at line
  exact masked.apart open_ (List.cons.inj line).1.symm

theorem Returning.held (returning : Returning h s) (masked : Masked h s) (placed : Placed s)
    (shut : ∀ p, Shut h.server s p) (line : (scheduler s).current = cur::rest) (open_ : Interruptible s cur) :
    Held h s := by
  rcases returning with current | held | ⟨ready,urgent⟩
  · exact absurd current (currentApart masked open_ line)
  · exact held
  · obtain ⟨irqdis,known⟩ := dispatchedFlags placed line
    have kept := shut cur _ irqdis known (dispatchedUrgent placed ready urgent line).1.symm
    have lets := open_ _ _ known
    rw [kept] at lets
    contradiction

theorem Stands.waits {code : Nat} (stands : Stands h ph s enabled) (placed : Placed s)
    (shut : Single h ∨ ph = .early ∨ ∀ p, Shut h.server s p) (source : code ∈ h.sources) (on : enabled code = true)
    (line : (scheduler s).current = cur::rest) (open_ : Interruptible s cur) (unheld : Single h ∨ ¬ Held h s) :
    ph = .waiting ∧ Sleeps h s := by
  cases ph with
  | early =>
    rw [stands code source] at on
    contradiction
  | top =>
    rw [stands.2 code source] at on
    contradiction
  | waiting => exact ⟨rfl,stands.2⟩
  | woken code => exact absurd stands.2.1 (currentApart stands.1 open_ line)
  | reporting last =>
    obtain ⟨masked,member,off,away⟩ := stands
    have several : ¬ Single h := by
      rintro ⟨only,sources⟩
      rw [sources,List.mem_singleton] at source member
      rw [source,← member,off] at on
      contradiction
    have held := (away.resolve_left several).held masked placed ((shut.resolve_left several).resolve_left (by simp))
      line open_
    exact absurd held (unheld.resolve_left several)

theorem Sleeps.pends {code : Nat} (sleeps : Sleeps h s) (fit : Fit h) (source : code ∈ h.sources) :
    Pends s h.pid code := by
  obtain ⟨asleep,c,frame,call,mask⟩ := sleeps
  exact ⟨asleep,c,frame,call,mask ▸ fit.covers code source⟩

theorem Pends.waits {p : Pid} (pends : Pends s p i.eventcode) : Waits i s p := by
  obtain ⟨asleep,c,frame,call,mask⟩ := pends
  have context := trapFrameCtxt i frame
  exact ⟨asleep,context ▸ call,context ▸ mask⟩

theorem eventFlags (i : Input) (s : State) (cur p : Pid) :
    flags (handleEvent i (enter i (scheduler s) cur) cur).1 p = flags s p :=
  (handleEventFlags _ _ _ _).trans ((enterFlags _ _ _).trans (schedulerFlags s p))

theorem blockedApart {p : Pid} (placed : Placed s) (line : (scheduler s).current = cur::rest) (asleep : p ∈ s.blocked) :
    p ≠ cur := by
  rintro rfl
  rw [← schedulerBlocked s] at asleep
  exact (schedulerPlaced placed).currentNotBlocked (line ▸ List.mem_cons_self) asleep

theorem enteredTask {p : Pid} (other : p ≠ cur) : (enter i (scheduler s) cur).task p = s.task p :=
  (enterTask other).trans (congrFun (schedulerTask s) p)

theorem waitsEntered {p : Pid} (placed : Placed s) (line : (scheduler s).current = cur::rest) :
    Waits i (enter i (scheduler s) cur) p ↔ Waits i s p := by
  have blocked : (enter i (scheduler s) cur).blocked = s.blocked := schedulerBlocked s
  unfold Waits
  rw [blocked]
  refine and_congr_right (fun asleep => ?_)
  rw [getCtxt,enteredTask (blockedApart placed line asleep)]
  rfl

theorem signalledSleeper {w p : Pid} (placed : Placed s) (line : (scheduler s).current = cur::rest)
    (signalled : Signalled i (enter i (scheduler s) cur) s' cur w) (asleep : p ∈ s.blocked) (other : p ≠ w) :
    p ∈ s'.blocked ∧ s'.task p = s.task p := by
  have blocked : (enter i (scheduler s) cur).blocked = s.blocked := schedulerBlocked s
  constructor
  · rw [signalled.blocked,blocked]
    exact memErase asleep other
  · exact (signalled.task p other).trans (enteredTask (blockedApart placed line asleep))

theorem eventStands {w : Pid} (stands : Stands h ph s enabled) (placed : Placed s)
    (shut : Single h ∨ ph = .early ∨ ∀ p, Shut h.server s p) (line : (scheduler s).current = cur::rest)
    (open_ : Interruptible s cur) (flagged : flags s' h.pid = flags s h.pid)
    (signalled : Signalled i (enter i (scheduler s) cur) s' cur w)
    (mine : w = h.pid → ph = .waiting ∧ i.eventcode ∈ h.sources) :
    Stands h (if w = h.pid then .woken i.eventcode else ph) s' enabled := by
  have masked : Masked h s → Masked h s' := fun masked => flagged.trans masked
  split
  · rename_i own
    obtain ⟨rfl,source⟩ := mine own
    refine ⟨masked stands.1,?_,source⟩
    have current : (enter i (scheduler s) cur).current = [cur] :=
      currentAlone (enterPlaced (schedulerPlaced placed) i cur) line
    have awake : cur ≠ 0 := (schedulerPlaced placed).currentReal (line ▸ List.mem_cons_self)
    have real : w ≠ 0 := placed.blockedReal (own ▸ stands.2.1)
    rw [signalled.current,current,← own]
    simp [qFront,qRemv,awake,real]
  · rename_i other
    have apart : h.pid ≠ w := fun same => other same.symm
    cases ph with
    | early => exact stands
    | top => exact ⟨masked stands.1,stands.2⟩
    | waiting =>
      obtain ⟨asleep,c,frame,rest⟩ := stands.2
      obtain ⟨still,same⟩ := signalledSleeper placed line signalled asleep apart
      exact ⟨masked stands.1,still,c,(trapFrameSame same).trans frame,rest⟩
    | woken code => exact absurd stands.2.1 (currentApart stands.1 open_ line)
    | reporting code =>
      obtain ⟨kept,member,off,away⟩ := stands
      refine ⟨masked kept,member,off,?_⟩
      rcases shut with single | early | shut
      · exact .inl single
      · contradiction
      rcases away with single | returning
      · exact .inl single
      · obtain ⟨asleep,c,frame,rest⟩ := returning.held kept placed shut line open_
        obtain ⟨still,same⟩ := signalledSleeper placed line signalled asleep apart
        exact .inr (.inr (.inl ⟨still,c,(trapFrameSame same).trans frame,rest⟩))

theorem callFlags (p : Pid) (plain : i.ctxt.kcall = .yield ∨ i.ctxt.kcall = .waitevent ∨ i.ctxt.kcall = .send ∨
    i.ctxt.kcall = .sendrec) :
    flags (handleKcall i (enter i (scheduler s) cur) cur).1 p = flags s p := by
  have before : flags (enter i (scheduler s) cur) p = flags s p := (enterFlags _ _ _).trans (schedulerFlags s p)
  rcases handleKcallFlags i (enter i (scheduler s) cur) cur p with
    same | ⟨call,-⟩ | ⟨⟨call,-⟩ | ⟨call,-⟩,-⟩ | ⟨-,call | call,-⟩
  · exact same.trans before
  all_goals
    rw [call] at plain
    simp at plain

theorem enteredFrame (call : i.eventcode = eventNone) (placed : Placed s) (line : (scheduler s).current = cur::rest) :
    trapFrame (enter i (scheduler s) cur) cur = some i.ctxt :=
  trapFrameEntered call ((schedulerPlaced placed).live (occursSomewhere (.inl (line ▸ List.mem_cons_self)))).1

theorem ownStands (stands : Stands h ph s enabled) (placed : Placed s) (fit : Fit h)
    (line : (scheduler s).current = h.pid::rest) (call : i.eventcode = eventNone) (next : Next h ph i.ctxt)
    (urgent : ph = .early → i.ctxt.kcall = .irqdis → prioOf s h.pid = taskPrioRt) :
    Stands h (called ph i.ctxt) (handleKcall i (enter i (scheduler s) h.pid) h.pid).1 (writes h ph i.ctxt enabled) := by
  have frame := enteredFrame call placed line
  have real : h.pid ≠ 0 := (schedulerPlaced placed).currentReal (line ▸ List.mem_cons_self)
  have awaits : i.ctxt.kcall = .waitevent → i.ctxt.p0 = h.mask → Masked h s →
      Stands h .waiting (handleKcall i (enter i (scheduler s) h.pid) h.pid).1 (writes h ph i.ctxt enabled) := by
    intro wait mask masked
    refine ⟨(callFlags _ (.inr (.inl wait))).trans masked,?_,i.ctxt,?_,wait,mask⟩
    · simp [handleKcall,wait,toBlockedEnd,qEnd,real]
    · rw [← frame]
      exact trapFrameSame (by simp [handleKcall,wait,toBlockedEnd,outOfCurrent])
  cases ph with
  | early =>
    have off : ∀ c ∈ h.sources, enabled c = false := stands
    by_cases shuts : i.ctxt.kcall = .irqdis
    · have starts : called .early i.ctxt = .top := by simp [called,shuts]
      rw [starts]
      refine ⟨?_,by simpa [writes,starts] using off⟩
      obtain ⟨irqdis,known⟩ := dispatchedFlags placed line
      rw [urgent rfl shuts,← schedulerFlags,← enterFlags (i := i) (scheduler s) h.pid] at known
      obtain ⟨t,there,same⟩ := Option.map_eq_some_iff.mp known
      have level : t.prio = taskPrioRt := congrArg Prod.fst same
      simp [Masked,flags,handleKcall,shuts,setTask,there,level]
    · have stays : called .early i.ctxt = .early := by
        unfold called
        split <;> simp_all
      rw [stays]
      simpa [Stands,writes,stays] using off
  | top =>
    rcases next with yield | ⟨wait,mask⟩
    · have stays : called .top i.ctxt = .top := by simp [called,yield]
      rw [stays]
      refine ⟨(callFlags _ (.inl yield)).trans stands.1,?_⟩
      simpa [writes,stays] using stands.2
    · have sleeps : called .top i.ctxt = .waiting := by simp [called,wait]
      rw [sleeps]
      exact awaits wait mask stands.1
  | waiting => exact next.elim
  | woken code =>
    obtain ⟨masked,current,source⟩ := stands
    obtain ⟨report,server⟩ := next
    refine ⟨?_,source,if_pos rfl,?_⟩
    · refine (callFlags _ ?_).trans masked
      rcases fit.reports with send | ⟨sendrec,-⟩
      · exact .inr (.inr (.inl (report.trans send)))
      · exact .inr (.inr (.inr (report.trans sendrec)))
    · rcases fit.reports with send | ⟨-,single⟩
      · have sends := report.trans send
        simp only [handleKcall,sends]
        unfold kcallSend
        split
        · refine .inr (.inr (.inl ⟨?_,i.ctxt,?_,sends,server⟩))
          · simp [toBlockedFront,qFront,real]
          · rw [← frame]
            exact trapFrameSame rfl
        · rename_i w s' found
          obtain ⟨-,-,rfl⟩ := sendScanSome found
          refine .inr (.inl ?_)
          change (scheduler s).current = [h.pid]
          rw [schedulerBusy (by simp [current]),current]
      · exact .inl single
  | reporting code =>
    have sleeps : called (.reporting code) i.ctxt = .waiting := by simp [called,next.1]
    rw [sleeps]
    exact awaits next.1 next.2 stands.1

theorem freshApart {p : Pid} (legal : Legal s i) (live : (s.task p).isSome) (real : i.newtask ≠ 0) : p ≠ i.newtask := by
  rintro rfl
  rw [(legal.fresh real).1] at live
  contradiction

theorem flagged {p prio : Nat} {irqdis : Bool} (known : flags s p = some (prio,irqdis)) : (s.task p).isSome := by
  obtain ⟨t,there,-⟩ := Option.map_eq_some_iff.mp known
  simp [there]

theorem otherMasked (masked : Masked h s) (legal : Legal s i) (other : cur ≠ h.pid) (spared : ¬ Named i.ctxt h.pid) :
    Masked h (handleKcall i (enter i (scheduler s) cur) cur).1 := by
  have before : flags (enter i (scheduler s) cur) h.pid = flags s h.pid :=
    (enterFlags _ _ _).trans (schedulerFlags s h.pid)
  rcases handleKcallFlags i (enter i (scheduler s) cur) cur h.pid with
    same | ⟨-,made,new,-⟩ | ⟨⟨call,gone⟩ | ⟨-,gone⟩,-⟩ | ⟨own,-⟩
  · exact same.trans (before.trans masked)
  · exact absurd new (freshApart legal (flagged masked) made)
  · exact absurd ⟨by simp [call],gone.symm⟩ spared
  · exact absurd gone.symm other
  · exact absurd own.symm other

theorem currentAfter (placed : Placed s) (legal : Legal s i) (line : (scheduler s).current = cur::rest)
    (next : Placed (handleKcall i (enter i (scheduler s) cur) cur).1) {p : Pid}
    (member : p ∈ (handleKcall i (enter i (scheduler s) cur) cur).1.current) :
    p = cur ∧ prioOf (handleKcall i (enter i (scheduler s) cur) cur).1 p = prioOf s p := by
  have current : (enter i (scheduler s) cur).current = [cur] :=
    currentAlone (enterPlaced (schedulerPlaced placed) i cur) line
  have own : p = cur := by
    rcases handleKcallCurrent i (enter i (scheduler s) cur) cur with same | removed
    · rw [same,current] at member
      exact List.mem_singleton.mp member
    · rw [removed,current] at member
      exact List.mem_singleton.mp (memRemv member)
  refine ⟨own,?_⟩
  obtain ⟨irqdis,known⟩ := dispatchedFlags placed line
  have before : flags (enter i (scheduler s) cur) p = flags s p := (enterFlags _ _ _).trans (schedulerFlags s p)
  have live := (next.live (occursSomewhere (.inl member))).1
  have level : ∀ t : State, prioOf t p = ((flags t p).map Prod.fst).getD 0 := by
    intro t
    simp [prioOf,flags,Option.map_map,Function.comp_def]
  rw [level,level]
  rcases handleKcallFlags i (enter i (scheduler s) cur) cur p with same | ⟨-,made,new,-⟩ | ⟨-,none⟩ | ⟨-,-,turned⟩
  · rw [same,before]
  · exact absurd new (freshApart legal (flagged (own ▸ known)) made)
  · rw [flags,Option.map_eq_none_iff] at none
    rw [none] at live
    contradiction
  · rw [turned,before,Option.map_map]
    rfl

theorem otherStands (stands : Stands h ph s enabled) (placed : Placed s) (legal : Legal s i)
    (line : (scheduler s).current = cur::rest) (other : cur ≠ h.pid) (spared : ph ≠ .early → ¬ Named i.ctxt h.pid)
    (next : Placed (handleKcall i (enter i (scheduler s) cur) cur).1) :
    Stands h ph (handleKcall i (enter i (scheduler s) cur) cur).1 enabled := by
  have sleeper : ∀ c, h.pid ∈ s.blocked → trapFrame s h.pid = some c → ¬ Named i.ctxt h.pid →
      (c.kcall = .waitevent ∨ c.kcall = .send) →
      (h.pid ∈ (handleKcall i (enter i (scheduler s) cur) cur).1.blocked ∧
        trapFrame (handleKcall i (enter i (scheduler s) cur) cur).1 h.pid = some c) ∨
      (c.kcall = .send ∧ c.p0 = cur ∧
        h.pid ∈ (handleKcall i (enter i (scheduler s) cur) cur).1.queue (prioOf s h.pid)) := by
    intro c asleep frame spared call
    have apart := other.symm
    have blocked : h.pid ∈ (enter i (scheduler s) cur).blocked := (schedulerBlocked s).symm ▸ asleep
    have entered : trapFrame (enter i (scheduler s) cur) h.pid = some c :=
      (trapFrameSame (enteredTask apart)).trans frame
    have context := trapFrameCtxt i entered
    have level : prioOf (enter i (scheduler s) cur) h.pid = prioOf s h.pid := by
      rw [prioOf,enteredTask apart,prioOf]
    have live := (placed.live (occursSomewhere (.inr (.inl asleep)))).1
    rcases handleKcallSleeper (placed.blockedReal asleep) apart (freshApart legal live) spared blocked with
      ⟨same,still⟩ | receive | sendrec | ⟨send,mine,ready,-⟩
    · exact .inl ⟨still,(trapFrameSame same).trans entered⟩
    · rw [context] at receive
      simp [receive] at call
    · rw [context] at sendrec
      simp [sendrec] at call
    · rw [context] at send mine
      exact .inr ⟨send,mine,level ▸ ready⟩
  cases ph with
  | early => exact stands
  | top => exact ⟨otherMasked stands.1 legal other (spared (by simp)),stands.2⟩
  | waiting =>
    obtain ⟨masked,asleep,c,frame,wait,mask⟩ := stands
    refine ⟨otherMasked masked legal other (spared (by simp)),?_⟩
    rcases sleeper c asleep frame (spared (by simp)) (.inl wait) with ⟨still,same⟩ | ⟨send,-⟩
    · exact ⟨still,c,same,wait,mask⟩
    · rw [wait] at send
      contradiction
  | woken code =>
    obtain ⟨-,current,-⟩ := stands
    rw [schedulerBusy (by simp [current]),current] at line
    exact absurd (List.cons.inj line).1.symm other
  | reporting code =>
    obtain ⟨masked,source,closed,away⟩ := stands
    refine ⟨otherMasked masked legal other (spared (by simp)),source,closed,?_⟩
    rcases away with single | current | ⟨asleep,c,frame,send,server⟩ | ⟨ready,urgent⟩
    · exact .inl single
    · rw [schedulerBusy (by simp [current]),current] at line
      exact absurd (List.cons.inj line).1.symm other
    · rcases sleeper c asleep frame (spared (by simp)) (.inr send) with ⟨still,same⟩ | ⟨-,mine,ready⟩
      · exact .inr (.inr (.inl ⟨still,c,same,send,server⟩))
      · rw [masked.prio] at ready
        refine .inr (.inr (.inr ⟨ready,fun p member => .inl ?_⟩))
        rw [(currentAfter placed legal line next member).1,← mine,server]
    · obtain ⟨first,stays⟩ := dispatchedUrgent placed ready urgent line
      have waits : h.pid ∈ (enter i (scheduler s) cur).queue 0 := stays.resolve_left other
      refine .inr (.inr (.inr ⟨handleKcallGrows i _ cur waits,fun p member => ?_⟩))
      obtain ⟨own,level⟩ := currentAfter placed legal line next member
      rw [level,own]
      exact first

/-! What the handlers write to the enable bits, and the two of them side by side. -/

def Apart (h g : Handler) : Prop := ∀ code ∈ g.sources, code ∉ h.sources ∧ h.mask &&& code = 0

theorem ttyApart (T : Tasks) : Apart T.tty T.tick := by
  intro code source
  cases List.mem_singleton.mp source
  simp [Tasks.tty,usart0Event,eventTimer1ovf,eventUsart0rx,eventUsart0tx]

theorem tickApart (T : Tasks) : Apart T.tick T.tty := by
  intro code source
  simp only [Tasks.tty,usart0Event,List.mem_cons,List.not_mem_nil,or_false] at source
  rcases source with rfl | rfl <;>
    simp [Tasks.tick,Interrupts.tickd,eventTimer1ovf,eventUsart0rx,eventUsart0tx,preemptOnEvent]

theorem writtenCases (h : Handler) (ph : Phase) (s : State) (i : Input) (enabled : Nat → Bool) (code : Nat) :
    written h ph s i enabled code = enabled code ∨ ph = .woken code ∨
      code ∈ h.sources ∧ written h ph s i enabled code = true := by
  unfold written writes
  split <;> try exact .inl rfl
  cases ph with
  | woken fired =>
    by_cases same : code = fired
    · exact .inr (.inl (same ▸ rfl))
    · exact .inl (if_neg same)
  | early | top | waiting | reporting =>
    dsimp only
    split <;> try exact .inl rfl
    by_cases source : code ∈ h.sources
    · exact .inr (.inr ⟨source,if_pos source⟩)
    · exact .inl (if_neg source)

theorem Stands.writesElsewhere {code : Nat} (stands : Stands h ph s enabled') (foreign : code ∉ h.sources) :
    written h ph s i enabled code = enabled code := by
  rcases writtenCases h ph s i enabled code with same | woken | ⟨source,-⟩
  · exact same
  · rw [woken] at stands
    exact absurd stands.2.2 foreign
  · exact absurd source foreign

theorem writtenOn {code : Nat} (stands : Stands h ph s enabled') (on : written h ph s i enabled code = true) :
    code ∈ h.sources ∨ enabled code = true := by
  by_cases source : code ∈ h.sources
  · exact .inl source
  · exact .inr ((stands.writesElsewhere source).symm.trans on)

theorem Stands.bits (stands : Stands h ph s enabled) (same : ∀ c ∈ h.sources, enabled' c = enabled c) :
    Stands h ph s enabled' := by
  cases ph with
  | early => exact fun c source => (same c source).trans (stands c source)
  | top => exact ⟨stands.1,fun c source => (same c source).trans (stands.2 c source)⟩
  | waiting => exact stands
  | woken code => exact stands
  | reporting code => exact ⟨stands.1,stands.2.1,(same code stands.2.1).trans stands.2.2.1,stands.2.2.2⟩

theorem callStands (out : List Event) (stands : Stands h ph s enabled) (fit : Fit h) (placed : Placed s)
    (legal : Legal s i) (plays : Plays h ph s i) (call : i.eventcode = eventNone)
    (line : (scheduler s).current = cur::rest)
    (next : Placed (handleKcall i (enter i (scheduler s) cur) cur).1) :
    Stands h (after h ph s i out) (handleKcall i (enter i (scheduler s) cur) cur).1 (written h ph s i enabled) := by
  have head : running s = cur := runningHead line
  have goes : after h ph s i out = if cur = h.pid then called ph i.ctxt else ph := by simp [after,call,head]
  rw [goes]
  by_cases own : cur = h.pid
  · subst own
    have mine : Own h s i := ⟨call,head⟩
    rw [if_pos rfl,written,if_pos mine]
    exact ownStands stands placed fit line call (plays.next mine) (plays.urgent mine)
  · have foreign : ¬ Own h s i := fun mine => own (head.symm.trans mine.2)
    rw [if_neg own,written,if_neg foreign]
    exact otherStands stands placed legal line own (plays.spared call) next

theorem callShut {vfs : Pid} (legal : Legal s i) (live : (flags s vfs).isSome) (shut : ∀ p, Shut vfs s p)
    (created : i.ctxt.kcall = .createtask → i.ctxt.p0 % 256 ≠ taskPrioRt)
    (opens : i.ctxt.kcall = .irqen → cur ≠ vfs ∧ prioOf s cur ≠ taskPrioRt)
    (kept : ¬ (i.ctxt.kcall = .deletetask ∧ i.ctxt.p0 = vfs) ∧ ¬ (i.ctxt.kcall = .exittask ∧ cur = vfs)) :
    (flags (handleKcall i (enter i (scheduler s) cur) cur).1 vfs).isSome ∧
      ∀ p, Shut vfs (handleKcall i (enter i (scheduler s) cur) cur).1 p := by
  have before : ∀ p, flags (enter i (scheduler s) cur) p = flags s p :=
    fun p => (enterFlags _ _ _).trans (schedulerFlags s p)
  constructor
  · rcases handleKcallFlags i (enter i (scheduler s) cur) cur vfs with
      same | ⟨-,-,-,new⟩ | ⟨gone,-⟩ | ⟨-,-,turned⟩
    · rwa [same,before]
    · simp [new]
    · rcases gone with ⟨call,named⟩ | ⟨call,named⟩
      · exact absurd ⟨call,named.symm⟩ kept.1
      · exact absurd ⟨call,named.symm⟩ kept.2
    · simpa [turned,before] using live
  · intro p prio irqdis known urgent
    rcases handleKcallFlags i (enter i (scheduler s) cur) cur p with
      same | ⟨call,made,new,fresh⟩ | ⟨-,none⟩ | ⟨own,call,turned⟩
    · rw [same,before] at known
      exact shut p prio irqdis known urgent
    · rw [fresh] at known
      cases known
      rcases urgent with level | server
      · exact absurd level (created call)
      · obtain ⟨⟨prio,irqdis⟩,there⟩ := Option.isSome_iff_exists.mp live
        exact absurd (server.symm.trans new) (freshApart legal (flagged there) made)
    · rw [none] at known
      contradiction
    · rw [turned,before] at known
      obtain ⟨⟨level,irqdis'⟩,there,same⟩ := Option.map_eq_some_iff.mp known
      cases same
      rcases call with opened | closed
      · obtain ⟨t,task,same⟩ := Option.map_eq_some_iff.mp there
        have known : prioOf s cur = level := by
          rw [prioOf,← own,task]
          exact congrArg Prod.fst same
        rcases urgent with rt | server
        · exact absurd (known.trans rt) (opens opened).2
        · exact absurd (own.symm.trans server) (opens opened).1
      · simp [closed]

theorem afterSignal {w : Pid} {c : Ctxt} (event : i.eventcode ≠ eventNone) :
    after h ph s i [.dispatch cur c,entry i cur,.signal w i.eventcode] =
      if w = h.pid then .woken i.eventcode else ph := by
  unfold after entry
  rw [if_pos event,if_neg event]
  simp [eq_comm]

theorem calledNotWoken (ph : Phase) (c : Ctxt) (code : Nat) : called ph c ≠ .woken code := by
  cases ph with
  | woken fired => simp [called]
  | early | top | waiting | reporting =>
    unfold called
    split <;> simp_all

-- An event is owed from its arrival to the handler's report.
def owed (ph : Phase) (code : Nat) : Nat := if ph = .woken code then 1 else 0

theorem callOwed (out : List Event) (stands : Stands h ph s enabled) (fit : Fit h) (call : i.eventcode = eventNone)
    (m : Message) : (reports h ph s i).count (.reported m) + owed (after h ph s i out) m.event = owed ph m.event := by
  have goes : after h ph s i out = if running s = h.pid then called ph i.ctxt else ph := by simp [after,call]
  rw [goes]
  by_cases own : running s = h.pid
  · have mine : Own h s i := ⟨call,own⟩
    rw [if_pos own]
    cases ph with
    | woken code =>
      have told := fit.tells code stands.2.2 m
      have same := List.count_map_of_injective (h.messages code) Note.reported (fun _ _ => Note.reported.inj) m
      simp [reports,mine,called,owed,same,told]
    | early | top | waiting | reporting => simp [reports,owed,calledNotWoken]
  · have foreign : ¬ Own h s i := fun mine => own mine.2
    rw [if_neg own]
    cases ph <;> simp [reports,foreign]

end

/-! The whole system. -/

def owing (s : Station) (code : Nat) : Nat := owed s.usart0 code + owed s.tickd code

structure Sound (T : Tasks) (s : Station) : Prop where
  placed : Placed s.kernel
  tty : Stands T.tty s.usart0 s.kernel s.enabled
  tick : Stands T.tick s.tickd s.kernel s.enabled
  known : ∀ c, s.enabled c = true → c ∈ T.tty.sources ∨ c ∈ T.tick.sources
  shut : s.usart0 ≠ .early → (flags s.kernel T.vfs).isSome ∧ ∀ p, Shut T.vfs s.kernel p

section
variable {T : Tasks} {s s' : Station} {i : Input} {out : List Note} {k : State} {events : List Event}
  {cur : Pid} {rest : List Pid}

theorem openedSound {b : Boot} (opened : Opened b s) : Sound T s := by
  obtain ⟨booted,early,quiet,off⟩ := opened
  refine ⟨bootPlaced booted,?_,?_,?_,?_⟩
  · simp [early,Stands,off]
  · simp [quiet,Stands,off]
  · simp [off]
  · simp [early]

theorem Sound.entered (sound : Sound T s) (runs : Runs T s i) (event : i.eventcode ≠ eventNone) :
    ∃ cur rest, (scheduler s.kernel).current = cur::rest ∧ Interruptible s.kernel cur := by
  obtain ⟨prio,known⟩ := (runs.interrupt event).2
  cases line : (scheduler s.kernel).current with
  | nil =>
    have live := flagged known
    rw [running,line,List.headD_nil,sound.placed.null] at live
    contradiction
  | cons cur rest =>
    refine ⟨cur,rest,rfl,?_⟩
    rw [runningHead line] at known
    intro prio irqdis same
    rw [known] at same
    cases same
    rfl

theorem Sound.ttyShut (sound : Sound T s) : Single T.tty ∨ s.usart0 = .early ∨ ∀ p, Shut T.tty.server s.kernel p := by
  by_cases early : s.usart0 = .early
  · exact .inr (.inl early)
  · exact .inr (.inr (sound.shut early).2)

theorem tickSingle (T : Tasks) : Single T.tick := ⟨_,rfl⟩

theorem Sound.awaited (sound : Sound T s) (runs : Runs T s i) (clear : Clear T s i) (event : i.eventcode ≠ eventNone) :
    i.eventcode ∈ T.tty.sources ∧ s.usart0 = .waiting ∧ Sleeps T.tty s.kernel ∨
    i.eventcode ∈ T.tick.sources ∧ s.tickd = .waiting ∧ Sleeps T.tick s.kernel := by
  obtain ⟨cur,rest,line,open_⟩ := sound.entered runs event
  have on := (runs.interrupt event).1
  rcases sound.known _ on with tty | tick
  · have unheld : ¬ Held T.tty s.kernel := by
      rintro ⟨asleep,c,frame,call,server⟩
      exact clear.unheld tty ⟨asleep,c,frame,.inl call,server⟩
    exact .inl ⟨tty,sound.tty.waits sound.placed sound.ttyShut tty on line open_ (.inr unheld)⟩
  · exact .inr ⟨tick,sound.tick.waits sound.placed (.inl (tickSingle T)) tick on line open_ (.inl (tickSingle T))⟩

theorem Sound.pends (sound : Sound T s) (runs : Runs T s i) (clear : Clear T s i) (event : i.eventcode ≠ eventNone) :
    ∃ p, Pends s.kernel p i.eventcode := by
  rcases sound.awaited runs clear event with ⟨source,-,sleeps⟩ | ⟨source,-,sleeps⟩
  · exact ⟨_,sleeps.pends (ttyFit T) source⟩
  · exact ⟨_,sleeps.pends (tickFit T) source⟩

theorem Sleeps.deaf {h : Handler} (sleeps : Sleeps h s.kernel) (deaf : h.mask &&& i.eventcode = 0) :
    ¬ Waits i s.kernel h.pid := by
  rintro ⟨-,-,mask⟩
  obtain ⟨-,c,frame,-,own⟩ := sleeps
  rw [trapFrameCtxt i frame,own,deaf] at mask
  contradiction

theorem Sound.signals (sound : Sound T s) (runs : Runs T s i) (clear : Clear T s i) (event : i.eventcode ≠ eventNone)
    (line : (scheduler s.kernel).current = cur::rest) :
    ∃ w, Signalled i (enter i (scheduler s.kernel) cur) (handleEvent i (enter i (scheduler s.kernel) cur) cur).1 cur w ∧
      (handleEvent i (enter i (scheduler s.kernel) cur) cur).2 = [.signal w i.eventcode] ∧
      (w = T.usart0 ∧ s.usart0 = .waiting ∧ i.eventcode ∈ T.tty.sources ∨
        w = T.tickd ∧ s.tickd = .waiting ∧ i.eventcode ∈ T.tick.sources) := by
  rcases handleEventCases i (enter i (scheduler s.kernel) cur) cur with ⟨-,nobody⟩ | ⟨w,signalled,out⟩
  · obtain ⟨p,pends⟩ := sound.pends runs clear event
    exact absurd ((waitsEntered sound.placed line).mpr pends.waits) (nobody p)
  · refine ⟨w,signalled,out,?_⟩
    have waits := (waitsEntered sound.placed line).mp signalled.waited
    have found := clear.alone event w waits
    rcases sound.awaited runs clear event with ⟨source,phase,sleeps⟩ | ⟨source,phase,sleeps⟩
    · rcases found with ⟨own,-⟩ | ⟨rfl,asleep⟩
      · exact .inl ⟨own,phase,source⟩
      · have stands := sound.tick
        rw [asleep] at stands
        exact absurd waits (stands.2.deaf (tickApart T _ source).2)
    · rcases found with ⟨rfl,asleep⟩ | ⟨own,-⟩
      · have stands := sound.tty
        rw [asleep] at stands
        exact absurd waits (stands.2.deaf (ttyApart T _ source).2)
      · exact .inr ⟨own,phase,source⟩

theorem stepParts (taken : step T s i = some (s',out)) : ∃ k events, kernel s.kernel i = some (k,events) ∧
    s' = ⟨k,after T.tty s.usart0 s.kernel i events,after T.tick s.tickd s.kernel i events,
      written T.tty s.usart0 s.kernel i (written T.tick s.tickd s.kernel i s.enabled)⟩ ∧
    out = arrivals i ++ reports T.tty s.usart0 s.kernel i ++ reports T.tick s.tickd s.kernel i := by
  simp only [step,bind,Option.bind_eq_some_iff] at taken
  obtain ⟨⟨k,events⟩,round,last⟩ := taken
  obtain ⟨rfl,rfl⟩ := Prod.mk.inj (Option.some.inj last)
  exact ⟨k,events,round,rfl,rfl⟩

theorem writtenEvent {h : Handler} {ph : Phase} {s : State} (enabled : Nat → Bool) (event : i.eventcode ≠ eventNone) :
    written h ph s i enabled = enabled := if_neg (fun own => event own.1)

theorem reportsEvent {h : Handler} {ph : Phase} {s : State} (event : i.eventcode ≠ eventNone) :
    reports h ph s i = [] := by
  cases ph <;> simp [reports,Own,event]

def Tally (s s' : Station) (out : List Note) : Prop :=
  ∀ m : Message, out.count (.arrived m.event) + owing s m.event = out.count (.reported m) + owing s' m.event

theorem eventRound (sound : Sound T s) (runs : Runs T s i) (clear : Clear T s i) (event : i.eventcode ≠ eventNone)
    (taken : step T s i = some (s',out)) : Sound T s' ∧ Tally s s' out := by
  obtain ⟨k,events,round,rfl,rfl⟩ := stepParts taken
  have next := kernelPlaced sound.placed runs.legal round
  obtain ⟨cur,rest,line,open_⟩ := sound.entered runs event
  obtain ⟨cur',rest',line',rfl,rfl⟩ := kernelRound round
  obtain ⟨rfl,rfl⟩ := List.cons.inj (line.symm.trans line')
  obtain ⟨w,signalled,woken,whose⟩ := sound.signals runs clear event line
  have branch : handle i (enter i (scheduler s.kernel) cur) cur = handleEvent i (enter i (scheduler s.kernel) cur) cur :=
    if_pos event
  rw [branch] at next ⊢
  rw [woken]
  simp only [afterSignal event,writtenEvent _ event,reportsEvent event,List.append_nil,arrivals,if_neg event]
  have tty : w = T.tty.pid → s.usart0 = .waiting ∧ i.eventcode ∈ T.tty.sources := by
    intro own
    exact (whose.resolve_right (fun tick => T.apart (own.symm.trans tick.1))).2
  have tick : w = T.tick.pid → s.tickd = .waiting ∧ i.eventcode ∈ T.tick.sources := by
    intro own
    exact (whose.resolve_left (fun tty => T.apart (tty.1.symm.trans own))).2
  constructor
  · refine ⟨next,?_,?_,sound.known,?_⟩
    · exact eventStands sound.tty sound.placed sound.ttyShut line open_ (eventFlags _ _ _ _) signalled tty
    · exact eventStands sound.tick sound.placed (.inl (tickSingle T)) line open_ (eventFlags _ _ _ _) signalled tick
    · intro late
      have before : s.usart0 ≠ .early := by
        intro early
        dsimp only at late
        split at late
        · rename_i own
          rw [(tty own).1] at early
          contradiction
        · exact late early
      obtain ⟨live,shut⟩ := sound.shut before
      refine ⟨by rwa [eventFlags],fun p prio irqdis known => ?_⟩
      rw [eventFlags] at known
      exact shut p prio irqdis known
  · intro m
    rcases whose with ⟨rfl,phase,-⟩ | ⟨rfl,phase,-⟩
    · have other : T.usart0 ≠ T.tick.pid := T.apart
      have same : T.usart0 = T.tty.pid := rfl
      simp only [owing,owed,phase,if_neg other,if_pos same,List.count_singleton]
      simp
    · have other : T.tickd ≠ T.tty.pid := T.apart.symm
      have same : T.tickd = T.tick.pid := rfl
      simp only [owing,owed,phase,if_neg other,if_pos same,List.count_singleton]
      simp [Nat.add_comm]

-- usart0_event has called kirqdis() after all the others.
theorem shutStarts (runs : Runs T s i) (own : Own T.tty s.kernel i) (early : s.usart0 = .early)
    (call : i.ctxt.kcall = .irqdis)
    (masked : Masked T.tty (handleKcall i (enter i (scheduler s.kernel) T.usart0) T.usart0).1) :
    (flags (handleKcall i (enter i (scheduler s.kernel) T.usart0) T.usart0).1 T.vfs).isSome ∧
      ∀ p, Shut T.vfs (handleKcall i (enter i (scheduler s.kernel) T.usart0) T.usart0).1 p := by
  obtain ⟨live,shut⟩ := runs.settled.ready own early call
  have others : ∀ p, p ≠ T.usart0 →
      flags (handleKcall i (enter i (scheduler s.kernel) T.usart0) T.usart0).1 p = flags s.kernel p := by
    intro p other
    rcases handleKcallFlags i (enter i (scheduler s.kernel) T.usart0) T.usart0 p with
      same | ⟨create,-⟩ | ⟨⟨gone,-⟩ | ⟨gone,-⟩,-⟩ | ⟨mine,-⟩
    · exact same.trans ((enterFlags _ _ _).trans (schedulerFlags s.kernel p))
    · rw [call] at create
      contradiction
    · rw [call] at gone
      contradiction
    · rw [call] at gone
      contradiction
    · exact absurd mine other
  constructor
  · by_cases same : T.vfs = T.usart0
    · rw [same]
      exact Option.isSome_of_eq_some masked
    · rwa [others _ same]
  · intro p prio irqdis known urgent
    by_cases same : p = T.usart0
    · rw [same] at known
      cases known.symm.trans masked
      rfl
    · rw [others p same] at known
      exact shut p same prio irqdis known urgent

theorem reportsArrived {h : Handler} {ph : Phase} {s : State} (code : Nat) :
    (reports h ph s i).count (.arrived code) = 0 := by
  rw [List.count_eq_zero]
  intro member
  unfold reports at member
  split at member
  · split at member
    · simp at member
    · contradiction
  · contradiction

theorem callRound (sound : Sound T s) (runs : Runs T s i) (call : i.eventcode = eventNone)
    (taken : step T s i = some (s',out)) : Sound T s' ∧ Tally s s' out := by
  obtain ⟨k,events,round,rfl,rfl⟩ := stepParts taken
  have next := kernelPlaced sound.placed runs.legal round
  obtain ⟨cur,rest,line,rfl,-⟩ := kernelRound round
  have branch : handle i (enter i (scheduler s.kernel) cur) cur = handleKcall i (enter i (scheduler s.kernel) cur) cur :=
    if_neg (by simp [call])
  rw [branch] at next ⊢
  constructor
  · refine ⟨next,?_,?_,?_,?_⟩
    · have heard : Stands T.tty s.usart0 s.kernel (written T.tick s.tickd s.kernel i s.enabled) :=
        sound.tty.bits (fun c source => sound.tick.writesElsewhere (tickApart T c source).1)
      exact callStands events heard (ttyFit T) sound.placed runs.legal runs.tty call line next
    · have stands := callStands events sound.tick (tickFit T) sound.placed runs.legal runs.tick call line next
      exact stands.bits (fun c source => sound.tty.writesElsewhere (ttyApart T c source).1)
    · intro c on
      rcases writtenOn sound.tty on with tty | before
      · exact .inl tty
      · rcases writtenOn sound.tick before with tick | before
        · exact .inr tick
        · exact sound.known c before
    · intro late
      by_cases early : s.usart0 = .early
      · have mine : running s.kernel = T.usart0 ∧ i.ctxt.kcall = .irqdis := by
          by_contra none
          refine late ?_
          have own : T.tty.pid = T.usart0 := rfl
          simp only [after,call,early,own,ne_eq,not_true,if_false]
          split
          · rename_i own
            unfold called
            split <;> simp_all
          · rfl
        obtain ⟨own,shuts⟩ := mine
        rw [runningHead line] at own
        subst own
        have top : called s.usart0 i.ctxt = .top := by simp [called,early,shuts]
        have own : Own T.tty s.kernel i := ⟨call,runningHead line⟩
        have stands := ownStands (h := T.tty) sound.tty sound.placed (ttyFit T) line call (runs.tty.next own)
          (runs.tty.urgent own)
        rw [top] at stands
        exact shutStarts runs own early shuts stands.1
      · obtain ⟨live,shut⟩ := sound.shut early
        have head : running s.kernel = cur := runningHead line
        have opens := runs.settled.shut call early
        have kept := runs.settled.kept call early
        rw [head] at opens kept
        exact callShut runs.legal live shut (runs.settled.created call early) opens kept
  · intro m
    have tty := callOwed events sound.tty (ttyFit T) call m
    have tick := callOwed events sound.tick (tickFit T) call m
    simp only [owing,arrivals,if_pos call,List.nil_append,List.count_append,reportsArrived]
    omega

theorem Pends.heard {p : Pid} (pends : Pends s.kernel p i.eventcode) (alone : Alone T s i)
    (event : i.eventcode ≠ eventNone) (sound : Sound T s) : Unheld T s i := by
  rintro source ⟨-,c,frame,call,-⟩
  have waits : Waits i s.kernel p := pends.waits
  obtain ⟨-,c',frame',wait,-⟩ := pends
  rcases alone event p waits with ⟨rfl,-⟩ | ⟨rfl,asleep⟩
  · rw [frame'] at frame
    cases frame
    rcases call with send | sendrec
    · rw [wait] at send
      contradiction
    · rw [wait] at sendrec
      contradiction
  · have stands := sound.tick
    rw [asleep] at stands
    exact absurd waits (stands.2.deaf (tickApart T _ source).2)

theorem soundRun {b : Boot} {history : List Note}
    (run : Reaches (step T) (fun s i => Runs T s i ∧ Clear T s i) (Opened b) s history) :
    Sound T s ∧ ∀ m : Message, history.count (.arrived m.event) = history.count (.reported m) + owing s m.event := by
  refine run.invariant (P := fun s history => Sound T s ∧
    ∀ m : Message, history.count (.arrived m.event) = history.count (.reported m) + owing s m.event) ?_ ?_
  · intro s opened
    refine ⟨openedSound opened,fun m => ?_⟩
    obtain ⟨-,early,quiet,-⟩ := opened
    simp [owing,owed,early,quiet]
  · rintro s history i s' out ⟨sound,counted⟩ ⟨runs,clear⟩ taken
    have moved : Sound T s' ∧ Tally s s' out := by
      by_cases event : i.eventcode ≠ eventNone
      · exact eventRound sound runs clear event taken
      · exact callRound sound runs (not_not.mp event) taken
    refine ⟨moved.1,fun m => ?_⟩
    have before := counted m
    have tally := moved.2 m
    rw [List.count_append,List.count_append]
    omega

theorem noEventDropped {b : Boot} {history : List Note}
    (run : Reaches (step T) (fun s i => Runs T s i ∧ Clear T s i) (Opened b) s history) :
    (∀ i, Runs T s i → Alone T s i → i.eventcode ≠ eventNone →
      ((∃ p, Pends s.kernel p i.eventcode) ↔ Unheld T s i)) ∧
    (∀ m : Message, history.count (.arrived m.event) = history.count (.reported m) + owing s m.event) ∧
    (∀ code, s.usart0 = .woken code → s.kernel.current = [T.usart0]) ∧
    (∀ code, s.tickd = .woken code → s.kernel.current = [T.tickd]) := by
  obtain ⟨sound,counted⟩ := soundRun run
  refine ⟨?_,counted,?_,?_⟩
  · intro i runs alone event
    constructor
    · rintro ⟨p,pends⟩
      exact pends.heard alone event sound
    · intro unheld
      exact sound.pends runs ⟨unheld,alone⟩ event
  · intro code woken
    have stands := sound.tty
    rw [woken] at stands
    exact stands.2.1
  · intro code woken
    have stands := sound.tick
    rw [woken] at stands
    exact stands.2.1

end

/-! Two received bytes and the end of a transmission, with a task of VFS' priority in
front of VFS: the second report finds VFS busy, and nobody waits for the third interrupt. -/

instance (h : Handler) (ph : Phase) (c : Ctxt) : Decidable (Next h ph c) :=
  match ph with
  | .early => .isTrue trivial
  | .top => inferInstanceAs (Decidable (_ ∨ _ ∧ _))
  | .woken _ => inferInstanceAs (Decidable (_ ∧ _))
  | .reporting _ => inferInstanceAs (Decidable (_ ∧ _))
  | .waiting => .isFalse id

instance (s : State) (p dest : Pid) : Decidable (PendingSend s p dest) :=
  decidable_of_iff (p ∈ s.blocked ∧ (trapFrame s p).any (fun c => (c.kcall = .send ∨ c.kcall = .sendrec) ∧ c.p0 = dest))
    (by simp [PendingSend,Option.any_eq_true])

instance (i : Input) (s : State) (p : Pid) : Decidable (Waits i s p) := inferInstanceAs (Decidable (_ ∧ _ ∧ _))

def checked (T : Tasks) (known : List Pid) (s : Station) (i : Input) : Bool :=
  decide (i.newtask ≠ 0 → s.kernel.task i.newtask = none ∧ i.newtask ∈ known ∧ i.newtask ≠ taskAny) &&
  decide (i.eventcode = eventNone → i.ctxt.kcall = .starttask ∨ i.ctxt.kcall = .deletetask →
    i.ctxt.p0 = 0 ∨ i.ctxt.p0 ∈ s.kernel.blocked) &&
  decide (i.eventcode ≠ eventNone → s.enabled i.eventcode = true ∧
    (flags s.kernel (running s.kernel)).map Prod.snd = some false) &&
  decide (Own T.tty s.kernel i → Next T.tty s.usart0 i.ctxt) &&
  decide (Own T.tty s.kernel i → s.usart0 = .early → i.ctxt.kcall = .irqdis →
    prioOf s.kernel T.usart0 = taskPrioRt ∧ (flags s.kernel T.vfs).isSome) &&
  decide (Own T.tty s.kernel i → s.usart0 = .early → i.ctxt.kcall = .irqdis → ∀ p ∈ known, p ≠ T.usart0 →
    (flags s.kernel p).all (fun f => decide (f.1 = taskPrioRt ∨ p = T.vfs → f.2 = true))) &&
  decide (s.tickd = .early ∧ ¬ Own T.tick s.kernel i) &&
  decide (i.eventcode = eventNone → s.usart0 ≠ .early → ¬ Named i.ctxt T.usart0) &&
  decide (i.eventcode = eventNone → s.usart0 ≠ .early →
    i.ctxt.kcall = .waitevent ∨ i.ctxt.kcall = .send ∨ i.ctxt.kcall = .receive) &&
  decide (i.eventcode ∈ T.tty.sources → ¬ PendingSend s.kernel T.usart0 T.vfs) &&
  decide (i.eventcode ≠ eventNone → ∀ p ∈ s.kernel.blocked, Waits i s.kernel p → p = T.usart0 ∧ s.usart0 = .waiting)

def Listed (known : List Pid) (s : Station) : Prop := ∀ p, p ∉ known → flags s.kernel p = none

theorem checkedRuns {T : Tasks} {known : List Pid} {s : Station} {i : Input} (listed : Listed known s)
    (ok : checked T known s i = true) : Runs T s i ∧ Clear T s i := by
  simp only [checked,Bool.and_eq_true,decide_eq_true_eq] at ok
  obtain ⟨⟨⟨⟨⟨⟨⟨⟨⟨⟨fresh,named⟩,lets⟩,next⟩,urgent⟩,ready⟩,⟨quiet,idle⟩⟩,spared⟩,plain⟩,unheld⟩,alone⟩ := ok
  have calm : ∀ code, i.eventcode = eventNone → s.usart0 ≠ .early → i.ctxt.kcall = code →
      code = .waitevent ∨ code = .send ∨ code = .receive := by
    intro code call late same
    exact same ▸ plain call late
  refine ⟨⟨⟨?_,named⟩,?_,⟨next,?_,spared⟩,⟨?_,?_,?_⟩,⟨?_,?_,?_,?_⟩⟩,⟨unheld,?_⟩⟩
  · intro made
    exact ⟨(fresh made).1,(fresh made).2.2⟩
  · intro event
    obtain ⟨on,known⟩ := lets event
    obtain ⟨⟨prio,irqdis⟩,there,same⟩ := Option.map_eq_some_iff.mp known
    cases same
    exact ⟨on,prio,there⟩
  · intro own early call
    exact (urgent own early call).1
  · intro own
    exact absurd own idle
  · intro own
    exact absurd own idle
  · intro _ late
    exact absurd quiet late
  · intro own early call
    refine ⟨(urgent own early call).2,fun p other prio irqdis known' serves => ?_⟩
    by_cases member : p ∈ known
    · have all := ready own early call p member other
      rw [known',Option.all_some,decide_eq_true_eq] at all
      exact all serves
    · rw [listed p member] at known'
      contradiction
  · intro call late create
    simpa using calm _ call late create
  · intro call late opens
    simpa using calm _ call late opens
  · intro call late
    constructor
    · rintro ⟨gone,-⟩
      simpa using calm _ call late gone
    · rintro ⟨gone,-⟩
      simpa using calm _ call late gone
  · intro event p waits
    exact .inl (alone event p waits.1 waits)

theorem listedKept {T : Tasks} {known : List Pid} {s s' : Station} {i : Input} {out : List Note} (listed : Listed known s)
    (ok : checked T known s i = true) (taken : step T s i = some (s',out)) : Listed known s' := by
  simp only [checked,Bool.and_eq_true,decide_eq_true_eq] at ok
  obtain ⟨⟨⟨⟨⟨⟨⟨⟨⟨⟨fresh,-⟩,-⟩,-⟩,-⟩,-⟩,-⟩,-⟩,-⟩,-⟩,-⟩ := ok
  obtain ⟨k,events,round,rfl,-⟩ := stepParts taken
  obtain ⟨cur,rest,line,rfl,-⟩ := kernelRound round
  intro p stranger
  have before : flags (enter i (scheduler s.kernel) cur) p = none :=
    ((enterFlags _ _ _).trans (schedulerFlags s.kernel p)).trans (listed p stranger)
  dsimp only [handle]
  split
  · exact (handleEventFlags _ _ _ _).trans before
  · rcases handleKcallFlags i (enter i (scheduler s.kernel) cur) cur p with
      same | ⟨-,made,new,-⟩ | ⟨-,none⟩ | ⟨-,-,turned⟩
    · exact same.trans before
    · exact absurd (fresh made).2.1 (new ▸ stranger)
    · exact none
    · rw [turned,before]
      rfl

def demoTasks : Tasks := ⟨0x800,0xE00,0x600,0xF00,by decide⟩
def demoKnown : List Pid := [0x200,0x400,0x600,0x800,0xC00]

def calls (kcall : Kcall) (p0 p1 : Nat) (newtask block : Addr) : Input :=
  ⟨eventNone,⟨kcall,p0,p1,0,0⟩,fun _ => 0,fun _ => ⟨.other,0,0,0,0⟩,newtask,block⟩

def interrupt (code : Nat) : Input := ⟨code,⟨.other,0,0,0,0⟩,fun _ => 0,fun _ => ⟨.other,0,0,0,0⟩,0,0⟩

def launch (p prio stack : Nat) : List Input :=
  [calls .createtask prio 0 p 0,calls .allocatestack p 160 0 stack,calls .setuptask p 0 0 0,calls .starttask p 0 0 0]

def report : List Input := [interrupt eventUsart0rx,calls .send 0x600 0 0 0]

def demoHeld : List Input :=
  launch 0x600 1 0x700 ++ [calls .yield 0 0 0 0,calls .irqdis 0 0 0 0,calls .receive taskAny 0 0 0] ++
  launch 0x800 0 0x900 ++ launch 0xC00 1 0xD00 ++ [calls .yield 0 0 0 0,calls .irqdis 0 0 0 0,calls .waitevent 6 0 0 0] ++
  report ++ [calls .waitevent 6 0 0 0] ++ report

def demoStation : Station := ⟨boot demoBoot,.early,.early,fun _ => false⟩

def demoNotes : List Note :=
  [.arrived eventUsart0rx,.reported .vfsRdInterrupt,.arrived eventUsart0rx,.reported .vfsRdInterrupt]

structure Seen where
  blocked : List Pid
  context : Option Ctxt
  on : Bool
  interrupted : Option (Nat × Bool)
  next : Option (List Note × Phase × Phase)
  deriving DecidableEq

def seen (s : Station) : Seen where
  blocked := s.kernel.blocked
  context := trapFrame s.kernel 0x800
  on := s.enabled eventUsart0tx
  interrupted := flags s.kernel (running s.kernel)
  next := (step demoTasks s (interrupt eventUsart0tx)).map (fun x => (x.2,x.1.usart0,x.1.tickd))

def demoSeen : Seen :=
  ⟨[0x800],some ⟨.send,0x600,0,0,0⟩,true,some (1,false),some ([.arrived eventUsart0tx],.reporting eventUsart0rx,.early)⟩

theorem bootedOnly {b : Boot} {s : State} {p : Pid} (booted : Booted b s) (idle : p ≠ b.idle) (first : p ≠ b.first) :
    s.task p = none := by
  rw [bootedState booted]
  simp only [toQueueEnd,addTask,Function.update_of_ne idle,Function.update_of_ne first,initTaskQueues]

theorem demoListed {s : Station} (opened : Opened demoBoot s) : Listed demoKnown s := by
  intro p stranger
  simp only [demoKnown,List.mem_cons,List.not_mem_nil,or_false,not_or] at stranger
  rw [flags,bootedOnly opened.1 stranger.1 stranger.2.1]
  rfl

theorem heldRun : ∃ s,
    Reaches (step demoTasks) (fun s i => Runs demoTasks s i ∧ Clear demoTasks s i) (Opened demoBoot) s demoNotes ∧
    seen s = demoSeen := by
  have start : Reaches (step demoTasks) (fun s i => checked demoTasks demoKnown s i = true) (Opened demoBoot) demoStation [] :=
    .start ⟨demoBooted,rfl,rfl,rfl⟩
  have followed : (follow (step demoTasks) (checked demoTasks demoKnown) demoStation demoHeld).map
      (fun x => (x.2,seen x.1)) = some (demoNotes,demoSeen) := by decide +kernel
  obtain ⟨⟨s,out⟩,ran,same⟩ := Option.map_eq_some_iff.mp followed
  obtain ⟨rfl,observed⟩ := Prod.mk.inj same
  have run := start.follows (fun _ _ ok => ok) demoHeld ran
  exact ⟨s,(run.strengthen (fun _ => demoListed) (fun _ _ _ _ => listedKept) (fun _ _ => checkedRuns)).2,observed⟩

theorem heldInterrupt {s : Station} (held : seen s = demoSeen) :
    Runs demoTasks s (interrupt eventUsart0tx) ∧ Alone demoTasks s (interrupt eventUsart0tx) ∧
      ¬ ∃ p, Pends s.kernel p eventUsart0tx := by
  have blocked : s.kernel.blocked = [0x800] := congrArg Seen.blocked held
  have frame : trapFrame s.kernel 0x800 = some ⟨.send,0x600,0,0,0⟩ := congrArg Seen.context held
  have on : s.enabled eventUsart0tx = true := congrArg Seen.on held
  have lets : flags s.kernel (running s.kernel) = some (1,false) := congrArg Seen.interrupted held
  have event : (interrupt eventUsart0tx).eventcode ≠ eventNone := by decide
  have calls : ∀ {P : Prop}, (interrupt eventUsart0tx).eventcode = eventNone → P := fun call => absurd call event
  refine ⟨⟨⟨fun made => absurd rfl made,calls⟩,fun _ => ⟨on,1,lets⟩,?_,?_,?_⟩,?_,?_⟩
  · exact ⟨fun own => calls own.1,fun own => calls own.1,calls⟩
  · exact ⟨fun own => calls own.1,fun own => calls own.1,calls⟩
  · exact ⟨fun own => calls own.1,calls,calls,calls⟩
  · rintro - p ⟨asleep,waits,-⟩
    rw [blocked,List.mem_singleton] at asleep
    rw [asleep,trapFrameCtxt _ frame] at waits
    contradiction
  · rintro ⟨p,asleep,c,waits,call,-⟩
    rw [blocked,List.mem_singleton] at asleep
    rw [asleep,frame] at waits
    cases waits
    contradiction

theorem noEventDroppedOnceHeld : ∃ s, ¬ Unheld demoTasks s (interrupt eventUsart0tx) ∧
    demoNotes.count (.arrived eventUsart0rx) = demoNotes.count (.reported .vfsRdInterrupt) + owing s eventUsart0rx := by
  obtain ⟨s,run,held⟩ := heldRun
  obtain ⟨runs,alone,nobody⟩ := heldInterrupt held
  have result := noEventDropped run
  exact ⟨s,fun unheld => nobody ((result.1 _ runs alone (by decide)).mpr unheld),result.2.1 .vfsRdInterrupt⟩

theorem transmitCompleteDropped : ∃ s s' history out, Reaches (step demoTasks) (Runs demoTasks) (Opened demoBoot) s history ∧
    Runs demoTasks s (interrupt eventUsart0tx) ∧ (¬ ∃ p, Pends s.kernel p eventUsart0tx) ∧
    step demoTasks s (interrupt eventUsart0tx) = some (s',out) ∧ (history ++ out).count (.arrived eventUsart0tx) = 1 ∧
    (history ++ out).count (.reported .vfsWrInterrupt) = 0 ∧ owing s' eventUsart0tx = 0 := by
  obtain ⟨s,run,held⟩ := heldRun
  obtain ⟨runs,-,nobody⟩ := heldInterrupt held
  have lost := congrArg Seen.next held
  obtain ⟨⟨s',out⟩,taken,same⟩ := Option.map_eq_some_iff.mp lost
  simp only [Prod.mk.injEq] at same
  obtain ⟨rfl,usart0,tickd⟩ := same
  have allowed := run.weaken (fun _ _ both => both.1) (fun _ first => first)
  refine ⟨s,s',demoNotes,_,allowed,runs,nobody,taken,by decide,by decide,?_⟩
  simp [owing,owed,usart0,tickd]

end Avros.Interrupts
