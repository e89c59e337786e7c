import Mathlib.Logic.Function.Basic
import Avros.Queue
import Avros.Run

/-! `kernel/kernel.c`: the task queues, message delivery and the kernel loop.
A pid is the address of a `task_t`, 0 is NULL. A saved context is reduced to what
the kernel reads back from it: the call code in r16 and the parameters P0..P3.
One step is one round of the loop, from scheduler() to the next scheduler(): the
input is what the dispatched task (or an interrupt) brings into the kernel. -/
namespace Avros.Kernel
open Queue

abbrev Pid := Nat
abbrev Addr := Nat

def taskAny : Pid := 0xFFFF
def eventNone : Nat := 0x0000
def preemptOnEvent : Nat := 0x8000
def taskPrioIdle : Nat := 4
def taskPrioQueueMax : Nat := 5

-- The values of r16 the kernel tells apart; every other byte is `other`.
inductive Kcall where
  | yield | getpid | irqen | irqdis
  | createtask | allocatestack | setuptask | starttask | stoptask | deletetask | exittask
  | malloc | free | send | sendrec | receive | waitevent | other
  deriving DecidableEq, Repr

structure Ctxt where
  kcall : Kcall
  p0 : Nat
  p1 : Nat
  p2 : Nat
  p3 : Nat
  deriving DecidableEq, Repr

-- How the context on top of a task's stack came to be there.
inductive Origin where | setup | trap | interrupt
  deriving DecidableEq, Repr

/- Where `sp` points: `unset` is the zero of newtask() or an address inside a freed
stack, `bare` is the top of a stack that holds no context yet. In both cases
GET_CTXT reads memory that is not the task's own. -/
inductive Sp where
  | unset
  | bare
  | frame (origin : Origin) (c : Ctxt)
  deriving DecidableEq, Repr

structure Task where
  sp : Sp
  sb : Addr
  prio : Nat
  irqdis : Bool
  page : Nat
  deriving DecidableEq, Repr

structure State where
  task : Pid → Option Task
  queue : Nat → List Pid
  current : List Pid
  blocked : List Pid
  mem : Addr → Nat

/- What enters the kernel: the event code (`eventNone` for a kernel call), the
registers of the interrupted task, the memory as that task left it, the bytes found
where a task without a context is searched for one, and the answers of malloc. -/
structure Input where
  eventcode : Nat
  ctxt : Ctxt
  mem : Addr → Nat
  noise : Pid → Ctxt
  newtask : Addr
  block : Addr

inductive Event where
  | dispatch (p : Pid) (c : Ctxt)
  | trap (p : Pid) (c : Ctxt)
  | interrupt (p : Pid) (code : Nat)
  | copy (sender receiver : Pid) (source target size : Nat)
  | signal (p : Pid) (code : Nat)
  | reset (p : Pid)
  deriving DecidableEq, Repr

def contextOf (noise : Ctxt) : Option Task → Ctxt
  | some ⟨.frame _ c,_,_,_,_⟩ => c
  | _ => noise

def getCtxt (i : Input) (s : State) (p : Pid) : Ctxt := contextOf (i.noise p) (s.task p)

def prioOf (s : State) (p : Pid) : Nat := ((s.task p).map Task.prio).getD 0

def setTask (s : State) (p : Pid) (f : Task → Task) : State :=
  { s with task := Function.update s.task p ((s.task p).map f) }

-- A store through GET_CTXT reaches the task's own context only if it has one.
def Task.onCtxt (f : Ctxt → Ctxt) (t : Task) : Task :=
  match t.sp with
  | .frame origin c => { t with sp := .frame origin (f c) }
  | _ => t

def setP0 (s : State) (p : Pid) (v : Nat) : State :=
  setTask s p (Task.onCtxt (fun c => { c with p0 := v }))
def setKcallcode (s : State) (p : Pid) (code : Kcall) : State :=
  setTask s p (Task.onCtxt (fun c => { c with kcall := code }))

def newtask (prio page : Nat) : Task := ⟨.unset,0,prio,false,page⟩

def doAllocatestack (s : State) (p : Pid) (size : Nat) (block : Addr) : State × Addr :=
  if size = 0 then (s,0) else
    (setTask s p (fun t => if block = 0 then { t with sb := 0 } else { t with sb := block, sp := .bare }),
      block)

/- Only r24:r25 (P0) of what the kernel reads is written here, with the task's
argument; the call code and the other parameters are what the stack memory held. -/
def doSetuptask (s : State) (p : Pid) (args : Nat) (noise : Ctxt) : State :=
  setTask s p (fun t => match t.sp with
    | .unset => t
    | _ => { t with sp := .frame .setup { noise with p0 := args } })

def dispatchevent (i : Input) (s : State) (p : Pid) : Option Pid :=
  if (getCtxt i s p).kcall ≠ .waitevent then none
  else if (getCtxt i s p).p0 &&& i.eventcode = 0 then none
  else some p

def memcpy (mem : Addr → Nat) (target source size : Nat) : Addr → Nat :=
  fun a => if target ≤ a ∧ a < target + size then mem (source + (a - target)) else mem a

def delivermsg (i : Input) (s : State) (rcvr sndr : Pid) : Option State :=
  let rcvrCtxt := getCtxt i s rcvr
  let sndrCtxt := getCtxt i s sndr
  if sndrCtxt.kcall ≠ .send ∧ sndrCtxt.kcall ≠ .sendrec then none
  else if rcvrCtxt.kcall ≠ .receive then none
  else if sndrCtxt.p0 ≠ rcvr then none
  else if rcvrCtxt.p0 ≠ sndr ∧ rcvrCtxt.p0 ≠ taskAny then none
  else some (setP0 { s with mem := memcpy s.mem rcvrCtxt.p1 sndrCtxt.p1 rcvrCtxt.p2 } rcvr sndr)

def sendmsg (i : Input) (s : State) (cur p : Pid) : Option (Pid × State) :=
  (delivermsg i s p cur).map (p,·)
def receivemsg (i : Input) (s : State) (cur p : Pid) : Option (Pid × State) :=
  (delivermsg i s cur p).map (p,·)

def copied (i : Input) (s : State) (rcvr sndr : Pid) : Event :=
  .copy sndr rcvr (getCtxt i s sndr).p1 (getCtxt i s rcvr).p1 (getCtxt i s rcvr).p2

def scheduler (s : State) : State :=
  if s.current ≠ [] then s else
    match (List.range taskPrioQueueMax).find? (fun prio => s.queue prio ≠ []) with
    | none => s
    | some prio =>
      let p := (s.queue prio).headD 0
      { s with
        current := qFront s.current p
        queue := Function.update s.queue prio (qRemv (s.queue prio) p) }

def toQueueEnd (s : State) (p : Pid) : State :=
  { s with queue := Function.update s.queue (prioOf s p) (qEnd (s.queue (prioOf s p)) p) }
def toQueueFront (s : State) (p : Pid) : State :=
  { s with queue := Function.update s.queue (prioOf s p) (qFront (s.queue (prioOf s p)) p) }
def outOfBlocked (s : State) (p : Pid) : State := { s with blocked := qRemv s.blocked p }
def outOfCurrent (s : State) (p : Pid) : State := { s with current := qRemv s.current p }
def toBlockedFront (s : State) (p : Pid) : State := { s with blocked := qFront s.blocked p }
def toBlockedEnd (s : State) (p : Pid) : State := { s with blocked := qEnd s.blocked p }

/- The event branch. The handler goes straight to `current_q`; the interrupted
task keeps its turn (front of its queue) unless the handler asked to preempt. -/
def handleEvent (i : Input) (s : State) (cur : Pid) : State × List Event :=
  match qForall s.blocked (dispatchevent i s) with
  | none => (s,[])
  | some w =>
    let left := outOfCurrent s cur
    let kept := if (getCtxt i s w).p0 &&& preemptOnEvent ≠ 0 then toQueueEnd left cur
      else toQueueFront left cur
    let taken := outOfBlocked kept w
    (setP0 { taken with current := qFront taken.current w } w i.eventcode, [.signal w i.eventcode])

def kcallSend (i : Input) (s : State) (cur : Pid) : State × List Event :=
  match qForall s.blocked (sendmsg i s cur) with
  | none => (toBlockedFront (outOfCurrent s cur) cur,[])
  | some (w,s') => (toQueueEnd (outOfBlocked s' w) w, [copied i s w cur])

def kcallSendrec (i : Input) (s : State) (cur : Pid) : State × List Event :=
  match qForall s.blocked (sendmsg i s cur) with
  | none => (toBlockedFront (outOfCurrent s cur) cur,[])
  | some (w,s') =>
    let served := toQueueEnd (outOfBlocked (setKcallcode s' cur .receive) w) w
    (toBlockedFront (outOfCurrent served cur) cur, [copied i s w cur])

def kcallReceive (i : Input) (s : State) (cur : Pid) : State × List Event :=
  match qForall s.blocked (receivemsg i s cur) with
  | none => (toBlockedFront (outOfCurrent s cur) cur,[])
  | some (w,s') =>
    if (getCtxt i s' w).kcall = .sendrec then
      (setKcallcode s' w .receive, [copied i s cur w])
    else (toQueueEnd (outOfBlocked s' w) w, [copied i s cur w])

def kcallCreatetask (i : Input) (s : State) (cur : Pid) : State :=
  let made := if i.newtask = 0 then s else
    { s with
      task := Function.update s.task i.newtask (some (newtask (i.ctxt.p0 % 256) (i.ctxt.p1 % 256)))
      blocked := qFront s.blocked i.newtask }
  setP0 made cur i.newtask

def kcallAllocatestack (i : Input) (s : State) (cur : Pid) : State :=
  let r := doAllocatestack s i.ctxt.p0 i.ctxt.p1 i.block
  setP0 r.1 cur r.2

def kcallStoptask (s : State) (w : Pid) : State :=
  setTask s w (fun t => if t.sb = 0 then t else { t with sb := 0, sp := .unset })

-- free(NULL) does nothing, so a NULL argument removes no task.
def freeTask (s : State) (w : Pid) : State :=
  if w = 0 then s else { s with task := Function.update s.task w none }

-- A task that lost the context it had is on its way to a new start.
def dropped (s s' : State) (w : Pid) : List Event :=
  if (s'.task w).map Task.sp = (s.task w).map Task.sp then [] else [.reset w]

def handleKcall (i : Input) (s : State) (cur : Pid) : State × List Event :=
  match i.ctxt.kcall with
  | .createtask => (kcallCreatetask i s cur,[])
  | .allocatestack => (kcallAllocatestack i s cur,
      dropped s (doAllocatestack s i.ctxt.p0 i.ctxt.p1 i.block).1 i.ctxt.p0)
  | .setuptask => (doSetuptask s i.ctxt.p0 i.ctxt.p2 (i.noise i.ctxt.p0),
      dropped s (doSetuptask s i.ctxt.p0 i.ctxt.p2 (i.noise i.ctxt.p0)) i.ctxt.p0)
  | .starttask => (toQueueEnd (outOfBlocked s i.ctxt.p0) i.ctxt.p0,[.reset i.ctxt.p0])
  | .stoptask => (kcallStoptask s i.ctxt.p0,dropped s (kcallStoptask s i.ctxt.p0) i.ctxt.p0)
  | .deletetask => (freeTask (outOfBlocked s i.ctxt.p0) i.ctxt.p0,[.reset i.ctxt.p0])
  | .exittask => (freeTask (outOfCurrent s cur) cur,[.reset cur])
  | .irqen => (setTask s cur (fun t => { t with irqdis := false }),[])
  | .irqdis => (setTask s cur (fun t => { t with irqdis := true }),[])
  | .waitevent => (toBlockedEnd (outOfCurrent s cur) cur,[])
  | .malloc => (setP0 s cur i.block,[])
  | .free => (s,[])
  | .getpid => (setP0 s cur cur,[])
  | .send => kcallSend i s cur
  | .sendrec => kcallSendrec i s cur
  | .receive => kcallReceive i s cur
  | .yield => (toQueueEnd (outOfCurrent s cur) cur,[])
  | .other => (s,[])

/- SAVE_CONTEXT on the way in: the running task's registers become its context. -/
def enter (i : Input) (s : State) (cur : Pid) : State :=
  setTask { s with mem := i.mem } cur (fun t =>
    { t with sp := .frame (if i.eventcode = eventNone then .trap else .interrupt) i.ctxt })

def entry (i : Input) (cur : Pid) : Event :=
  if i.eventcode = eventNone then .trap cur i.ctxt else .interrupt cur i.eventcode

def handle (i : Input) (s : State) (cur : Pid) : State × List Event :=
  if i.eventcode ≠ eventNone then handleEvent i s cur else handleKcall i s cur

/- One round of the loop. Without a ready task CURRENT is NULL and the switch
would read through it: the model has no next state there. -/
def kernel : Run.Step State Input Event := fun s i =>
  let ready := scheduler s
  match ready.current with
  | [] => none
  | cur :: _ =>
    let out := handle i (enter i ready cur) cur
    some (out.1, .dispatch cur (getCtxt i ready cur) :: entry i cur :: out.2)

structure Boot where
  idle : Addr
  idleStack : Addr
  first : Addr
  firstStack : Addr
  args : Nat
  stack : Nat
  prio : Nat
  noise : Pid → Ctxt
  mem : Addr → Nat

def initTaskQueues (mem : Addr → Nat) : State := ⟨fun _ => none,fun _ => [],[],[],mem⟩

def inittask (s : State) (task block : Addr) (args stack prio : Nat) (noise : Ctxt) : State :=
  if task = 0 then s else
    let made := { s with task := Function.update s.task task (some (newtask 0 0)) }
    let r := doAllocatestack made task stack block
    if r.2 = 0 then r.1 else
      toQueueEnd (setTask (doSetuptask r.1 task args noise) task (fun t => { t with prio := prio })) task

def boot (b : Boot) : State :=
  inittask (inittask (initTaskQueues b.mem) b.idle b.idleStack 0 0x80 taskPrioIdle (b.noise b.idle))
    b.first b.firstStack b.args b.stack b.prio (b.noise b.first)

/- The two boot tasks got their memory: malloc answers with distinct addresses of
the data space, none of which is NULL or TASK_ANY, and `prio` is an unsigned char. -/
structure Booted (b : Boot) (s : State) : Prop where
  result : s = boot b
  idle : b.idle ≠ 0 ∧ b.idle ≠ taskAny ∧ b.idleStack ≠ 0
  first : b.first ≠ 0 ∧ b.first ≠ taskAny ∧ b.firstStack ≠ 0
  distinct : b.idle ≠ b.first
  stack : b.stack ≠ 0
  prio : b.prio < 256

/- malloc never hands out a live task's address, and the calls that move a task out
of `blocked_q` by name are given a task that is there (or NULL, which they ignore). -/
structure Legal (s : State) (i : Input) : Prop where
  fresh : i.newtask ≠ 0 → s.task i.newtask = none ∧ i.newtask ≠ taskAny
  named : i.eventcode = eventNone → i.ctxt.kcall = .starttask ∨ i.ctxt.kcall = .deletetask →
    i.ctxt.p0 = 0 ∨ i.ctxt.p0 ∈ s.blocked

/-! The scans of `blocked_q` and one round of the loop, as facts. -/

def Rendezvous (i : Input) (s : State) (rcvr sndr : Pid) : Prop :=
  ((getCtxt i s sndr).kcall = .send ∨ (getCtxt i s sndr).kcall = .sendrec) ∧
  (getCtxt i s rcvr).kcall = .receive ∧ (getCtxt i s sndr).p0 = rcvr ∧
  ((getCtxt i s rcvr).p0 = sndr ∨ (getCtxt i s rcvr).p0 = taskAny)

def delivered (i : Input) (s : State) (rcvr sndr : Pid) : State :=
  setP0 { s with mem := memcpy s.mem (getCtxt i s rcvr).p1 (getCtxt i s sndr).p1 (getCtxt i s rcvr).p2 }
    rcvr sndr

theorem delivermsgSome {i s rcvr sndr s'} (h : delivermsg i s rcvr sndr = some s') :
    Rendezvous i s rcvr sndr ∧ s' = delivered i s rcvr sndr := by
  unfold delivermsg at h
  dsimp only at h
  split at h <;> try contradiction
  rename_i sends
  split at h <;> try contradiction
  rename_i receives
  split at h <;> try contradiction
  rename_i named
  split at h <;> try contradiction
  rename_i accepts
  refine ⟨⟨?_,by simpa using receives,by simpa using named,?_⟩,(Option.some.inj h).symm⟩
  · by_cases plain : (getCtxt i s sndr).kcall = .send
    · exact Or.inl plain
    · exact Or.inr (by simpa [plain] using sends)
  · by_cases exactly : (getCtxt i s rcvr).p0 = sndr
    · exact Or.inl exactly
    · exact Or.inr (by simpa [exactly] using accepts)

theorem delivermsgNone {i s rcvr sndr} (h : delivermsg i s rcvr sndr = none) :
    ¬ Rendezvous i s rcvr sndr := by
  rintro ⟨sends,receives,named,accepts⟩
  have sending : ¬ ((getCtxt i s sndr).kcall ≠ .send ∧ (getCtxt i s sndr).kcall ≠ .sendrec) := by
    rintro ⟨a,b⟩
    rcases sends with h | h
    · exact a h
    · exact b h
  have accepting : ¬ ((getCtxt i s rcvr).p0 ≠ sndr ∧ (getCtxt i s rcvr).p0 ≠ taskAny) := by
    rintro ⟨a,b⟩
    rcases accepts with h | h
    · exact a h
    · exact b h
  simp only [delivermsg,if_neg sending,receives,named,if_neg accepting,ne_eq,not_true,if_false] at h
  contradiction

theorem sendScanSome {i s cur w s'} (h : qForall s.blocked (sendmsg i s cur) = some (w,s')) :
    w ∈ s.blocked ∧ Rendezvous i s w cur ∧ s' = delivered i s w cur := by
  obtain ⟨p,member,found⟩ := List.exists_of_findSome?_eq_some h
  simp only [sendmsg,Option.map_eq_some_iff,Prod.mk.injEq] at found
  obtain ⟨t,ok,rfl,rfl⟩ := found
  exact ⟨member,delivermsgSome ok⟩

theorem sendScanNone {i s cur} (h : qForall s.blocked (sendmsg i s cur) = none) :
    ∀ p ∈ s.blocked, ¬ Rendezvous i s p cur := by
  intro p member
  have missed := List.findSome?_eq_none_iff.mp h p member
  exact delivermsgNone (Option.map_eq_none_iff.mp missed)

theorem receiveScanSome {i s cur w s'} (h : qForall s.blocked (receivemsg i s cur) = some (w,s')) :
    w ∈ s.blocked ∧ Rendezvous i s cur w ∧ s' = delivered i s cur w := by
  obtain ⟨p,member,found⟩ := List.exists_of_findSome?_eq_some h
  simp only [receivemsg,Option.map_eq_some_iff,Prod.mk.injEq] at found
  obtain ⟨t,ok,rfl,rfl⟩ := found
  exact ⟨member,delivermsgSome ok⟩

theorem receiveScanNone {i s cur} (h : qForall s.blocked (receivemsg i s cur) = none) :
    ∀ p ∈ s.blocked, ¬ Rendezvous i s cur p := by
  intro p member
  have missed := List.findSome?_eq_none_iff.mp h p member
  exact delivermsgNone (Option.map_eq_none_iff.mp missed)

theorem eventScanSome {i s w} (h : qForall s.blocked (dispatchevent i s) = some w) :
    w ∈ s.blocked ∧ (getCtxt i s w).kcall = .waitevent ∧ (getCtxt i s w).p0 &&& i.eventcode ≠ 0 := by
  obtain ⟨p,member,found⟩ := List.exists_of_findSome?_eq_some h
  unfold dispatchevent at found
  split at found <;> try contradiction
  rename_i waits
  split at found <;> try contradiction
  rename_i masked
  cases Option.some.inj found
  exact ⟨member,by simpa using waits,masked⟩

theorem kernelRound {s i s' out} (h : kernel s i = some (s',out)) :
    ∃ cur rest, (scheduler s).current = cur :: rest ∧
      s' = (handle i (enter i (scheduler s) cur) cur).1 ∧
      out = .dispatch cur (getCtxt i (scheduler s) cur) :: entry i cur ::
        (handle i (enter i (scheduler s) cur) cur).2 := by
  unfold kernel at h
  dsimp only at h
  split at h <;> try contradiction
  rename_i cur rest line
  cases Option.some.inj h
  exact ⟨cur,rest,line,rfl,rfl⟩

theorem schedulerBlocked (s : State) : (scheduler s).blocked = s.blocked := by
  unfold scheduler
  split
  · rfl
  · split <;> rfl

theorem schedulerTask (s : State) : (scheduler s).task = s.task := by
  unfold scheduler
  split
  · rfl
  · split <;> rfl

end Avros.Kernel
