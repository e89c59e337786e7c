import Avros.Deque
import Avros.KernelStarts
import Avros.KernelRounds

/-! The order in which ready tasks are dispatched. A task enters its ready queue at the end
(yield, start, preempting event, completed rendezvous) or, interrupted by an event that does
not preempt, at the front; it leaves when scheduler() chooses it. -/
namespace Avros.Kernel
open Queue Deque

abbrev Note := Nat × Move Pid

def chosen (s : State) : List Note :=
  if s.current ≠ [] then []
  else match (List.range taskPrioQueueMax).find? (fun prio => s.queue prio ≠ []) with
    | none => []
    | some prio => [(prio,.pop ((s.queue prio).headD 0))]

def entered (i : Input) (s : State) (cur : Pid) : List Note :=
  if i.eventcode ≠ eventNone then
    match qForall s.blocked (dispatchevent i s) with
    | none => []
    | some w =>
      if (getCtxt i s w).p0 &&& preemptOnEvent ≠ 0 then [(prioOf s cur,.back cur)] else [(prioOf s cur,.front cur)]
  else match i.ctxt.kcall with
    | .starttask => if i.ctxt.p0 = 0 then [] else [(prioOf s i.ctxt.p0,.back i.ctxt.p0)]
    | .send => match qForall s.blocked (sendmsg i s cur) with
      | none => []
      | some (w,_) => [(prioOf s w,.back w)]
    | .sendrec => match qForall s.blocked (sendmsg i s cur) with
      | none => []
      | some (w,_) => [(prioOf s w,.back w)]
    | .receive => match qForall s.blocked (receivemsg i s cur) with
      | none => []
      | some (w,s') => if (getCtxt i s' w).kcall = .sendrec then [] else [(prioOf s w,.back w)]
    | .yield => [(prioOf s cur,.back cur)]
    | _ => []

def watchQueues : Run.Step State Input Note := fun s i => do
  let (s',_) ← kernel s i
  let cur := (scheduler s).current.headD 0
  some (s',chosen s ++ entered i (enter i (scheduler s) cur) cur)

def bootNotes (b : Boot) : List Note := [(taskPrioIdle,.back b.idle),(b.prio,.back b.first)]

def moves (k : Nat) (notes : List Note) : List (Move Pid) :=
  notes.filterMap (fun n => if n.1 = k then some n.2 else none)

section
variable {i : Input} {s s' : State} {cur p : Pid} {k : Nat}

theorem movesAppend (k : Nat) (left right : List Note) : moves k (left ++ right) = moves k left ++ moves k right :=
  List.filterMap_append

theorem memMoves {m : Move Pid} {notes : List Note} : m ∈ moves k notes ↔ (k,m) ∈ notes := by
  simp only [moves,List.mem_filterMap]
  constructor
  · rintro ⟨⟨j,m'⟩,member,same⟩
    split at same <;> try contradiction
    rename_i here
    cases Option.some.inj same
    cases here
    exact member
  · intro member
    exact ⟨(k,m),member,if_pos rfl⟩

inductive Entered (s s' : State) : List Note → Prop where
  | none (same : s'.queue = s.queue) : Entered s s' []
  | back {w : Pid} (real : w ≠ 0) (fresh : ∀ k, w ∉ s.queue k) (queue : s'.queue = (toQueueEnd s w).queue) :
      Entered s s' [(prioOf s w,.back w)]
  | front {w : Pid} (real : w ≠ 0) (fresh : ∀ k, w ∉ s.queue k) (queue : s'.queue = (toQueueFront s w).queue) :
      Entered s s' [(prioOf s w,.front w)]

theorem Entered.run {notes : List Note} (entered : Entered s s' notes) (k : Nat) :
    run (s.queue k) (moves k notes) = some (s'.queue k) := by
  cases entered with
  | none same =>
    rw [same]
    rfl
  | @back p real fresh queue =>
    rw [queue]
    by_cases here : prioOf s p = k
    · subst here
      simp [moves,runCons,apply,fresh,toQueueEnd,qEnd,real]
    · have other : k ≠ prioOf s p := fun same => here same.symm
      simp [moves,here,toQueueEnd,Function.update_of_ne other]
  | @front p real fresh queue =>
    rw [queue]
    by_cases here : prioOf s p = k
    · subst here
      simp [moves,runCons,apply,fresh,toQueueFront,qFront,real]
    · have other : k ≠ prioOf s p := fun same => here same.symm
      simp [moves,here,toQueueFront,Function.update_of_ne other]

theorem Placed.runningApart (placed : Placed s) (running : p ∈ s.current) : ∀ k, p ∉ s.queue k :=
  fun _ ready => (placed.readyApart ready).1 running

theorem Placed.wakes {w : Pid} {t : State} (placed : Placed s) (asleep : w ∈ s.blocked)
    (prio : prioOf t w = prioOf s w) (queue : t.queue = s.queue) (result : s'.queue = (toQueueEnd t w).queue) :
    Entered s s' [(prioOf s w,.back w)] := by
  refine .back (placed.blockedReal asleep) (placed.apart asleep).2 ?_
  rw [result,toQueueEnd,toQueueEnd,queue,prio]

theorem handleEventEntered (placed : Placed s) (running : cur ∈ s.current) (event : i.eventcode ≠ eventNone) :
    Entered s (handleEvent i s cur).1 (entered i s cur) := by
  have real := placed.currentReal running
  have apart := placed.runningApart running
  unfold handleEvent entered
  rw [if_pos event]
  cases qForall s.blocked (dispatchevent i s) with
  | none => exact .none rfl
  | some w =>
    dsimp only
    by_cases preempts : (getCtxt i s w).p0 &&& preemptOnEvent ≠ 0
    · rw [if_pos preempts,if_pos preempts]
      exact .back real apart rfl
    · rw [if_neg preempts,if_neg preempts]
      exact .front real apart rfl

theorem kcallSendEntered (placed : Placed s) (call : i.eventcode = eventNone) (code : i.ctxt.kcall = .send) :
    Entered s (kcallSend i s cur).1 (entered i s cur) := by
  unfold kcallSend entered
  rw [if_neg (not_not.mpr call),code]
  cases found : qForall s.blocked (sendmsg i s cur) with
  | none => exact .none rfl
  | some x =>
    obtain ⟨w,t⟩ := x
    obtain ⟨asleep,-,rfl⟩ := sendScanSome found
    have prio : prioOf (outOfBlocked (delivered i s w cur) w) w = prioOf s w := deliveredPrio i s w cur w
    exact placed.wakes asleep prio rfl rfl

theorem kcallSendrecEntered (placed : Placed s) (call : i.eventcode = eventNone) (code : i.ctxt.kcall = .sendrec) :
    Entered s (kcallSendrec i s cur).1 (entered i s cur) := by
  unfold kcallSendrec entered
  rw [if_neg (not_not.mpr call),code]
  cases found : qForall s.blocked (sendmsg i s cur) with
  | none => exact .none rfl
  | some x =>
    obtain ⟨w,t⟩ := x
    obtain ⟨asleep,-,rfl⟩ := sendScanSome found
    have prio : prioOf (outOfBlocked (setKcallcode (delivered i s w cur) cur .receive) w) w = prioOf s w :=
      (setKcallcodePrio _ cur w .receive).trans (deliveredPrio i s w cur w)
    exact placed.wakes asleep prio rfl rfl

theorem kcallReceiveEntered (placed : Placed s) (call : i.eventcode = eventNone) (code : i.ctxt.kcall = .receive) :
    Entered s (kcallReceive i s cur).1 (entered i s cur) := by
  unfold kcallReceive entered
  rw [if_neg (not_not.mpr call),code]
  cases found : qForall s.blocked (receivemsg i s cur) with
  | none => exact .none rfl
  | some x =>
    obtain ⟨w,t⟩ := x
    obtain ⟨asleep,-,rfl⟩ := receiveScanSome found
    dsimp only
    split
    · exact .none rfl
    · have prio : prioOf (outOfBlocked (delivered i s cur w) w) w = prioOf s w := deliveredPrio i s cur w w
      exact placed.wakes asleep prio rfl rfl

theorem handleEntered (placed : Placed s) (running : cur ∈ s.current)
    (named : i.eventcode = eventNone → i.ctxt.kcall = .starttask → i.ctxt.p0 = 0 ∨ i.ctxt.p0 ∈ s.blocked) :
    Entered s (handle i s cur).1 (entered i s cur) := by
  unfold handle
  by_cases event : i.eventcode ≠ eventNone
  · rw [if_pos event]
    exact handleEventEntered placed running event
  · rw [if_neg event]
    have call : i.eventcode = eventNone := not_not.mp event
    have quiet : ∀ t : State, t.queue = s.queue → entered i s cur = [] → Entered s t (entered i s cur) := by
      intro t same empty
      rw [empty]
      exact .none same
    unfold handleKcall
    cases code : i.ctxt.kcall with
    | send => exact kcallSendEntered placed call code
    | sendrec => exact kcallSendrecEntered placed call code
    | receive => exact kcallReceiveEntered placed call code
    | yield =>
      have note : entered i s cur = [(prioOf s cur,.back cur)] := by simp [entered,call,code]
      rw [note]
      exact .back (placed.currentReal running) (placed.runningApart running) rfl
    | starttask =>
      by_cases null : i.ctxt.p0 = 0
      · have note : entered i s cur = [] := by simp [entered,call,code,null]
        refine quiet _ ?_ note
        simp [toQueueEnd,outOfBlocked,null,qEnd,Function.update_eq_self]
      · have note : entered i s cur = [(prioOf s i.ctxt.p0,.back i.ctxt.p0)] := by simp [entered,call,code,null]
        have asleep := (named call code).resolve_left null
        have prio : prioOf (outOfBlocked s i.ctxt.p0) i.ctxt.p0 = prioOf s i.ctxt.p0 := rfl
        rw [note]
        exact placed.wakes asleep prio rfl rfl
    | createtask =>
      refine quiet _ ?_ (by simp [entered,call,code])
      dsimp only [kcallCreatetask]
      split <;> rfl
    | allocatestack =>
      refine quiet _ ?_ (by simp [entered,call,code])
      dsimp only [kcallAllocatestack,doAllocatestack]
      split <;> rfl
    | deletetask => exact quiet _ (freeTaskQueue _ _) (by simp [entered,call,code])
    | exittask => exact quiet _ (freeTaskQueue _ _) (by simp [entered,call,code])
    | _ => exact quiet _ rfl (by simp [entered,call,code])

theorem schedulerFirst {rest : List Pid} (idle : s.current = []) (inside : k < taskPrioQueueMax)
    (line : s.queue k = p::rest) (urgent : ∀ j < k, s.queue j = []) (real : p ≠ 0) :
    (scheduler s).current = [p] ∧ (scheduler s).queue = Function.update s.queue k rest ∧ chosen s = [(k,.pop p)] := by
  have found : (List.range taskPrioQueueMax).find? (fun prio => decide (s.queue prio ≠ [])) = some k := by
    refine List.find?_range_eq_some.mpr ⟨by simp [line],List.mem_range.mpr inside,fun j less => ?_⟩
    simp [urgent j less]
  have busy : ¬ s.current ≠ [] := not_not.mpr idle
  have taken : scheduler s = { s with current := [p], queue := Function.update s.queue k rest } := by
    unfold scheduler
    rw [if_neg busy]
    simp only [found,line,List.headD_cons]
    simp [idle,qFront,qRemv,real]
  refine ⟨by rw [taken],by rw [taken],?_⟩
  unfold chosen
  rw [if_neg busy]
  simp only [found,line,List.headD_cons]

theorem schedulerCases (s : State) : chosen s = [] ∧ (scheduler s).queue = s.queue ∨
    ∃ k p rest, s.current = [] ∧ k < taskPrioQueueMax ∧ s.queue k = p::rest ∧ ∀ j < k, s.queue j = [] := by
  by_cases idle : s.current = []
  · cases found : (List.range taskPrioQueueMax).find? (fun prio => decide (s.queue prio ≠ [])) with
    | none =>
      refine .inl ⟨?_,?_⟩
      · unfold chosen
        rw [if_neg (not_not.mpr idle)]
        simp only [found]
      · unfold scheduler
        rw [if_neg (not_not.mpr idle)]
        simp only [found]
    | some k =>
      obtain ⟨some_,inside,first⟩ := List.find?_range_eq_some.mp found
      obtain ⟨p,rest,line⟩ := List.exists_cons_of_ne_nil (of_decide_eq_true some_)
      refine .inr ⟨k,p,rest,idle,List.mem_range.mp inside,line,fun j less => ?_⟩
      simpa using first j less
  · refine .inl ⟨?_,by rw [schedulerBusy idle]⟩
    unfold chosen
    rw [if_pos idle]

def Urgent (before : List Note) (n : Note) : Prop :=
  ∀ p, n.2 = .pop p → ∀ j < n.1, Deque.run [] (moves j before) = some []

structure Lined (b : Boot) (s : State) (history : List Note) : Prop where
  placed : Placed s
  lines : ∀ k, Deque.run [] (moves k (bootNotes b ++ history)) = some (s.queue k)
  urgent : Run.Always Urgent (bootNotes b ++ history)

theorem runNext {notes more : List Note} {line line' : List Pid} (before : Deque.run [] (moves k notes) = some line)
    (next : Deque.run line (moves k more) = some line') : Deque.run [] (moves k (notes ++ more)) = some line' := by
  rw [movesAppend,runAppend,before]
  exact next

theorem Entered.notPop {notes : List Note} (entered : Entered s s' notes) (before : List Note) :
    ∀ n ∈ notes, Urgent before n := by
  cases entered with
  | none => simp
  | back =>
    intro n member q popped
    rw [List.mem_singleton.mp member] at popped
    contradiction
  | front =>
    intro n member q popped
    rw [List.mem_singleton.mp member] at popped
    contradiction

theorem Entered.short {notes : List Note} (entered : Entered s s' notes) : notes = [] ∨ ∃ n, notes = [n] := by
  cases entered with
  | none => exact .inl rfl
  | back => exact .inr ⟨_,rfl⟩
  | front => exact .inr ⟨_,rfl⟩

theorem admits (t : Task) (real : p ≠ 0) (fresh : ∀ k, p ∉ s.queue k) (k : Nat) :
    Deque.run (s.queue k) (moves k [(t.prio,.back p)]) = some ((toQueueEnd (addTask s p t) p).queue k) := by
  have prio : prioOf (addTask s p t) p = t.prio := by simp [prioOf,addTask]
  have enters : Entered (addTask s p t) (toQueueEnd (addTask s p t) p) [(prioOf (addTask s p t) p,.back p)] :=
    .back real fresh rfl
  have line := enters.run k
  rw [prio] at line
  exact line

theorem bootLined {b : Boot} (booted : Booted b s) : Lined b s [] := by
  refine ⟨bootPlaced booted,fun k => ?_,?_⟩
  · let idle : Task := ⟨.frame .setup { b.noise b.idle with p0 := 0 },b.idleStack,taskPrioIdle,false,0⟩
    let first : Task := ⟨.frame .setup { b.noise b.first with p0 := b.args },b.firstStack,b.prio,false,0⟩
    have placed := (initTaskQueuesPlaced b.mem).admitted booted.idle.1 rfl idle (show taskPrioIdle < 256 by decide)
    have other : b.first ≠ b.idle := fun h => booted.distinct h.symm
    have fresh := placed.absent (w := b.first) (by
      simp [toQueueEnd,addTask,Function.update_of_ne other,initTaskQueues])
    have before := admits (s := initTaskQueues b.mem) idle booted.idle.1 (fun j => List.not_mem_nil) k
    have notes : bootNotes b ++ [] = [(taskPrioIdle,.back b.idle)] ++ [(b.prio,.back b.first)] := rfl
    rw [bootedState booted,notes]
    exact runNext before (admits first booted.first.1 fresh.2 k)
  · intro before n after split p popped
    have member : n ∈ bootNotes b := by
      rw [List.append_nil] at split
      rw [split]
      simp
    rcases List.mem_cons.mp member with rfl | member
    · contradiction
    · rw [List.mem_singleton.mp member] at popped
      contradiction

theorem Lined.step {b : Boot} {history out : List Note} (lined : Lined b s history) (legal : Legal s i)
    (taken : watchQueues s i = some (s',out)) : Lined b s' (history ++ out) := by
  unfold watchQueues at taken
  obtain ⟨⟨t,events⟩,round,same⟩ := Option.bind_eq_some_iff.mp taken
  cases same
  have placed := kernelPlaced lined.placed legal round
  obtain ⟨cur,rest,line,rfl,-⟩ := kernelRound round
  have ready := enterPlaced (schedulerPlaced lined.placed) i cur
  have running : cur ∈ (enter i (scheduler s) cur).current := by
    change cur ∈ (scheduler s).current
    rw [line]
    exact List.mem_cons_self
  have named : i.eventcode = eventNone → i.ctxt.kcall = .starttask →
      i.ctxt.p0 = 0 ∨ i.ctxt.p0 ∈ (enter i (scheduler s) cur).blocked := by
    intro call code
    change i.ctxt.p0 = 0 ∨ i.ctxt.p0 ∈ (scheduler s).blocked
    rw [schedulerBlocked]
    exact legal.named call (Or.inl code)
  have enters := handleEntered ready running named
  rw [line,List.headD_cons]
  -- First what scheduler() took, then what the round put back.
  have picked : (∀ k, Deque.run [] (moves k (bootNotes b ++ (history ++ chosen s))) = some ((scheduler s).queue k)) ∧
      Run.Always Urgent (bootNotes b ++ (history ++ chosen s)) := by
    rw [← List.append_assoc]
    rcases schedulerCases s with ⟨nothing,queue⟩ | ⟨k,p,others,idle,inside,first,urgent⟩
    · rw [nothing,queue,List.append_nil]
      exact ⟨lined.lines,lined.urgent⟩
    · have member : p ∈ s.queue k := by simp [first]
      have real := lined.placed.real (occursSomewhere (Or.inr (Or.inr ⟨k,lined.placed.index member,member⟩)))
      obtain ⟨-,queue,note⟩ := schedulerFirst idle inside first urgent real
      rw [note,queue]
      refine ⟨fun j => runNext (lined.lines j) ?_,lined.urgent.snoc ?_⟩
      · by_cases here : j = k
        · subst here
          rw [first]
          simp [moves,runCons,apply]
        · have other : k ≠ j := fun same => here same.symm
          simp [moves,other,Function.update_of_ne here]
      · intro q _ j less
        rw [lined.lines j,urgent j less]
  have whole : ∀ notes : List Note, bootNotes b ++ (history ++ (chosen s ++ notes)) =
      bootNotes b ++ (history ++ chosen s) ++ notes := fun notes => by simp
  refine ⟨placed,fun k => ?_,?_⟩
  · rw [whole]
    exact runNext (picked.1 k) (enters.run k)
  · rw [whole]
    rcases enters.short with none | ⟨n,one⟩
    · rw [none,List.append_nil]
      exact picked.2
    · have quiet := enters.notPop (bootNotes b ++ (history ++ chosen s)) n (by rw [one]; exact List.mem_singleton_self n)
      rw [one]
      exact picked.2.snoc quiet

/-- scheduler() takes the first task of the most urgent queue that has one; of two tasks that
entered a queue at its end the one that entered first is chosen first; and a task that was put
back in front is chosen before all that stood in its queue. -/
theorem priorityRoundRobin {b : Boot} {history : List Note} (run : Run.Reaches watchQueues Legal (Booted b) s history) :
    (∀ k, Deque.run [] (moves k (bootNotes b ++ history)) = some (s.queue k)) ∧
    (s.current = [] → ∀ k p rest, k < taskPrioQueueMax → s.queue k = p::rest → (∀ j < k, s.queue j = []) →
      (scheduler s).current = [p] ∧ chosen s = [(k,.pop p)]) ∧
    (∀ before k p after, bootNotes b ++ history = before ++ (k,.pop p)::after →
      ∀ j < k, Deque.run [] (moves j before) = some []) ∧
    (∀ k p q before between after rest,
      bootNotes b ++ history = before ++ (k,.back p)::(between ++ (k,.back q)::(after ++ (k,.pop q)::rest)) →
        (k,.pop p) ∈ between ++ after) ∧
    ∀ k p q before between rest line,
      bootNotes b ++ history = before ++ (k,.front p)::(between ++ (k,.pop q)::rest) →
        Deque.run [] (moves k before) = some line → q ∈ line → (k,.pop p) ∈ between := by
  have lined : Lined b s history := run.invariant (P := Lined b) (fun _ booted => bootLined booted)
    (fun _ _ _ _ _ held legal taken => held.step legal taken)
  have own : ∀ (k : Nat) (m : Move Pid) (notes : List Note), moves k ((k,m)::notes) = m::moves k notes := by
    intro k m notes
    simp [moves]
  refine ⟨lined.lines,?_,?_,?_,?_⟩
  · intro idle k p rest inside first urgent
    have member : p ∈ s.queue k := by simp [first]
    have real := lined.placed.real (occursSomewhere (Or.inr (Or.inr ⟨k,lined.placed.index member,member⟩)))
    obtain ⟨current,-,note⟩ := schedulerFirst idle inside first urgent real
    exact ⟨current,note⟩
  · intro before k p after split
    exact lined.urgent before (k,.pop p) after split p rfl
  · intro k p q before between after rest split
    have line := lined.lines k
    rw [split,movesAppend,own,movesAppend,own,movesAppend,own] at line
    have served := fifo (Option.isSome_iff_exists.mpr ⟨_,line⟩)
    rw [← movesAppend] at served
    exact memMoves.mp served
  · intro k p q before between rest line split stood member
    have last := lined.lines k
    rw [split,movesAppend,own,movesAppend,own] at last
    exact memMoves.mp (frontFirst stood member (Option.isSome_iff_exists.mpr ⟨_,last⟩))

end

-- The first task starts a second one of its priority and yields to it.
theorem priorityRoundRobinOfTwo : ∃ s history,
    Run.Reaches watchQueues Legal (Booted demoBoot) s history ∧
    history = [(2,.pop 0x400),(2,.back 0x600),(2,.back 0x400),(2,.pop 0x600),(2,.back 0x600)] ∧
    ∀ k, Deque.run [] (moves k (bootNotes demoBoot ++ history)) = some (s.queue k) := by
  have start : Run.Reaches watchQueues Legal (Booted demoBoot) (boot demoBoot) [] := .start demoBooted
  have created := start.next (i := demoCall ⟨.createtask,2,0,0,0⟩ 0x600) ⟨fun _ => ⟨rfl,by decide⟩,by decide⟩ rfl
  have started := created.next (i := demoCall ⟨.starttask,0x600,0,0,0⟩ 0) ⟨by decide,by decide⟩ rfl
  have yielded := started.next (i := demoCall ⟨.yield,0,0,0,0⟩ 0) ⟨by decide,by decide⟩ rfl
  have again := yielded.next (i := demoCall ⟨.yield,0,0,0,0⟩ 0) ⟨by decide,by decide⟩ rfl
  exact ⟨_,_,again,rfl,(priorityRoundRobin again).1⟩

end Avros.Kernel
