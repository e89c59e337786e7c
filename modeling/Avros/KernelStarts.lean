import Avros.KernelRendezvous

/-! Tasks that were created, or lost their stack to STOPTASK, and wait for STARTTASK.
They stand in `blocked_q`, and every scan of that queue reads a call code where their
context is, or will be: do_setuptask() leaves in r16 what the memory held, and before it
there is no context at all. -/
namespace Avros.Kernel
open Queue

structure Watched where
  state : State
  unstarted : List Pid

-- Whom the round leaves without a start; STOPTASK counts where it deletes a blocked task's stack.
def unstartedAfter (s : State) (i : Input) (u : List Pid) : List Pid :=
  if i.eventcode ≠ eventNone then u else
    match i.ctxt.kcall with
    | .createtask => if i.newtask = 0 then u else i.newtask::u
    | .stoptask =>
      if i.ctxt.p0 ∈ s.blocked ∧ (s.task i.ctxt.p0).any (fun t => t.sb ≠ 0) then i.ctxt.p0::u else u
    | .starttask => u.filter (· ≠ i.ctxt.p0)
    | .deletetask => u.filter (· ≠ i.ctxt.p0)
    | _ => u

def watch : Run.Step Watched Input (Event × List Pid) := fun w i => do
  let (s,out) ← kernel w.state i
  some (⟨s,unstartedAfter w.state i w.unstarted⟩,out.map (·,w.unstarted))

def Spares (u : List Pid) : Event → Prop
  | .dispatch p _ => p ∉ u
  | .signal p _ => p ∉ u
  | .copy sender receiver _ _ _ => sender ∉ u ∧ receiver ∉ u
  | _ => True

def Pending (code : Kcall) : Prop :=
  code = .waitevent ∨ code = .send ∨ code = .sendrec ∨ code = .receive

instance (code : Kcall) : Decidable (Pending code) := inferInstanceAs (Decidable (_ ∨ _ ∨ _ ∨ _))

-- What the memory holds for r16 of a task without a start is no call a scan looks for.
structure Lucky (w : Watched) (i : Input) : Prop where
  legal : Legal w.state i
  memory : ∀ p ∈ w.unstarted, ¬ Pending (i.noise p).kcall

def Opened (b : Boot) (w : Watched) : Prop := Booted b w.state ∧ w.unstarted = []

def Dormant (t : Task) : Prop := ∀ origin c, t.sp = .frame origin c → ¬ Pending c.kcall

def Resting (s : State) (u : List Pid) : Prop :=
  ∀ p ∈ u, p ∈ s.blocked ∧ ∃ t, s.task p = some t ∧ Dormant t

section
variable {i : Input} {s s' : State} {u : List Pid} {cur : Pid}

theorem dormantReads {p : Pid} (resting : Resting s u) (member : p ∈ u)
    (memory : ∀ p ∈ u, ¬ Pending (i.noise p).kcall) : ¬ Pending (getCtxt i s p).kcall := by
  obtain ⟨-,t,there,dormant⟩ := resting p member
  unfold getCtxt
  rw [there]
  obtain ⟨sp,sb,prio,irqdis,page⟩ := t
  cases sp with
  | unset => exact memory p member
  | bare => exact memory p member
  | frame origin c => exact dormant origin c rfl

theorem Resting.kept (resting : Resting s u) (line : ∀ p ∈ u, p ∈ s.blocked → p ∈ s'.blocked)
    (tasks : ∀ p ∈ u, s'.task p = s.task p) : Resting s' u := by
  intro p member
  obtain ⟨asleep,t,there,dormant⟩ := resting p member
  exact ⟨line p member asleep,t,(tasks p member).trans there,dormant⟩

theorem setTaskOther (s : State) {p q : Pid} (f : Task → Task) (other : q ≠ p) :
    (setTask s p f).task q = s.task q := by simp only [setTask,Function.update_of_ne other]

theorem Resting.setTask (resting : Resting s u) (p : Pid) {f : Task → Task}
    (keeps : p ∈ u → ∀ t, Dormant t → Dormant (f t)) : Resting (setTask s p f) u := by
  intro q member
  obtain ⟨asleep,t,there,dormant⟩ := resting q member
  refine ⟨asleep,?_⟩
  by_cases same : q = p
  · subst same
    exact ⟨f t,by simp [Kernel.setTask,there],keeps member t dormant⟩
  · exact ⟨t,(setTaskOther s f same).trans there,dormant⟩

theorem memErase {line : List Pid} {p w : Pid} (member : p ∈ line) (other : p ≠ w) : p ∈ qRemv line w := by
  unfold qRemv
  split
  · exact member
  · exact (List.mem_erase_of_ne other).mpr member

theorem memFrontOld {line : List Pid} {p w : Pid} (member : p ∈ line) : p ∈ qFront line w := by
  unfold qFront
  split
  · exact member
  · exact List.mem_cons_of_mem _ member

theorem memEndOld {line : List Pid} {p w : Pid} (member : p ∈ line) : p ∈ qEnd line w := by
  unfold qEnd
  split
  · exact member
  · exact List.mem_append_left _ member

theorem deliveredOther {rcvr sndr p : Pid} (other : p ≠ rcvr) : (delivered i s rcvr sndr).task p = s.task p :=
  setTaskOther _ _ other

theorem handleEventResting (resting : Resting s u) (memory : ∀ p ∈ u, ¬ Pending (i.noise p).kcall) :
    Resting (handleEvent i s cur).1 u ∧ ∀ e ∈ (handleEvent i s cur).2, Spares u e := by
  unfold handleEvent
  split
  · exact ⟨resting,by simp⟩
  rename_i w found
  obtain ⟨-,waits,-⟩ := eventScanSome found
  have started : w ∉ u := fun member => dormantReads resting member memory (Or.inl waits)
  have other : ∀ p ∈ u, p ≠ w := fun p member same => started (same ▸ member)
  refine ⟨resting.kept ?_ ?_,?_⟩
  · intro p member asleep
    refine memErase ?_ (other p member)
    split <;> exact asleep
  · intro p member
    refine (setTaskOther _ _ (other p member)).trans ?_
    dsimp only [outOfBlocked]
    split <;> rfl
  · intro e member
    rw [List.mem_singleton.mp member]
    exact started

theorem kcallSendResting (resting : Resting s u) (memory : ∀ p ∈ u, ¬ Pending (i.noise p).kcall)
    (awake : cur ∉ u) : Resting (kcallSend i s cur).1 u ∧ ∀ e ∈ (kcallSend i s cur).2, Spares u e := by
  unfold kcallSend
  split
  · exact ⟨resting.kept (fun p _ asleep => memFrontOld asleep) (fun _ _ => rfl),by simp⟩
  rename_i w s' found
  obtain ⟨-,meets,rfl⟩ := sendScanSome found
  have started : w ∉ u := fun member => dormantReads resting member memory (by simp [Pending,meets.2.1])
  have other : ∀ p ∈ u, p ≠ w := fun p member same => started (same ▸ member)
  refine ⟨resting.kept (fun p member asleep => memErase asleep (other p member))
    (fun p member => deliveredOther (other p member)),?_⟩
  intro e member
  rw [List.mem_singleton.mp member]
  exact ⟨awake,started⟩

theorem kcallSendrecResting (resting : Resting s u) (memory : ∀ p ∈ u, ¬ Pending (i.noise p).kcall)
    (awake : cur ∉ u) : Resting (kcallSendrec i s cur).1 u ∧ ∀ e ∈ (kcallSendrec i s cur).2, Spares u e := by
  unfold kcallSendrec
  split
  · exact ⟨resting.kept (fun p _ asleep => memFrontOld asleep) (fun _ _ => rfl),by simp⟩
  rename_i w s' found
  obtain ⟨-,meets,rfl⟩ := sendScanSome found
  have started : w ∉ u := fun member => dormantReads resting member memory (by simp [Pending,meets.2.1])
  have other : ∀ p ∈ u, p ≠ w := fun p member same => started (same ▸ member)
  have mine : ∀ p ∈ u, p ≠ cur := fun p member same => awake (same ▸ member)
  refine ⟨resting.kept (fun p member asleep => memFrontOld (memErase asleep (other p member))) ?_,?_⟩
  · intro p member
    exact (setTaskOther _ _ (mine p member)).trans (deliveredOther (other p member))
  · intro e member
    rw [List.mem_singleton.mp member]
    exact ⟨awake,started⟩

theorem kcallReceiveResting (resting : Resting s u) (memory : ∀ p ∈ u, ¬ Pending (i.noise p).kcall)
    (awake : cur ∉ u) : Resting (kcallReceive i s cur).1 u ∧ ∀ e ∈ (kcallReceive i s cur).2, Spares u e := by
  unfold kcallReceive
  split
  · exact ⟨resting.kept (fun p _ asleep => memFrontOld asleep) (fun _ _ => rfl),by simp⟩
  rename_i w s' found
  obtain ⟨-,meets,rfl⟩ := receiveScanSome found
  have started : w ∉ u := by
    intro member
    refine dormantReads resting member memory ?_
    rcases meets.1 with sends | sends <;> simp [Pending,sends]
  have other : ∀ p ∈ u, p ≠ w := fun p member same => started (same ▸ member)
  have mine : ∀ p ∈ u, p ≠ cur := fun p member same => awake (same ▸ member)
  split
  · refine ⟨resting.kept (fun p _ asleep => asleep) ?_,?_⟩
    · intro p member
      exact (setTaskOther _ _ (other p member)).trans (deliveredOther (mine p member))
    · intro e member
      rw [List.mem_singleton.mp member]
      exact ⟨started,awake⟩
  · refine ⟨resting.kept (fun p member asleep => memErase asleep (other p member))
      (fun p member => deliveredOther (mine p member)),?_⟩
    intro e member
    rw [List.mem_singleton.mp member]
    exact ⟨started,awake⟩

theorem allocatedDormant (block : Addr) {t : Task} (dormant : Dormant t) :
    Dormant (if block = 0 then { t with sb := 0 } else { t with sb := block, sp := .bare }) := by
  split
  · exact dormant
  · intro origin c top
    contradiction

theorem setupDormant (args : Nat) {noise : Ctxt} (quiet : ¬ Pending noise.kcall) {t : Task} (dormant : Dormant t) :
    Dormant (match t.sp with
      | .unset => t
      | _ => { t with sp := .frame .setup { noise with p0 := args } }) := by
  split
  · exact dormant
  · intro origin c top
    cases top
    exact quiet

theorem stoppedDormant {t : Task} (dormant : t.sb = 0 → Dormant t) :
    Dormant (if t.sb = 0 then t else { t with sb := 0, sp := .unset }) := by
  split
  · rename_i none
    exact dormant none
  · intro origin c top
    contradiction

theorem freeTaskOther {w p : Pid} (other : p ≠ w) : (freeTask s w).task p = s.task p := by
  unfold freeTask
  split
  · rfl
  · simp only [Function.update_of_ne other]

theorem kcallCreatetaskResting (resting : Resting s u) (awake : cur ∉ u) (live : (s.task cur).isSome)
    (fresh : i.newtask ≠ 0 → s.task i.newtask = none) :
    Resting (kcallCreatetask i s cur) (if i.newtask = 0 then u else i.newtask::u) := by
  have mine : ∀ p ∈ u, p ≠ cur := fun p member same => awake (same ▸ member)
  unfold kcallCreatetask
  split
  · exact resting.kept (fun _ _ asleep => asleep) (fun p member => setTaskOther _ _ (mine p member))
  rename_i real
  have other : i.newtask ≠ cur := by
    intro same
    rw [← same,fresh real] at live
    contradiction
  intro p member
  rcases List.mem_cons.mp member with rfl | old
  · refine ⟨?_,newtask (i.ctxt.p0 % 256) (i.ctxt.p1 % 256),?_,?_⟩
    · change i.newtask ∈ qFront s.blocked i.newtask
      simp [qFront,real]
    · exact (setTaskOther _ _ other).trans (by simp)
    · intro origin c top
      contradiction
  · obtain ⟨asleep,t,there,dormant⟩ := resting p old
    have apart : p ≠ i.newtask := by
      rintro rfl
      rw [fresh real] at there
      contradiction
    refine ⟨memFrontOld asleep,t,?_,dormant⟩
    exact (setTaskOther _ _ (mine p old)).trans (by simpa [Function.update_of_ne apart] using there)

theorem kcallStoptaskResting (resting : Resting s u) (w : Pid) : Resting (kcallStoptask s w)
    (if w ∈ s.blocked ∧ (s.task w).any (fun t => t.sb ≠ 0) then w::u else u) := by
  have others : Resting (kcallStoptask s w) u :=
    resting.setTask w (fun _ t dormant => stoppedDormant (fun _ => dormant))
  split
  · rename_i stopped
    obtain ⟨asleep,deleted⟩ := stopped
    cases there : s.task w with
    | none => simp [there] at deleted
    | some t =>
      intro p member
      rcases List.mem_cons.mp member with rfl | old
      · refine ⟨asleep,if t.sb = 0 then t else { t with sb := 0, sp := .unset },?_,stoppedDormant ?_⟩
        · simp [kcallStoptask,Kernel.setTask,there]
        · intro none
          simp [there,none] at deleted
      · exact others p old
  · exact others

theorem handleKcallResting (resting : Resting s u) (memory : ∀ p ∈ u, ¬ Pending (i.noise p).kcall)
    (awake : cur ∉ u) (live : (s.task cur).isSome) (call : i.eventcode = eventNone)
    (fresh : i.newtask ≠ 0 → s.task i.newtask = none) :
    Resting (handleKcall i s cur).1 (unstartedAfter s i u) ∧ ∀ e ∈ (handleKcall i s cur).2, Spares u e := by
  have mine : ∀ p ∈ u, p ≠ cur := fun p member same => awake (same ▸ member)
  have reset : ∀ (s' : State) (w : Pid), ∀ e ∈ dropped s s' w, Spares u e := by
    intro s' w e member
    unfold dropped at member
    split at member
    · contradiction
    · rw [List.mem_singleton.mp member]
      trivial
  have returned : ∀ (t : State) (v : Nat), Resting t u → Resting (setP0 t cur v) u := by
    intro t v held
    exact held.kept (fun _ _ asleep => asleep) (fun p member => setTaskOther _ _ (mine p member))
  unfold handleKcall unstartedAfter
  rw [if_neg (by simp [call])]
  split
  case h_1 code =>
    simp only [code]
    exact ⟨kcallCreatetaskResting resting awake live fresh,by simp⟩
  case h_2 code =>
    simp only [code]
    refine ⟨returned _ _ ?_,reset _ _⟩
    unfold doAllocatestack
    split
    · exact resting
    · exact resting.setTask _ (fun _ t dormant => allocatedDormant i.block dormant)
  case h_3 code =>
    simp only [code]
    exact ⟨resting.setTask _ (fun member t dormant => setupDormant i.ctxt.p2 (memory _ member) dormant),reset _ _⟩
  case h_4 code =>
    simp only [code]
    refine ⟨?_,by simp [Spares]⟩
    intro p member
    obtain ⟨old,other⟩ := List.mem_filter.mp member
    obtain ⟨asleep,t,there,dormant⟩ := resting p old
    exact ⟨memErase asleep (by simpa using other),t,there,dormant⟩
  case h_5 code =>
    simp only [code]
    exact ⟨kcallStoptaskResting resting _,reset _ _⟩
  case h_6 code =>
    simp only [code]
    refine ⟨?_,by simp [Spares]⟩
    intro p member
    obtain ⟨old,other⟩ := List.mem_filter.mp member
    have apart : p ≠ i.ctxt.p0 := by simpa using other
    obtain ⟨asleep,t,there,dormant⟩ := resting p old
    refine ⟨?_,t,(freeTaskOther apart).trans there,dormant⟩
    rw [freeTaskBlocked]
    exact memErase asleep apart
  case h_7 code =>
    simp only [code]
    refine ⟨?_,by simp [Spares]⟩
    refine resting.kept ?_ (fun p member => freeTaskOther (mine p member))
    intro p member asleep
    rw [freeTaskBlocked]
    exact asleep
  case h_8 code =>
    simp only [code]
    exact ⟨resting.setTask _ (fun _ t dormant => dormant),by simp⟩
  case h_9 code =>
    simp only [code]
    exact ⟨resting.setTask _ (fun _ t dormant => dormant),by simp⟩
  case h_10 code =>
    simp only [code]
    exact ⟨resting.kept (fun p _ asleep => memEndOld asleep) (fun _ _ => rfl),by simp⟩
  case h_11 code =>
    simp only [code]
    exact ⟨returned s _ resting,by simp⟩
  case h_12 code =>
    simp only [code]
    exact ⟨resting,by simp⟩
  case h_13 code =>
    simp only [code]
    exact ⟨returned s _ resting,by simp⟩
  case h_14 code =>
    simp only [code]
    exact kcallSendResting resting memory awake
  case h_15 code =>
    simp only [code]
    exact kcallSendrecResting resting memory awake
  case h_16 code =>
    simp only [code]
    exact kcallReceiveResting resting memory awake
  case h_17 code =>
    simp only [code]
    exact ⟨resting.kept (fun _ _ asleep => asleep) (fun _ _ => rfl),by simp⟩
  case h_18 code =>
    simp only [code]
    exact ⟨resting,by simp⟩

end

/-! Whole runs. -/

def Undisturbed (w : Watched) : Prop :=
  ∀ p ∈ w.unstarted, p ∈ w.state.blocked ∧ p ∉ w.state.current ∧ ∀ k, p ∉ w.state.queue k

theorem enteredUnstarted (s : State) (i : Input) (cur : Pid) (u : List Pid) :
    unstartedAfter (enter i (scheduler s) cur) i u = unstartedAfter s i u := by
  have line : (enter i (scheduler s) cur).blocked = s.blocked := schedulerBlocked s
  have stack : ∀ p, ((enter i (scheduler s) cur).task p).any (fun t => decide (t.sb ≠ 0)) =
      (s.task p).any (fun t => decide (t.sb ≠ 0)) := by
    intro p
    by_cases same : p = cur
    · subst same
      cases there : s.task p <;> simp [enter,setTask,schedulerTask,there]
    · rw [enter,setTaskOther _ _ same]
      exact congrArg _ (congrFun (schedulerTask s) p)
  unfold unstartedAfter
  rw [line,stack]

theorem watchResting {w w' : Watched} {i : Input} {out : List (Event × List Pid)} (placed : Placed w.state)
    (resting : Resting w.state w.unstarted) (lucky : Lucky w i) (taken : watch w i = some (w',out)) :
    Placed w'.state ∧ Resting w'.state w'.unstarted ∧ ∀ e ∈ out, Spares e.2 e.1 := by
  simp only [watch,bind,Option.bind_eq_some_iff] at taken
  obtain ⟨⟨s',events⟩,round,last⟩ := taken
  obtain ⟨rfl,rfl⟩ := Prod.mk.inj (Option.some.inj last)
  refine ⟨kernelPlaced placed lucky.legal round,?_⟩
  obtain ⟨cur,rest,line,rfl,rfl⟩ := kernelRound round
  have ready := schedulerPlaced placed
  have running : cur ∈ (scheduler w.state).current := by simp [line]
  have live := (ready.live (occursSomewhere (Or.inl running))).1
  have awake : cur ∉ w.unstarted := by
    intro member
    have asleep := (resting cur member).1
    rw [← schedulerBlocked w.state] at asleep
    exact ready.currentNotBlocked running asleep
  have entered : Resting (enter i (scheduler w.state) cur) w.unstarted := by
    refine resting.kept ?_ ?_
    · intro p _ asleep
      exact (schedulerBlocked w.state).symm ▸ asleep
    · intro p member
      have other : p ≠ cur := fun same => awake (same ▸ member)
      exact (setTaskOther _ _ other).trans (congrFun (schedulerTask w.state) p)
  have body : Resting (handle i (enter i (scheduler w.state) cur) cur).1 (unstartedAfter w.state i w.unstarted) ∧
      ∀ e ∈ (handle i (enter i (scheduler w.state) cur) cur).2, Spares w.unstarted e := by
    unfold handle
    split
    · rename_i event
      have same : unstartedAfter w.state i w.unstarted = w.unstarted := by
        unfold unstartedAfter
        rw [if_pos event]
      rw [same]
      exact handleEventResting entered lucky.memory
    · rename_i call
      rw [← enteredUnstarted w.state i cur]
      refine handleKcallResting entered lucky.memory awake ?_ (by simpa using call) ?_
      · rw [enter,setTaskSome]
        exact live
      · intro real
        have fresh := (lucky.legal.fresh real).1
        have same := setTaskSome { scheduler w.state with mem := i.mem } cur i.newtask (fun t =>
          { t with sp := .frame (if i.eventcode = eventNone then .trap else .interrupt) i.ctxt })
        rw [schedulerTask,fresh] at same
        exact Option.not_isSome_iff_eq_none.mp (by rw [enter,same]; decide)
  refine ⟨body.1,?_⟩
  intro e member
  obtain ⟨event,inside,rfl⟩ := List.mem_map.mp member
  rcases List.mem_cons.mp inside with rfl | inside
  · exact awake
  rcases List.mem_cons.mp inside with rfl | inside
  · unfold entry
    split <;> trivial
  · exact body.2 event inside

theorem Placed.apart {s : State} (placed : Placed s) {p : Pid} (asleep : p ∈ s.blocked) :
    p ∉ s.current ∧ ∀ k, p ∉ s.queue k :=
  ⟨fun running => placed.currentNotBlocked running asleep,fun _ ready => (placed.readyApart ready).2 asleep⟩

theorem onlyStartedWake {b : Boot} {w : Watched} {history : List (Event × List Pid)}
    (run : Run.Reaches watch Lucky (Opened b) w history) :
    Undisturbed w ∧ ∀ e ∈ history, Spares e.2 e.1 := by
  have held := run.invariant
    (P := fun w history => (Placed w.state ∧ Resting w.state w.unstarted) ∧ ∀ e ∈ history, Spares e.2 e.1)
    (by
      rintro w ⟨booted,none⟩
      refine ⟨⟨bootPlaced booted,?_⟩,by simp⟩
      rw [none]
      intro p member
      contradiction)
    (by
      rintro w history i w' out ⟨⟨placed,resting⟩,spared⟩ lucky taken
      obtain ⟨placed,resting,new⟩ := watchResting placed resting lucky taken
      refine ⟨⟨placed,resting⟩,?_⟩
      intro e member
      rcases List.mem_append.mp member with old | last
      · exact spared e old
      · exact new e last)
  obtain ⟨⟨placed,resting⟩,spared⟩ := held
  refine ⟨?_,spared⟩
  intro p member
  have asleep := (resting p member).1
  exact ⟨asleep,placed.apart asleep⟩

/-! The first task creates a second one, gives it a stack and sets it up, and a timer
interrupt comes before STARTTASK. -/

def setupCall (c : Ctxt) (memory : Kcall) (address : Addr) : Input :=
  ⟨eventNone,c,fun _ => 0,fun _ => ⟨memory,0,0,0,0⟩,address,address⟩

def timerEvent (memory : Kcall) : Input := ⟨1,⟨.other,0,0,0,0⟩,fun _ => 0,fun _ => ⟨memory,0,0,0,0⟩,0x800,0⟩

theorem onlyStartedWakeAfterSetup : ∃ w history,
    Run.Reaches watch Lucky (Opened demoBoot) w history ∧ w.unstarted = [0x600] ∧ Undisturbed w := by
  have start : Run.Reaches watch Lucky (Opened demoBoot) ⟨boot demoBoot,[]⟩ [] := .start ⟨demoBooted,rfl⟩
  have created := start.next (i := setupCall ⟨.createtask,2,0,0,0⟩ .other 0x600) ⟨⟨by decide,by decide⟩,by decide⟩ rfl
  have stacked := created.next (i := setupCall ⟨.allocatestack,0x600,160,0,0⟩ .other 0x700)
    ⟨⟨by decide,by decide⟩,by decide⟩ rfl
  have ready := stacked.next (i := setupCall ⟨.setuptask,0x600,0x900,1,0⟩ .other 0x800)
    ⟨⟨by decide,by decide⟩,by decide⟩ rfl
  have event := ready.next (i := timerEvent .other) ⟨⟨by decide,by decide⟩,by decide⟩ rfl
  exact ⟨_,_,event,rfl,(onlyStartedWake event).1⟩

-- The same with WAITEVENT's code left in the new stack: the interrupt starts the task.
theorem staleCallWakes : ∃ w history,
    Run.Reaches watch (fun w i => Legal w.state i) (Opened demoBoot) w history ∧
    w.unstarted = [0x600] ∧ w.state.current = [0x600] ∧ ¬ Undisturbed w ∧ ¬ ∀ e ∈ history, Spares e.2 e.1 := by
  have start : Run.Reaches watch (fun w i => Legal w.state i) (Opened demoBoot) ⟨boot demoBoot,[]⟩ [] :=
    .start ⟨demoBooted,rfl⟩
  have created := start.next (i := setupCall ⟨.createtask,2,0,0,0⟩ .waitevent 0x600) ⟨by decide,by decide⟩ rfl
  have stacked := created.next (i := setupCall ⟨.allocatestack,0x600,160,0,0⟩ .waitevent 0x700)
    ⟨by decide,by decide⟩ rfl
  have ready := stacked.next (i := setupCall ⟨.setuptask,0x600,0x900,1,0⟩ .waitevent 0x800)
    ⟨by decide,by decide⟩ rfl
  have event := ready.next (i := timerEvent .waitevent) ⟨by decide,by decide⟩ rfl
  refine ⟨_,_,event,rfl,rfl,?_,?_⟩
  · intro rests
    exact (rests 0x600 (List.mem_singleton.mpr rfl)).2.1 (List.mem_singleton.mpr rfl)
  · intro spared
    have last := spared (.signal 0x600 1,[0x600]) (List.mem_append_right _ (by decide))
    exact last (List.mem_singleton.mpr rfl)

end Avros.Kernel
