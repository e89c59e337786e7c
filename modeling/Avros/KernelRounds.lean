import Avros.KernelStarts

/-! What a round of the kernel leaves alone: the priority and the interrupt flag of every
task but few, and the sleepers it does not name. -/
namespace Avros.Kernel
open Queue

def flags (s : State) (p : Pid) : Option (Nat × Bool) := (s.task p).map (fun t => (t.prio,t.irqdis))

def Named (c : Ctxt) (p : Pid) : Prop :=
  (c.kcall = .starttask ∨ c.kcall = .stoptask ∨ c.kcall = .deletetask ∨ c.kcall = .allocatestack ∨
    c.kcall = .setuptask) ∧ c.p0 = p

instance (c : Ctxt) (p : Pid) : Decidable (Named c p) := inferInstanceAs (Decidable (_ ∧ _))

section
variable {i : Input} {s : State} {cur p : Pid}

theorem setTaskFlags (s : State) (q p : Pid) {f : Task → Task}
    (keeps : ∀ t, (f t).prio = t.prio ∧ (f t).irqdis = t.irqdis) : flags (setTask s q f) p = flags s p := by
  by_cases same : p = q
  · subst same
    cases there : s.task p <;> simp [flags,setTask,there,keeps]
  · unfold flags
    rw [setTaskOther s f same]

theorem onCtxtFlags (f : Ctxt → Ctxt) (t : Task) :
    (t.onCtxt f).prio = t.prio ∧ (t.onCtxt f).irqdis = t.irqdis := by
  unfold Task.onCtxt
  split <;> exact ⟨rfl,rfl⟩

theorem setP0Flags (s : State) (q p : Pid) (v : Nat) : flags (setP0 s q v) p = flags s p :=
  setTaskFlags s q p (onCtxtFlags _)

theorem setKcallcodeFlags (s : State) (q p : Pid) (code : Kcall) : flags (setKcallcode s q code) p = flags s p :=
  setTaskFlags s q p (onCtxtFlags _)

theorem deliveredFlags (rcvr sndr : Pid) : flags (delivered i s rcvr sndr) p = flags s p :=
  setP0Flags _ _ _ _

theorem enterFlags (s : State) (cur p : Pid) : flags (enter i s cur) p = flags s p :=
  setTaskFlags _ _ _ (fun _ => ⟨rfl,rfl⟩)

theorem schedulerFlags (s : State) (p : Pid) : flags (scheduler s) p = flags s p := by
  unfold flags
  rw [schedulerTask]

theorem handleEventFlags (i : Input) (s : State) (cur p : Pid) : flags (handleEvent i s cur).1 p = flags s p := by
  unfold handleEvent
  split
  · rfl
  · refine (setP0Flags _ _ _ _).trans ?_
    split <;> rfl

theorem freeTaskFlags (s : State) (w p : Pid) :
    flags (freeTask s w) p = flags s p ∨ p = w ∧ flags (freeTask s w) p = none := by
  unfold freeTask
  split
  · exact .inl rfl
  · by_cases same : p = w
    · exact .inr ⟨same,by simp [flags,same]⟩
    · exact .inl (by simp [flags,Function.update_of_ne same])

theorem handleKcallFlags (i : Input) (s : State) (cur p : Pid) :
    flags (handleKcall i s cur).1 p = flags s p ∨
    (i.ctxt.kcall = .createtask ∧ i.newtask ≠ 0 ∧ p = i.newtask ∧
      flags (handleKcall i s cur).1 p = some (i.ctxt.p0 % 256,false)) ∨
    ((i.ctxt.kcall = .deletetask ∧ p = i.ctxt.p0 ∨ i.ctxt.kcall = .exittask ∧ p = cur) ∧
      flags (handleKcall i s cur).1 p = none) ∨
    (p = cur ∧ (i.ctxt.kcall = .irqen ∨ i.ctxt.kcall = .irqdis) ∧
      flags (handleKcall i s cur).1 p = (flags s p).map (fun f => (f.1,decide (i.ctxt.kcall = .irqdis)))) := by
  unfold handleKcall
  split
  case h_1 call =>
    unfold kcallCreatetask
    simp only [setP0Flags]
    split
    · exact .inl rfl
    · rename_i real
      by_cases same : p = i.newtask
      · exact .inr (.inl ⟨call,real,same,by simp [flags,same,newtask]⟩)
      · exact .inl (by simp [flags,Function.update_of_ne same])
  case h_2 =>
    refine .inl ((setP0Flags _ _ _ _).trans ?_)
    unfold doAllocatestack
    split
    · rfl
    · refine setTaskFlags _ _ _ (fun t => ?_)
      split <;> exact ⟨rfl,rfl⟩
  case h_3 =>
    refine .inl (setTaskFlags _ _ _ (fun t => ?_))
    split <;> exact ⟨rfl,rfl⟩
  case h_5 =>
    refine .inl (setTaskFlags _ _ _ (fun t => ?_))
    split <;> exact ⟨rfl,rfl⟩
  case h_6 call =>
    rcases freeTaskFlags (outOfBlocked s i.ctxt.p0) i.ctxt.p0 p with same | ⟨gone,none⟩
    · exact .inl same
    · exact .inr (.inr (.inl ⟨.inl ⟨call,gone⟩,none⟩))
  case h_7 call =>
    rcases freeTaskFlags (outOfCurrent s cur) cur p with same | ⟨gone,none⟩
    · exact .inl same
    · exact .inr (.inr (.inl ⟨.inr ⟨call,gone⟩,none⟩))
  case h_8 call =>
    by_cases same : p = cur
    · refine .inr (.inr (.inr ⟨same,.inl call,?_⟩))
      subst same
      cases there : s.task p <;> simp [flags,setTask,there,call]
    · exact .inl (by rw [flags,setTaskOther s _ same]; rfl)
  case h_9 call =>
    by_cases same : p = cur
    · refine .inr (.inr (.inr ⟨same,.inr call,?_⟩))
      subst same
      cases there : s.task p <;> simp [flags,setTask,there,call]
    · exact .inl (by rw [flags,setTaskOther s _ same]; rfl)
  case h_11 => exact .inl (setP0Flags _ _ _ _)
  case h_13 => exact .inl (setP0Flags _ _ _ _)
  case h_14 =>
    unfold kcallSend
    split
    · exact .inl rfl
    · rename_i w s' found
      obtain ⟨-,-,rfl⟩ := sendScanSome found
      exact .inl (deliveredFlags w cur)
  case h_15 =>
    unfold kcallSendrec
    split
    · exact .inl rfl
    · rename_i w s' found
      obtain ⟨-,-,rfl⟩ := sendScanSome found
      exact .inl ((setKcallcodeFlags _ _ _ _).trans (deliveredFlags w cur))
  case h_16 =>
    unfold kcallReceive
    split
    · exact .inl rfl
    · rename_i w s' found
      obtain ⟨-,-,rfl⟩ := receiveScanSome found
      split
      · exact .inl ((setKcallcodeFlags _ _ _ _).trans (deliveredFlags cur w))
      · exact .inl (deliveredFlags cur w)
  all_goals exact .inl rfl

theorem handleKcallCurrent (i : Input) (s : State) (cur : Pid) :
    (handleKcall i s cur).1.current = s.current ∨ (handleKcall i s cur).1.current = qRemv s.current cur := by
  have freed : ∀ (t : State) (w : Pid), (freeTask t w).current = t.current := by
    intro t w
    unfold freeTask
    split <;> rfl
  unfold handleKcall
  split
  case h_1 =>
    unfold kcallCreatetask
    dsimp only
    split <;> exact .inl rfl
  case h_2 =>
    unfold kcallAllocatestack doAllocatestack
    split <;> exact .inl rfl
  case h_6 => exact .inl (freed _ _)
  case h_7 => exact .inr (freed _ _)
  case h_10 => exact .inr rfl
  case h_14 =>
    unfold kcallSend
    split
    · exact .inr rfl
    · rename_i w s' found
      obtain ⟨-,-,rfl⟩ := sendScanSome found
      exact .inl rfl
  case h_15 =>
    unfold kcallSendrec
    split <;> try exact .inr rfl
    rename_i w s' found
    obtain ⟨-,-,rfl⟩ := sendScanSome found
    exact .inr rfl
  case h_16 =>
    unfold kcallReceive
    split
    · exact .inr rfl
    · rename_i w s' found
      obtain ⟨-,-,rfl⟩ := receiveScanSome found
      split <;> exact .inl rfl
  case h_17 => exact .inr rfl
  all_goals exact .inl rfl

/- A sleeper the call does not name sleeps on, unless it meets the caller: it waits to
receive, or it sends to the caller and may get ready by that. -/
theorem handleKcallSleeper (real : p ≠ 0) (other : p ≠ cur) (fresh : i.newtask ≠ 0 → p ≠ i.newtask) (spared : ¬ Named i.ctxt p)
    (asleep : p ∈ s.blocked) :
    ((handleKcall i s cur).1.task p = s.task p ∧ p ∈ (handleKcall i s cur).1.blocked) ∨
    (getCtxt i s p).kcall = .receive ∨ (getCtxt i s p).kcall = .sendrec ∨
    ((getCtxt i s p).kcall = .send ∧ (getCtxt i s p).p0 = cur ∧
      p ∈ (handleKcall i s cur).1.queue (prioOf s p) ∧ (handleKcall i s cur).1.current = s.current) := by
  have named : ∀ code, i.ctxt.kcall = code → (code = .starttask ∨ code = .stoptask ∨ code = .deletetask ∨
      code = .allocatestack ∨ code = .setuptask) → p ≠ i.ctxt.p0 := by
    rintro code rfl call same
    exact spared ⟨call,same.symm⟩
  have returned : ∀ t : State, ∀ v, (setP0 t cur v).task p = t.task p := fun t v => setTaskOther t _ other
  unfold handleKcall
  split
  case h_1 =>
    refine .inl ⟨?_,?_⟩
    · unfold kcallCreatetask
      rw [returned]
      split
      · rfl
      · rename_i made
        simp only [Function.update_of_ne (fresh made)]
    · unfold kcallCreatetask
      dsimp only
      split
      · exact asleep
      · exact memFrontOld asleep
  case h_2 call =>
    have apart := named _ call (by simp)
    refine .inl ⟨?_,?_⟩
    · unfold kcallAllocatestack doAllocatestack
      rw [returned]
      split
      · rfl
      · exact setTaskOther s _ apart
    · unfold kcallAllocatestack doAllocatestack
      split <;> exact asleep
  case h_3 call => exact .inl ⟨setTaskOther s _ (named _ call (by simp)),asleep⟩
  case h_4 call => exact .inl ⟨rfl,memErase asleep (named _ call (by simp))⟩
  case h_5 call => exact .inl ⟨setTaskOther s _ (named _ call (by simp)),asleep⟩
  case h_6 call =>
    have apart := named _ call (by simp)
    refine .inl ⟨freeTaskOther apart,?_⟩
    rw [freeTaskBlocked]
    exact memErase asleep apart
  case h_7 =>
    refine .inl ⟨freeTaskOther other,?_⟩
    rw [freeTaskBlocked]
    exact asleep
  case h_8 => exact .inl ⟨setTaskOther s _ other,asleep⟩
  case h_9 => exact .inl ⟨setTaskOther s _ other,asleep⟩
  case h_10 => exact .inl ⟨rfl,memEndOld asleep⟩
  case h_11 => exact .inl ⟨returned s _,asleep⟩
  case h_13 => exact .inl ⟨returned s _,asleep⟩
  case h_14 =>
    unfold kcallSend
    split
    · exact .inl ⟨rfl,memFrontOld asleep⟩
    · rename_i w s' found
      obtain ⟨-,meets,rfl⟩ := sendScanSome found
      by_cases mine : p = w
      · exact .inr (.inl (mine ▸ meets.2.1))
      · exact .inl ⟨deliveredOther mine,memErase asleep mine⟩
  case h_15 =>
    unfold kcallSendrec
    split
    · exact .inl ⟨rfl,memFrontOld asleep⟩
    · rename_i w s' found
      obtain ⟨-,meets,rfl⟩ := sendScanSome found
      by_cases mine : p = w
      · exact .inr (.inl (mine ▸ meets.2.1))
      · exact .inl ⟨(setTaskOther _ _ other).trans (deliveredOther mine),memFrontOld (memErase asleep mine)⟩
  case h_16 =>
    unfold kcallReceive
    split
    · exact .inl ⟨rfl,memFrontOld asleep⟩
    · rename_i w s' found
      obtain ⟨-,meets,rfl⟩ := receiveScanSome found
      by_cases mine : p = w
      · subst mine
        refine .inr (.inr ?_)
        rcases meets.1 with send | sendrec
        · refine .inr ⟨send,meets.2.2.1,?_⟩
          have still : (getCtxt i (delivered i s cur p) p).kcall = .send := by
            rw [getCtxt,deliveredOther other]
            exact send
          rw [if_neg (by rw [still]; decide)]
          refine ⟨?_,rfl⟩
          have level : prioOf (outOfBlocked (delivered i s cur p) p) p = prioOf s p := deliveredPrio i s cur p p
          rw [toQueueEnd,level]
          simp [qEnd,real]
        · exact .inl sendrec
      · split
        · exact .inl ⟨(setTaskOther _ _ mine).trans (deliveredOther other),asleep⟩
        · exact .inl ⟨deliveredOther other,memErase asleep mine⟩
  case h_17 => exact .inl ⟨rfl,asleep⟩
  all_goals exact .inl ⟨rfl,asleep⟩

def Waits (i : Input) (s : State) (p : Pid) : Prop :=
  p ∈ s.blocked ∧ (getCtxt i s p).kcall = .waitevent ∧ (getCtxt i s p).p0 &&& i.eventcode ≠ 0

structure Signalled (i : Input) (s s' : State) (cur w : Pid) : Prop where
  waited : Waits i s w
  current : s'.current = qFront (qRemv s.current cur) w
  blocked : s'.blocked = qRemv s.blocked w
  task : ∀ p, p ≠ w → s'.task p = s.task p
  queue : ∀ k, ∀ p ∈ s.queue k, p ∈ s'.queue k

theorem handleEventCases (i : Input) (s : State) (cur : Pid) :
    (handleEvent i s cur = (s,[]) ∧ ∀ p, ¬ Waits i s p) ∨
    ∃ w, Signalled i s (handleEvent i s cur).1 cur w ∧ (handleEvent i s cur).2 = [.signal w i.eventcode] := by
  unfold handleEvent
  split
  · rename_i none
    refine .inl ⟨rfl,fun p => ?_⟩
    rintro ⟨asleep,waits,mask⟩
    have missed := List.findSome?_eq_none_iff.mp none p asleep
    simp [dispatchevent,waits,mask] at missed
  · rename_i w found
    refine .inr ⟨w,⟨eventScanSome found,?_,?_,?_,?_⟩,rfl⟩
    · change qFront _ w = _
      dsimp only [outOfBlocked]
      split <;> rfl
    · change qRemv _ w = _
      split <;> rfl
    · intro p other
      refine (setTaskOther _ _ other).trans ?_
      dsimp only [outOfBlocked]
      split <;> rfl
    · intro k p member
      change p ∈ (if _ then _ else _ : State).queue k
      split
      · exact toQueueEndGrows (outOfCurrent s cur) cur member
      · exact toQueueFrontGrows (outOfCurrent s cur) cur member

theorem schedulerBusy (busy : s.current ≠ []) : scheduler s = s := by
  unfold scheduler
  exact if_pos busy

theorem schedulerUrgent {rest : List Pid} (ready : p ∈ s.queue 0) (line : (scheduler s).current = cur::rest) :
    scheduler s = s ∨ cur ∈ s.queue 0 ∧ ∀ q ∈ s.queue 0, q ≠ cur → q ∈ (scheduler s).queue 0 := by
  by_cases busy : s.current ≠ []
  · exact .inl (schedulerBusy busy)
  · have empty : s.current = [] := not_not.mp busy
    have waiting : s.queue 0 ≠ [] := List.ne_nil_of_mem ready
    have first : (List.range taskPrioQueueMax).find? (fun prio => decide (s.queue prio ≠ [])) = some 0 := by
      simp [taskPrioQueueMax,List.range_succ,waiting]
    obtain ⟨head,tail,queue⟩ := List.exists_cons_of_ne_nil waiting
    have chosen : scheduler s = { s with
        current := qFront s.current head, queue := Function.update s.queue 0 (qRemv (s.queue 0) head) } := by
      unfold scheduler
      rw [if_neg busy]
      simp only [first,queue,List.headD_cons]
    rw [chosen,empty] at line
    rw [chosen]
    unfold qFront at line
    split at line <;> try contradiction
    obtain ⟨rfl,-⟩ := List.cons.inj line
    refine .inr ⟨by rw [queue]; exact List.mem_cons_self,fun q member other => ?_⟩
    simp only [Function.update_self]
    exact memErase member other

end

end Avros.Kernel
