import Mathlib.Algebra.BigOperators.Group.Finset.Basic
import Mathlib.Algebra.Order.BigOperators.Group.Finset
import Avros.Kernel

/-! Every live task stands in exactly one of the kernel's queues, exactly once.
The ready queues are counted for every value of the unsigned char `prio`; that only
the first five are ever used is a further fact about runs that create no other task. -/
namespace Avros.Kernel
open Queue

def occurrences (s : State) (p : Pid) : Nat :=
  s.current.count p + s.blocked.count p + ∑ k ∈ Finset.range 256, (s.queue k).count p

structure Placed (s : State) : Prop where
  once : ∀ p, occurrences s p = if (s.task p).isSome then 1 else 0
  own : ∀ k, ∀ p ∈ s.queue k, prioOf s p = k
  byte : ∀ p, prioOf s p < 256
  null : s.task 0 = none
  single : s.current.length ≤ 1

/-! What each move of a task does to the counts and to the rest of the state. -/

@[simp] theorem setTaskQueue (s : State) (p : Pid) (f) : (setTask s p f).queue = s.queue := rfl
@[simp] theorem setTaskCurrent (s : State) (p : Pid) (f) : (setTask s p f).current = s.current := rfl
@[simp] theorem setTaskBlocked (s : State) (p : Pid) (f) : (setTask s p f).blocked = s.blocked := rfl
@[simp] theorem setTaskSome (s : State) (p q : Pid) (f) :
    ((setTask s p f).task q).isSome = (s.task q).isSome := by
  by_cases same : q = p
  · subst same
    simp [setTask]
  · simp [setTask,Function.update_of_ne same]
@[simp] theorem setTaskOccurrences (s : State) (p q : Pid) (f) :
    occurrences (setTask s p f) q = occurrences s q := rfl

theorem setTaskPrio (s : State) (p q : Pid) {f : Task → Task} (keeps : ∀ t, (f t).prio = t.prio) :
    prioOf (setTask s p f) q = prioOf s q := by
  by_cases same : q = p
  · subst same
    cases found : s.task q <;> simp [prioOf,setTask,found,keeps]
  · simp [prioOf,setTask,Function.update_of_ne same]

theorem onCtxtPrio (f : Ctxt → Ctxt) (t : Task) : (t.onCtxt f).prio = t.prio := by
  unfold Task.onCtxt
  split <;> rfl

theorem sumUpdate (queue : Nat → List Pid) {k : Nat} (inside : k < 256) (line : List Pid) (p : Pid) :
    ∑ j ∈ Finset.range 256, (Function.update queue k line j).count p + (queue k).count p =
      ∑ j ∈ Finset.range 256, (queue j).count p + line.count p := by
  have member : k ∈ Finset.range 256 := Finset.mem_range.mpr inside
  have others : ∑ j ∈ (Finset.range 256).erase k, (Function.update queue k line j).count p =
      ∑ j ∈ (Finset.range 256).erase k, (queue j).count p := by
    refine Finset.sum_congr rfl ?_
    intro j mem
    rw [Function.update_of_ne (Finset.ne_of_mem_erase mem)]
  have left := Finset.sum_erase_add (Finset.range 256)
    (fun j => (Function.update queue k line j).count p) member
  have right := Finset.sum_erase_add (Finset.range 256) (fun j => (queue j).count p) member
  simp only [Function.update_self] at left right
  omega

theorem lineCount {s : State} {w p : Pid} {line : List Pid} (byte : prioOf s w < 256)
    (joined : line.count p = (s.queue (prioOf s w)).count p + if w = p then 1 else 0) :
    occurrences { s with queue := Function.update s.queue (prioOf s w) line } p =
      occurrences s p + if w = p then 1 else 0 := by
  have sums := sumUpdate s.queue byte line p
  rw [joined] at sums
  simp only [occurrences]
  omega

theorem toQueueEndCount {s : State} {w : Pid} (real : w ≠ 0) (byte : prioOf s w < 256) (p : Pid) :
    occurrences (toQueueEnd s w) p = occurrences s p + if w = p then 1 else 0 := lineCount byte (countEnd _ real p)

theorem toQueueFrontCount {s : State} {w : Pid} (real : w ≠ 0) (byte : prioOf s w < 256) (p : Pid) :
    occurrences (toQueueFront s w) p = occurrences s p + if w = p then 1 else 0 := lineCount byte (countFront _ real p)

theorem outOfBlockedCount {s : State} {w : Pid} (real : w ≠ 0) (member : w ∈ s.blocked) (p : Pid) :
    occurrences (outOfBlocked s w) p + (if w = p then 1 else 0) = occurrences s p := by
  have counts := countRemv real member p
  simp only [occurrences,outOfBlocked]
  omega

theorem outOfCurrentCount {s : State} {w : Pid} (real : w ≠ 0) (member : w ∈ s.current) (p : Pid) :
    occurrences (outOfCurrent s w) p + (if w = p then 1 else 0) = occurrences s p := by
  have counts := countRemv real member p
  simp only [occurrences,outOfCurrent]
  omega

theorem toBlockedFrontCount {s : State} {w : Pid} (real : w ≠ 0) (p : Pid) :
    occurrences (toBlockedFront s w) p = occurrences s p + if w = p then 1 else 0 := by
  simp only [occurrences,toBlockedFront,countFront _ real]
  omega

theorem toBlockedEndCount {s : State} {w : Pid} (real : w ≠ 0) (p : Pid) :
    occurrences (toBlockedEnd s w) p = occurrences s p + if w = p then 1 else 0 := by
  simp only [occurrences,toBlockedEnd,countEnd _ real]
  omega

def Owned (s : State) : Prop := ∀ k, ∀ p ∈ s.queue k, prioOf s p = k

theorem lineOwned {s : State} (own : Owned s) {w : Pid} {line : List Pid}
    (joined : ∀ p ∈ line, p = w ∨ p ∈ s.queue (prioOf s w)) :
    Owned { s with queue := Function.update s.queue (prioOf s w) line } := by
  intro k p member
  change prioOf s p = k
  by_cases same : k = prioOf s w
  · simp only [same,Function.update_self] at member
    rcases joined p member with rfl | old
    · exact same.symm
    · exact (own _ p old).trans same.symm
  · simp only [Function.update_of_ne same] at member
    exact own k p member

theorem toQueueEndOwned {s : State} (own : Owned s) (w : Pid) : Owned (toQueueEnd s w) :=
  lineOwned own (fun _ member => memEnd member)

theorem toQueueFrontOwned {s : State} (own : Owned s) (w : Pid) : Owned (toQueueFront s w) :=
  lineOwned own (fun _ member => memFront member)

theorem occursSomewhere {s : State} {p : Pid}
    (member : p ∈ s.current ∨ p ∈ s.blocked ∨ ∃ k < 256, p ∈ s.queue k) : 0 < occurrences s p := by
  unfold occurrences
  rcases member with here | here | ⟨k,inside,here⟩
  · have := List.count_pos_iff.mpr here
    omega
  · have := List.count_pos_iff.mpr here
    omega
  · have positive := List.count_pos_iff.mpr here
    have part := Finset.single_le_sum (f := fun j => (s.queue j).count p)
      (fun j _ => Nat.zero_le _) (Finset.mem_range.mpr inside)
    omega

theorem Placed.live {s : State} (placed : Placed s) {p : Pid} (occurs : 0 < occurrences s p) :
    (s.task p).isSome ∧ occurrences s p = 1 := by
  have once := placed.once p
  split at once
  · rename_i live
    exact ⟨live,once⟩
  · omega

theorem Placed.real {s : State} (placed : Placed s) {p : Pid} (occurs : 0 < occurrences s p) : p ≠ 0 := by
  rintro rfl
  have live := (placed.live occurs).1
  simp [placed.null] at live

theorem Placed.blockedReal {s : State} (placed : Placed s) {p : Pid} (member : p ∈ s.blocked) : p ≠ 0 :=
  placed.real (occursSomewhere (Or.inr (Or.inl member)))

theorem Placed.currentReal {s : State} (placed : Placed s) {p : Pid} (member : p ∈ s.current) : p ≠ 0 :=
  placed.real (occursSomewhere (Or.inl member))

theorem Placed.currentNotBlocked {s : State} (placed : Placed s) {p : Pid} (member : p ∈ s.current) :
    p ∉ s.blocked := by
  intro asleep
  have once := (placed.live (occursSomewhere (Or.inl member))).2
  have running := List.count_pos_iff.mpr member
  have sleeping := List.count_pos_iff.mpr asleep
  unfold occurrences at once
  omega

/- The queues may be rearranged at will as long as every task keeps its number of
occurrences and the task structures keep theirs. -/
theorem Placed.rearranged {s s' : State} (placed : Placed s) (tasks : s'.task = s.task)
    (counts : ∀ p, occurrences s' p = occurrences s p) (own : Owned s')
    (single : s'.current.length ≤ 1) : Placed s' where
  once p := by rw [counts,tasks]; exact placed.once p
  own := own
  byte p := by
    have same : prioOf s' p = prioOf s p := by simp only [prioOf,tasks]
    rw [same]; exact placed.byte p
  null := by rw [tasks]; exact placed.null
  single := single

theorem Placed.setTask {s : State} (placed : Placed s) (p : Pid) {f : Task → Task}
    (keeps : ∀ t, (f t).prio = t.prio) : Placed (setTask s p f) where
  once q := by rw [setTaskOccurrences,setTaskSome]; exact placed.once q
  own k q member := by rw [setTaskPrio s p q keeps]; exact placed.own k q member
  byte q := by rw [setTaskPrio s p q keeps]; exact placed.byte q
  null := by
    have absent := setTaskSome s p 0 f
    rw [placed.null] at absent
    exact Option.not_isSome_iff_eq_none.mp (by simp [absent])
  single := placed.single

theorem Placed.withMem {s : State} (placed : Placed s) (mem : Addr → Nat) : Placed { s with mem := mem } :=
  ⟨placed.once,placed.own,placed.byte,placed.null,placed.single⟩

theorem Placed.setP0 {s : State} (placed : Placed s) (p : Pid) (v : Nat) : Placed (setP0 s p v) :=
  placed.setTask p (onCtxtPrio _)

theorem Placed.setKcallcode {s : State} (placed : Placed s) (p : Pid) (code : Kcall) :
    Placed (setKcallcode s p code) := placed.setTask p (onCtxtPrio _)

theorem removedLength {line : List Pid} {w : Pid} (bound : line.length ≤ 1) :
    (qRemv line w).length ≤ 1 := by
  unfold qRemv
  split
  · exact bound
  · exact Nat.le_trans List.length_erase_le bound

theorem removedEmpty {line : List Pid} {w : Pid} (bound : line.length ≤ 1) (real : w ≠ 0)
    (member : w ∈ line) : qRemv line w = [] := by
  have length := List.length_erase_of_mem member
  have positive := List.length_pos_of_mem member
  rw [qRemv,if_neg real]
  exact List.length_eq_zero_iff.mp (by omega)

theorem Placed.index {s : State} (placed : Placed s) {k : Nat} {p : Pid} (member : p ∈ s.queue k) :
    k < 256 := by
  rw [← placed.own k p member]
  exact placed.byte p

theorem Placed.readyApart {s : State} (placed : Placed s) {k : Nat} {p : Pid} (ready : p ∈ s.queue k) :
    p ∉ s.current ∧ p ∉ s.blocked := by
  have inside := placed.index ready
  have once := (placed.live (occursSomewhere (Or.inr (Or.inr ⟨k,inside,ready⟩)))).2
  have waiting := List.count_pos_iff.mpr ready
  have part := Finset.single_le_sum (f := fun j => (s.queue j).count p)
    (fun j _ => Nat.zero_le _) (Finset.mem_range.mpr inside)
  unfold occurrences at once
  refine ⟨fun running => ?_,fun asleep => ?_⟩
  · have := List.count_pos_iff.mpr running
    omega
  · have := List.count_pos_iff.mpr asleep
    omega

theorem Placed.blockedToReady {s : State} (placed : Placed s) {w : Pid} (member : w ∈ s.blocked) :
    Placed (toQueueEnd (outOfBlocked s w) w) := by
  have real := placed.blockedReal member
  refine placed.rearranged rfl ?_ (toQueueEndOwned (s := outOfBlocked s w) placed.own w) placed.single
  intro p
  have added := toQueueEndCount (s := outOfBlocked s w) real (placed.byte w) p
  have taken := outOfBlockedCount real member p
  omega

theorem Placed.currentToReady {s : State} (placed : Placed s) {w : Pid} (member : w ∈ s.current) :
    Placed (toQueueEnd (outOfCurrent s w) w) := by
  have real := placed.currentReal member
  refine placed.rearranged rfl ?_ (toQueueEndOwned (s := outOfCurrent s w) placed.own w)
    (removedLength placed.single)
  intro p
  have added := toQueueEndCount (s := outOfCurrent s w) real (placed.byte w) p
  have taken := outOfCurrentCount real member p
  omega

theorem Placed.currentToBlockedFront {s : State} (placed : Placed s) {w : Pid} (member : w ∈ s.current) :
    Placed (toBlockedFront (outOfCurrent s w) w) := by
  have real := placed.currentReal member
  refine placed.rearranged rfl ?_ placed.own (removedLength placed.single)
  intro p
  have added := toBlockedFrontCount (s := outOfCurrent s w) real p
  have taken := outOfCurrentCount real member p
  omega

theorem Placed.currentToBlockedEnd {s : State} (placed : Placed s) {w : Pid} (member : w ∈ s.current) :
    Placed (toBlockedEnd (outOfCurrent s w) w) := by
  have real := placed.currentReal member
  refine placed.rearranged rfl ?_ placed.own (removedLength placed.single)
  intro p
  have added := toBlockedEndCount (s := outOfCurrent s w) real p
  have taken := outOfCurrentCount real member p
  omega

theorem Placed.freed {s s' : State} (placed : Placed s) {w : Pid} (real : w ≠ 0)
    (counts : ∀ p, occurrences s' p + (if w = p then 1 else 0) = occurrences s p)
    (tasks : s'.task = s.task) (own : Owned s') (single : s'.current.length ≤ 1) :
    Placed (freeTask s' w) := by
  have emptied : occurrences s' w = 0 := by
    have once := placed.once w
    have count := counts w
    split at once <;> simp_all
  have absent : ∀ k < 256, w ∉ s'.queue k := by
    intro k inside here
    have := occursSomewhere (Or.inr (Or.inr ⟨k,inside,here⟩))
    omega
  have prio : ∀ p, p ≠ w → prioOf (freeTask s' w) p = prioOf s p := by
    intro p other
    simp [prioOf,freeTask,real,Function.update_of_ne other,tasks]
  have gone : prioOf (freeTask s' w) w = 0 := by simp [prioOf,freeTask,real]
  have same : occurrences (freeTask s' w) = occurrences s' := by
    unfold freeTask; rw [if_neg real]; rfl
  have queues : (freeTask s' w).queue = s'.queue := by
    unfold freeTask; rw [if_neg real]
  have owner : ∀ p, prioOf s' p = prioOf s p := by intro p; simp only [prioOf,tasks]
  refine ⟨?_,?_,?_,?_,?_⟩
  · intro p
    rw [same]
    have count := counts p
    have once := placed.once p
    by_cases this : w = p
    · subst this
      simp [freeTask,real,emptied]
    · have other : p ≠ w := fun h => this h.symm
      simp only [if_neg this] at count
      simp only [freeTask,if_neg real,Function.update_of_ne other,tasks]
      omega
  · intro k p member
    rw [queues] at member
    have value := own k p member
    rw [owner] at value
    have inside : k < 256 := by rw [← value]; exact placed.byte p
    have other : p ≠ w := fun h => absent k inside (h ▸ member)
    rw [prio p other]
    exact value
  · intro p
    by_cases this : p = w
    · subst this; rw [gone]; omega
    · rw [prio p this]; exact placed.byte p
  · have zero : (0 : Pid) ≠ w := fun h => real h.symm
    simp [freeTask,real,Function.update_of_ne zero,tasks,placed.null]
  · simpa [freeTask,real] using single

theorem Placed.deleted {s : State} (placed : Placed s) {w : Pid} (member : w ∈ s.blocked) :
    Placed (freeTask (outOfBlocked s w) w) := by
  have real := placed.blockedReal member
  exact placed.freed real (outOfBlockedCount real member) rfl placed.own placed.single

theorem Placed.exited {s : State} (placed : Placed s) {w : Pid} (member : w ∈ s.current) :
    Placed (freeTask (outOfCurrent s w) w) := by
  have real := placed.currentReal member
  exact placed.freed real (outOfCurrentCount real member) rfl placed.own (removedLength placed.single)

theorem Placed.absent {s : State} (placed : Placed s) {w : Pid} (fresh : s.task w = none) :
    occurrences s w = 0 ∧ ∀ k, w ∉ s.queue k := by
  have unseen : occurrences s w = 0 := by rw [placed.once w,fresh]; rfl
  refine ⟨unseen,?_⟩
  intro k member
  have seen := occursSomewhere (Or.inr (Or.inr ⟨k,placed.index member,member⟩))
  omega

def addTask (s : State) (w : Pid) (t : Task) : State :=
  { s with task := Function.update s.task w (some t) }

theorem addTaskPrio {s : State} {w p : Pid} (t : Task) (other : p ≠ w) :
    prioOf (addTask s w t) p = prioOf s p := by
  simp only [prioOf,addTask,Function.update_of_ne other]

theorem Placed.addOwned {s : State} (placed : Placed s) {w : Pid} (fresh : s.task w = none) (t : Task) :
    Owned (addTask s w t) := by
  intro k p member
  have other : p ≠ w := fun h => (placed.absent fresh).2 k (h ▸ member)
  rw [addTaskPrio t other]
  exact placed.own k p member

theorem Placed.added {s s' : State} (placed : Placed s) {w : Pid} (real : w ≠ 0)
    (fresh : s.task w = none) {t : Task} (byte : t.prio < 256) (tasks : s'.task = (addTask s w t).task)
    (counts : ∀ p, occurrences s' p = occurrences s p + if w = p then 1 else 0)
    (own : Owned s') (single : s'.current.length ≤ 1) : Placed s' := by
  have prio : ∀ p, prioOf s' p = prioOf (addTask s w t) p := by intro p; simp only [prioOf,tasks]
  refine ⟨?_,own,?_,?_,single⟩
  · intro p
    rw [counts p,tasks]
    by_cases this : w = p
    · subst this
      simp [addTask,(placed.absent fresh).1]
    · have other : p ≠ w := fun h => this h.symm
      simp only [if_neg this,addTask,Function.update_of_ne other,placed.once p,Nat.add_zero]
  · intro p
    rw [prio]
    by_cases this : p = w
    · subst this
      simpa [prioOf,addTask] using byte
    · rw [addTaskPrio t this]
      exact placed.byte p
  · have zero : (0 : Pid) ≠ w := fun h => real h.symm
    simp only [tasks,addTask,Function.update_of_ne zero,placed.null]

theorem Placed.created {s : State} (placed : Placed s) {w : Pid} (real : w ≠ 0)
    (fresh : s.task w = none) (t : Task) (byte : t.prio < 256) :
    Placed { s with task := Function.update s.task w (some t), blocked := qFront s.blocked w } :=
  placed.added real fresh byte rfl (fun p => toBlockedFrontCount (s := addTask s w t) real p)
    (placed.addOwned fresh t) placed.single

theorem Placed.admitted {s : State} (placed : Placed s) {w : Pid} (real : w ≠ 0)
    (fresh : s.task w = none) (t : Task) (byte : t.prio < 256) :
    Placed (toQueueEnd (addTask s w t) w) := by
  have prio : prioOf (addTask s w t) w < 256 := by simpa [prioOf,addTask] using byte
  exact placed.added real fresh byte rfl (fun p => toQueueEndCount real prio p)
    (toQueueEndOwned (placed.addOwned fresh t) w) placed.single

theorem schedulerPlaced {s : State} (placed : Placed s) : Placed (scheduler s) := by
  unfold scheduler
  split
  · exact placed
  rename_i idle
  have empty : s.current = [] := by simpa using idle
  split
  · exact placed
  rename_i prio found
  have inside : prio < 256 := by
    have member := List.mem_of_find?_eq_some found
    have bound := List.mem_range.mp member
    unfold taskPrioQueueMax at bound
    omega
  have ready : s.queue prio ≠ [] := by simpa using List.find?_some found
  obtain ⟨w,rest,line⟩ := List.exists_cons_of_ne_nil ready
  have member : w ∈ s.queue prio := by simp [line]
  have real : w ≠ 0 := placed.real (occursSomewhere (Or.inr (Or.inr ⟨prio,inside,member⟩)))
  simp only [line,List.headD_cons]
  refine placed.rearranged rfl ?_ ?_ (by simp [empty,qFront,real])
  · intro p
    have sums := sumUpdate s.queue inside (qRemv (s.queue prio) w) p
    have taken := countRemv real member p
    have added := countFront s.current real p
    simp only [occurrences,← line]
    omega
  · intro k p inLine
    change prioOf s p = k
    by_cases same : k = prio
    · subst same
      simp only [Function.update_self,← line] at inLine
      exact placed.own k p (memRemv inLine)
    · simp only [Function.update_of_ne same] at inLine
      exact placed.own k p inLine

theorem enterPlaced {s : State} (placed : Placed s) (i : Input) (cur : Pid) : Placed (enter i s cur) :=
  (placed.withMem i.mem).setTask cur (fun _ => rfl)

theorem deliveredPlaced {s : State} (placed : Placed s) (i : Input) (rcvr sndr : Pid) :
    Placed (delivered i s rcvr sndr) := (placed.withMem _).setP0 rcvr sndr

theorem handleEventPlaced {s : State} (placed : Placed s) (i : Input) {cur : Pid} {rest : List Pid}
    (running : s.current = cur :: rest) : Placed (handleEvent i s cur).1 := by
  unfold handleEvent
  split
  · exact placed
  rename_i w found
  obtain ⟨asleep,-,-⟩ := eventScanSome found
  have member : cur ∈ s.current := by simp [running]
  have curReal := placed.currentReal member
  have wReal := placed.blockedReal asleep
  have emptied : qRemv s.current cur = [] := removedEmpty placed.single curReal member
  refine Placed.setP0 ?_ w _
  split
  all_goals
    refine placed.rearranged rfl ?_ ?_ ?_
  · intro p
    have woken := outOfBlockedCount wReal asleep p
    have ready := toQueueEndCount (s := outOfCurrent s cur) curReal (placed.byte cur) p
    have left := outOfCurrentCount curReal member p
    have added := countFront (qRemv s.current cur) wReal p
    simp only [occurrences,toQueueEnd,outOfCurrent,outOfBlocked] at ready left woken ⊢
    omega
  · exact toQueueEndOwned (s := outOfCurrent s cur) placed.own cur
  · simp [outOfBlocked,toQueueEnd,outOfCurrent,emptied,qFront,wReal]
  · intro p
    have woken := outOfBlockedCount wReal asleep p
    have ready := toQueueFrontCount (s := outOfCurrent s cur) curReal (placed.byte cur) p
    have left := outOfCurrentCount curReal member p
    have added := countFront (qRemv s.current cur) wReal p
    simp only [occurrences,toQueueFront,outOfCurrent,outOfBlocked] at ready left woken ⊢
    omega
  · exact toQueueFrontOwned (s := outOfCurrent s cur) placed.own cur
  · simp [outOfBlocked,toQueueFront,outOfCurrent,emptied,qFront,wReal]

theorem kcallSendPlaced {s : State} (placed : Placed s) (i : Input) {cur : Pid}
    (running : cur ∈ s.current) : Placed (kcallSend i s cur).1 := by
  unfold kcallSend
  split
  · exact placed.currentToBlockedFront running
  · rename_i w s' found
    obtain ⟨asleep,-,rfl⟩ := sendScanSome found
    exact (deliveredPlaced placed i w cur).blockedToReady asleep

theorem kcallSendrecPlaced {s : State} (placed : Placed s) (i : Input) {cur : Pid}
    (running : cur ∈ s.current) : Placed (kcallSendrec i s cur).1 := by
  unfold kcallSendrec
  split
  · exact placed.currentToBlockedFront running
  · rename_i w s' found
    obtain ⟨asleep,-,rfl⟩ := sendScanSome found
    have ready := ((deliveredPlaced placed i w cur).setKcallcode cur .receive).blockedToReady asleep
    exact ready.currentToBlockedFront running

theorem kcallReceivePlaced {s : State} (placed : Placed s) (i : Input) {cur : Pid}
    (running : cur ∈ s.current) : Placed (kcallReceive i s cur).1 := by
  unfold kcallReceive
  split
  · exact placed.currentToBlockedFront running
  · rename_i w s' found
    obtain ⟨asleep,-,rfl⟩ := receiveScanSome found
    split
    · exact (deliveredPlaced placed i cur w).setKcallcode w .receive
    · exact (deliveredPlaced placed i cur w).blockedToReady asleep

theorem doAllocatestackPlaced {s : State} (placed : Placed s) (p : Pid) (size : Nat) (block : Addr) :
    Placed (doAllocatestack s p size block).1 := by
  unfold doAllocatestack
  split
  · exact placed
  · refine placed.setTask p ?_
    intro t
    split <;> rfl

theorem doSetuptaskPlaced {s : State} (placed : Placed s) (p : Pid) (args : Nat) (noise : Ctxt) :
    Placed (doSetuptask s p args noise) := by
  refine placed.setTask p ?_
  intro t
  split <;> rfl

theorem handleKcallPlaced {s : State} (placed : Placed s) {i : Input} {cur : Pid}
    (running : cur ∈ s.current) (fresh : i.newtask ≠ 0 → s.task i.newtask = none)
    (named : i.ctxt.kcall = .starttask ∨ i.ctxt.kcall = .deletetask → i.ctxt.p0 = 0 ∨ i.ctxt.p0 ∈ s.blocked) :
    Placed (handleKcall i s cur).1 := by
  unfold handleKcall
  split
  case h_1 =>
    unfold kcallCreatetask
    dsimp only
    split
    · exact placed.setP0 cur _
    · rename_i real
      exact (placed.created real (fresh real) _ (Nat.mod_lt _ (by decide))).setP0 cur _
  case h_2 => exact (doAllocatestackPlaced placed _ _ _).setP0 cur _
  case h_3 => exact doSetuptaskPlaced placed _ _ _
  case h_4 call =>
    rcases named (Or.inl call) with null | asleep
    · simpa [null,toQueueEnd,outOfBlocked,qEnd,qRemv] using placed
    · exact placed.blockedToReady asleep
  case h_5 =>
    refine placed.setTask _ ?_
    intro t
    split <;> rfl
  case h_6 call =>
    rcases named (Or.inr call) with null | asleep
    · simpa [null,freeTask,outOfBlocked,qRemv] using placed
    · exact placed.deleted asleep
  case h_7 => exact placed.exited running
  case h_8 => exact placed.setTask cur (fun _ => rfl)
  case h_9 => exact placed.setTask cur (fun _ => rfl)
  case h_10 => exact placed.currentToBlockedEnd running
  case h_11 => exact placed.setP0 cur _
  case h_12 => exact placed
  case h_13 => exact placed.setP0 cur cur
  case h_14 => exact kcallSendPlaced placed i running
  case h_15 => exact kcallSendrecPlaced placed i running
  case h_16 => exact kcallReceivePlaced placed i running
  case h_17 => exact placed.currentToReady running
  case h_18 => exact placed

theorem kernelPlaced {s i s' out} (placed : Placed s) (legal : Legal s i)
    (taken : kernel s i = some (s',out)) : Placed s' := by
  obtain ⟨cur,rest,line,rfl,-⟩ := kernelRound taken
  have entered := enterPlaced (schedulerPlaced placed) i cur
  have running : (enter i (scheduler s) cur).current = cur :: rest := line
  unfold handle
  split
  · exact handleEventPlaced entered i running
  · rename_i call
    refine handleKcallPlaced entered (by simp [running]) ?_ ?_
    · intro real
      have absent : ((enter i (scheduler s) cur).task i.newtask).isSome = false := by
        rw [enter,setTaskSome,schedulerTask,(legal.fresh real).1]
        rfl
      simpa using absent
    · intro which
      change i.ctxt.p0 = 0 ∨ i.ctxt.p0 ∈ (scheduler s).blocked
      rw [schedulerBlocked]
      exact legal.named (by simpa using call) which

theorem initTaskQueuesPlaced (mem : Addr → Nat) : Placed (initTaskQueues mem) where
  once p := by simp [occurrences,initTaskQueues]
  own k p member := by simp [initTaskQueues] at member
  byte p := by simp [prioOf,initTaskQueues]
  null := rfl
  single := by simp [initTaskQueues]

theorem inittaskResult {s : State} {task block : Addr} {stack : Nat} (args prio : Nat) (noise : Ctxt)
    (real : task ≠ 0) (got : block ≠ 0) (size : stack ≠ 0) :
    inittask s task block args stack prio noise = toQueueEnd (addTask s task
      ⟨.frame .setup { noise with p0 := args },block,prio,false,0⟩) task := by
  simp [inittask,real,doAllocatestack,size,got,doSetuptask,setTask,newtask,addTask]

theorem bootedState {b : Boot} {s : State} (booted : Booted b s) : s = toQueueEnd (addTask
    (toQueueEnd (addTask (initTaskQueues b.mem) b.idle
      ⟨.frame .setup { b.noise b.idle with p0 := 0 },b.idleStack,taskPrioIdle,false,0⟩) b.idle) b.first
      ⟨.frame .setup { b.noise b.first with p0 := b.args },b.firstStack,b.prio,false,0⟩) b.first := by
  rw [booted.result,boot,inittaskResult 0 taskPrioIdle _ booted.idle.1 booted.idle.2.2 (by decide),
    inittaskResult b.args b.prio _ booted.first.1 booted.first.2.2 booted.stack]

theorem bootPlaced {b : Boot} {s : State} (booted : Booted b s) : Placed s := by
  rw [bootedState booted]
  have idle := (initTaskQueuesPlaced b.mem).admitted booted.idle.1 rfl
    ⟨.frame .setup { b.noise b.idle with p0 := 0 },b.idleStack,taskPrioIdle,false,0⟩ (by change taskPrioIdle < 256; decide)
  refine idle.admitted booted.first.1 ?_ _ booted.prio
  have other : b.first ≠ b.idle := fun h => booted.distinct h.symm
  simp [toQueueEnd,addTask,Function.update_of_ne other,initTaskQueues]

/-! The five queues of the source, the idle task and CURRENT. -/

/- As the in-tree callers do: the idle task makes no kernel call, and a task is
created with one of the five priorities. -/
structure Disciplined (idle : Pid) (s : State) (i : Input) : Prop where
  legal : Legal s i
  prio : i.eventcode = eventNone → i.ctxt.kcall = .createtask → i.ctxt.p0 % 256 < taskPrioQueueMax
  sleeps : i.eventcode = eventNone → (scheduler s).current.head? ≠ some idle

def queued (s : State) (p : Pid) : Nat :=
  s.current.count p + s.blocked.count p + ∑ k ∈ Finset.range taskPrioQueueMax, (s.queue k).count p

structure Partition (s : State) : Prop where
  exactlyOne : ∀ p, (s.task p).isSome → queued s p = 1
  noOther : ∀ p, s.task p = none → queued s p = 0
  ready : ∀ k < taskPrioQueueMax, ∀ p ∈ s.queue k, prioOf s p = k
  oneCurrent : s.current.length ≤ 1

structure Scheduled (idle : Pid) (s : State) : Prop where
  placed : Placed s
  range : ∀ p, prioOf s p < taskPrioQueueMax
  idlePrio : prioOf s idle = taskPrioIdle
  idleReady : idle ∈ s.current ∨ idle ∈ s.queue taskPrioIdle

theorem Scheduled.idleQueued {idle : Pid} {s : State} (sched : Scheduled idle s) (empty : s.current = []) :
    idle ∈ s.queue taskPrioIdle := by
  rcases sched.idleReady with here | here
  · simp [empty] at here
  · exact here

theorem Scheduled.unused {idle : Pid} {s : State} (sched : Scheduled idle s) {k : Nat}
    (beyond : taskPrioQueueMax ≤ k) : s.queue k = [] := by
  rw [List.eq_nil_iff_forall_not_mem]
  intro p member
  have own := sched.placed.own k p member
  have range := sched.range p
  omega

theorem Scheduled.queuedCount {idle : Pid} {s : State} (sched : Scheduled idle s) (p : Pid) :
    queued s p = occurrences s p := by
  have inside : Finset.range taskPrioQueueMax ⊆ Finset.range 256 :=
    Finset.range_subset_range.mpr (by decide)
  have sums := Finset.sum_subset (f := fun k => (s.queue k).count p) inside (by
    intro k _ beyond
    have bound : taskPrioQueueMax ≤ k := by simpa using beyond
    simp [sched.unused bound])
  simp only [queued,occurrences,sums]

theorem Scheduled.partition {idle : Pid} {s : State} (sched : Scheduled idle s) : Partition s where
  exactlyOne p live := by
    rw [sched.queuedCount,sched.placed.once p,if_pos live]
  noOther p dead := by
    rw [sched.queuedCount,sched.placed.once p,dead]
    rfl
  ready k _ p member := sched.placed.own k p member
  oneCurrent := sched.placed.single

theorem Scheduled.dispatches {idle : Pid} {s : State} (sched : Scheduled idle s) :
    ∃ cur, (scheduler s).current = [cur] := by
  have single := (schedulerPlaced sched.placed).single
  suffices some : (scheduler s).current ≠ [] by
    obtain ⟨cur,rest,line⟩ := List.exists_cons_of_ne_nil some
    rw [line,List.length_cons] at single
    have none : rest = [] := List.length_eq_zero_iff.mp (by omega)
    exact ⟨cur,by rw [line,none]⟩
  unfold scheduler
  split
  · assumption
  rename_i waiting
  have empty : s.current = [] := by simpa using waiting
  have inQueue := sched.idleQueued empty
  split
  · rename_i missed
    have rejected := List.find?_eq_none.mp missed taskPrioIdle (by decide)
    have none : s.queue taskPrioIdle = [] := by simpa using rejected
    simp [none] at inQueue
  · rename_i prio found
    have ready : s.queue prio ≠ [] := by simpa using List.find?_some found
    obtain ⟨w,rest,line⟩ := List.exists_cons_of_ne_nil ready
    have real : w ≠ 0 := by
      have inside : prio < 256 := sched.placed.index (p := w) (by simp [line])
      exact sched.placed.real (occursSomewhere (Or.inr (Or.inr ⟨prio,inside,by simp [line]⟩)))
    simp [line,qFront,real]

theorem schedulerScheduled {idle : Pid} {s : State} (sched : Scheduled idle s) :
    Scheduled idle (scheduler s) := by
  have prio : ∀ p, prioOf (scheduler s) p = prioOf s p := by
    intro p; simp only [prioOf,schedulerTask]
  refine ⟨schedulerPlaced sched.placed,fun p => prio p ▸ sched.range p,prio idle ▸ sched.idlePrio,?_⟩
  unfold scheduler
  split
  · exact sched.idleReady
  rename_i waiting
  have empty : s.current = [] := by simpa using waiting
  split
  · exact sched.idleReady
  rename_i prio found
  have inQueue := sched.idleQueued empty
  have real : idle ≠ 0 := by
    have inside : taskPrioIdle < 256 := by decide
    exact sched.placed.real (occursSomewhere (Or.inr (Or.inr ⟨_,inside,inQueue⟩)))
  by_cases chosen : (s.queue prio).headD 0 = idle
  · left
    dsimp only
    rw [chosen,qFront,if_neg real]
    exact List.mem_cons_self
  · right
    by_cases same : taskPrioIdle = prio
    · subst same
      dsimp only
      rw [Function.update_self]
      unfold qRemv
      split
      · exact inQueue
      · exact (List.mem_erase_of_ne (fun h => chosen h.symm)).mpr inQueue
    · simpa only [Function.update_of_ne same] using inQueue

theorem toQueueEndGrows (s : State) (w : Pid) {k : Nat} {p : Pid} (member : p ∈ s.queue k) :
    p ∈ (toQueueEnd s w).queue k := by
  by_cases same : k = prioOf s w
  · subst same
    simp only [toQueueEnd,Function.update_self,qEnd]
    split
    · exact member
    · exact List.mem_append_left _ member
  · simpa only [toQueueEnd,Function.update_of_ne same] using member

theorem toQueueFrontGrows (s : State) (w : Pid) {k : Nat} {p : Pid} (member : p ∈ s.queue k) :
    p ∈ (toQueueFront s w).queue k := by
  by_cases same : k = prioOf s w
  · subst same
    simp only [toQueueFront,Function.update_self,qFront]
    split
    · exact member
    · exact List.mem_cons_of_mem _ member
  · simpa only [toQueueFront,Function.update_of_ne same] using member

theorem freeTaskQueue (s : State) (w : Pid) : (freeTask s w).queue = s.queue := by
  unfold freeTask
  split <;> rfl

theorem handleKcallGrows (i : Input) (s : State) (cur : Pid) {k : Nat} {p : Pid} (member : p ∈ s.queue k) :
    p ∈ (handleKcall i s cur).1.queue k := by
  unfold handleKcall
  split
  case h_1 =>
    unfold kcallCreatetask
    dsimp only
    split <;> exact member
  case h_2 =>
    unfold kcallAllocatestack doAllocatestack
    split <;> exact member
  case h_4 => exact toQueueEndGrows (outOfBlocked s i.ctxt.p0) _ member
  case h_6 => rw [freeTaskQueue]; exact member
  case h_7 => rw [freeTaskQueue]; exact member
  case h_14 =>
    unfold kcallSend
    split
    · exact member
    · rename_i w s' found
      obtain ⟨-,-,rfl⟩ := sendScanSome found
      exact toQueueEndGrows (outOfBlocked (delivered i s w cur) w) w member
  case h_15 =>
    unfold kcallSendrec
    split
    · exact member
    · rename_i w s' found
      obtain ⟨-,-,rfl⟩ := sendScanSome found
      exact toQueueEndGrows (outOfBlocked (setKcallcode (delivered i s w cur) cur .receive) w) w member
  case h_16 =>
    unfold kcallReceive
    split
    · exact member
    · rename_i w s' found
      obtain ⟨-,-,rfl⟩ := receiveScanSome found
      split
      · exact member
      · exact toQueueEndGrows (outOfBlocked (delivered i s cur w) w) w member
  case h_17 => exact toQueueEndGrows (outOfCurrent s cur) cur member
  all_goals exact member

theorem setP0Prio (s : State) (p q : Pid) (v : Nat) : prioOf (setP0 s p v) q = prioOf s q :=
  setTaskPrio s p q (onCtxtPrio _)
theorem setKcallcodePrio (s : State) (p q : Pid) (code : Kcall) :
    prioOf (setKcallcode s p code) q = prioOf s q := setTaskPrio s p q (onCtxtPrio _)
theorem deliveredPrio (i : Input) (s : State) (rcvr sndr q : Pid) :
    prioOf (delivered i s rcvr sndr) q = prioOf s q := setP0Prio _ rcvr q sndr

theorem freeTaskPrio (s : State) (w p : Pid) : prioOf (freeTask s w) p ≤ prioOf s p := by
  unfold freeTask
  split
  · exact Nat.le_refl _
  · by_cases same : p = w
    · subst same
      simp [prioOf]
    · simp [prioOf,Function.update_of_ne same]

theorem handleKcallRange {i : Input} {s : State} (cur : Pid) {bound : Nat}
    (range : ∀ p, prioOf s p < bound) (made : i.ctxt.kcall = .createtask → i.ctxt.p0 % 256 < bound) (p : Pid) :
    prioOf (handleKcall i s cur).1 p < bound := by
  have here := range p
  unfold handleKcall
  split
  case h_1 call =>
    unfold kcallCreatetask
    dsimp only
    rw [setP0Prio]
    split
    · exact here
    · by_cases same : p = i.newtask
      · subst same
        simpa [prioOf,newtask] using made call
      · simpa [prioOf,Function.update_of_ne same] using here
  case h_2 =>
    unfold kcallAllocatestack doAllocatestack
    rw [setP0Prio]
    split
    · exact here
    · rwa [setTaskPrio]
      intro t
      split <;> rfl
  case h_3 =>
    rw [doSetuptask,setTaskPrio]
    · exact here
    · intro t
      split <;> rfl
  case h_5 =>
    rw [kcallStoptask,setTaskPrio]
    · exact here
    · intro t
      split <;> rfl
  case h_6 => exact Nat.lt_of_le_of_lt (freeTaskPrio _ _ p) here
  case h_7 => exact Nat.lt_of_le_of_lt (freeTaskPrio _ _ p) here
  case h_8 => exact (setTaskPrio s cur p (f := fun t => { t with irqdis := false }) (fun _ => rfl)).symm ▸ here
  case h_9 => exact (setTaskPrio s cur p (f := fun t => { t with irqdis := true }) (fun _ => rfl)).symm ▸ here
  case h_11 => rwa [setP0Prio]
  case h_13 => rwa [setP0Prio]
  case h_14 =>
    unfold kcallSend
    split
    · exact here
    · rename_i w s' found
      obtain ⟨-,-,rfl⟩ := sendScanSome found
      exact (deliveredPrio i s w cur p).symm ▸ here
  case h_15 =>
    unfold kcallSendrec
    split
    · exact here
    · rename_i w s' found
      obtain ⟨-,-,rfl⟩ := sendScanSome found
      change prioOf (setKcallcode (delivered i s w cur) cur .receive) p < bound
      rwa [setKcallcodePrio,deliveredPrio]
  case h_16 =>
    unfold kcallReceive
    split
    · exact here
    · rename_i w s' found
      obtain ⟨-,-,rfl⟩ := receiveScanSome found
      split
      · rwa [setKcallcodePrio,deliveredPrio]
      · exact (deliveredPrio i s cur w p).symm ▸ here
  all_goals exact here

theorem handleEventPrio (i : Input) (s : State) (cur p : Pid) :
    prioOf (handleEvent i s cur).1 p = prioOf s p := by
  unfold handleEvent
  split
  · rfl
  · rw [setP0Prio]
    split <;> rfl

theorem handleEventReady {i : Input} {s : State} {cur idle : Pid} {rest : List Pid}
    (running : s.current = cur :: rest) (single : s.current.length ≤ 1) (real : cur ≠ 0)
    (prio : prioOf s idle = taskPrioIdle) (ready : idle ∈ s.current ∨ idle ∈ s.queue taskPrioIdle) :
    idle ∈ (handleEvent i s cur).1.current ∨ idle ∈ (handleEvent i s cur).1.queue taskPrioIdle := by
  have alone : rest = [] := by
    rw [running,List.length_cons] at single
    exact List.length_eq_zero_iff.mp (by omega)
  unfold handleEvent
  split
  · exact ready
  · right
    rcases ready with here | here
    · have same : idle = cur := by simpa [running,alone] using here
      subst same
      split
      · simp [setP0,setTask,outOfBlocked,toQueueEnd,prioOf,outOfCurrent,qEnd,real,← prio]
      · simp [setP0,setTask,outOfBlocked,toQueueFront,prioOf,outOfCurrent,qFront,real,← prio]
    · split
      · exact toQueueEndGrows (outOfCurrent s cur) cur here
      · exact toQueueFrontGrows (outOfCurrent s cur) cur here

theorem kernelScheduled {idle : Pid} {s i s' out} (sched : Scheduled idle s) (ok : Disciplined idle s i)
    (taken : kernel s i = some (s',out)) : Scheduled idle s' := by
  have placed := kernelPlaced sched.placed ok.legal taken
  have ready := schedulerScheduled sched
  obtain ⟨cur,rest,line,rfl,-⟩ := kernelRound taken
  have entered : Scheduled idle (enter i (scheduler s) cur) := by
    have prio := fun p => setTaskPrio { scheduler s with mem := i.mem } cur p (f := fun t =>
      { t with sp := .frame (if i.eventcode = eventNone then .trap else .interrupt) i.ctxt }) (fun _ => rfl)
    exact ⟨enterPlaced ready.placed i cur,fun p => (prio p).symm ▸ ready.range p,
      (prio idle).symm ▸ ready.idlePrio,ready.idleReady⟩
  have running : (enter i (scheduler s) cur).current = cur :: rest := line
  unfold handle at placed ⊢
  split at placed
  · rename_i event
    rw [if_pos event]
    have real := entered.placed.currentReal (p := cur) (by simp [running])
    refine ⟨placed,?_,?_,?_⟩
    · intro p; rw [handleEventPrio]; exact entered.range p
    · rw [handleEventPrio]; exact entered.idlePrio
    · exact handleEventReady running entered.placed.single real entered.idlePrio entered.idleReady
  · rename_i call
    rw [if_neg call]
    have none : i.eventcode = eventNone := by simpa using call
    have other : cur ≠ idle := by
      rintro rfl
      exact ok.sleeps none (by simp [line])
    have inQueue : idle ∈ (enter i (scheduler s) cur).queue taskPrioIdle := by
      rcases entered.idleReady with here | here
      · have single := entered.placed.single
        rw [running,List.length_cons] at single
        have alone : rest = [] := List.length_eq_zero_iff.mp (by omega)
        have same : idle = cur := by simpa [running,alone] using here
        exact absurd same.symm other
      · exact here
    have kept := handleKcallGrows i _ cur inQueue
    exact ⟨placed,handleKcallRange cur entered.range (ok.prio none),placed.own _ _ kept,Or.inr kept⟩

theorem bootScheduled {b : Boot} {s : State} (booted : Booted b s) (prio : b.prio < taskPrioQueueMax) :
    Scheduled b.idle s := by
  have placed := bootPlaced booted
  have other : b.idle ≠ b.first := booted.distinct
  have state := bootedState booted
  have inQueue : b.idle ∈ s.queue taskPrioIdle := by
    rw [state]
    apply toQueueEndGrows
    simp [toQueueEnd,addTask,prioOf,initTaskQueues,qEnd,booted.idle.1]
  refine ⟨placed,?_,placed.own _ _ inQueue,Or.inr inQueue⟩
  intro p
  rw [state]
  by_cases first : p = b.first
  · subst first
    simpa [prioOf,toQueueEnd,addTask] using prio
  · by_cases idle : p = b.idle
    · subst idle
      simp [prioOf,toQueueEnd,addTask,Function.update_of_ne other,taskPrioIdle,taskPrioQueueMax]
    · simp [prioOf,toQueueEnd,addTask,Function.update_of_ne first,Function.update_of_ne idle,
        initTaskQueues,taskPrioQueueMax]

theorem taskQueuePartition {b : Boot} {s : State} {history : List Event}
    (prio : b.prio < taskPrioQueueMax)
    (run : Run.Reaches kernel (Disciplined b.idle) (Booted b) s history) :
    Partition s ∧ Partition (scheduler s) ∧
      ∃ cur, (scheduler s).current = [cur] ∧ (s.task cur).isSome := by
  have sched : Scheduled b.idle s := run.stateInvariant (P := Scheduled b.idle)
    (fun _ booted => bootScheduled booted prio)
    (fun _ _ _ _ sched ok taken => kernelScheduled sched ok taken)
  have after := schedulerScheduled sched
  obtain ⟨cur,line⟩ := sched.dispatches
  have live := (after.placed.live (occursSomewhere (Or.inl (by simp [line] : cur ∈ (scheduler s).current)))).1
  exact ⟨sched.partition,after.partition,cur,line,schedulerTask s ▸ live⟩

def demoCtxt : Ctxt := ⟨.yield,0,0,0,0⟩
def demoBoot : Boot := ⟨0x200,0x300,0x400,0x500,0,160,2,fun _ => demoCtxt,fun _ => 0⟩
def demoCall (c : Ctxt) (address : Addr) : Input := ⟨eventNone,c,fun _ => 0,fun _ => demoCtxt,address,0⟩

theorem demoBooted : Booted demoBoot (boot demoBoot) :=
  ⟨rfl,by decide,by decide,by decide,by decide,by decide⟩

-- The first task creates a second one, which then stands in `blocked_q`.
theorem taskQueuePartitionAfterCreate : ∃ s history,
    Run.Reaches kernel (Disciplined demoBoot.idle) (Booted demoBoot) s history ∧ s.blocked = [0x600] ∧
    Partition s ∧ Partition (scheduler s) ∧ ∃ cur, (scheduler s).current = [cur] ∧ (s.task cur).isSome := by
  have created : Disciplined demoBoot.idle (boot demoBoot) (demoCall ⟨.createtask,2,0,0,0⟩ 0x600) :=
    ⟨⟨fun _ => ⟨rfl,by decide⟩,by decide⟩,by decide,by decide⟩
  have start : Run.Reaches kernel (Disciplined demoBoot.idle) (Booted demoBoot) (boot demoBoot) [] :=
    .start demoBooted
  have run := start.next created rfl
  exact ⟨_,_,run,rfl,taskQueuePartition (by decide) run⟩

end Avros.Kernel
