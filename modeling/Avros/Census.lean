import Avros.KernelQueues
import Avros.VfsDrivers
import Avros.VfsDescriptors
import Avros.ProcessTable

/-! Who is alive, as PM, VFS and the kernel see it. The three keep their own lists of the
same processes; PM's calls to the other two are carried out here by their own models,
between whatever else VFS and the kernel are asked to do. -/
namespace Avros.Census
open Run
open Kernel (Pid)

def taskPrioDflt : Nat := 2
def pageInvalid : Nat := 0xFF

-- `others` are the tasks somebody else than PM has created.
structure World (σ : Type) where
  machine : Pm.Machine
  kernel : Kernel.State
  others : List Pid
  files : Vfs.System σ

inductive Act where
  | request (r : Pm.Request) (i : Kernel.Input)
  | file (r : Vfs.Request)
  | round (i : Kernel.Input)

-- A kernel call made by PM, which is CURRENT then.
def trap (pm : Pid) (i : Kernel.Input) (c : Kernel.Ctxt) (k : Kernel.State) : Kernel.State :=
  (Kernel.handleKcall { i with ctxt := c } k pm).1

def kernelCall (pm : Pid) (i : Kernel.Input) (k : Kernel.State) : Pm.Call → Kernel.State
  | .createtask p => trap pm { i with newtask := p } ⟨.createtask,taskPrioDflt,pageInvalid,0,0⟩ k
  | .allocatestack p size stack => trap pm { i with block := stack } ⟨.allocatestack,p,size,0,0⟩ k
  | .setuptask p ptr args => trap pm i ⟨.setuptask,p,ptr,args,0⟩ k
  | .starttask p => trap pm i ⟨.starttask,p,0,0,0⟩ k
  | .stoptask p => trap pm i ⟨.stoptask,p,0,0,0⟩ k
  | .deletetask p => trap pm i ⟨.deletetask,p,0,0,0⟩ k
  | _ => k

def adddel (cmd : Vfs.Cmd) (pid parent : Pid) : Vfs.Msg := ⟨cmd,0,pid,parent,0,none,.pipedev⟩

section
variable {σ : Type} (D : Vfs.Drivers σ) (pm : Pid)

-- vfs_createtask and vfs_deletetask, with VFS's own kmalloc succeeding.
def fileCall (f : Vfs.System σ) : Pm.Call → Option (Vfs.System σ)
  | .vfsCreatetask task parent ok => do
    let x ← Vfs.process D ⟨pm,adddel .addtask task parent,0,fun _ => true⟩
      ⟨f.vfs,f.drv,adddel .addtask task parent,[]⟩
    if decide (x.msg.w0 ≠ 0) = ok then some ⟨x.vfs,x.drv⟩ else none
  | .vfsDeletetask task => do
    let x ← Vfs.process D ⟨pm,adddel .deltask task 0,0,fun _ => true⟩ ⟨f.vfs,f.drv,adddel .deltask task 0,[]⟩
    some ⟨x.vfs,x.drv⟩
  | _ => some f

def running (k : Kernel.State) : Pid := (Kernel.scheduler k).current.headD 0

def joined (w : World σ) (i : Kernel.Input) : List Pid :=
  if i.eventcode ≠ Kernel.eventNone then w.others
  else if i.ctxt.kcall = .createtask then [i.newtask].filter (· ≠ 0) ++ w.others
  else if i.ctxt.kcall = .exittask then w.others.erase (running w.kernel)
  else w.others

def performed (w : World σ) (i : Kernel.Input) (y : Pm.Tx) : Option (World σ) := do
  let files ← y.calls.foldlM (fileCall D pm) w.files
  some ⟨Pm.after w.machine y,y.calls.foldl (kernelCall pm i) w.kernel,w.others,files⟩

def step : Step (World σ) Act Unit := fun w act =>
  match act with
  | .request r i => do
    let y ← Pm.serve w.machine.pm r
    let w ← performed D pm w i y
    some (w,[])
  | .file r => do
    let (files,_) ← Vfs.vfs D w.files r
    some ({ w with files := files },[])
  | .round i => do
    let (k,_) ← Kernel.kernel w.kernel i
    some ({ w with kernel := k, others := joined w i },[])
end

section
variable {σ : Type}

/- createtask answers with an address that holds no task; only PM adds and deletes
processes, and none of them ends by EXITTASK. -/
def Allowed (w : World σ) : Act → Prop
  | .request r _ => Pm.Lawful w.machine r ∧ (r.msg.cmd = .spawn → w.kernel.task r.task = none)
  | .file r => r.msg.cmd ≠ .addtask ∧ r.msg.cmd ≠ .deltask
  | .round i => (i.newtask ≠ 0 → w.kernel.task i.newtask = none) ∧ i.ctxt.kcall ≠ .deletetask ∧
      (i.ctxt.kcall = .exittask → running w.kernel ∈ w.others)

def Opens (D : Vfs.Drivers σ) (pm : Pid) (w : World σ) : Prop :=
  ∃ r args y i k f others, Pm.Boots r args ∧ Pm.pmStart r args = some y ∧ k.task r.task = none ∧
    (∀ p, (k.task p).isSome ↔ p ∈ others) ∧ others.Nodup ∧ 0 ∉ others ∧ f.vfs.taskQ = [] ∧
    performed D pm ⟨⟨Pm.blank,[],[args]⟩,k,others,f⟩ i y = some w

structure Agree (w : World σ) : Prop where
  table : Pm.Table w.machine
  tasks : ∀ p, (w.kernel.task p).isSome ↔ p ∈ w.machine.tasks ++ w.others
  apart : (w.machine.tasks ++ w.others).Nodup
  real : 0 ∉ w.machine.tasks ++ w.others
  files : (w.files.vfs.taskQ.map (·.pid)).Perm w.machine.tasks
  width : ∀ t ∈ w.files.vfs.taskQ, t.fd.length = Vfs.maxFd
end

/-! The kernel's side. -/

section
variable {i : Kernel.Input} {k : Kernel.State} {cur p : Pid}

theorem taskUpdate {task : Pid → Option Kernel.Task} {q : Pid} (t : Option Kernel.Task) :
    (Function.update task q t p).isSome = if p = q then t.isSome else (task p).isSome := by
  by_cases same : p = q
  · subst same
    simp
  · simp [same]

theorem deliveredAlive (rcvr sndr : Pid) : ((Kernel.delivered i k rcvr sndr).task p).isSome = (k.task p).isSome := by
  simp [Kernel.delivered,Kernel.setP0]

theorem kcallSendAlive : ((Kernel.kcallSend i k cur).1.task p).isSome = (k.task p).isSome := by
  unfold Kernel.kcallSend
  split
  · rfl
  · rename_i found
    obtain ⟨-,-,rfl⟩ := Kernel.sendScanSome found
    exact deliveredAlive _ _

theorem kcallSendrecAlive : ((Kernel.kcallSendrec i k cur).1.task p).isSome = (k.task p).isSome := by
  unfold Kernel.kcallSendrec
  split
  · rfl
  · rename_i found
    obtain ⟨-,-,rfl⟩ := Kernel.sendScanSome found
    exact (Kernel.setTaskSome _ _ _ _).trans (deliveredAlive _ _)

theorem kcallReceiveAlive : ((Kernel.kcallReceive i k cur).1.task p).isSome = (k.task p).isSome := by
  unfold Kernel.kcallReceive
  split
  · rfl
  · rename_i found
    obtain ⟨-,-,rfl⟩ := Kernel.receiveScanSome found
    split
    · exact (Kernel.setTaskSome _ _ _ _).trans (deliveredAlive _ _)
    · exact deliveredAlive _ _

theorem freeTaskAlive (w : Pid) :
    ((Kernel.freeTask k w).task p).isSome = if w ≠ 0 ∧ p = w then false else (k.task p).isSome := by
  unfold Kernel.freeTask
  by_cases null : w = 0
  · simp [null]
  · simp [null,taskUpdate]

theorem createtaskAlive : ((Kernel.kcallCreatetask i k cur).task p).isSome =
    if i.newtask ≠ 0 ∧ p = i.newtask then true else (k.task p).isSome := by
  unfold Kernel.kcallCreatetask
  by_cases null : i.newtask = 0
  · simp [null,Kernel.setP0]
  · simp [null,Kernel.setP0,taskUpdate]

theorem handleKcallAlive : ((Kernel.handleKcall i k cur).1.task p).isSome =
    if i.ctxt.kcall = .createtask ∧ i.newtask ≠ 0 ∧ p = i.newtask then true
    else if i.ctxt.kcall = .deletetask ∧ i.ctxt.p0 ≠ 0 ∧ p = i.ctxt.p0 then false
    else if i.ctxt.kcall = .exittask ∧ cur ≠ 0 ∧ p = cur then false
    else (k.task p).isSome := by
  unfold Kernel.handleKcall
  cases call : i.ctxt.kcall with
  | createtask => simpa [call] using createtaskAlive
  | deletetask => simpa [call,Kernel.outOfBlocked] using freeTaskAlive (k := Kernel.outOfBlocked k i.ctxt.p0) i.ctxt.p0
  | exittask => simpa [call,Kernel.outOfCurrent] using freeTaskAlive (k := Kernel.outOfCurrent k cur) cur
  | send => simpa [call] using kcallSendAlive
  | sendrec => simpa [call] using kcallSendrecAlive
  | receive => simpa [call] using kcallReceiveAlive
  | allocatestack =>
    simp only [Kernel.kcallAllocatestack,Kernel.doAllocatestack,Kernel.setP0]
    split <;> simp
  | yield | waitevent | starttask => simp [Kernel.toQueueEnd,Kernel.outOfCurrent,Kernel.outOfBlocked,Kernel.toBlockedEnd]
  | free | other => simp
  | setuptask | stoptask | irqen | irqdis | malloc | getpid =>
    simp [Kernel.doSetuptask,Kernel.kcallStoptask,Kernel.setP0]

theorem handleEventAlive : ((Kernel.handleEvent i k cur).1.task p).isSome = (k.task p).isSome := by
  unfold Kernel.handleEvent
  split
  · rfl
  · simp only [Kernel.setP0,Kernel.setTaskSome,Kernel.outOfBlocked]
    split <;> rfl

theorem roundAlive {k' : Kernel.State} {out : List Kernel.Event} (taken : Kernel.kernel k i = some (k',out)) :
    (k'.task p).isSome =
    if i.eventcode ≠ Kernel.eventNone then (k.task p).isSome
    else if i.ctxt.kcall = .createtask ∧ i.newtask ≠ 0 ∧ p = i.newtask then true
    else if i.ctxt.kcall = .deletetask ∧ i.ctxt.p0 ≠ 0 ∧ p = i.ctxt.p0 then false
    else if i.ctxt.kcall = .exittask ∧ running k ≠ 0 ∧ p = running k then false
    else (k.task p).isSome := by
  obtain ⟨cur,rest,line,rfl,-⟩ := Kernel.kernelRound taken
  have current : running k = cur := by simp [running,line]
  have entered : ((Kernel.enter i (Kernel.scheduler k) cur).task p).isSome = (k.task p).isSome := by
    simp [Kernel.enter,Kernel.schedulerTask]
  rw [current,← entered]
  unfold Kernel.handle
  split
  · exact handleEventAlive
  · exact handleKcallAlive
end

/-! The side of VFS: a request of a client moves descriptors, not records. -/

section
open Vfs
variable {σ : Type} {D : Drivers σ} {s s' : Tables} {x y : Tx σ} {client : Pid}

def pids (s : Tables) : List Pid := s.taskQ.map (·.pid)

def Wide (s : Tables) : Prop := ∀ t ∈ s.taskQ, t.fd.length = maxFd

structure Enrolls (s s' : Tables) : Prop where
  pids : pids s' = pids s
  wide : Wide s → Wide s'

theorem Enrolls.same (same : s'.taskQ = s.taskQ) : Enrolls s s' := by
  refine ⟨by rw [Census.pids,same]; rfl,fun wide t member => wide t ?_⟩
  rwa [same] at member

theorem Enrolls.trans {s'' : Tables} (first : Enrolls s s') (second : Enrolls s' s'') : Enrolls s s'' :=
  ⟨second.pids.trans first.pids,fun wide => second.wide (first.wide wide)⟩

theorem onFirstPids (pid : Pid) {f : VfsTask → VfsTask} (keeps : ∀ t, (f t).pid = t.pid) (tasks : List VfsTask) :
    (onFirst pid f tasks).map (·.pid) = tasks.map (·.pid) := by
  induction tasks with
  | nil => rfl
  | cons t rest ih =>
    unfold onFirst
    split
    · simp [keeps]
    · simp [ih]

theorem setDescriptorWidth (i : Nat) (v : Int) (t : VfsTask) : (setDescriptor i v t).fd.length = t.fd.length := by
  unfold setDescriptor
  repeat' split
  all_goals simp

theorem Enrolls.put (s : Tables) (pid : Pid) (i : Nat) (v : Int) : Enrolls s (putFd s pid i v) := by
  refine ⟨onFirstPids pid (setDescriptorPid i v) s.taskQ,fun wide t member => ?_⟩
  rcases onFirstMem member with old | ⟨u,old,rfl⟩
  · exact wide t old
  · rw [setDescriptorWidth]
    exact wide u old

theorem editsEnroll (edits : Edits client s s') : Enrolls s s' := by
  induction edits with
  | same same => exact .same same
  | put s i v => exact .put s _ i v
  | trans first second ihFirst ihSecond => exact ihFirst.trans ihSecond

theorem erasePids (tasks : List VfsTask) (pid : Pid) :
    (tasks.eraseP (·.pid = pid)).map (·.pid) = (tasks.map (·.pid)).erase pid := by
  induction tasks with
  | nil => rfl
  | cons t rest ih =>
    by_cases here : t.pid = pid
    · simp [here]
    · simp [here,ih]

-- What do_close() leaves of the refcnt of an entry.
def closedOnce (refcnt : Int) : Int := if refcnt = 0 then 0 else toChar (refcnt - 1)

theorem closedTimes {refcnt : Int} {n : Nat} (enough : n ≤ refcnt) (small : refcnt ≤ 127) :
    closedOnce^[n] refcnt = refcnt - n := by
  induction n generalizing refcnt with
  | zero => simp
  | succ n ih =>
    have less : closedOnce refcnt = refcnt - 1 := by
      unfold closedOnce toChar
      split <;> omega
    rw [Function.iterate_succ_apply,less,ih (by omega) (by omega)]
    omega

theorem doCloseEntry {t : VfsTask} {i fp : Nat} {f : Filp} (found : vfsFindbypid x.vfs client = some t)
    (width : t.fd.length = maxFd) (named : x.msg.w0 = i) (inside : i < maxFd) (entry : x.vfs.filp[fp]? = some f)
    (ok : doClose D client x = some y) :
    y.vfs.filp[fp]? = some { f with refcnt := if t.fd[i]? = some (fp : Int) then closedOnce f.refcnt else f.refcnt } := by
  rcases doCloseCases ok with ⟨negative,-⟩ | ⟨u,k,given,there,held,outcome⟩
  · omega
  cases Option.some.inj (found.symm.trans there)
  rw [named,Int.toNat_natCast,descriptorInside width inside] at held
  rw [held]
  have untouched : some k ≠ some (fp : Int) → some f =
      some { f with refcnt := if some k = some (fp : Int) then closedOnce f.refcnt else f.refcnt } := by
    intro other
    rw [if_neg other]
  have counted : ∀ {g : Filp} {z : Tables}, 0 ≤ k → x.vfs.filp[k.toNat]? = some g → z.filp = x.vfs.filp → g.refcnt ≠ 0 →
      (putFilp z k.toNat { g with refcnt := toChar (g.refcnt - 1) }).filp[fp]? =
        some { f with refcnt := if some k = some (fp : Int) then closedOnce f.refcnt else f.refcnt } := by
    intro g z natural at_ same some_
    rw [putFilp,same]
    by_cases here : k = fp
    · subst here
      rw [Int.toNat_natCast] at at_ ⊢
      cases Option.some.inj (entry.symm.trans at_)
      rw [if_pos rfl,closedOnce,if_neg some_]
      exact List.getElem?_set_self (List.getElem?_eq_some_iff.mp entry).1
    · rw [if_neg (fun same => here (Option.some.inj same)),← entry]
      exact List.getElem?_set_ne (fun same => here (by omega))
  rcases outcome with ⟨negative,rfl⟩ | ⟨g,natural,at_,⟨zero,rfl⟩ | ⟨some_,-,rfl⟩ | ⟨some_,-,pid,-,asked⟩⟩
  · exact entry.trans (untouched (fun same => by cases same; omega))
  · refine entry.trans ?_
    by_cases here : k = fp
    · subst here
      rw [Int.toNat_natCast] at at_
      cases Option.some.inj (entry.symm.trans at_)
      rw [if_pos rfl,closedOnce,if_pos zero,← zero]
    · exact untouched (fun same => here (Option.some.inj same))
  · exact counted natural at_ rfl some_
  · rw [sendrecRepeatVfs asked]
    exact counted natural at_ rfl some_

theorem closeAllEntry {is : List Nat} {t : VfsTask} {fp : Nat} {f : Filp} (unique : is.Nodup) (inside : ∀ i ∈ is, i < maxFd)
    (found : vfsFindbypid x.vfs client = some t) (width : t.fd.length = maxFd) (entry : x.vfs.filp[fp]? = some f)
    (ok : closeAll D client is x = some y) :
    y.vfs.filp[fp]? = some { f with refcnt := closedOnce^[is.countP (fun i => t.fd[i]? = some (fp : Int))] f.refcnt } := by
  induction is generalizing x t f with
  | nil =>
    cases Option.some.inj ok
    exact entry
  | cons i rest ih =>
    simp only [closeAll,bind,Option.bind_eq_some_iff] at ok
    obtain ⟨z,closed,ok⟩ := ok
    obtain ⟨fresh,unique⟩ := List.nodup_cons.mp unique
    have here := inside i List.mem_cons_self
    have after := doCloseEntry (x := reply x i) found width rfl here entry closed
    obtain ⟨u,still,fds⟩ := doCloseOwn (x := reply x i) found rfl here closed
    have counts := ih unique (fun j member => inside j (List.mem_cons_of_mem _ member)) still
      (by rw [fds,List.length_set]; exact width) after ok
    have others : rest.countP (fun j => u.fd[j]? = some (fp : Int)) = rest.countP (fun j => t.fd[j]? = some (fp : Int)) := by
      refine List.countP_congr ?_
      intro j member
      have other : i ≠ j := by
        rintro rfl
        exact fresh member
      rw [fds,List.getElem?_set_ne other]
    rw [counts,others,List.countP_cons]
    by_cases same : t.fd[i]? = some (fp : Int)
    · simp only [same,if_true,decide_true,Function.iterate_succ_apply]
    · simp only [same,if_false,decide_false,Bool.false_eq_true,Nat.add_zero]

theorem onFirstErase (pid : Pid) {f : VfsTask → VfsTask} (keeps : ∀ t, (f t).pid = t.pid) (tasks : List VfsTask) :
    (onFirst pid f tasks).eraseP (·.pid = pid) = tasks.eraseP (·.pid = pid) := by
  induction tasks with
  | nil => rfl
  | cons t rest ih =>
    unfold onFirst
    split
    · rename_i here
      rw [List.eraseP_cons_of_pos (by simp [keeps,here]),List.eraseP_cons_of_pos (by simp [here])]
    · rename_i other
      rw [List.eraseP_cons_of_neg (by simp [other]),List.eraseP_cons_of_neg (by simp [other]),ih]

theorem closeAllRecords {is : List Nat} (ok : closeAll D client is x = some y) :
    y.vfs.taskQ.eraseP (·.pid = client) = x.vfs.taskQ.eraseP (·.pid = client) := by
  induction is generalizing x with
  | nil =>
    cases Option.some.inj ok
    rfl
  | cons i rest ih =>
    simp only [closeAll,bind,Option.bind_eq_some_iff] at ok
    obtain ⟨z,closed,ok⟩ := ok
    rw [ih ok,doCloseTasks closed (Int.natCast_nonneg i)]
    exact onFirstErase client (setDescriptorPid _ _) x.vfs.taskQ

theorem countIndices {α : Type} [DecidableEq α] (l : List α) (a : α) :
    (List.range l.length).countP (fun i => l[i]? = some a) = l.count a := by
  induction l with
  | nil => rfl
  | cons b rest ih =>
    rw [List.length_cons,List.range_succ_eq_map,List.countP_cons,List.countP_map,List.count_cons,← ih]
    simp [Function.comp_def]

/- A task has left: its record is gone, and of each entry of `filp` as many references as the task had
descriptors on it. -/
structure Departs (s s' : Tables) (task : Pid) (t : VfsTask) : Prop where
  known : vfsFindbypid s task = some t
  records : s'.taskQ = s.taskQ.eraseP (·.pid = task)
  entries : ∀ (fp : Nat) f, s.filp[fp]? = some f →
    s'.filp[fp]? = some { f with refcnt := closedOnce^[t.fd.count (fp : Int)] f.refcnt }

theorem deltaskEnds {task : Pid} (wide : Wide x.vfs) (named : x.msg.w0.toNat = task)
    (known : task ∈ pids x.vfs) (ok : vfsRemovetask D x = some y) :
    pids y.vfs = (pids x.vfs).erase task ∧ Wide y.vfs ∧ ∃ t, Departs x.vfs y.vfs task t := by
  rcases vfsRemovetaskCases ok with ⟨missing,-⟩ | ⟨t,z,found,closed,rfl⟩
  · rw [named] at missing
    obtain ⟨t,member,same⟩ := List.mem_map.mp known
    exact absurd same (by simpa using List.find?_eq_none.mp missing t member)
  · rw [named] at found
    rw [(foundMember found).2] at closed ⊢
    obtain ⟨same,still⟩ := editsEnroll (closeAllEdits closed)
    have width := wide t (foundMember found).1
    have inside : ∀ i ∈ List.range maxFd, i < maxFd := fun i member => List.mem_range.mp member
    refine ⟨?_,?_,t,found,?_,?_⟩
    · rw [← same]
      exact erasePids z.vfs.taskQ task
    · exact fun v member => still wide v (List.mem_of_mem_eraseP member)
    · exact closeAllRecords closed
    · intro fp f entry
      rw [← countIndices t.fd (fp : Int),width]
      have ends : z.vfs.filp[fp]? = some _ := closeAllEntry List.nodup_range inside found width entry closed
      exact ends

theorem addtaskEnds {task parent : Pid} (wide : Wide x.vfs) (named : x.msg.w0 = task) (from_ : x.msg.w1 = parent)
    (known : parent = 0 ∨ parent ∈ pids x.vfs) (ok : vfsAddnewtask D true x = some y) :
    pids y.vfs = pids x.vfs ++ [task] ∧ Wide y.vfs ∧ y.msg.w0 = task := by
  have grows : ∀ t : VfsTask, t.fd.length = maxFd → ∀ u ∈ x.vfs.taskQ ++ [t], u.fd.length = maxFd := by
    intro t width u member
    rcases List.mem_append.mp member with old | new
    · exact wide u old
    · cases List.mem_singleton.mp new
      exact width
  simp only [vfsAddnewtask,if_true,named,from_,Int.toNat_natCast] at ok
  split at ok
  · cases Option.some.inj ok
    exact ⟨by simp [pids,withVfs],grows _ (by simp [maxFd]),named⟩
  · rename_i child
    have listed := known.resolve_left (fun none => child (by rw [none]; rfl))
    split at ok
    · rename_i missing
      obtain ⟨t,member,same⟩ := List.mem_map.mp listed
      have other := List.find?_eq_none.mp missing t (List.mem_append_left _ member)
      exact absurd same (by simpa using other)
    · rename_i t found
      cases Option.some.inj ok
      have width : t.fd.length = maxFd :=
        grows _ (by simp [maxFd]) t (foundMember found).1
      have tasks := inheritTasks t.fd
        { x.vfs with taskQ := x.vfs.taskQ ++ [{ t with pid := task, fd := t.fd.map inheritedFd }] }
      refine ⟨?_,?_,named⟩
      · change (inheritFd t _).taskQ.map (·.pid) = _
        rw [inheritFd,tasks]
        simp [pids]
      · intro u member
        change u ∈ (inheritFd t _).taskQ at member
        rw [inheritFd,tasks] at member
        exact grows _ (by simpa using width) u member
end

/-! PM's side: a request adds one process, takes one away, or neither. -/

def filed : Pm.Call → Bool
  | .vfsCreatetask .. => true
  | .vfsDeletetask _ => true
  | _ => false

section
variable {s s' : Pm.Tables} {c : Pm.Addr} {t : Pm.PmTask} {rest : List Pm.Addr} {r : Pm.Request} {calls : List Pm.Call}

theorem onlyFreesUnheard (heard : Pm.Call → Bool) (deaf : ∀ p, heard (.kfree p) = false) (only : Pm.OnlyFrees calls) :
    calls.filter heard = [] := by
  refine List.filter_eq_nil_iff.mpr (fun k member => ?_)
  obtain ⟨p,rfl⟩ := only k member
  simp [deaf p]

theorem setupCallsFiled (t : Pm.PmTask) (n : Nat) (p : Pm.Addr) (argv : List (List Nat)) :
    (Pm.setupCalls r t n p argv).filter filed = [] := by
  have chunks := onlyFreesUnheard filed (fun _ => rfl) (Pm.chunkFreesOnly t.chunkQ)
  unfold Pm.setupCalls
  by_cases null : t.args = 0 <;> simp [chunks,null,filed]

theorem leaveCallsFiled : (Pm.leaveCalls s c t).filter filed = [.vfsDeletetask t.pid] := by
  have chunks := onlyFreesUnheard filed (fun _ => rfl) (Pm.chunkFreesOnly t.chunkQ)
  have reap := onlyFreesUnheard filed (fun _ => rfl) (Pm.reapCallsOnly (s := s) (c := c) s.zombieQ)
  rw [Pm.leaveCalls,List.filter_append,List.filter_append,chunks,reap]
  rfl

theorem doesFiled (sound : Pm.Sound s) (given : Pm.Allocates s r) (did : Pm.Does s c t rest r s' calls) :
    (r.msg.cmd ≠ .exit ∧ Pm.created calls = [] ∧ Pm.deleted calls = [] ∧ calls.filter filed = []) ∨
    (r.msg.cmd = .spawn ∧ Pm.created calls = [r.task] ∧ Pm.deleted calls = [] ∧
      calls.filter filed = [.vfsCreatetask r.task t.pid true]) ∨
    (r.msg.cmd = .exit ∧ Pm.created calls = [] ∧ Pm.deleted calls = [t.pid] ∧
      calls.filter filed = [.vfsDeletetask t.pid]) := by
  obtain ⟨new,old,-,-⟩ := Pm.leaveCallsChanged (c := c) (t := t) sound
  cases did with
  | spawned cmd task record vfs args =>
    obtain ⟨new,old,-,-⟩ := Pm.setupCallsChanged r ⟨r.task,[],0,c,0⟩ r.msg.w1 r.msg.w0 (Pm.argvOf r r.msg.w2)
    refine .inr (.inl ⟨cmd,?_,?_,?_⟩)
    · simp only [Pm.createdAppend,new]
      simp [Pm.created,task]
    · simp only [Pm.deletedAppend,old]
      simp [Pm.deleted]
    · rw [List.filter_append,List.filter_append,setupCallsFiled]
      simp [filed]
  | replaced cmd found args =>
    obtain ⟨new,old,-,-⟩ := Pm.setupCallsChanged r t r.prgStack r.prg (Pm.argvOf r r.msg.w1)
    refine .inl ⟨by simp [cmd],?_,?_,?_⟩
    · simp only [Pm.createdAppend,new]
      simp [Pm.created]
    · simp only [Pm.deletedAppend,old]
      simp [Pm.deleted]
    · rw [List.filter_append,List.filter_append,setupCallsFiled]
      simp [filed]
  | orphanLeft cmd | parentWoken cmd =>
    refine .inr (.inr ⟨cmd,?_,?_,?_⟩)
    · rw [Pm.createdAppend,new]
      rfl
    · rw [Pm.deletedAppend,old]
      rfl
    · rw [List.filter_append,leaveCallsFiled]
      rfl
  | zombieMade cmd => exact .inr (.inr ⟨cmd,new,old,leaveCallsFiled⟩)
  | unknown cmd | zombieReported cmd | childless cmd | blocked cmd => exact .inl ⟨by simp [cmd],rfl,rfl,rfl⟩
  | foreign cmd | ignored cmd | released cmd | stuck cmd | allocated cmd => exact .inl ⟨by simp [cmd],rfl,rfl,rfl⟩
  | denied cmd failed =>
    simp only [Pm.Allocates,cmd] at given
    exact absurd failed (not_or.mpr given)
  | unmade cmd none =>
    simp only [Pm.Allocates,cmd] at given
    exact absurd none (not_or.mpr ⟨given.1,given.2.2.1⟩)
  | stillborn cmd task record failed =>
    simp only [Pm.Allocates,cmd] at given
    exact absurd failed (not_or.mpr ⟨by simp [given.2.1],given.2.2.2.2⟩)
end

/-! The three together. -/

section
variable {σ : Type} {D : Vfs.Drivers σ} {pm : Pid} {w w' : World σ} {i : Kernel.Input} {calls : List Pm.Call}

theorem fileCallQuiet (f : Vfs.System σ) (k : Pm.Call) (quiet : filed k = false) : fileCall D pm f k = some f := by
  cases k <;> first | rfl | contradiction

theorem foldUnheard {α : Type} {party : α → Pm.Call → Option α} {heard : Pm.Call → Bool}
    (deaf : ∀ a k, heard k = false → party a k = some a) (a : α) :
    calls.foldlM party a = (calls.filter heard).foldlM party a := by
  induction calls generalizing a with
  | nil => rfl
  | cons k rest ih =>
    by_cases hears : heard k = true
    · rw [List.filter_cons_of_pos hears,List.foldlM_cons,List.foldlM_cons]
      exact congrArg _ (funext ih)
    · rw [List.filter_cons_of_neg hears,List.foldlM_cons,deaf a k (by simpa using hears)]
      exact ih a

theorem kernelCallAlive {k : Kernel.State} (call : Pm.Call) (p : Pid) :
    ((kernelCall pm i k call).task p).isSome =
      if call = .createtask p ∧ p ≠ 0 then true else if call = .deletetask p ∧ p ≠ 0 then false
      else (k.task p).isSome := by
  cases call with
  | createtask q | deletetask q =>
    simp only [kernelCall,trap,handleKcallAlive]
    by_cases same : p = q
    · subst same
      by_cases null : p = 0 <;> simp [null]
    · simp [same,Ne.symm same]
  | allocatestack | setuptask | starttask | stoptask => simp [kernelCall,trap,handleKcallAlive]
  | _ => simp [kernelCall]

theorem kernelCreates {k : Kernel.State} (none : Pm.deleted calls = []) (p : Pid) :
    ((calls.foldl (kernelCall pm i) k).task p).isSome ↔ p ∈ Pm.created calls ∨ (k.task p).isSome := by
  induction calls generalizing k with
  | nil => simp [Pm.created]
  | cons call rest ih =>
    have split : Pm.deleted ([call] ++ rest) = [] := none
    rw [Pm.deletedAppend,List.append_eq_nil_iff] at split
    have made : p ∈ Pm.created (call::rest) ↔ (call = .createtask p ∧ p ≠ 0) ∨ p ∈ Pm.created rest := by
      rw [show call::rest = [call] ++ rest from rfl,Pm.createdAppend,List.mem_append]
      refine or_congr ?_ Iff.rfl
      cases call <;> simp [Pm.created]
      rename_i q
      by_cases same : q = p
      · subst same
        simp
      · simp [same,Ne.symm same]
    have kept : ¬(call = .deletetask p ∧ p ≠ 0) := by
      rintro ⟨rfl,-⟩
      simp [Pm.deleted] at split
    rw [List.foldl_cons,ih split.2,made,kernelCallAlive,if_neg kept]
    by_cases new : call = .createtask p ∧ p ≠ 0
    · simp [new]
    · simp [new]

theorem kernelDeletes {k : Kernel.State} (none : Pm.created calls = []) (real : 0 ∉ Pm.deleted calls) (p : Pid) :
    ((calls.foldl (kernelCall pm i) k).task p).isSome ↔ p ∉ Pm.deleted calls ∧ (k.task p).isSome := by
  induction calls generalizing k with
  | nil => simp [Pm.deleted]
  | cons call rest ih =>
    have split : Pm.created ([call] ++ rest) = [] := none
    rw [Pm.createdAppend,List.append_eq_nil_iff] at split
    have parts : Pm.deleted (call::rest) = Pm.deleted [call] ++ Pm.deleted rest := Pm.deletedAppend [call] rest
    rw [parts,List.mem_append,not_or] at real
    have gone : p ∈ Pm.deleted [call] ↔ call = .deletetask p ∧ p ≠ 0 := by
      cases call with
      | deletetask q =>
        have other : q ≠ 0 := fun null => real.1 (by simp [Pm.deleted,null])
        by_cases same : q = p
        · subst same
          simp [Pm.deleted,other]
        · simp [Pm.deleted,same,Ne.symm same]
      | _ => simp [Pm.deleted]
    have kept : ¬(call = .createtask p ∧ p ≠ 0) := by
      rintro ⟨rfl,null⟩
      simp [Pm.created,null] at split
    rw [List.foldl_cons,ih split.2 real.2,parts,List.mem_append,gone,kernelCallAlive,if_neg kept]
    by_cases dead : call = .deletetask p ∧ p ≠ 0
    · simp [dead]
    · simp [dead]

theorem performedMade {y : Pm.Tx} (made : performed D pm w i y = some w') :
    ∃ files, (y.calls.filter filed).foldlM (fileCall D pm) w.files = some files ∧
      w' = ⟨Pm.after w.machine y,y.calls.foldl (kernelCall pm i) w.kernel,w.others,files⟩ := by
  simp only [performed,bind,Option.bind_eq_some_iff] at made
  obtain ⟨files,called,last⟩ := made
  rw [foldUnheard fileCallQuiet] at called
  exact ⟨files,called,(Option.some.inj last).symm⟩

theorem Agree.joins {y : Pm.Tx} {task parent : Pid} (kept : Pm.Table (Pm.after w.machine y))
    (tasks : ∀ p, (w.kernel.task p).isSome ↔ p ∈ w.machine.tasks ++ w.others)
    (apart : (w.machine.tasks ++ w.others).Nodup) (real : 0 ∉ w.machine.tasks ++ w.others)
    (files : (pids w.files.vfs).Perm w.machine.tasks) (wide : Wide w.files.vfs)
    (given : task ≠ 0) (free : w.kernel.task task = none) (known : parent = 0 ∨ parent ∈ pids w.files.vfs)
    (new : Pm.created y.calls = [task]) (old : Pm.deleted y.calls = [])
    (called : y.calls.filter filed = [.vfsCreatetask task parent true]) (made : performed D pm w i y = some w') :
    Agree w' := by
  obtain ⟨f,filing,rfl⟩ := performedMade made
  have absent : task ∉ w.machine.tasks ++ w.others := by
    intro member
    rw [← tasks,free] at member
    contradiction
  have grown : (Pm.after w.machine y).tasks = task::w.machine.tasks := by simp [Pm.after,new,old]
  simp only [called,List.foldlM_cons,List.foldlM_nil,fileCall,bind,Option.bind_eq_some_iff] at filing
  obtain ⟨g,⟨x,added,checked⟩,last⟩ := filing
  split at checked
  · cases Option.some.inj checked
    cases Option.some.inj last
    obtain ⟨listed,wide',-⟩ := addtaskEnds (x := ⟨w.files.vfs,w.files.drv,adddel .addtask task parent,[]⟩) wide rfl rfl
      known added
    refine ⟨kept,?_,?_,?_,?_,wide'⟩
    · intro p
      rw [kernelCreates old,new,tasks,grown]
      simp
    · rw [grown]
      exact List.nodup_cons.mpr ⟨absent,apart⟩
    · rw [grown]
      simpa [Ne.symm given] using real
    · rw [grown]
      change (pids x.vfs).Perm _
      rw [listed]
      exact (List.perm_append_singleton task (pids w.files.vfs)).trans (files.cons task)
  · contradiction

theorem Agree.leaves {y : Pm.Tx} {task : Pid} (agree : Agree w) (kept : Pm.Table (Pm.after w.machine y))
    (member : task ∈ w.machine.tasks) (new : Pm.created y.calls = []) (old : Pm.deleted y.calls = [task])
    (called : y.calls.filter filed = [.vfsDeletetask task]) (made : performed D pm w i y = some w') :
    Agree w' ∧ (w'.kernel.task task).isSome = false ∧ task ∉ pids w'.files.vfs ∧
      ∃ t, Departs w.files.vfs w'.files.vfs task t := by
  obtain ⟨f,filing,rfl⟩ := performedMade made
  have real : task ≠ 0 := fun null => agree.real (List.mem_append_left _ (null ▸ member))
  have unique := (List.nodup_append.mp agree.apart).1
  have fewer : (Pm.after w.machine y).tasks = w.machine.tasks.erase task := by simp [Pm.after,new,old]
  have alone : task ∉ w.others := fun other =>
    (List.nodup_append.mp agree.apart).2.2 task member task other rfl
  simp only [called,List.foldlM_cons,List.foldlM_nil,fileCall,bind,Option.bind_eq_some_iff] at filing
  obtain ⟨g,⟨x,removed,last⟩,final⟩ := filing
  cases Option.some.inj last
  cases Option.some.inj final
  obtain ⟨listed,wide,closed⟩ := deltaskEnds (x := ⟨w.files.vfs,w.files.drv,adddel .deltask task 0,[]⟩) agree.width
    (Int.toNat_natCast task) (agree.files.mem_iff.mpr member) removed
  have dead : ∀ p, ((y.calls.foldl (kernelCall pm i) w.kernel).task p).isSome ↔ p ≠ task ∧ (w.kernel.task p).isSome := by
    intro p
    rw [kernelDeletes new (by simpa [old] using Ne.symm real),old]
    simp
  have listing : (pids x.vfs).Perm (w.machine.tasks.erase task) := by
    rw [listed]
    exact agree.files.erase task
  refine ⟨⟨kept,?_,?_,?_,?_,wide⟩,?_,?_,closed⟩
  · intro p
    rw [dead,agree.tasks,fewer,List.mem_append,List.mem_append,unique.mem_erase_iff]
    constructor
    · rintro ⟨other,mine | others⟩
      · exact .inl ⟨other,mine⟩
      · exact .inr others
    · rintro (⟨other,mine⟩ | others)
      · exact ⟨other,.inl mine⟩
      · exact ⟨fun same => alone (same ▸ others),.inr others⟩
  · rw [fewer]
    exact agree.apart.sublist ((List.erase_sublist).append_right _)
  · rw [fewer]
    intro null
    refine agree.real ?_
    rcases List.mem_append.mp null with mine | others
    · exact List.mem_append_left _ (List.mem_of_mem_erase mine)
    · exact List.mem_append_right _ others
  · rw [fewer]
    exact listing
  · rw [← Bool.not_eq_true,dead]
    simp
  · intro still
    exact (unique.mem_erase_iff.mp (listing.mem_iff.mp still)).1 rfl

theorem Agree.stays {y : Pm.Tx} (agree : Agree w) (kept : Pm.Table (Pm.after w.machine y))
    (new : Pm.created y.calls = []) (old : Pm.deleted y.calls = []) (called : y.calls.filter filed = [])
    (made : performed D pm w i y = some w') : Agree w' := by
  obtain ⟨f,filing,rfl⟩ := performedMade made
  have same : (Pm.after w.machine y).tasks = w.machine.tasks := by simp [Pm.after,new,old]
  rw [called] at filing
  cases Option.some.inj filing
  refine ⟨kept,?_,?_,?_,?_,agree.width⟩
  · intro p
    rw [kernelCreates old,new,same,agree.tasks]
    simp
  · rw [same]
    exact agree.apart
  · rw [same]
    exact agree.real
  · rw [same]
    exact agree.files

theorem agreeRequest {r : Pm.Request} {out : List Unit} (agree : Agree w) (allowed : Allowed w (.request r i))
    (taken : step D pm w (.request r i) = some (w',out)) :
    Agree w' ∧ (r.msg.cmd = .exit → (w'.kernel.task r.client).isSome = false ∧ r.client ∉ pids w'.files.vfs ∧
      ∃ t, Departs w.files.vfs w'.files.vfs r.client t) := by
  obtain ⟨lawful,free⟩ := allowed
  obtain ⟨c,t,y,n,sender,served,-,did,kept⟩ := Pm.tableStep agree.table lawful
  simp only [step,served,bind,Option.bind_some,Option.bind_eq_some_iff] at taken
  obtain ⟨u,made,last⟩ := taken
  cases Option.some.inj last
  have living : t.pid ∈ w.machine.tasks := by
    refine agree.table.tasks.mem_iff.mpr (List.mem_map.mpr ⟨c,List.mem_append_left _ sender.1,?_⟩)
    exact Pm.pidSome sender.2.1
  have given := agree.table.allocates lawful.granted
  rcases doesFiled (agree.table.attended sender.1).sound given did with
    ⟨cmd,new,old,called⟩ | ⟨cmd,new,old,called⟩ | ⟨cmd,new,old,called⟩
  · exact ⟨agree.stays kept new old called made,fun exit => absurd exit cmd⟩
  · have task : r.task ≠ 0 := by
      simp only [Pm.Allocates,cmd] at given
      exact given.1
    refine ⟨Agree.joins kept agree.tasks agree.apart agree.real agree.files agree.width task (free cmd)
      (.inr (agree.files.mem_iff.mpr living)) new old called made,fun exit => ?_⟩
    rw [exit] at cmd
    contradiction
  · obtain ⟨agrees,gone⟩ := agree.leaves kept living new old called made
    rw [sender.2.2] at gone
    exact ⟨agrees,fun _ => gone⟩

theorem agreeFile {r : Vfs.Request} {out : List Unit} (agree : Agree w) (allowed : Allowed w (.file r))
    (taken : step D pm w (.file r) = some (w',out)) : Agree w' := by
  simp only [step,Vfs.vfs,bind,Option.bind_eq_some_iff] at taken
  obtain ⟨⟨f,sent⟩,⟨x,processed,answered⟩,last⟩ := taken
  cases Option.some.inj answered
  cases Option.some.inj last
  obtain ⟨same,wide⟩ := editsEnroll (Vfs.processEdits allowed processed)
  refine ⟨agree.table,agree.tasks,agree.apart,agree.real,?_,wide agree.width⟩
  change (pids x.vfs).Perm w.machine.tasks
  rw [same]
  exact agree.files

theorem agreeRound {out : List Unit} (agree : Agree w) (allowed : Allowed w (.round i))
    (taken : step D pm w (.round i) = some (w',out)) : Agree w' := by
  simp only [step,bind,Option.bind_eq_some_iff] at taken
  obtain ⟨⟨k,log⟩,round,last⟩ := taken
  cases Option.some.inj last
  obtain ⟨fresh,nobody,mine⟩ := allowed
  have alive := fun p => roundAlive (p := p) round
  unfold joined
  by_cases event : i.eventcode ≠ Kernel.eventNone
  · refine ⟨agree.table,fun p => ?_,?_,?_,agree.files,agree.width⟩
    · simp only [alive,if_pos event,agree.tasks]
    · simpa only [if_pos event] using agree.apart
    · simpa only [if_pos event] using agree.real
  · simp only [if_neg event] at alive ⊢
    by_cases create : i.ctxt.kcall = .createtask
    · by_cases null : i.newtask = 0
      · refine ⟨agree.table,fun p => ?_,?_,?_,agree.files,agree.width⟩
        · simpa [alive,create,null] using agree.tasks p
        · simpa [create,null] using agree.apart
        · simpa [create,null] using agree.real
      · have absent : i.newtask ∉ w.machine.tasks ++ w.others := by
          intro member
          rw [← agree.tasks,fresh null] at member
          contradiction
        refine ⟨agree.table,fun p => ?_,?_,?_,agree.files,agree.width⟩
        · have before := agree.tasks p
          simp only [List.mem_append] at before
          by_cases same : p = i.newtask
          · simp [alive,create,null,same]
          · simp [alive,create,null,same,before]
        · simpa [create,null] using List.nodup_middle.mpr (List.nodup_cons.mpr ⟨absent,agree.apart⟩)
        · simpa [create,null,Ne.symm null] using agree.real
    · by_cases leave : i.ctxt.kcall = .exittask
      · have other := mine leave
        have unique := (List.nodup_append.mp agree.apart).2.1
        have stranger : running w.kernel ∉ w.machine.tasks :=
          fun task => (List.nodup_append.mp agree.apart).2.2 _ task _ other rfl
        have real : running w.kernel ≠ 0 := fun null => agree.real (List.mem_append_right _ (null ▸ other))
        refine ⟨agree.table,fun p => ?_,?_,?_,agree.files,agree.width⟩
        · have before := agree.tasks p
          simp only [List.mem_append] at before
          by_cases same : p = running w.kernel
          · simp [alive,leave,real,same,stranger,unique.mem_erase_iff]
          · simp [alive,leave,same,before,unique.mem_erase_iff]
        · simpa [leave] using agree.apart.sublist ((List.erase_sublist).append_left _)
        · have never := agree.real
          simp only [List.mem_append,not_or] at never
          simpa [leave,never.1] using fun still => never.2 (List.mem_of_mem_erase still)
      · refine ⟨agree.table,fun p => ?_,?_,?_,agree.files,agree.width⟩
        · simpa [alive,create,leave,nobody] using agree.tasks p
        · simpa [create,leave] using agree.apart
        · simpa [create,leave] using agree.real

theorem agreeOpens (opens : Opens D pm w) : Agree w := by
  obtain ⟨r,args,y,i,k,f,others,boots,start,free,tasks,unique,real,nobody,made⟩ := opens
  obtain ⟨z,same,-,calls⟩ := Pm.pmStartTurn boots.booting
  cases Option.some.inj (start.symm.trans same)
  have table := Pm.startedTable ⟨r,args,y,boots,start,rfl⟩
  obtain ⟨enrolled,vfs,record⟩ := boots.enrolled
  obtain ⟨new,old,-,-⟩ := Pm.bootCallsChanged (r := r) boots.booting.1
  have called : (Pm.bootCalls r args).filter filed = [.vfsCreatetask r.task 0 true] := by
    have setup := setupCallsFiled (r := r) ⟨r.task,[],0,0,0⟩ r.prgStack r.prg (Pm.argvOf r args)
    unfold Pm.bootCalls
    simp only [if_neg enrolled,vfs,Bool.true_eq_false,if_false,if_neg record]
    split
    · rfl
    · split
      · rfl
      · simp only [List.filter_append,setup]
        rfl
  rw [← calls] at called new old
  exact Agree.joins table (by simpa using tasks) (by simpa using unique) (by simpa using real)
    (by simp [pids,nobody]) (fun t member => by simp [nobody] at member) enrolled free (.inl rfl)
    (new.trans (by simp [enrolled])) old called made

theorem agreeRun {history : List Unit} (run : Reaches (step D pm) Allowed (Opens D pm) w history) : Agree w := by
  refine run.stateInvariant (fun w opens => agreeOpens opens) ?_
  intro w act w' out agree allowed taken
  cases act with
  | request r i => exact (agreeRequest agree allowed taken).1
  | file r => exact agreeFile agree allowed taken
  | round i => exact agreeRound agree allowed taken

theorem censusAgrees {history : List Unit} (run : Reaches (step D pm) Allowed (Opens D pm) w history) :
    (Pm.live w.machine.pm).Nodup ∧
    (∀ p ∈ Pm.live w.machine.pm, (w.kernel.task p).isSome) ∧
    (w.files.vfs.taskQ.map (·.pid)).Perm (Pm.live w.machine.pm) ∧
    (∀ z ∈ w.machine.pm.zombieQ, ∀ t, w.machine.pm.record z = some t →
      ((w.kernel.task t.pid).isSome → t.pid ∈ Pm.live w.machine.pm ∨ t.pid ∈ w.others) ∧
      (t.pid ∈ w.files.vfs.taskQ.map (·.pid) → t.pid ∈ Pm.live w.machine.pm)) ∧
    (∀ p, (w.kernel.task p).isSome → p ∉ w.others → ∃ a ∈ w.machine.pm.taskQ ++ w.machine.pm.waitQ,
      ∃ t, w.machine.pm.record a = some t ∧ t.pid = p) ∧
    ∀ r i w' out, Allowed w (.request r i) → r.msg.cmd = .exit → step D pm w (.request r i) = some (w',out) →
      w'.kernel.task r.client = none ∧ r.client ∉ w'.files.vfs.taskQ.map (·.pid) ∧
      ∃ t, Departs w.files.vfs w'.files.vfs r.client t ∧ ∀ (fp : Nat) f, w.files.vfs.filp[fp]? = some f →
        t.fd.count (fp : Int) ≤ f.refcnt → f.refcnt ≤ 127 →
        w'.files.vfs.filp[fp]? = some { f with refcnt := f.refcnt - t.fd.count (fp : Int) } := by
  have agree := agreeRun run
  have tasks := agree.table.tasks
  have owner : ∀ p, (w.kernel.task p).isSome → p ∈ Pm.live w.machine.pm ∨ p ∈ w.others := by
    intro p alive
    exact (List.mem_append.mp ((agree.tasks p).mp alive)).imp_left tasks.mem_iff.mp
  refine ⟨tasks.nodup_iff.mp agree.table.distinct,?_,agree.files.trans tasks,?_,?_,?_⟩
  · intro p member
    exact (agree.tasks p).mpr (List.mem_append_left _ (tasks.mem_iff.mpr member))
  · intro z zombie t there
    exact ⟨owner t.pid,fun listed => (agree.files.trans tasks).mem_iff.mp listed⟩
  · intro p alive stranger
    obtain ⟨a,member,same⟩ := List.mem_map.mp ((owner p alive).resolve_right stranger)
    obtain ⟨t,there⟩ := agree.table.sound.known (List.mem_append_left _ member)
    exact ⟨a,member,t,there,(Pm.pidSome there).symm.trans same⟩
  · intro r i w' out allowed exit taken
    obtain ⟨dead,unlisted,t,departs⟩ := (agreeRequest agree allowed taken).2 exit
    refine ⟨by simpa using dead,unlisted,t,departs,?_⟩
    intro fp f entry enough small
    rw [departs.entries fp f entry,closedTimes enough small]
end

-- PM is task 40; init spawns a process, and that process exits.
def demoKernel : Kernel.State := ⟨fun p => if p = 40 then some (Kernel.newtask 1 0) else none,fun _ => [],[40],[],fun _ => 0⟩
def demoInput : Kernel.Input := ⟨0,⟨.other,0,0,0,0⟩,fun _ => 0,fun _ => ⟨.other,0,0,0,0⟩,0,0⟩
def demoWorld : World Vfs.Devices :=
  ⟨⟨Pm.blank,[],[100]⟩,demoKernel,[40],Vfs.vfsInit Vfs.drivers 1 Vfs.noDevices⟩

def demoOpened : World Vfs.Devices :=
  (performed Vfs.drivers 40 demoWorld demoInput ((Pm.pmStart Pm.demoBoot 100).get Pm.demoStarts)).get (by rfl)
def demoJoined : World Vfs.Devices :=
  ((step Vfs.drivers 40 demoOpened (.request Pm.demoSpawn demoInput)).get (by rfl)).1
def demoLeft : World Vfs.Devices :=
  ((step Vfs.drivers 40 demoJoined (.request Pm.demoExit demoInput)).get (by rfl)).1

theorem demoCensus : ∃ history, Reaches (step Vfs.drivers 40) Allowed (Opens Vfs.drivers 40) demoLeft history := by
  have boots : Pm.Boots Pm.demoBoot 100 := ⟨by decide,rfl,by decide,by decide,by decide⟩
  have known : ∀ p, (demoKernel.task p).isSome ↔ p ∈ [40] := by
    intro p
    by_cases same : p = 40 <;> simp [demoKernel,same]
  have opens : Opens Vfs.drivers 40 demoOpened :=
    ⟨Pm.demoBoot,100,_,demoInput,demoKernel,_,[40],boots,(Option.some_get (by rfl)).symm,rfl,known,by decide,by decide,
      rfl,(Option.some_get (by rfl)).symm⟩
  have spawn : Allowed demoOpened (.request Pm.demoSpawn demoInput) :=
    ⟨⟨⟨60,⟨50,[],0,0,70⟩,by decide,rfl,rfl⟩,⟨by decide,by decide,rfl,by decide,by decide⟩⟩,fun _ => rfl⟩
  have exit : Allowed demoJoined (.request Pm.demoExit demoInput) :=
    ⟨⟨⟨61,⟨51,[],0,60,71⟩,by decide,rfl,rfl⟩,trivial⟩,fun cmd => nomatch cmd⟩
  exact ⟨_,.next (.next (.start opens) spawn (Option.some_get (by rfl)).symm) exit (Option.some_get (by rfl)).symm⟩

theorem censusAgreesAfterExit : ∃ history,
    Reaches (step Vfs.drivers 40) Allowed (Opens Vfs.drivers 40) demoLeft history ∧
    demoLeft.machine.pm.zombieQ = [61] ∧ Pm.live demoLeft.machine.pm = [50] ∧
    (demoLeft.files.vfs.taskQ.map (·.pid)).Perm (Pm.live demoLeft.machine.pm) := by
  obtain ⟨history,run⟩ := demoCensus
  exact ⟨history,run,by decide,by decide,(censusAgrees run).2.2.1⟩

end Avros.Census
