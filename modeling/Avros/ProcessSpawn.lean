import Avros.Census
import Avros.ExitCodes
import Avros.ProcessMemory

/-! PM_SPAWN across PM, VFS and the kernel, with every allocation it asks for free to fail:
the kernel's task, PM's record, VFS's record, the argument block and the stack. -/
namespace Avros.Census
open Run
open Kernel (Pid)

section
variable {σ : Type} (D : Vfs.Drivers σ) (pm : Pid)

-- `ok` is also what VFS's own kmalloc answers.
def fileAnswer (f : Vfs.System σ) : Pm.Call → Option (Vfs.System σ)
  | .vfsCreatetask task parent ok => do
    let x ← Vfs.process D ⟨pm,adddel .addtask task parent,0,fun _ => ok⟩ ⟨f.vfs,f.drv,adddel .addtask task parent,[]⟩
    if decide (x.msg.w0 ≠ 0) = ok then some ⟨x.vfs,x.drv⟩ else none
  | call => fileCall D pm f call

def request (w : World σ) (r : Pm.Request) (i : Kernel.Input) : Option (World σ × List Pm.Call) := do
  let y ← Pm.serve w.machine.pm r
  let files ← y.calls.foldlM (fileAnswer D pm) w.files
  some (⟨Pm.after w.machine y,y.calls.foldl (kernelCall pm i) w.kernel,w.others,files⟩,y.calls)
end

-- What `do_allocatestack` answers: it refuses a size of 0.
def stackGiven (size : Nat) (stack : Pm.Addr) : Pm.Addr := if size = 0 then 0 else stack

def SpawnFails (r : Pm.Request) : Prop :=
  r.task = 0 ∨ r.record = 0 ∨ r.vfs = false ∨ r.args = 0 ∨ stackGiven r.msg.w1 r.stack = 0

section
variable {σ : Type}

-- `task_q` is as do_spawn finds it: the record of the sender, at `c`, stands in front.
structure Undone (w w' : World σ) (c : Pm.Addr) (r : Pm.Request) (calls : List Pm.Call) : Prop where
  reply : ∃ msg, Pm.sent calls = [(r.client,msg)] ∧ msg.w0 = 0
  taskQ : w'.machine.pm.taskQ = (Pm.attended w.machine.pm c).taskQ
  vfsTaskQ : w'.files.vfs.taskQ = w.files.vfs.taskQ
  refcnts : w'.files.vfs.filp.map (·.refcnt) = w.files.vfs.filp.map (·.refcnt)
  tasks : ∀ p, (w'.kernel.task p).isSome = (w.kernel.task p).isSome

structure Spawned (w w' : World σ) (i : Kernel.Input) (r : Pm.Request) (calls : List Pm.Call) : Prop where
  reply : ∃ msg, Pm.sent calls = [(r.client,msg)] ∧ msg.w0 = r.task
  entry : .setuptask r.task r.msg.w0 r.args ∈ calls
  task : ∃ t, w'.kernel.task r.task = some t ∧ t.sb = r.stack ∧
    t.sp = .frame .setup { i.noise r.task with p0 := r.args }
  ready : w'.kernel.queue taskPrioDflt = w.kernel.queue taskPrioDflt ++ [r.task]
  blocked : w'.kernel.blocked = w.kernel.blocked

def AllOrNothing (w w' : World σ) (c : Pm.Addr) (i : Kernel.Input) (r : Pm.Request) (calls : List Pm.Call) : Prop :=
  (SpawnFails r → Undone w w' c r calls) ∧ (¬SpawnFails r → Spawned w w' i r calls)
end

theorem stackWhole {size : Nat} {stack : Pm.Addr} (given : stackGiven size stack ≠ 0) : stackGiven size stack = stack := by
  unfold stackGiven at given ⊢
  split
  · rename_i empty
    simp [empty] at given
  · rfl

def trapped : Pm.Call → Bool
  | .createtask _ | .stoptask _ | .deletetask _ | .allocatestack .. | .setuptask .. | .starttask _ => true
  | _ => false

section
variable (pm : Pid) {p : Pid} {i : Kernel.Input} {k : Kernel.State} {t : Kernel.Task} {calls : List Pm.Call}

theorem kernelFiltered (k : Kernel.State) :
    calls.foldl (kernelCall pm i) k = (calls.filter trapped).foldl (kernelCall pm i) k := by
  induction calls generalizing k with
  | nil => rfl
  | cons call rest ih =>
    by_cases heard : trapped call = true
    · rw [List.filter_cons_of_pos heard,List.foldl_cons,List.foldl_cons]
      exact ih _
    · have quiet : kernelCall pm i k call = k := by
        cases call <;> first | rfl | contradiction
      rw [List.filter_cons_of_neg heard,List.foldl_cons,quiet]
      exact ih k

theorem setupCallsTrapped (r : Pm.Request) (u : Pm.PmTask) (size : Nat) (ptr : Pm.Addr) (argv : List (List Nat)) :
    (Pm.setupCalls r u size ptr argv).filter trapped =
      [.stoptask u.pid,.allocatestack u.pid size r.stack,.setuptask u.pid ptr r.args] := by
  have chunks := onlyFreesUnheard trapped (fun _ => rfl) (Pm.chunkFreesOnly u.chunkQ)
  unfold Pm.setupCalls
  by_cases null : u.args = 0 <;> simp [List.filter_cons,chunks,null,trapped]

theorem setP0Stack (v : Nat) (there : k.task p = some t) : ∃ u, (Kernel.setP0 k pm v).task p = some u ∧
    u.sb = t.sb ∧ u.prio = t.prio ∧ ((∀ o c, t.sp ≠ .frame o c) → u = t) := by
  unfold Kernel.setP0 Kernel.setTask
  by_cases same : p = pm
  · subst same
    refine ⟨Kernel.Task.onCtxt (fun c => { c with p0 := v }) t,by simp [there],?_⟩
    unfold Kernel.Task.onCtxt
    split
    · rename_i o c top
      exact ⟨rfl,rfl,fun bare => absurd top (bare o c)⟩
    · exact ⟨rfl,rfl,fun _ => rfl⟩
  · exact ⟨t,by simp [same,there],rfl,rfl,fun _ => rfl⟩

theorem stoptaskStack (there : k.task p = some t) :
    ∃ u, (Kernel.kcallStoptask k p).task p = some u ∧ u.sb = 0 ∧ u.prio = t.prio := by
  unfold Kernel.kcallStoptask Kernel.setTask
  by_cases none : t.sb = 0
  · exact ⟨t,by simp [there,none],none,rfl⟩
  · exact ⟨{ t with sb := 0, sp := .unset },by simp [there,none],rfl,rfl⟩

theorem allocatestackStack (size : Nat) (stack : Pm.Addr) (there : k.task p = some t) (none : t.sb = 0) :
    ∃ u, (kernelCall pm i k (.allocatestack p size stack)).task p = some u ∧ u.sb = stackGiven size stack ∧
      u.prio = t.prio ∧ (stackGiven size stack ≠ 0 → u.sp = .bare) := by
  have got : ∃ u, (Kernel.doAllocatestack k p size stack).1.task p = some u ∧ u.sb = stackGiven size stack ∧
      u.prio = t.prio ∧ (stackGiven size stack ≠ 0 → u.sp = .bare) := by
    unfold Kernel.doAllocatestack stackGiven Kernel.setTask
    by_cases empty : size = 0
    · exact ⟨t,by simp [empty,there],by simp [empty,none],rfl,by simp [empty]⟩
    · by_cases failed : stack = 0
      · exact ⟨{ t with sb := 0 },by simp [empty,failed,there],by simp [failed],rfl,by simp [failed]⟩
      · exact ⟨{ t with sb := stack, sp := .bare },by simp [empty,failed,there],by simp [empty],rfl,fun _ => rfl⟩
  obtain ⟨u,here,sb,prio,bare⟩ := got
  obtain ⟨v,last,sb',prio',same⟩ := setP0Stack pm (Kernel.doAllocatestack k p size stack).2 here
  refine ⟨v,last,sb'.trans sb,prio'.trans prio,fun given => ?_⟩
  rw [same (by simp [bare given])]
  exact bare given

theorem setuptaskStack (args : Pm.Addr) (noise : Kernel.Ctxt) (there : k.task p = some t) :
    ∃ u, (Kernel.doSetuptask k p args noise).task p = some u ∧ u.sb = t.sb ∧ u.prio = t.prio ∧
      (t.sp = .bare → u.sp = .frame .setup { noise with p0 := args }) := by
  unfold Kernel.doSetuptask Kernel.setTask
  cases top : t.sp with
  | unset => exact ⟨t,by simp [there,top],rfl,rfl,by simp⟩
  | bare => exact ⟨{ t with sp := .frame .setup { noise with p0 := args } },by simp [there,top],rfl,rfl,fun _ => rfl⟩
  | frame o c =>
    exact ⟨{ t with sp := .frame .setup { noise with p0 := args } },by simp [there,top],rfl,rfl,by simp⟩

theorem allocatestackLines (size : Nat) (stack : Pm.Addr) :
    (kernelCall pm i k (.allocatestack p size stack)).blocked = k.blocked ∧
      (kernelCall pm i k (.allocatestack p size stack)).queue = k.queue := by
  change (Kernel.setP0 (Kernel.doAllocatestack k p size stack).1 pm _).blocked = k.blocked ∧
    (Kernel.setP0 (Kernel.doAllocatestack k p size stack).1 pm _).queue = k.queue
  unfold Kernel.doAllocatestack
  split <;> exact ⟨rfl,rfl⟩

theorem restarted (size : Nat) (stack ptr args : Pm.Addr) (real : p ≠ 0) (there : k.task p = some t) :
    ∃ k' u, [.stoptask p,.allocatestack p size stack,.setuptask p ptr args,.starttask p].foldl (kernelCall pm i) k = k' ∧
      k'.task p = some u ∧ u.sb = stackGiven size stack ∧
      (stackGiven size stack ≠ 0 → u.sp = .frame .setup { i.noise p with p0 := args }) ∧
      k'.blocked = Queue.qRemv k.blocked p ∧ k'.queue t.prio = k.queue t.prio ++ [p] := by
  obtain ⟨stopped,here,none,prio⟩ := stoptaskStack there
  obtain ⟨stacked,here,sb,prio',bare⟩ := allocatestackStack pm (i := i) size stack here none
  obtain ⟨blocked,queue⟩ := allocatestackLines pm (i := i) (k := Kernel.kcallStoptask k p) (p := p) size stack
  obtain ⟨u,last,sb',prio'',top⟩ := setuptaskStack args (i.noise p) here
  have level : u.prio = t.prio := prio''.trans (prio'.trans prio)
  refine ⟨_,u,rfl,last,sb'.trans sb,fun given => top (bare given),?_,?_⟩
  · change Queue.qRemv (kernelCall pm i (Kernel.kcallStoptask k p) (.allocatestack p size stack)).blocked p = _
    rw [blocked]
    rfl
  · have own : Kernel.prioOf (Kernel.outOfBlocked (Kernel.doSetuptask
        (kernelCall pm i (Kernel.kcallStoptask k p) (.allocatestack p size stack)) p args (i.noise p)) p) p = t.prio := by
      change (((Kernel.doSetuptask _ p args (i.noise p)).task p).map Kernel.Task.prio).getD 0 = t.prio
      rw [last]
      exact level
    change (Kernel.toQueueEnd (Kernel.outOfBlocked (Kernel.doSetuptask
        (kernelCall pm i (Kernel.kcallStoptask k p) (.allocatestack p size stack)) p args (i.noise p)) p) p).queue t.prio = _
    unfold Kernel.toQueueEnd
    rw [own]
    simp only [Function.update_self,Queue.qEnd,if_neg real]
    change (kernelCall pm i (Kernel.kcallStoptask k p) (.allocatestack p size stack)).queue t.prio ++ [p] = _
    rw [queue]
    rfl

theorem createdStarted (size : Nat) (stack ptr args : Pm.Addr) (real : p ≠ 0) :
    ∃ k' u, [.createtask p,.stoptask p,.allocatestack p size stack,.setuptask p ptr args,.starttask p].foldl
        (kernelCall pm i) k = k' ∧ k'.task p = some u ∧ u.sb = stackGiven size stack ∧
      (stackGiven size stack ≠ 0 → u.sp = .frame .setup { i.noise p with p0 := args }) ∧
      k'.blocked = k.blocked ∧ k'.queue taskPrioDflt = k.queue taskPrioDflt ++ [p] := by
  let made : Kernel.State := { k with
    task := Function.update k.task p (some (Kernel.newtask taskPrioDflt pageInvalid))
    blocked := p::k.blocked }
  have call : kernelCall pm i k (.createtask p) = Kernel.setP0 made pm p := by
    change Kernel.kcallCreatetask _ k pm = _
    simp only [Kernel.kcallCreatetask,if_neg real,Queue.qFront]
    rfl
  obtain ⟨t,there,-,prio,-⟩ := setP0Stack pm (k := made) p (Function.update_self p _ k.task)
  obtain ⟨k',u,ran,last,sb,top,blocked,queue⟩ := restarted pm (i := i) size stack ptr args real there
  have level : t.prio = taskPrioDflt := prio
  rw [level] at queue
  refine ⟨k',u,?_,last,sb,top,?_,queue⟩
  · rw [List.foldl_cons,call]
    exact ran
  · rw [blocked]
    change Queue.qRemv (p::k.blocked) p = k.blocked
    simp [Queue.qRemv,real]

end

section
variable {σ : Type} {D : Vfs.Drivers σ} {pm : Pid} {f : Vfs.System σ} {calls : List Pm.Call}

theorem fileAnswerQuiet (f : Vfs.System σ) (call : Pm.Call) (quiet : filed call = false) :
    fileAnswer D pm f call = some f := by
  cases call <;> first | rfl | contradiction

-- VFS answers for a parent it knows, whether or not it gets its memory.
theorem addtaskAnswers (D : Vfs.Drivers σ) (pm : Pid) {task parent : Pid} (ok : Bool) (real : task ≠ 0)
    (known : parent ∈ pids f.vfs) :
    ∃ g, fileAnswer D pm f (.vfsCreatetask task parent ok) = some g := by
  have found : ∀ t, ∃ u, Vfs.vfsFindbypid { f.vfs with taskQ := f.vfs.taskQ ++ [t] } parent = some u := by
    intro t
    obtain ⟨u,member,same⟩ := List.mem_map.mp known
    refine Option.isSome_iff_exists.mp (List.find?_isSome.mpr ⟨u,List.mem_append_left _ member,?_⟩)
    simpa using same
  cases ok with
  | false => exact ⟨_,rfl⟩
  | true =>
    obtain ⟨u,there⟩ := found ⟨task,List.replicate Vfs.maxFd (-1),0,0,0,0⟩
    dsimp only at there
    refine Option.isSome_iff_exists.mp ?_
    by_cases root : parent = 0
    · simp [fileAnswer,Vfs.process,adddel,Vfs.vfsAddnewtask,root,Vfs.withVfs,real]
    · simp [fileAnswer,Vfs.process,adddel,Vfs.vfsAddnewtask,root,there,Vfs.withVfs,real]
end

section
variable {s s' : Pm.Tables} {c : Pm.Addr} {t : Pm.PmTask} {rest : List Pm.Addr} {r : Pm.Request} {calls : List Pm.Call}

theorem spawnMakes (cmd : r.msg.cmd = .spawn) (did : Pm.Does s c t rest r s' calls) :
    Pm.created calls = (if r.task = 0 then [] else [r.task]) ∧ Pm.deleted calls = [] ∧
      (calls.filter filed = [] ∨ r.task ≠ 0 ∧ calls.filter filed = [.vfsCreatetask r.task t.pid r.vfs]) := by
  cases did with
  | spawned _ task record vfs args =>
    obtain ⟨new,old,-,-⟩ := Pm.setupCallsChanged r ⟨r.task,[],0,c,0⟩ r.msg.w1 r.msg.w0 (Pm.argvOf r r.msg.w2)
    refine ⟨?_,?_,.inr ⟨task,?_⟩⟩
    · simp only [Pm.createdAppend,new]
      simp [Pm.created,task]
    · simp only [Pm.deletedAppend,old]
      simp [Pm.deleted]
    · rw [List.filter_append,List.filter_append,setupCallsFiled]
      simp [filed,vfs]
  | unmade _ none =>
    by_cases task : r.task = 0
    · simp [Pm.created,Pm.deleted,filed,task]
    · simp [Pm.created,Pm.deleted,filed,task]
  | stillborn _ task record failed =>
    by_cases vfs : r.vfs = false
    · simp [List.filter_cons,Pm.created,Pm.deleted,filed,task,vfs]
    · simp [List.filter_cons,Pm.created,Pm.deleted,filed,task,vfs]
  | _ => simp_all

theorem spawnRefused (cmd : r.msg.cmd = .spawn) (none : r.task = 0) (did : Pm.Does s c t rest r s' calls) :
    s' = s ∧ calls = [.createtask 0,.send r.client r.msg] := by
  cases did with
  | spawned _ task => contradiction
  | stillborn _ task => contradiction
  | unmade => simp [none]
  | _ => simp_all

theorem spawnSucceeds (cmd : r.msg.cmd = .spawn) (given : ¬SpawnFails r) (did : Pm.Does s c t rest r s' calls) :
    r.task ≠ 0 ∧ Pm.sent calls = [(r.client,{ r.msg with w0 := r.task })] ∧ .setuptask r.task r.msg.w0 r.args ∈ calls ∧
      calls.filter trapped = [.createtask r.task,.stoptask r.task,.allocatestack r.task r.msg.w1 r.stack,
        .setuptask r.task r.msg.w0 r.args,.starttask r.task] := by
  simp only [SpawnFails,not_or] at given
  obtain ⟨task,record,vfs,args,-⟩ := given
  cases did with
  | spawned =>
    refine ⟨task,?_,?_,?_⟩
    · rw [Pm.sentAppend,Pm.sentAppend,Pm.setupCallsSent]
      rfl
    · simp [Pm.setupCalls]
    · rw [List.filter_append,List.filter_append,setupCallsTrapped]
      simp [List.filter_cons,trapped]
  | unmade _ none => exact absurd none (not_or.mpr ⟨task,record⟩)
  | stillborn _ _ _ failed => exact absurd failed (not_or.mpr ⟨vfs,args⟩)
  | _ => simp_all
end

/-! The three together -/

section
variable {σ : Type} {D : Vfs.Drivers σ} {pm : Pid} {w : World σ} {r : Pm.Request} {i : Kernel.Input} {c : Pm.Addr}
  {t : Pm.PmTask} {rest : List Pm.Addr} {y : Pm.Tx} {files : Vfs.System σ}

theorem spawnEnds (D : Vfs.Drivers σ) (pm : Pid) (cmd : r.msg.cmd = .spawn) (known : t.pid ∈ pids w.files.vfs)
    (served : Pm.serve w.machine.pm r = some y)
    (did : Pm.Does (Pm.attended w.machine.pm c) c t rest r y.pm y.calls) :
    ∃ files, request D pm w r i = some (⟨Pm.after w.machine y,y.calls.foldl (kernelCall pm i) w.kernel,w.others,files⟩,
      y.calls) ∧ y.calls.foldlM (fileAnswer D pm) w.files = some files := by
  have answered : ∃ files, y.calls.foldlM (fileAnswer D pm) w.files = some files := by
    rw [foldUnheard fileAnswerQuiet]
    obtain ⟨-,-,none | ⟨real,one⟩⟩ := spawnMakes cmd did
    · exact ⟨w.files,by rw [none]; rfl⟩
    · obtain ⟨g,got⟩ := addtaskAnswers D pm (f := w.files) r.vfs real known
      refine ⟨g,?_⟩
      simp [one,List.foldlM_cons,List.foldlM_nil,got]
  obtain ⟨files,all⟩ := answered
  exact ⟨files,by simp [request,served,all],all⟩

theorem spawnUndone (cmd : r.msg.cmd = .spawn) (none : r.task = 0) (null : r.msg.w0 = 0)
    (did : Pm.Does (Pm.attended w.machine.pm c) c t rest r y.pm y.calls)
    (filing : y.calls.foldlM (fileAnswer D pm) w.files = some files) :
    Undone w ⟨Pm.after w.machine y,y.calls.foldl (kernelCall pm i) w.kernel,w.others,files⟩ c r y.calls := by
  obtain ⟨same,calls⟩ := spawnRefused cmd none did
  obtain ⟨new,old,-⟩ := spawnMakes cmd did
  have still : w.files = files := by
    rw [calls] at filing
    simpa [fileAnswer,fileCall] using filing
  subst still
  refine ⟨⟨r.msg,by rw [calls]; rfl,null⟩,?_,rfl,rfl,fun p => ?_⟩
  · change y.pm.taskQ = _
    rw [same]
  · have alive : ((y.calls.foldl (kernelCall pm i) w.kernel).task p).isSome ↔ _ := kernelCreates old p
    rw [new,if_pos none] at alive
    exact Bool.eq_iff_iff.mpr (by simpa using alive)

theorem spawnStarts (cmd : r.msg.cmd = .spawn) (given : ¬SpawnFails r)
    (did : Pm.Does (Pm.attended w.machine.pm c) c t rest r y.pm y.calls) :
    Spawned w ⟨Pm.after w.machine y,y.calls.foldl (kernelCall pm i) w.kernel,w.others,files⟩ i r y.calls := by
  obtain ⟨real,replied,entry,calls⟩ := spawnSucceeds cmd given did
  have stack : stackGiven r.msg.w1 r.stack ≠ 0 := by
    simp only [SpawnFails,not_or] at given
    exact given.2.2.2.2
  obtain ⟨k,u,ran,there,sb,top,blocked,queue⟩ := createdStarted pm (i := i) (k := w.kernel) r.msg.w1 r.stack
    r.msg.w0 r.args real
  have same : y.calls.foldl (kernelCall pm i) w.kernel = k := by
    rw [kernelFiltered,calls,ran]
  rw [same]
  exact ⟨⟨_,replied,rfl⟩,entry,⟨u,there,sb.trans (stackWhole stack),top stack⟩,queue,blocked⟩

theorem spawnAllOrNothing {history : List Pm.Served} (run : Reaches Pm.step Pm.Possible Pm.Begun w.machine history)
    (possible : Pm.Possible w.machine r) (cmd : r.msg.cmd = .spawn) (free : r.task ≠ 0 → w.kernel.task r.task = none)
    (known : r.client ∈ pids w.files.vfs) :
    ∃ c t w' calls, Pm.Sender w.machine.pm r.client c t ∧ request D pm w r i = some (w',calls) ∧
      (AllOrNothing w w' c i r calls ↔ ¬SpawnFails r ∨ r.task = 0 ∧ r.msg.w0 = 0) := by
  obtain ⟨lost,table⟩ := (Pm.runMemory run).ledger
  obtain ⟨c,t,y,n,sender,served,-,did⟩ := Pm.serveEnds table possible
  rw [← sender.2.2] at known
  obtain ⟨files,ended,filing⟩ := spawnEnds D pm (i := i) cmd known served did
  refine ⟨c,t,_,_,sender,ended,?_,?_⟩
  · intro whole
    by_cases given : SpawnFails r
    · have undone := whole.1 given
      refine .inr ?_
      by_cases none : r.task = 0
      · obtain ⟨-,calls⟩ := spawnRefused cmd none did
        obtain ⟨msg,replied,null⟩ := undone.reply
        rw [calls] at replied
        have same : r.msg = msg := by simpa [Pm.sent] using replied
        exact ⟨none,same ▸ null⟩
      · -- The kernel's task is there now, and nobody takes it away.
        obtain ⟨new,old,-⟩ := spawnMakes cmd did
        have alive : ((y.calls.foldl (kernelCall pm i) w.kernel).task r.task).isSome :=
          (kernelCreates old r.task).mpr (.inl (by simp [new,none]))
        have still := undone.tasks r.task
        rw [free none] at still
        exact absurd (alive.symm.trans still) (by simp)
    · exact .inl given
  · rintro (given | ⟨none,null⟩)
    · exact ⟨fun fails => absurd fails given,fun _ => spawnStarts cmd given did⟩
    · exact ⟨fun _ => spawnUndone cmd none null did filing,fun given => absurd (.inl none) given⟩
end

-- init spawns a process that gets all it needs, or no argument block.
def demoChild : Pm.Request := { Pm.demoSpawn with stack := 0x900 }
def demoStarved : Pm.Request := { demoChild with args := 0 }

theorem demoBegun : Reaches Pm.step Pm.Possible Pm.Begun demoOpened.machine [] := by
  have booting : Pm.Booting Pm.demoBoot 100 := ⟨by decide,by decide,by decide⟩
  exact .start ⟨Pm.demoBoot,100,_,booting,(Option.some_get Pm.demoStarts).symm,rfl⟩

theorem demoPossible : Pm.Possible demoOpened.machine demoChild ∧ Pm.Possible demoOpened.machine demoStarved := by
  have sender : Pm.Sender demoOpened.machine.pm 50 60 ⟨50,[],0,0,70⟩ := ⟨by decide,rfl,rfl⟩
  exact ⟨⟨⟨_,_,sender⟩,.inr (by decide),by decide,by decide⟩,⟨⟨_,_,sender⟩,.inr (by decide),by decide,by decide⟩⟩

theorem spawnAllOrNothingOfChild : ¬SpawnFails demoChild ∧ ∃ c t w' calls, Pm.Sender demoOpened.machine.pm 50 c t ∧
    request Vfs.drivers 40 demoOpened demoChild demoInput = some (w',calls) ∧
    (AllOrNothing demoOpened w' c demoInput demoChild calls ↔
      ¬SpawnFails demoChild ∨ demoChild.task = 0 ∧ demoChild.msg.w0 = 0) := by
  refine ⟨by simp [SpawnFails,stackGiven,demoChild,Pm.demoSpawn],?_⟩
  exact spawnAllOrNothing demoBegun demoPossible.1 rfl (fun _ => rfl) (by decide)

theorem demoStarves : (request Vfs.drivers 40 demoOpened demoStarved demoInput).isSome := by rfl

-- The task, PM's record and VFS's record stay, and the answer is the entry of the program.
theorem spawnLeavesTask : ∃ history w' calls, Reaches Pm.step Pm.Possible Pm.Begun demoOpened.machine history ∧
    Pm.Possible demoOpened.machine demoStarved ∧ demoOpened.kernel.task 51 = none ∧ 50 ∈ pids demoOpened.files.vfs ∧
    request Vfs.drivers 40 demoOpened demoStarved demoInput = some (w',calls) ∧ SpawnFails demoStarved ∧
    Pm.sent calls = [(50,⟨.spawn,8,64,0⟩)] ∧ w'.machine.pm.taskQ = [60,61] ∧ pids w'.files.vfs = [50,51] ∧
    (w'.kernel.task 51).isSome ∧ ¬∃ c, AllOrNothing demoOpened w' c demoInput demoStarved calls := by
  have fails : SpawnFails demoStarved := by simp [SpawnFails,demoStarved]
  have ran : request Vfs.drivers 40 demoOpened demoStarved demoInput = some
      ((request Vfs.drivers 40 demoOpened demoStarved demoInput).get demoStarves) := (Option.some_get demoStarves).symm
  have made : ((request Vfs.drivers 40 demoOpened demoStarved demoInput).get demoStarves).1.kernel.task 51 |>.isSome := by
    decide +kernel
  refine ⟨[],_,_,demoBegun,demoPossible.2,rfl,by decide,ran,fails,by decide +kernel,by decide +kernel,
    by decide +kernel,made,?_⟩
  rintro ⟨c,whole⟩
  have still := (whole.1 fails).tasks 51
  exact absurd (made.symm.trans still) (by decide)

end Avros.Census
