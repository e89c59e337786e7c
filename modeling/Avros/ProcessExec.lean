import Avros.ProcessSpawn
import Avros.ArgumentVector

/-! PM_EXEC across EX, PM and the kernel. EX keeps the programs in the order they were
registered in; a program it does not know has no entry. -/
namespace Avros.Census
open Run
open Kernel (Pid)

structure ExPrg where
  name : List Nat
  stack : Nat
  ptr : Pm.Addr
  deriving DecidableEq, Repr

def exGetPrg (name : List Nat) : List ExPrg → Pm.Addr × Nat
  | [] => (0,0)
  | it::rest => if name = it.name then (it.ptr,it.stack) else exGetPrg name rest

-- The request with EX's answer; `name` is the string exec.ask.name points to.
def asked (programs : List ExPrg) (name : List Nat) (r : Pm.Request) : Pm.Request :=
  { r with prg := (exGetPrg name programs).1, prgStack := (exGetPrg name programs).2 }

section
variable {σ : Type}

/- The new vector stands in a block of its size before anything old is given up. It reads
back as the caller's, wherever the block fits into memory. -/
structure Copied (r : Pm.Request) (argv : List (List Nat)) (calls : List Pm.Call) : Prop where
  first : ∃ later, calls = [.exGetprg r.msg.w0 r.prg r.prgStack,.kmalloc (Pm.argvSize argv) r.args,
    .wrote (Pm.cookArgstack r.args argv)] ++ later
  whole : Pm.Strings argv → r.args + Pm.argvSize argv ≤ 65536 → ∀ m,
    Pm.VectorAt (Pm.poke m (Pm.cookArgstack r.args argv)) r.args argv

structure Replaced (programs : List ExPrg) (name : List Nat) (w w' : World σ) (c : Pm.Addr) (t : Pm.PmTask)
    (i : Kernel.Input) (r : Pm.Request) (calls : List Pm.Call) : Prop where
  entry : ∃ prg ∈ programs, prg.name = name ∧ .setuptask r.client prg.ptr r.args ∈ calls ∧
    .allocatestack r.client prg.stack r.stack ∈ calls
  vector : Copied r (Pm.argvOf r r.msg.w1) calls
  task : ∃ u, w'.kernel.task r.client = some u ∧ u.sb = r.stack ∧ r.stack ≠ 0 ∧
    u.sp = .frame .setup { i.noise r.client with p0 := r.args }
  ready : ∃ u, w.kernel.task r.client = some u ∧ w'.kernel.queue u.prio = w.kernel.queue u.prio ++ [r.client]
  blocked : w'.kernel.blocked = Queue.qRemv w.kernel.blocked r.client
  record : w'.machine.pm.record c = some { t with chunkQ := [], args := r.args }
  chunks : ∀ k ∈ t.chunkQ, (Pm.released calls).count k.ptr = 1 ∧ (Pm.released calls).count k.self = 1
  args : t.args ≠ 0 → (Pm.released calls).count t.args = 1

structure Refused (w w' : World σ) (c : Pm.Addr) (t : Pm.PmTask) (r : Pm.Request) (calls : List Pm.Call) : Prop where
  reply : ∃ msg, Pm.sent calls = [(r.client,msg)]
  task : w'.kernel.task r.client = w.kernel.task r.client
  record : w'.machine.pm.record c = some t
  chunks : Pm.released calls = []
end

section
variable {s s' : Pm.Tables} {c : Pm.Addr} {t : Pm.PmTask} {rest : List Pm.Addr} {r : Pm.Request} {calls : List Pm.Call}

theorem exGetPrgFound {programs : List ExPrg} {name : List Nat} (found : (exGetPrg name programs).1 ≠ 0) :
    ∃ prg ∈ programs, prg.name = name ∧ exGetPrg name programs = (prg.ptr,prg.stack) := by
  induction programs with
  | nil => contradiction
  | cons it rest ih =>
    unfold exGetPrg at found ⊢
    by_cases same : name = it.name
    · exact ⟨it,List.mem_cons_self,same.symm,if_pos same⟩
    · rw [if_neg same] at found ⊢
      obtain ⟨prg,member,named,answer⟩ := ih found
      exact ⟨prg,List.mem_cons_of_mem _ member,named,answer⟩

theorem execCases (cmd : r.msg.cmd = .exec) (did : Pm.Does s c t rest r s' calls) :
    (r.prg = 0 ∧ s' = s ∧ calls = [.exGetprg r.msg.w0 r.prg r.prgStack,.send r.client r.msg]) ∨
    (r.prg ≠ 0 ∧ r.args = 0 ∧ calls = [.exGetprg r.msg.w0 r.prg r.prgStack,
      .kmalloc (Pm.pmArgstackSize (Pm.argvOf r r.msg.w1)) 0]) ∨
    (r.prg ≠ 0 ∧ r.args ≠ 0 ∧ s' = Pm.update s c { t with chunkQ := [], args := r.args } ∧
      calls = [.exGetprg r.msg.w0 r.prg r.prgStack] ++ Pm.setupCalls r t r.prgStack r.prg (Pm.argvOf r r.msg.w1) ++
        [.starttask t.pid]) := by
  cases did with
  | unknown _ missing => exact .inl ⟨missing,rfl,rfl⟩
  | stuck _ found failed => exact .inr (.inl ⟨found,failed,rfl⟩)
  | replaced _ found args => exact .inr (.inr ⟨found,args,rfl,rfl⟩)
  | _ => simp_all

theorem sizeFits {argv : List (List Nat)} : Pm.pmArgstackSize argv = Pm.argvSize argv ↔ Pm.argvSize argv < 65536 := by
  rw [Pm.argstackSize]
  omega

theorem setupCallsOwn (t : Pm.PmTask) (size : Nat) (ptr : Pm.Addr) (argv : List (List Nat)) :
    .setuptask t.pid ptr r.args ∈ Pm.setupCalls r t size ptr argv ∧
      .allocatestack t.pid size r.stack ∈ Pm.setupCalls r t size ptr argv := by
  unfold Pm.setupCalls
  exact ⟨List.mem_append_right _ (by simp),List.mem_append_right _ (by simp)⟩

theorem setupCallsFirst (t : Pm.PmTask) (size : Nat) (ptr : Pm.Addr) {argv : List (List Nat)}
    (fits : Pm.argvSize argv < 65536) : ∃ later, Pm.setupCalls r t size ptr argv =
      [.kmalloc (Pm.argvSize argv) r.args,.wrote (Pm.cookArgstack r.args argv)] ++ later := by
  unfold Pm.setupCalls
  rw [sizeFits.mpr fits]
  simp only [List.append_assoc,List.cons_append,List.nil_append,List.cons.injEq,true_and]
  exact ⟨_,rfl⟩

theorem execQuiet (cmd : r.msg.cmd = .exec) (did : Pm.Does s c t rest r s' calls) : calls.filter filed = [] := by
  rcases execCases cmd did with ⟨-,-,rfl⟩ | ⟨-,-,rfl⟩ | ⟨-,-,-,rfl⟩
  · rfl
  · rfl
  · rw [List.filter_append,List.filter_append,setupCallsFiled]
    rfl
end

section
variable {σ : Type} {D : Vfs.Drivers σ} {pm : Pid} {w : World σ} {r : Pm.Request} {i : Kernel.Input} {c : Pm.Addr}
  {t : Pm.PmTask} {rest : List Pm.Addr} {y : Pm.Tx}

theorem execEnds (D : Vfs.Drivers σ) (pm : Pid) (cmd : r.msg.cmd = .exec) (served : Pm.serve w.machine.pm r = some y)
    (did : Pm.Does (Pm.attended w.machine.pm c) c t rest r y.pm y.calls) :
    request D pm w r i = some (⟨Pm.after w.machine y,y.calls.foldl (kernelCall pm i) w.kernel,w.others,w.files⟩,
      y.calls) := by
  have quiet : y.calls.foldlM (fileAnswer D pm) w.files = some w.files := by
    rw [foldUnheard fileAnswerQuiet,execQuiet cmd did]
    rfl
  simp [request,served,quiet]

theorem execKernel (pm : Pid) {u : Kernel.Task} (real : t.pid ≠ 0) (alive : w.kernel.task t.pid = some u)
    (calls : y.calls = [.exGetprg r.msg.w0 r.prg r.prgStack] ++
      Pm.setupCalls r t r.prgStack r.prg (Pm.argvOf r r.msg.w1) ++ [.starttask t.pid]) :
    ∃ v, (y.calls.foldl (kernelCall pm i) w.kernel).task t.pid = some v ∧ v.sb = stackGiven r.prgStack r.stack ∧
      (stackGiven r.prgStack r.stack ≠ 0 → v.sp = .frame .setup { i.noise t.pid with p0 := r.args }) ∧
      (y.calls.foldl (kernelCall pm i) w.kernel).blocked = Queue.qRemv w.kernel.blocked t.pid ∧
      (y.calls.foldl (kernelCall pm i) w.kernel).queue u.prio = w.kernel.queue u.prio ++ [t.pid] := by
  have traps : y.calls.filter trapped = [.stoptask t.pid,.allocatestack t.pid r.prgStack r.stack,
      .setuptask t.pid r.prg r.args,.starttask t.pid] := by
    rw [calls,List.filter_append,List.filter_append,setupCallsTrapped]
    simp [List.filter_cons,trapped]
  obtain ⟨k,v,ran,there,sb,top,blocked,queue⟩ := restarted pm (i := i) r.prgStack r.stack r.prg r.args real alive
  rw [kernelFiltered,traps,ran]
  exact ⟨v,there,sb,top,blocked,queue⟩

theorem execRefuses (none : r.prg = 0) (cmd : r.msg.cmd = .exec) (sender : Pm.Sender w.machine.pm r.client c t)
    (did : Pm.Does (Pm.attended w.machine.pm c) c t rest r y.pm y.calls) :
    Refused w ⟨Pm.after w.machine y,y.calls.foldl (kernelCall pm i) w.kernel,w.others,w.files⟩ c t r y.calls := by
  rcases execCases cmd did with ⟨-,same,calls⟩ | ⟨found,-⟩ | ⟨found,-⟩
  · refine ⟨⟨r.msg,by rw [calls]; rfl⟩,?_,?_,by rw [calls]; rfl⟩
    · change (y.calls.foldl (kernelCall pm i) w.kernel).task r.client = _
      rw [calls]
      rfl
    · change y.pm.record c = some t
      rw [same]
      exact sender.2.1
  · contradiction
  · contradiction

theorem execReplaces {programs : List ExPrg} {name : List Nat} {history : List Pm.Served}
    (answer : exGetPrg name programs = (r.prg,r.prgStack)) (found : r.prg ≠ 0) (args : r.args ≠ 0)
    (fits : Pm.argvSize (Pm.argvOf r r.msg.w1) < 65536) (stack : stackGiven r.prgStack r.stack ≠ 0)
    (run : Reaches Pm.step Pm.Possible Pm.Begun w.machine history) (possible : Pm.Possible w.machine r)
    (cmd : r.msg.cmd = .exec) (real : r.client ≠ 0) (alive : (w.kernel.task r.client).isSome)
    (sender : Pm.Sender w.machine.pm r.client c t)
    (did : Pm.Does (Pm.attended w.machine.pm c) c t (w.machine.pm.taskQ.erase c) r y.pm y.calls) :
    Replaced programs name w ⟨Pm.after w.machine y,y.calls.foldl (kernelCall pm i) w.kernel,w.others,w.files⟩ c t i r
      y.calls := by
  have memory := Pm.runMemory run
  obtain ⟨lost,table⟩ := memory.ledger
  have sound := (table.attended sender.1).sound
  have once := Pm.freedOnce table possible.offered sender did
  have known : (exGetPrg name programs).1 ≠ 0 := by
    rw [answer]
    exact found
  obtain ⟨prg,member,named,entry⟩ := exGetPrgFound known
  obtain ⟨ptr,size⟩ := Prod.mk.inj (answer.symm.trans entry)
  obtain ⟨u,there⟩ := Option.isSome_iff_exists.mp alive
  have pid := sender.2.2
  rcases execCases cmd did with ⟨none,-⟩ | ⟨-,none,-⟩ | ⟨-,-,same,calls⟩
  · contradiction
  · contradiction
  rw [← pid] at real there
  obtain ⟨v,here,sb,top,blocked,queue⟩ := execKernel pm (i := i) real there calls
  rw [pid] at here top blocked queue there
  refine ⟨⟨prg,member,named,?_,?_⟩,⟨?_,fun plain inside => Pm.argstackCooked plain inside⟩,
    ⟨v,here,sb.trans (stackWhole stack),stackWhole stack ▸ stack,top stack⟩,⟨u,there,queue⟩,blocked,?_,?_,?_⟩
  · rw [calls,← ptr,← pid]
    exact List.mem_append_left _ (List.mem_append_right _ (setupCallsOwn t r.prgStack r.prg _).1)
  · rw [calls,← size,← pid]
    exact List.mem_append_left _ (List.mem_append_right _ (setupCallsOwn t r.prgStack r.prg _).2)
  · obtain ⟨later,split⟩ := setupCallsFirst (r := r) t r.prgStack r.prg fits
    rw [calls,split]
    exact ⟨later ++ [.starttask t.pid],by simp⟩
  · change y.pm.record c = _
    rw [same]
    exact Pm.updateAt _ c _
  · intro k chunk
    obtain ⟨ptr,self⟩ := memory.solid c t sender.2.1 k chunk
    exact ⟨Pm.countOne once (Pm.chunkFreed sound did (.inr ⟨cmd,found,args⟩) chunk (.inl rfl) ptr),
      Pm.countOne once (Pm.chunkFreed sound did (.inr ⟨cmd,found,args⟩) chunk (.inr rfl) self)⟩
  · intro old
    refine Pm.countOne once ?_
    obtain ⟨-,-,-,went⟩ := Pm.setupCallsChanged r t r.prgStack r.prg (Pm.argvOf r r.msg.w1)
    rw [calls,Pm.releasedAppend,Pm.releasedAppend]
    refine List.mem_append_left _ (List.mem_append_right _ (went.mem_iff.mpr ?_))
    exact List.mem_filter.mpr ⟨List.mem_cons_self,by simpa using old⟩

theorem execServed {programs : List ExPrg} {name : List Nat} {w' : World σ} (found : r.prg ≠ 0)
    (cmd : r.msg.cmd = .exec) (real : r.client ≠ 0) (alive : (w.kernel.task r.client).isSome)
    (sender : Pm.Sender w.machine.pm r.client c t) (kernel : w'.kernel = y.calls.foldl (kernelCall pm i) w.kernel)
    (did : Pm.Does (Pm.attended w.machine.pm c) c t rest r y.pm y.calls)
    (ending : Replaced programs name w w' c t i r y.calls ∨ Refused w w' c t r y.calls) :
    r.args ≠ 0 ∧ Pm.argvSize (Pm.argvOf r r.msg.w1) < 65536 ∧ stackGiven r.prgStack r.stack ≠ 0 := by
  rcases execCases cmd did with ⟨none,-⟩ | ⟨-,-,calls⟩ | ⟨-,args,-,calls⟩
  · contradiction
  · -- The calls end with the kmalloc that failed.
    exfalso
    rcases ending with replaced | refused
    · obtain ⟨prg,-,-,setup,-⟩ := replaced.entry
      rw [calls] at setup
      simp at setup
    · obtain ⟨msg,replied⟩ := refused.reply
      rw [calls] at replied
      contradiction
  · rcases ending with replaced | refused
    · refine ⟨args,?_,?_⟩
      · obtain ⟨later,same⟩ := replaced.vector.first
        simp only [calls,Pm.setupCalls,List.append_assoc,List.cons_append,List.nil_append,List.cons.injEq,
          Pm.Call.kmalloc.injEq] at same
        exact sizeFits.mp same.2.1.1
      · obtain ⟨v,here,sb,given,-⟩ := replaced.task
        obtain ⟨u,there⟩ := Option.isSome_iff_exists.mp alive
        rw [← sender.2.2] at real there here
        obtain ⟨v',here',sb',-⟩ := execKernel pm (i := i) real there calls
        rw [kernel,here'] at here
        cases Option.some.inj here
        rw [← sb',sb]
        exact given
    · exfalso
      obtain ⟨msg,replied⟩ := refused.reply
      rw [calls,Pm.sentAppend,Pm.sentAppend,Pm.setupCallsSent] at replied
      contradiction

theorem execReplacesOrReturns (D : Vfs.Drivers σ) (pm : Pid) {programs : List ExPrg} {name : List Nat}
    {history : List Pm.Served} (run : Reaches Pm.step Pm.Possible Pm.Begun w.machine history)
    (possible : Pm.Possible w.machine (asked programs name r))
    (cmd : r.msg.cmd = .exec) (real : r.client ≠ 0) (alive : (w.kernel.task r.client).isSome) :
    ∃ c t w' calls, Pm.Sender w.machine.pm r.client c t ∧ request D pm w (asked programs name r) i = some (w',calls) ∧
      (Replaced programs name w w' c t i (asked programs name r) calls ∨ Refused w w' c t (asked programs name r) calls ↔
        (exGetPrg name programs).1 = 0 ∨ r.args ≠ 0 ∧ Pm.argvSize (Pm.argvOf r r.msg.w1) < 65536 ∧
          stackGiven (exGetPrg name programs).2 r.stack ≠ 0) := by
  obtain ⟨lost,table⟩ := (Pm.runMemory run).ledger
  obtain ⟨c,t,y,n,sender,served,-,did⟩ := Pm.serveEnds table possible
  refine ⟨c,t,_,_,sender,execEnds D pm cmd served did,?_,?_⟩
  · intro ending
    by_cases none : (exGetPrg name programs).1 = 0
    · exact .inl none
    · exact .inr (execServed (r := asked programs name r) none cmd real alive sender rfl did ending)
  · rintro (none | ⟨args,fits,stack⟩)
    · exact .inr (execRefuses none cmd sender did)
    · by_cases none : (exGetPrg name programs).1 = 0
      · exact .inr (execRefuses none cmd sender did)
      · exact .inl (execReplaces rfl none args fits stack run possible cmd real alive sender did)
end

-- init asks for sh, and waits in blocked_q for PM's answer.
def demoPrograms : List ExPrg := [⟨[115,104],128,12⟩]
def demoSh : Pm.Request := ⟨50,⟨.exec,9,200,0⟩,[[115,104]],0,0,71,0,0,true,0x900,0,0⟩
def demoStuck : Pm.Request := { demoSh with args := 0 }
def demoWaiting : World Vfs.Devices :=
  { demoOpened with kernel := { demoOpened.kernel with queue := fun _ => [], blocked := [50] } }

theorem demoAsks : Pm.Possible demoWaiting.machine (asked demoPrograms [115,104] demoSh) ∧
    Pm.Possible demoWaiting.machine (asked demoPrograms [115,104] demoStuck) := by
  have sender : Pm.Sender demoWaiting.machine.pm 50 60 ⟨50,[],0,0,70⟩ := ⟨by decide,rfl,rfl⟩
  exact ⟨⟨⟨_,_,sender⟩,.inr ⟨by decide,by decide⟩⟩,⟨⟨_,_,sender⟩,.inr ⟨by decide,by decide⟩⟩⟩

theorem execReplacesOrReturnsSh : ∃ c t w' calls, Pm.Sender demoWaiting.machine.pm 50 c t ∧
    request Vfs.drivers 40 demoWaiting (asked demoPrograms [115,104] demoSh) demoInput = some (w',calls) ∧
    (Replaced demoPrograms [115,104] demoWaiting w' c t demoInput (asked demoPrograms [115,104] demoSh) calls ∨
      Refused demoWaiting w' c t (asked demoPrograms [115,104] demoSh) calls) := by
  obtain ⟨c,t,w',calls,sender,served,exactly⟩ := execReplacesOrReturns Vfs.drivers 40 (i := demoInput)
    (w := demoWaiting) (r := demoSh) demoBegun demoAsks.1 rfl (by decide) (by decide +kernel)
  exact ⟨c,t,w',calls,sender,served,exactly.mpr (.inr (by decide))⟩

-- Without the argument block nothing is sent and nobody is started: init waits for good.
theorem execLeavesCaller : ∃ history w' calls, Reaches Pm.step Pm.Possible Pm.Begun demoWaiting.machine history ∧
    Pm.Possible demoWaiting.machine (asked demoPrograms [115,104] demoStuck) ∧ (demoWaiting.kernel.task 50).isSome ∧
    request Vfs.drivers 40 demoWaiting (asked demoPrograms [115,104] demoStuck) demoInput = some (w',calls) ∧
    calls = [.exGetprg 9 12 128,.kmalloc 7 0] ∧ 50 ∈ w'.kernel.blocked ∧
    ¬∃ c t, Replaced demoPrograms [115,104] demoWaiting w' c t demoInput (asked demoPrograms [115,104] demoStuck) calls ∨
      Refused demoWaiting w' c t (asked demoPrograms [115,104] demoStuck) calls := by
  have seen : (request Vfs.drivers 40 demoWaiting (asked demoPrograms [115,104] demoStuck) demoInput).map
      (fun x => (x.2,x.1.kernel.blocked)) = some ([.exGetprg 9 12 128,.kmalloc 7 0],[50]) := by decide +kernel
  obtain ⟨⟨w',calls⟩,ran,same⟩ := Option.map_eq_some_iff.mp seen
  obtain ⟨rfl,blocked⟩ := Prod.mk.inj same
  refine ⟨[],w',_,demoBegun,demoAsks.2,by decide +kernel,ran,rfl,?_,?_⟩
  · rw [blocked]
    exact List.mem_singleton.mpr rfl
  · rintro ⟨c,t,replaced | refused⟩
    · obtain ⟨prg,-,-,setup,-⟩ := replaced.entry
      simp at setup
    · obtain ⟨msg,replied⟩ := refused.reply
      contradiction

end Avros.Census
