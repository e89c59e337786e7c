import Avros.VfsClients
import Avros.PipeClosing

/-! What happens beyond the bounds: 256 descriptors of one entry make its counter 0, and
the entry is free while its inode is still grabbed. Each time this is done to an entry of
one pipe, the pipe counts one reference more, until its own counter has gone round. -/
namespace Avros.Vfs

-- Descriptors are in use and lead to a device, and so does the device of an OPEN.
def usable (s : Tables) (r : Request) : Bool :=
  if r.msg.cmd = .open_ then (device s r.msg.w0).isSome
  else if (fdArgument r.msg).isSome then
    decide (0 ≤ r.msg.w0) && decide (r.msg.w0 < maxFd) && (target s r).isSome
  else true

structure Valid (s : Session) (i : Input) : Prop extends Courteous s i where
  usable : usable s.sys.vfs i.request = true

theorem sessionProcess {s : Session} {i : Input} {y : Tx Devices}
    (ok : process drivers i.request (received s.sys i) = some y) :
    session s i = some (⟨⟨y.vfs,y.drv⟩,(settle (asking s.unanswered i.request) (finish i.request y)).1⟩,
      (settle (asking s.unanswered i.request) (finish i.request y)).2) := by
  have step : served s.sys i = some (⟨y.vfs,y.drv⟩,finish i.request y) := servedProcess ok
  unfold session
  rw [step]
  rfl

def Comes (s : Session) : Prop := ∃ history, Run.Reaches session Valid Opening s history

theorem Comes.step {s s' : Session} (client : Pid) (m : Msg) (comes : Comes s)
    (plain : (∀ fd, fdArgument m = some fd → fd < maxFd) ∧ m.cmd ≠ .hold ∧ ¬ Interrupt m.cmd)
    (free : client ≠ 0 ∧ owing s.unanswered client = 0)
    (fit : Avros.Vfs.usable s.sys.vfs (demoRequest client m) = true)
    (taken : ∃ told, session s (demoInput client m) = some (s',told)) : Comes s' := by
  obtain ⟨history,run⟩ := comes
  obtain ⟨told,taken⟩ := taken
  exact ⟨_,run.next ⟨courteous s plain free,fit⟩ taken⟩

/-! Task 0x11 waits for the pipe that is node 0, with both ends open. Task 0x10 opens the
same node once more, in entry 2. -/

def waitingRead : Msg := { demoMsg .readc 0 0 0 with client := 0x11 }
def opener (fds : List Int) : VfsTask := ⟨0x10,fds,1,0,1,0⟩
def reader : VfsTask := ⟨0x11,[0,1,-1,-1,-1,-1,-1,-1],1,0,1,0⟩
def fdsOf (k : Nat) : List Int := List.replicate k 2 ++ List.replicate (8 - k) (-1)
def child (pid : Pid) : VfsTask := ⟨pid,fdsOf 8,1,0,1,0⟩

def crowdTables (fds : List Int) (count : Int) (rest : List VfsTask) : Tables :=
  ⟨[1,0,0,0,0,0],0,⟨0,0,1,0⟩::⟨0,0,1,0⟩::⟨0,0,count,0⟩::List.replicate 13 ⟨0,0,0,0⟩,opener fds::reader::rest,0⟩

def crowdPipe (r : Int) : PdNodes := some ⟨r,0,[waitingRead]⟩::List.replicate 7 none

def crowd (d : Devices) (fds : List Int) (count : Int) (rest : List VfsTask) (r : Int) : Session :=
  ⟨⟨crowdTables fds count rest,putDevice d 1 (.pipedev (crowdPipe r))⟩,[(0x11,.readc)]⟩

def Crowded (fds : List Int) (count : Int) (rest : List VfsTask) (r : Int) : Prop :=
  ∃ d, Comes (crowd d fds count rest r)

theorem crowdStarts : Crowded (fdsOf 0) 0 [] 2 := by
  have start : Comes ⟨vfsInit drivers 1 noDevices,[]⟩ := ⟨[],.start ⟨⟨1,by decide,rfl⟩,rfl⟩⟩
  have added := start.step 2 (demoMsg .addtask 0x10 0 0) (by decide) ⟨by decide,rfl⟩ rfl ⟨_,rfl⟩
  have piped := added.step 0x10 (demoMsg .pipe 0 0 0) (by decide) ⟨by decide,rfl⟩ rfl ⟨_,rfl⟩
  have forked := piped.step 2 (demoMsg .addtask 0x11 0x10 0) (by decide) ⟨by decide,rfl⟩ rfl ⟨_,rfl⟩
  have half := forked.step 0x10 (demoMsg .close 0 0 0) (by decide) ⟨by decide,rfl⟩ rfl ⟨_,rfl⟩
  have closed := half.step 0x10 (demoMsg .close 1 0 0) (by decide) ⟨by decide,rfl⟩ rfl ⟨_,rfl⟩
  exact ⟨_,closed.step 0x11 (demoMsg .readc 0 0 0) (by decide) ⟨by decide,rfl⟩ rfl ⟨_,rfl⟩⟩

theorem crowdOpens {r : Int} (crowded : Crowded (fdsOf 0) 0 [] r) : Crowded (fdsOf 1) 1 [] (toChar (r + 1)) := by
  obtain ⟨d,comes⟩ := crowded
  exact ⟨_,comes.step 0x10 (demoMsg .open_ 0 0 0) (by decide) ⟨by decide,rfl⟩ rfl ⟨_,rfl⟩⟩

theorem crowdDup {r : Int} {k : Nat} (range : 1 ≤ k ∧ k < 8) (crowded : Crowded (fdsOf k) k [] r) :
    Crowded (fdsOf (k + 1)) (k + 1 : Nat) [] r := by
  obtain ⟨d,comes⟩ := crowded
  refine ⟨{ d with rx := 0 },?_⟩
  obtain rfl | rfl | rfl | rfl | rfl | rfl | rfl : k = 1 ∨ k = 2 ∨ k = 3 ∨ k = 4 ∨ k = 5 ∨ k = 6 ∨ k = 7 := by omega
  all_goals exact comes.step 0x10 (demoMsg .dup 0 0 0) (by decide) ⟨by decide,rfl⟩ rfl ⟨_,rfl⟩

theorem crowdDups {r : Int} (crowded : Crowded (fdsOf 1) 1 [] r) : Crowded (fdsOf 8) 8 [] r := by
  have more : ∀ k, k < 8 → Crowded (fdsOf (k + 1)) (k + 1 : Nat) [] r := by
    intro k few
    induction k with
    | zero => exact crowded
    | succ k ih => exact crowdDup ⟨by omega,few⟩ (ih (by omega))
  exact more 7 (by decide)

theorem crowdForks {count r : Int} {rest : List VfsTask} (pid : Pid) (crowded : Crowded (fdsOf 8) count rest r) :
    Crowded (fdsOf 8) (toChar (count + 8)) (rest ++ [child pid]) r := by
  obtain ⟨d,comes⟩ := crowded
  have eight : toChar (toChar (toChar (toChar (toChar (toChar (toChar (toChar (count + 1) + 1) + 1) + 1) + 1) + 1) + 1) + 1) =
      toChar (count + 8) := by
    unfold toChar
    omega
  refine ⟨{ d with rx := 0 },?_⟩
  rw [← eight]
  exact comes.step 2 (demoMsg .addtask pid 0x10 0)
    ⟨by simp [fdArgument,demoMsg],by simp [demoMsg],by simp [demoMsg,Interrupt]⟩ ⟨by decide,rfl⟩ rfl ⟨_,rfl⟩

def children (n : Nat) : List VfsTask := (List.range n).map (fun k => child (0x20 + k))

theorem crowdGrows {r : Int} (crowded : Crowded (fdsOf 8) 8 [] r) (n : Nat) :
    Crowded (fdsOf 8) (toChar (8 + 8 * n)) (children n) r := by
  induction n with
  | zero => exact crowded
  | succ n ih =>
    have next := crowdForks (0x20 + n) ih
    have count : toChar (toChar (8 + 8 * n) + 8) = toChar (8 + 8 * (n + 1 : Nat)) := by
      rw [toCharAdd]
      congr 1
    rw [count] at next
    have more : children (n + 1) = children n ++ [child (0x20 + n)] := by simp [children,List.range_succ]
    rw [more]
    exact next

theorem doCloseDead {x : Tx Devices} {pid : Pid} {t : VfsTask} {fp : Int} {f : Filp} (given : 0 ≤ x.msg.w0)
    (found : vfsFindbypid x.vfs pid = some t) (at_ : descriptor t x.msg.w0.toNat = some fp) (real : 0 ≤ fp)
    (entry : x.vfs.filp[fp.toNat]? = some f) (zero : f.refcnt = 0) :
    doClose drivers pid x = some (withVfs x (putFd x.vfs pid x.msg.w0.toNat (-1))) := by
  have entry' : (withVfs x (putFd x.vfs pid x.msg.w0.toNat (-1))).vfs.filp[fp.toNat]? = some f := entry
  unfold doClose
  rw [if_neg (Int.not_lt.mpr given),found]
  simp only [bind,Option.bind_some,at_,if_neg (Int.not_lt.mpr real),entry',if_pos zero]

def leaving (pid : Pid) (k : Nat) : VfsTask := ⟨pid,List.replicate k (-1) ++ List.replicate (8 - k) 2,1,0,1,0⟩

theorem leavingFound {pid : Pid} (apart : pid ≠ 0x10 ∧ pid ≠ 0x11) (fds : List Int) (rest : List VfsTask) (k : Nat) :
    vfsFindbypid (crowdTables fds 0 (leaving pid k::rest)) pid = some (leaving pid k) := by
  simp [vfsFindbypid,crowdTables,opener,reader,leaving,apart.1.symm,apart.2.symm]

/- The descriptors of a task that goes away lead to an entry that counts nothing. -/
theorem crowdClose {pid : Pid} (apart : pid ≠ 0x10 ∧ pid ≠ 0x11) (fds : List Int) (rest : List VfsTask)
    (drv : Devices) (msg : Msg) (log : List (Event Devices)) {k : Nat} (range : k < 8) :
    doClose drivers pid (reply ⟨crowdTables fds 0 (leaving pid k::rest),drv,msg,log⟩ k) =
      some ⟨crowdTables fds 0 (leaving pid (k + 1)::rest),drv,{ msg with w0 := k },log⟩ := by
  have at_ : descriptor (leaving pid k) k = some 2 ∧ setDescriptor k (-1) (leaving pid k) = leaving pid (k + 1) := by
    obtain rfl | rfl | rfl | rfl | rfl | rfl | rfl | rfl :
      k = 0 ∨ k = 1 ∨ k = 2 ∨ k = 3 ∨ k = 4 ∨ k = 5 ∨ k = 6 ∨ k = 7 := by omega
    all_goals exact ⟨rfl,rfl⟩
  have closed : putFd (crowdTables fds 0 (leaving pid k::rest)) pid k (-1) =
      crowdTables fds 0 (leaving pid (k + 1)::rest) := by
    have same : (leaving pid k).pid = pid := rfl
    have first : (opener fds).pid ≠ pid := apart.1.symm
    have second : reader.pid ≠ pid := apart.2.symm
    unfold putFd onTask crowdTables
    simp only [onFirst,if_neg first,if_neg second,if_pos same,at_.2]
  have dead := doCloseDead (x := reply ⟨crowdTables fds 0 (leaving pid k::rest),drv,msg,log⟩ k)
    (Int.natCast_nonneg k) (leavingFound apart fds rest k) at_.1 (by decide) rfl rfl
  rw [dead]
  change some (withVfs _ (putFd (crowdTables fds 0 (leaving pid k::rest)) pid k (-1))) = _
  rw [closed]
  rfl

theorem crowdCloses {pid : Pid} (apart : pid ≠ 0x10 ∧ pid ≠ 0x11) (fds : List Int) (rest : List VfsTask)
    (drv : Devices) (msg : Msg) (log : List (Event Devices)) :
    closeAll drivers pid (List.range maxFd) ⟨crowdTables fds 0 (child pid::rest),drv,msg,log⟩ =
      some ⟨crowdTables fds 0 (leaving pid 8::rest),drv,{ msg with w0 := 7 },log⟩ := by
  have closing : ∀ is k msg, k + is = 8 → 0 < is →
      closeAll drivers pid (List.range' k is) ⟨crowdTables fds 0 (leaving pid k::rest),drv,msg,log⟩ =
        some ⟨crowdTables fds 0 (leaving pid 8::rest),drv,{ msg with w0 := 7 },log⟩ := by
    intro is
    induction is with
    | zero => intro k msg _ none; omega
    | succ is ih =>
      intro k msg total _
      rw [List.range'_succ,closeAll,crowdClose apart fds rest drv msg log (by omega)]
      simp only [bind,Option.bind_some]
      by_cases last : is = 0
      · obtain rfl : k = 7 := by omega
        rw [last]
        rfl
      · rw [ih (k + 1) { msg with w0 := k } (by omega) (by omega)]
  rw [List.range_eq_range']
  exact closing 8 0 msg (by decide) (by decide)

theorem crowdRemoves {pid : Pid} (apart : pid ≠ 0x10 ∧ pid ≠ 0x11) (fds : List Int) (rest : List VfsTask)
    (drv : Devices) (log : List (Event Devices)) :
    vfsRemovetask drivers ⟨crowdTables fds 0 (child pid::rest),drv,demoMsg .deltask pid 0 0,log⟩ =
      some ⟨crowdTables fds 0 rest,drv,demoMsg .deltask 7 0 0,log⟩ := by
  have found : vfsFindbypid (crowdTables fds 0 (child pid::rest)) pid = some (child pid) :=
    leavingFound apart fds rest 0
  have named : (demoMsg .deltask pid 0 0).w0.toNat = pid := Int.toNat_natCast pid
  have erased : (crowdTables fds 0 (leaving pid 8::rest)).taskQ.eraseP (·.pid = pid) =
      opener fds::reader::rest := by
    simp [crowdTables,opener,reader,leaving,apart.1.symm,apart.2.symm]
  unfold vfsRemovetask
  dsimp only
  rw [named,found]
  dsimp only
  have same : (child pid).pid = pid := rfl
  rw [same,crowdCloses apart]
  simp only [bind,Option.bind_some,withVfs,erased]
  rfl

theorem crowdShrinks {pid : Pid} {r : Int} {rest : List VfsTask} (apart : pid ≠ 0x10 ∧ pid ≠ 0x11)
    (crowded : Crowded (fdsOf 8) 0 (child pid::rest) r) : Crowded (fdsOf 8) 0 rest r := by
  obtain ⟨d,comes⟩ := crowded
  refine ⟨{ d with rx := 0 },comes.step 2 (demoMsg .deltask pid 0 0)
    ⟨by simp [fdArgument,demoMsg],by simp [demoMsg],by simp [demoMsg,Interrupt]⟩ ⟨by decide,rfl⟩ rfl ?_⟩
  have removed := crowdRemoves apart (fdsOf 8) rest (putDevice { d with rx := 0 } 1 (.pipedev (crowdPipe r))) []
  exact ⟨_,sessionProcess (s := crowd d (fdsOf 8) 0 (child pid::rest) r)
    (i := demoInput 2 (demoMsg .deltask pid 0 0)) removed⟩

theorem crowdEmpties {r : Int} {rest : List VfsTask} (apart : ∀ t ∈ rest, ∃ pid, t = child pid ∧ pid ≠ 0x10 ∧ pid ≠ 0x11)
    (crowded : Crowded (fdsOf 8) 0 rest r) : Crowded (fdsOf 8) 0 [] r := by
  induction rest with
  | nil => exact crowded
  | cons t rest ih =>
    obtain ⟨pid,rfl,other⟩ := apart t List.mem_cons_self
    exact ih (fun u member => apart u (List.mem_cons_of_mem _ member)) (crowdShrinks other crowded)

theorem crowdLeave {r : Int} {k : Nat} (range : k < 8) (crowded : Crowded (fdsOf (k + 1)) 0 [] r) :
    Crowded (fdsOf k) 0 [] r := by
  obtain ⟨d,comes⟩ := crowded
  refine ⟨{ d with rx := 0 },?_⟩
  obtain rfl | rfl | rfl | rfl | rfl | rfl | rfl | rfl :
    k = 0 ∨ k = 1 ∨ k = 2 ∨ k = 3 ∨ k = 4 ∨ k = 5 ∨ k = 6 ∨ k = 7 := by omega
  · exact comes.step 0x10 (demoMsg .close 0 0 0) (by decide) ⟨by decide,rfl⟩ rfl ⟨_,rfl⟩
  · exact comes.step 0x10 (demoMsg .close 1 0 0) (by decide) ⟨by decide,rfl⟩ rfl ⟨_,rfl⟩
  · exact comes.step 0x10 (demoMsg .close 2 0 0) (by decide) ⟨by decide,rfl⟩ rfl ⟨_,rfl⟩
  · exact comes.step 0x10 (demoMsg .close 3 0 0) (by decide) ⟨by decide,rfl⟩ rfl ⟨_,rfl⟩
  · exact comes.step 0x10 (demoMsg .close 4 0 0) (by decide) ⟨by decide,rfl⟩ rfl ⟨_,rfl⟩
  · exact comes.step 0x10 (demoMsg .close 5 0 0) (by decide) ⟨by decide,rfl⟩ rfl ⟨_,rfl⟩
  · exact comes.step 0x10 (demoMsg .close 6 0 0) (by decide) ⟨by decide,rfl⟩ rfl ⟨_,rfl⟩
  · exact comes.step 0x10 (demoMsg .close 7 0 0) (by decide) ⟨by decide,rfl⟩ rfl ⟨_,rfl⟩

theorem crowdLeaves {r : Int} {k : Nat} (range : k ≤ 8) (crowded : Crowded (fdsOf k) 0 [] r) :
    Crowded (fdsOf 0) 0 [] r := by
  induction k with
  | zero => exact crowded
  | succ k ih => exact ih (by omega) (crowdLeave (by omega) crowded)

-- A round: 256 descriptors of entry 2, and then none. The pipe has kept one reference.
theorem crowdRound {r : Int} (crowded : Crowded (fdsOf 0) 0 [] r) : Crowded (fdsOf 0) 0 [] (toChar (r + 1)) := by
  have wrapped : Crowded (fdsOf 8) 0 (children 31) (toChar (r + 1)) := crowdGrows (crowdDups (crowdOpens crowded)) 31
  refine crowdLeaves (k := 8) (by decide) (crowdEmpties ?_ wrapped)
  intro t member
  obtain ⟨k,-,rfl⟩ := List.mem_map.mp member
  have high : 0x20 ≤ 0x20 + k := Nat.le_add_right _ _
  exact ⟨0x20 + k,rfl,Nat.ne_of_gt (Nat.lt_of_lt_of_le (by decide) high),
    Nat.ne_of_gt (Nat.lt_of_lt_of_le (by decide) high)⟩

theorem crowdRounds (n : Nat) : Crowded (fdsOf 0) 0 [] (toChar (2 + n)) := by
  induction n with
  | zero => exact crowdStarts
  | succ n ih =>
    have next := crowdRound ih
    rw [toCharAdd,Int.add_assoc] at next
    exact next

/- The pipe counts 256 references, that is none; it is opened and closed once more, and
goes away with the reader in it. -/
theorem blockedReaderForgotten : ∃ s history, Run.Reaches session Valid Opening s history ∧
    s.unanswered = [(0x11,.readc)] ∧ stored 0x11 s.sys.vfs s.sys.drv = 0 := by
  obtain ⟨d,opened⟩ := crowdOpens (crowdRounds 254)
  obtain ⟨history,run⟩ := opened.step 0x10 (demoMsg .close 0 0 0) (by decide) ⟨by decide,rfl⟩ rfl ⟨_,rfl⟩
  exact ⟨_,history,run,rfl,rfl⟩

/-! The same for the pipe alone: what VFS has sent it is a MKNOD, a read, and GRABs. -/

def Grabbed (r : Int) : Prop := ∃ grabs history, Run.Reaches pipeServe Sendable FreshPipes ⟨crowdPipe r,grabs⟩ history

theorem grabbedStarts : Grabbed 2 := by
  have start : Run.Reaches pipeServe Sendable FreshPipes ⟨pipedevStart,fun _ => 0⟩ [] := .start ⟨rfl,fun _ => rfl⟩
  have made := start.next (i := demoMsg .mknod 0 0 0) ⟨by decide,by simp [demoMsg]⟩ rfl
  have once := made.next (i := demoMsg .inodeGrab 0 0 0) ⟨by decide,by simp [demoMsg]⟩ rfl
  have twice := once.next (i := demoMsg .inodeGrab 0 0 0) ⟨by decide,by simp [demoMsg]⟩ rfl
  exact ⟨_,_,twice.next (i := waitingRead) ⟨by decide,by simp [waitingRead,demoMsg]⟩ rfl⟩

theorem grabbedRounds (n : Nat) : Grabbed (toChar (2 + n)) := by
  induction n with
  | zero => exact grabbedStarts
  | succ n ih =>
    obtain ⟨grabs,history,run⟩ := ih
    have next := run.next (i := demoMsg .inodeGrab 0 0 0) ⟨by decide,by simp [demoMsg]⟩ rfl
    have count : toChar (toChar (2 + n) + 1) = toChar (2 + (n + 1 : Nat)) := by
      rw [toCharAdd,Int.add_assoc]
      rfl
    rw [← count]
    exact ⟨_,_,next⟩

/- 128 references are -128 to the driver: the reader waits in a pipe that the driver takes
for closed, and VFS can bring it there. -/
theorem readerLeftWaiting : ∃ (p : PipeState) (history : List (Msg × List Msg)) (node : PdNode),
    Run.Reaches pipeServe Sendable FreshPipes p history ∧ p.nodes[0]? = some (some node) ∧ node.refcnt ≤ 1 ∧
    node.links = 0 ∧ node.msgs ≠ [] ∧
    ∃ s told, Run.Reaches session Valid Opening s told ∧ s.sys.drv.task 1 = some (.pipedev p.nodes) := by
  obtain ⟨grabs,history,run⟩ := grabbedRounds 126
  obtain ⟨d,told,came⟩ := crowdRounds 126
  exact ⟨_,history,_,run,rfl,by decide,rfl,by simp,_,told,came,rfl⟩

end Avros.Vfs
