import Avros.MemFileTransfer
import Avros.VfsBadDescriptors
import Avros.VfsExchanges

/-! PIPE and OPEN when there is nothing to give. do_pipe makes the node and takes both
references before it looks for entries and descriptors, and gives nothing back when there
are none; do_open sends to whatever stands in devtab. -/
namespace Avros.Vfs

/-! The table of devices, which MKDEV alone changes. -/

structure SameDevices (s s' : Tables) : Prop where
  devtab : s'.devtab = s.devtab
  idx : s'.pipedevIdx = s.pipedevIdx

section
variable {σ : Type} {D : Drivers σ} {x y : Tx σ} {s s' s'' : Tables} {client : Pid}

theorem SameDevices.device (same : SameDevices s s') (d : Int) : device s' d = device s d := by
  unfold Vfs.device
  rw [same.devtab]

theorem devicesStable (s : Tables) : Stable (SameDevices s) where
  put _ _ _ _ same _ := ⟨same.devtab,same.idx⟩
  filp _ _ same := ⟨same.devtab,same.idx⟩
  debug _ _ same := ⟨same.devtab,same.idx⟩
  empty _ _ _ _ _ _ same := ⟨same.devtab,same.idx⟩
  child _ _ _ _ same _ _ := ⟨same.devtab,same.idx⟩
  erased _ _ same := ⟨same.devtab,same.idx⟩

theorem processDevices {r : Request} (other : r.msg.cmd ≠ .mkdev) (ok : process D r x = some y) : SameDevices x.vfs y.vfs :=
  (devicesStable x.vfs).process ⟨rfl,rfl⟩ other ok

-- What every message to a driver keeps, a request keeps that starts no driver.
theorem Exchanges.always {r : Request} {P : σ → Prop} {start : σ} (begun : P start) (other : r.msg.cmd ≠ .mkdev)
    (kept : ∀ drv pid msg drv' replies, P drv → D.ask drv pid msg = some (drv',replies) → P drv') :
    Exchanges D s start r P where
  starts call := absurd call other
  plain drv pid msg drv' replies held _ asked := kept drv pid msg drv' replies held asked
  links drv pid msg drv' made next drv'' replies held _ first _ _ second :=
    kept drv' pid next drv'' replies (kept drv pid msg drv' [made] held first) second
  transfers _ pid msg drv' replies _ asked := kept start pid msg drv' replies begun asked

end

/-! The devices over every run. -/

def DriversRun (s : System Devices) : Prop := ∀ d pid, device s.vfs d = some pid → ∃ dv, s.drv.task pid = some dv

def MakesPipes (s : System Devices) : Prop :=
  ∃ pid nodes, device s.vfs s.vfs.pipedevIdx = some pid ∧ s.drv.task pid = some (.pipedev nodes)

-- createtask() answers with a task that is not a device yet.
def NewTask (s : System Devices) (i : Input) : Prop := i.request.newtask ≠ 0 → i.request.newtask ∉ s.vfs.devtab

theorem plainTask (s : System Devices) (client : Pid) (m : Msg) : NewTask s (demoInput client m) :=
  fun real => absurd rfl real

theorem startedRuns (s : System Devices) (start : Started s) : DriversRun s := by
  intro d pid there
  obtain ⟨dv,running,-⟩ := (startedSettled start).kept d pid there
  exact ⟨dv,running⟩

theorem startedNeat (s : System Devices) (start : Started s) : Neat s.vfs := by
  obtain ⟨newtask,-,rfl⟩ := start
  intro t member
  contradiction

theorem startedPipes (s : System Devices) (start : Started s) : MakesPipes s :=
  (startedSettled start).piped

theorem askRuns {drv drv' : Devices} {pid q : Pid} {msg : Msg} {replies : List Msg} (runs : ∃ dv, drv.task q = some dv)
    (asked : drivers.ask drv pid msg = some (drv',replies)) : ∃ dv, drv'.task q = some dv := by
  obtain ⟨d,d',-,-,rfl⟩ := askSource asked
  by_cases same : q = pid
  · rw [same]
    exact ⟨d',putSelf drv pid d'⟩
  · rw [putOther drv same]
    exact runs

theorem askPipes {drv drv' : Devices} {pid q : Pid} {msg : Msg} {replies : List Msg}
    (pipes : ∃ nodes, drv.task q = some (.pipedev nodes)) (asked : drivers.ask drv pid msg = some (drv',replies)) :
    ∃ nodes, drv'.task q = some (.pipedev nodes) := by
  obtain ⟨d,d',there,turn,rfl⟩ := askSource asked
  by_cases same : q = pid
  · rw [same] at pipes ⊢
    obtain ⟨nodes,running⟩ := pipes
    cases Option.some.inj (there.symm.trans running)
    obtain ⟨⟨after,told⟩,-,last⟩ := Option.map_eq_some_iff.mp turn
    cases last
    exact ⟨after,putSelf drv pid _⟩
  · rw [putOther drv same]
    exact pipes

section
variable {s s' : System Devices} {i : Input} {out : List (Event Devices)}

theorem servedNeat (neat : Neat s.vfs) (taken : served s i = some (s',out)) : Neat s'.vfs :=
  vfsNeat (D := drivers) (s := ⟨s.vfs,{ s.drv with rx := i.rx }⟩) (r := i.request) neat taken

theorem servedRuns (runs : DriversRun s) (taken : served s i = some (s',out)) : DriversRun s' := by
  obtain ⟨y,processed,rfl,-⟩ := servedSource taken
  intro d pid there
  by_cases call : i.request.msg.cmd = .mkdev
  · simp only [process,call] at processed
    cases Option.some.inj processed
    unfold doMkdev at there ⊢
    split at there
    · exact runs d pid there
    rename_i slot empty
    obtain ⟨inside,-⟩ := List.findIdx?_eq_some_iff_getElem.mp empty
    have stands := (deviceSet (s := s.vfs) i.request.newtask inside d).symm.trans there
    by_cases same : pid = i.request.newtask
    · rw [same]
      exact ⟨_,putSelf _ _ _⟩
    · have kept : ∀ dv, (putDevice { s.drv with rx := i.rx } i.request.newtask dv).task pid = s.drv.task pid :=
        fun dv => putOther _ same dv
      have old : device s.vfs d = some pid := by
        split at stands
        · split at stands
          · contradiction
          · exact absurd (Option.some.inj stands).symm same
        · exact stands
      obtain ⟨dv,running⟩ := runs d pid old
      exact ⟨dv,(kept _).trans running⟩
  · rw [(processDevices call processed).device] at there
    have always : Exchanges drivers s.vfs (received s i).drv i.request (fun drv => ∃ dv, drv.task pid = some dv) :=
      .always (runs d pid there) call (fun _ _ _ _ _ held asked => askRuns held asked)
    exact always.process rfl (runs d pid there) processed

theorem servedPipes (pipes : MakesPipes s) (new : NewTask s i) (taken : served s i = some (s',out)) : MakesPipes s' := by
  obtain ⟨y,processed,rfl,-⟩ := servedSource taken
  obtain ⟨pid,nodes,there,running⟩ := pipes
  by_cases call : i.request.msg.cmd = .mkdev
  · simp only [process,call] at processed
    cases Option.some.inj processed
    have stays := (doMkdevKeeps (x := received s i) i.request.newtask).2.2 _ _ there
    unfold doMkdev at stays ⊢
    split at stays
    · exact ⟨pid,nodes,there,running⟩
    obtain ⟨real,member⟩ := deviceTask there
    have other : pid ≠ i.request.newtask := by
      rintro rfl
      exact new real member
    exact ⟨pid,nodes,stays,(putOther _ other _).trans running⟩
  · have same := processDevices call processed
    have always : Exchanges drivers s.vfs (received s i).drv i.request
        (fun drv => ∃ nodes, drv.task pid = some (.pipedev nodes)) :=
      .always ⟨nodes,running⟩ call (fun _ _ _ _ _ held asked => askPipes held asked)
    obtain ⟨after,still⟩ := always.process rfl ⟨nodes,running⟩ processed
    refine ⟨pid,after,?_,still⟩
    rw [same.device,same.idx]
    exact there

end

def Answers (s : System Devices) (i : Input) (P : System Devices → Msg → Prop) : Prop :=
  ∃ s' out m, served s i = some (s',out) ∧ .sent i.request.client m ∈ out ∧ P s' m

structure Untouched (s s' : System Devices) (client : Pid) : Prop where
  fds : (vfsFindbypid s'.vfs client).map (·.fd) = (vfsFindbypid s.vfs client).map (·.fd)
  counts : s'.vfs.filp.map (·.refcnt) = s.vfs.filp.map (·.refcnt)
  nodes : s'.drv.task = s.drv.task

section
variable {s : System Devices} {i : Input} {P : System Devices → Msg → Prop} {y : Tx Devices}

theorem answersServed (answers : Answers s i P) : ∃ y, process drivers i.request (received s i) = some y := by
  obtain ⟨s',out,m,taken,-⟩ := answers
  obtain ⟨y,processed,-⟩ := servedSource taken
  exact ⟨y,processed⟩

section
variable (call : i.request.msg.cmd = .open_ ∨ i.request.msg.cmd = .pipe)
  (processed : process drivers i.request (received s i) = some y) (quiet : ∀ c m, .sent c m ∉ y.log)
include call processed quiet

theorem answersSource (answers : Answers s i P) : i.request.client ≠ 0 ∧ P ⟨y.vfs,y.drv⟩ { y.msg with cmd := .final } := by
  obtain ⟨s',out,m,taken,told,holds⟩ := answers
  rw [servedProcess processed] at taken
  obtain ⟨rfl,rfl⟩ := Prod.mk.inj (Option.some.inj taken)
  have last := finishTold told quiet
  refine ⟨?_,last ▸ holds⟩
  intro null
  have named : answered i.request y = i.request.client := answeredClient (by rcases call with h | h <;> simp [h]) y
  unfold finish at told
  rw [named,if_neg (fun h => h.2 null)] at told
  exact quiet _ _ told

omit quiet in
theorem answersLast (real : i.request.client ≠ 0) (speaks : y.msg.cmd ≠ .hold)
    (holds : P ⟨y.vfs,y.drv⟩ { y.msg with cmd := .final }) : Answers s i P := by
  have named : answered i.request y = i.request.client := answeredClient (by rcases call with h | h <;> simp [h]) y
  refine ⟨_,_,_,servedProcess processed,?_,holds⟩
  unfold finish
  rw [named,if_pos ⟨speaks,real⟩]
  exact List.mem_append_right _ (List.mem_singleton_self _)

end

end

/-! An OPEN. -/

-- GRAB takes any number for the terminal, and VFS takes a negative one for a refusal.
def Accepts (n : Int) (dv : Device) : Prop := 0 ≤ n ∧ Present n dv

def Accepted (s : System Devices) (dev ino : Int) : Prop :=
  ∃ pid dv, device s.vfs dev = some pid ∧ s.drv.task pid = some dv ∧ Accepts ino dv

theorem grabInTable {rx : Int} {msg : Msg} {dv : Device} (call : msg.cmd = .inodeGrab) (inside : InTable msg.w0 dv) :
    ∃ dv' m, askDevice rx msg dv = some (dv',[m]) ∧ m.cmd = .inodeGrab ∧ (¬ Accepts msg.w0 dv → m.w0 < 0 ∧ dv' = dv) := by
  cases dv with
  | pipedev nodes =>
    simp only [askDevice,pipedev,call]
    cases found : nodeAt nodes msg.w0 with
    | none => exact absurd found inside
    | some entry =>
      cases entry with
      | none => exact ⟨_,_,rfl,rfl,fun _ => ⟨(by decide : (-1 : Int) < 0),rfl⟩⟩
      | some node =>
        obtain ⟨index,-⟩ := nodeAtSome found
        exact ⟨_,_,rfl,call,fun refused => absurd ⟨by omega,node,found⟩ refused⟩
  | memfile nodes =>
    simp only [askDevice,memfile,call]
    cases found : nodeAt nodes msg.w0 with
    | none => exact absurd found inside
    | some entry =>
      cases entry with
      | none => exact ⟨_,_,rfl,rfl,fun _ => ⟨(by decide : (-1 : Int) < 0),rfl⟩⟩
      | some node =>
        obtain ⟨index,-⟩ := nodeAtSome found
        exact ⟨_,_,rfl,call,fun refused => absurd ⟨by omega,node,found⟩ refused⟩
  | ttyUsart0 t =>
    simp only [askDevice,ttyUsart0,call]
    refine ⟨_,_,rfl,call,?_⟩
    intro refused
    exact ⟨Int.not_le.mp (fun given => refused ⟨given,trivial⟩),rfl⟩

theorem grabReturns {rx : Int} {msg : Msg} {dv : Device} {r : Device × List Msg} (call : msg.cmd = .inodeGrab)
    (ok : askDevice rx msg dv = some r) : InTable msg.w0 dv := by
  cases dv with
  | pipedev nodes =>
    intro outside
    simp [askDevice,pipedev,call,outside] at ok
  | memfile nodes =>
    intro outside
    simp [askDevice,memfile,call,outside] at ok
  | ttyUsart0 t => exact trivial

theorem putSame {drv : Devices} {pid : Pid} {dv : Device} (running : drv.task pid = some dv) :
    (putDevice drv pid dv).task = drv.task := by
  unfold putDevice
  rw [← running]
  exact Function.update_eq_self pid drv.task

theorem putFilpCounts {s : Tables} {fp : Nat} {f g : Filp} (entry : s.filp[fp]? = some f) (same : g.refcnt = f.refcnt) :
    (putFilp s fp g).filp.map (·.refcnt) = s.filp.map (·.refcnt) := by
  have count : (s.filp.map (·.refcnt))[fp]? = some f.refcnt := by
    rw [List.getElem?_map,entry]
    rfl
  obtain ⟨inside,there⟩ := List.getElem?_eq_some_iff.mp count
  unfold putFilp
  rw [List.map_set,same,← there]
  exact List.set_getElem_self inside

theorem openGrabs {σ : Type} {D : Drivers σ} {s : Tables} {drv drv' : σ} {msg m : Msg} {client : Pid} {t : VfsTask}
    {fd fp : Nat} {f : Filp} {pid : Pid} (found : vfsFindbypid s client = some t) (free : findEmptyFd t = some fd)
    (empty : findEmptyFilp s = some fp) (entry : s.filp[fp]? = some f) (there : device s msg.w0 = some pid)
    (asked : D.ask drv pid { msg with cmd := .inodeGrab, w0 := msg.w1 } = some (drv',[m])) :
    ∃ x : Tx σ, x.vfs = putFilp s fp { f with dev := msg.w0, ino := msg.w1, pos := 0 } ∧ x.drv = drv' ∧ x.msg = m ∧
      (m.w0 < 0 → doOpen D client ⟨s,drv,msg,[]⟩ = some (reply x (-1))) ∧
      (¬ m.w0 < 0 → doOpen D client ⟨s,drv,msg,[]⟩ = some (reply (withVfs x (putFd (incRef x.vfs fp) client fd fp)) fd)) := by
  refine ⟨⟨_,drv',m,[.asked drv pid { msg with cmd := .inodeGrab, w0 := msg.w1 }]⟩,rfl,rfl,rfl,?_⟩
  have stands : device (putFilp s fp { f with dev := msg.w0, ino := msg.w1, pos := 0 }) msg.w0 = some pid := there
  simp only [doOpen,found,free,empty,entry,withVfs,stands,sendrec,asked,bind,Option.bind_some,List.nil_append]
  exact ⟨fun refused => if_pos refused,fun granted => if_neg granted⟩

theorem openQuiet {σ : Type} {D : Drivers σ} {x y : Tx σ} {client : Pid} (ok : doOpen D client x = some y)
    (quiet : ∀ c m, .sent c m ∉ x.log) : ∀ c m, .sent c m ∉ y.log := by
  intro c m
  rcases doOpenCases ok with rfl | ⟨t,fd,fp,f,pid,z,-,-,-,-,-,asked,outcome⟩
  · exact quiet c m
  obtain ⟨drv,n,-,rfl⟩ := sendrecSource asked
  rcases outcome with ⟨-,rfl⟩ | ⟨-,rfl⟩
  · simp [reply,quiet c m]
  · simp [reply,withVfs,quiet c m]

section
variable {s : System Devices} {i : Input} {t : VfsTask}

/- The OPEN is served and answered. A descriptor is given for an inode that the driver of a
registered device accepts, and for no other: then the client is told -1 and keeps what it
had, and so do the drivers. -/
def Validated (s : System Devices) (i : Input) : Prop :=
  Answers s i (fun s' m => (0 ≤ m.w0 → Accepted s i.request.msg.w0 i.request.msg.w1) ∧
    (¬ Accepted s i.request.msg.w0 i.request.msg.w1 → m.w0 = -1 ∧ Untouched s s' i.request.client))

structure Safe (s : System Devices) (i : Input) : Prop where
  real : i.request.client ≠ 0
  target : ∃ t, vfsFindbypid s.vfs i.request.client = some t ∧
    (findEmptyFd t = none ∨ findEmptyFilp s.vfs = none ∨
      ∃ pid, device s.vfs i.request.msg.w0 = some pid ∧ ∀ dv, s.drv.task pid = some dv → InTable i.request.msg.w1 dv)

theorem openRefused (real : i.request.client ≠ 0) (call : i.request.msg.cmd = .open_)
    (refused : doOpen drivers i.request.client (received s i) = some (reply (received s i) (-1))) : Validated s i := by
  have processed : process drivers i.request (received s i) = some (reply (received s i) (-1)) := by
    simpa only [process,call] using refused
  have speaks : i.request.msg.cmd ≠ .hold := by simp [call]
  refine answersLast (.inl call) processed real speaks ⟨?_,fun _ => ⟨rfl,rfl,rfl,rfl⟩⟩
  intro given
  exact absurd given (by decide : ¬ (0 : Int) ≤ -1)

theorem openAsked (real : i.request.client ≠ 0) (call : i.request.msg.cmd = .open_)
    (found : vfsFindbypid s.vfs i.request.client = some t) {fd fp : Nat} (free : findEmptyFd t = some fd)
    (empty : findEmptyFilp s.vfs = some fp) {pid : Pid} {dv : Device} (there : device s.vfs i.request.msg.w0 = some pid)
    (running : s.drv.task pid = some dv) (inside : InTable i.request.msg.w1 dv) : Validated s i := by
  obtain ⟨slot,-⟩ := List.findIdx?_eq_some_iff_getElem.mp empty
  have entry : s.vfs.filp[fp]? = some s.vfs.filp[fp] := List.getElem?_eq_getElem slot
  obtain ⟨dv',m,turn,named,refused⟩ :=
    @grabInTable i.rx { i.request.msg with cmd := .inodeGrab, w0 := i.request.msg.w1 } dv rfl inside
  have asked : drivers.ask { s.drv with rx := i.rx } pid { i.request.msg with cmd := .inodeGrab, w0 := i.request.msg.w1 } =
      some (putDevice { s.drv with rx := i.rx } pid dv',[m]) := by
    simp only [drivers,running,turn,bind,Option.bind_some]
  obtain ⟨x,tables,drv,rfl,refuses,grants⟩ := openGrabs found free empty entry there asked
  have passed : process drivers i.request (received s i) = doOpen drivers i.request.client (received s i) := by
    simp only [process,call]
  by_cases negative : x.msg.w0 < 0
  · refine answersLast (.inl call) (passed.trans (refuses negative)) real (by simp [reply,named]) ⟨?_,?_⟩
    · intro given
      exact absurd given (by decide : ¬ (0 : Int) ≤ -1)
    · intro unaccepted
      have same : dv' = dv := (refused (fun accepts => unaccepted ⟨pid,dv,there,running,accepts⟩)).2
      refine ⟨rfl,?_,?_,?_⟩
      · change (vfsFindbypid x.vfs _).map _ = _
        rw [tables]
        rfl
      · change x.vfs.filp.map _ = _
        rw [tables]
        exact putFilpCounts entry rfl
      · change x.drv.task = _
        rw [drv,same]
        exact putSame running
  · have accepts : Accepts i.request.msg.w1 dv := by
      by_contra unaccepted
      exact negative (refused unaccepted).1
    have accepted : Accepted s i.request.msg.w0 i.request.msg.w1 := ⟨pid,dv,there,running,accepts⟩
    exact answersLast (.inl call) (passed.trans (grants negative)) real (by simp [reply,withVfs,named])
      ⟨fun _ => accepted,fun unaccepted => absurd accepted unaccepted⟩

/-- In every state that is reached, an OPEN is validated exactly if something it needs is
missing before VFS looks at its target, or its target is safe to ask for. -/
theorem openValidatesTarget {history : List (Event Devices)} (run : Run.Reaches served (fun _ _ => True) Started s history)
    (call : i.request.msg.cmd = .open_) : Validated s i ↔ Safe s i := by
  have runs : DriversRun s := run.stateInvariant startedRuns (fun _ _ _ _ held _ taken => servedRuns held taken)
  constructor
  · intro validated
    obtain ⟨y,processed⟩ := answersServed validated
    have opened : doOpen drivers i.request.client (received s i) = some y := by simpa only [process,call] using processed
    have real := (answersSource (.inl call) processed (openQuiet opened (by simp [received])) validated).1
    simp only [doOpen,bind,Option.bind_eq_some_iff] at opened
    obtain ⟨t,found,opened⟩ := opened
    refine ⟨real,t,found,?_⟩
    split at opened
    · rename_i full
      exact .inl full
    split at opened
    · rename_i full
      exact .inr (.inl full)
    simp only [Option.bind_eq_some_iff] at opened
    obtain ⟨f,-,pid,there,z,asked,-⟩ := opened
    refine .inr (.inr ⟨pid,there,?_⟩)
    intro dv running
    obtain ⟨drv,m,turn,-⟩ := sendrecSource asked
    obtain ⟨d,d',standing,answer,-⟩ := askSource turn
    cases Option.some.inj (running.symm.trans standing)
    exact grabReturns rfl answer
  · rintro ⟨real,t,found,target⟩
    have refused : findEmptyFd t = none ∨ findEmptyFilp s.vfs = none → Validated s i := by
      intro full
      refine openRefused real call ?_
      have known : vfsFindbypid (received s i).vfs i.request.client = some t := found
      simp only [doOpen,known,bind,Option.bind_some]
      split
      · rfl
      · rename_i fd free
        have none : findEmptyFilp (received s i).vfs = none := full.resolve_left (by simp [free])
        rw [none]
    cases free : findEmptyFd t with
    | none => exact refused (.inl free)
    | some fd =>
      cases empty : findEmptyFilp s.vfs with
      | none => exact refused (.inr empty)
      | some fp =>
        obtain full | full | ⟨pid,there,inside⟩ := target
        · exact refused (.inl full)
        · exact refused (.inr full)
        · obtain ⟨dv,running⟩ := runs _ _ there
          exact openAsked real call found free empty there running (inside dv running)

end

-- memfile becomes device 1, and its node 3 does not exist.
theorem openValidatesTargetOfMissing : ∃ s history, Run.Reaches served (fun _ _ => True) Started s history ∧
    Validated s (demoInput 0x10 (demoMsg .open_ 1 3 0)) ∧ ¬ Accepted s 1 3 := by
  have start : Run.Reaches served (fun _ _ => True) Started (vfsInit drivers 1 noDevices) [] := .start ⟨1,by decide,rfl⟩
  have disk := start.next (i := ⟨⟨3,{ demoMsg .mkdev 0 0 0 with driver := .memfile },2,fun _ => true⟩,0⟩) trivial rfl
  have added := disk.next (i := demoInput 2 (demoMsg .addtask 0x10 0 0)) trivial rfl
  refine ⟨_,_,added,?_,?_⟩
  · refine (openValidatesTarget added (i := demoInput 0x10 (demoMsg .open_ 1 3 0)) rfl).mpr ⟨by decide,_,rfl,?_⟩
    refine .inr (.inr ⟨2,rfl,?_⟩)
    intro dv running
    cases Option.some.inj running
    exact (by decide : nodeAt memfileStart 3 ≠ none)
  · rintro ⟨pid,dv,there,running,-,present⟩
    cases Option.some.inj there
    cases Option.some.inj running
    obtain ⟨node,found⟩ := present
    have missing : nodeAt memfileStart 3 = some none := by decide +kernel
    cases Option.some.inj (missing.symm.trans found)

-- Device 5 is not registered: VFS sends to NULL and does not come back.
theorem openOfUnregisteredDevice : ∃ s history, Run.Reaches served (fun _ _ => True) Started s history ∧
    device s.vfs 5 = none ∧ ¬ Validated s (demoInput 0x10 (demoMsg .open_ 5 0 0)) ∧
    served s (demoInput 0x10 (demoMsg .open_ 5 0 0)) = none := by
  have start : Run.Reaches served (fun _ _ => True) Started (vfsInit drivers 1 noDevices) [] := .start ⟨1,by decide,rfl⟩
  have added := start.next (i := demoInput 2 (demoMsg .addtask 0x10 0 0)) trivial rfl
  refine ⟨_,_,added,rfl,?_,rfl⟩
  rintro ⟨s',out,m,taken,-⟩
  cases taken

/-! A PIPE. -/

def freeEntries (s : Tables) : Nat := s.filp.countP (·.refcnt = 0)
def freeFds (t : VfsTask) : Nat := t.fd.countP (· < 0)

theorem firstTaken {α : Type} {p : α → Bool} {l : List α} {i : Nat} {a : α} (found : l.findIdx? p = some i)
    (taken : p a = false) : l.countP p = (l.set i a).countP p + 1 := by
  obtain ⟨inside,free,-⟩ := List.findIdx?_eq_some_iff_getElem.mp found
  have some_ : 0 < l.countP p := List.countP_pos_iff.mpr ⟨_,List.getElem_mem inside,free⟩
  rw [List.countP_set inside,if_pos free,taken]
  simp only [Bool.false_eq_true,if_false]
  omega

theorem firstFree {α : Type} {p : α → Bool} {l : List α} (some_ : 0 < l.countP p) : ∃ i, l.findIdx? p = some i := by
  cases found : l.findIdx? p with
  | some i => exact ⟨i,rfl⟩
  | none =>
    have none_ : l.countP p = 0 := List.countP_eq_zero.mpr (by simpa using found)
    omega

section
variable {s s' : Tables} {client : Pid} {ino : Int} {t : VfsTask} {fd : Nat}

theorem pipeEndGiven (ino : Int) (found : vfsFindbypid s client = some t) (entries : 0 < freeEntries s) (fds : 0 < freeFds t) :
    ∃ fd s', pipeEnd client ino s = some (some (fd,s')) := by
  obtain ⟨fp,empty⟩ := firstFree entries
  obtain ⟨fd,free⟩ := firstFree fds
  obtain ⟨inside,-⟩ := List.findIdx?_eq_some_iff_getElem.mp empty
  have slot : findEmptyFilp s = some fp := empty
  have own : findEmptyFd t = some fd := free
  simp only [pipeEnd,slot,found,own,List.getElem?_eq_getElem inside,bind,Option.bind_some]
  exact ⟨_,_,rfl⟩

theorem pipeEndTakes (ok : pipeEnd client ino s = some (some (fd,s'))) (found : vfsFindbypid s client = some t)
    (width : t.fd.length = maxFd) : freeEntries s = freeEntries s' + 1 ∧
    ∃ t', vfsFindbypid s' client = some t' ∧ t'.fd.length = maxFd ∧ freeFds t = freeFds t' + 1 := by
  rcases pipeEndCases ok with none | ⟨fp,u,i,f,empty,known,free,entry,same⟩
  · contradiction
  obtain ⟨rfl,rfl⟩ := Prod.mk.inj (Option.some.inj same)
  cases Option.some.inj (found.symm.trans known)
  obtain ⟨inside,-⟩ := emptyFd free width
  have zero := emptyFilp empty entry
  refine ⟨?_,setDescriptor fd fp t,putFdFind fd fp found,?_,?_⟩
  · refine firstTaken empty ?_
    rw [zero]
    rfl
  · rw [setDescriptorFd inside,List.length_set,width]
  · unfold freeFds
    rw [setDescriptorFd inside]
    exact firstTaken free (by simp)

end

theorem sendrecAsked {σ : Type} {D : Drivers σ} {s : Tables} {drv drv' : σ} {msg m : Msg} {log : List (Event σ)} {pid : Pid}
    (asked : D.ask drv pid msg = some (drv',[m])) :
    sendrec D ⟨s,drv,msg,log⟩ pid = some ⟨s,drv',m,log ++ [.asked drv pid msg]⟩ := by
  simp only [sendrec,asked]

section
variable {s : Tables} {drv : Devices} {msg : Msg} {client pid : Pid} {nodes : PdNodes} {ino : Nat}

theorem asksPipedev {after : PdNodes} {replies : List Msg} (running : drv.task pid = some (.pipedev nodes))
    (turn : pipedev nodes msg = some (after,replies)) :
    drivers.ask drv pid msg = some (putDevice drv pid (.pipedev after),replies) := by
  simp only [drivers,running,askDevice,turn,bind,Option.bind_some,Option.map_some]

/- do_pipe as far as the two ends: the node is made and grabbed twice. -/
theorem pipeGrabs (there : device s s.pipedevIdx = some pid) (running : drv.task pid = some (.pipedev nodes))
    (free : pdFindEmptyNode nodes = some ino) :
    ∃ z : Tx Devices, z.vfs = s ∧ z.drv.task pid = some (.pipedev (nodes.set ino (some ⟨2,0,[]⟩))) ∧
      z.msg.cmd = .inodeGrab ∧ (∀ c m, .sent c m ∉ z.log) ∧
      doPipe drivers client ⟨s,drv,msg,[]⟩ = (pipeEnd client ino s).bind (fun first => match first with
        | none => some (failPipe z)
        | some (fdi,s) => (pipeEnd client ino s).bind (fun second => match second with
          | none => some (failPipe { z with vfs := s, msg := { z.msg with w0 := fdi } })
          | some (fdo,s) => some { z with vfs := s, msg := { z.msg with w0 := fdi, w1 := fdo, w2 := 0 } })) := by
  have inside : ino < nodes.length := (List.findIdx?_eq_some_iff_getElem.mp free).1
  have held : ∀ n : PdNode, nodeAt (nodes.set ino (some n)) (ino : Int) = some (some n) := by
    intro n
    rw [nodeAtNat]
    exact List.getElem?_set_self inside
  let grabs : Msg := { msg with cmd := .inodeGrab, w0 := ino }
  let node (refcnt : Int) : PdNodes := nodes.set ino (some ⟨refcnt,0,[]⟩)
  have made : drivers.ask drv pid { msg with cmd := .mknod } =
      some (putDevice drv pid (.pipedev (node 0)),[{ msg with cmd := .mknod, w0 := ino }]) :=
    asksPipedev running (by simp only [pipedev,free,bind,Option.bind_some]; rfl)
  have grabbed : ∀ n, toChar (n + 1) = n + 1 → pipedev (node n) grabs = some (node (n + 1),[grabs]) := by
    intro n small
    simp only [pipedev,grabs,node,held,bind,Option.bind_some,Int.toNat_natCast,List.set_set,small]
  let one := putDevice drv pid (.pipedev (node 0))
  let two := putDevice one pid (.pipedev (node 1))
  let three := putDevice two pid (.pipedev (node 2))
  have once : drivers.ask one pid grabs = some (two,[grabs]) := asksPipedev (putSelf drv pid _) (grabbed 0 rfl)
  have twice : drivers.ask two pid grabs = some (three,[grabs]) := asksPipedev (putSelf one pid _) (grabbed 1 rfl)
  have real : ¬ (ino : Int) < 0 := Int.not_lt.mpr (Int.natCast_nonneg ino)
  refine ⟨⟨s,three,grabs,[.asked drv pid { msg with cmd := .mknod },.asked one pid grabs,.asked two pid grabs]⟩,
    rfl,putSelf two pid _,rfl,by simp,?_⟩
  have first : sendrec drivers ⟨s,drv,{ msg with cmd := .mknod },[]⟩ pid = _ := sendrecAsked made
  have second : ∀ log, sendrec drivers ⟨s,one,grabs,log⟩ pid = some ⟨s,two,grabs,log ++ [.asked one pid grabs]⟩ :=
    fun log => sendrecAsked once
  have third : ∀ log, sendrec drivers ⟨s,two,grabs,log⟩ pid = some ⟨s,three,grabs,log ++ [.asked two pid grabs]⟩ :=
    fun log => sendrecAsked twice
  have positive : ¬ grabs.w0 < 0 := real
  simp only [doPipe,there,first,if_neg real,bind,Option.bind_some]
  rw [second]
  simp only [Option.bind_some,if_neg positive]
  rw [third]
  simp only [Option.bind_some,if_neg positive]
  rfl

end

section
variable {s : System Devices} {i : Input}

/- The PIPE is served and answered, with 0 or, if it fails, with -1 and nothing changed: not
the client's descriptors, not the counts of the entries, not the drivers' nodes. -/
def Traceless (s : System Devices) (i : Input) : Prop :=
  Answers s i (fun s' m => m.w2 = 0 ∨ m.w2 = -1 ∧ Untouched s s' i.request.client)

-- A node, two entries and two descriptors are free.
structure Enough (s : System Devices) (client : Pid) : Prop where
  real : client ≠ 0
  node : ∃ pid nodes, device s.vfs s.vfs.pipedevIdx = some pid ∧ s.drv.task pid = some (.pipedev nodes) ∧
    pdFindEmptyNode nodes ≠ none
  entries : 2 ≤ freeEntries s.vfs
  fds : ∃ t, vfsFindbypid s.vfs client = some t ∧ 2 ≤ freeFds t

theorem nodeMade {nodes : PdNodes} {ino : Nat} (free : pdFindEmptyNode nodes = some ino) (node : PdNode) :
    nodes.set ino (some node) ≠ nodes := by
  intro same
  have before := firstEmpty free
  have after : (nodes.set ino (some node))[ino]? = some (some node) :=
    List.getElem?_set_self (List.getElem?_eq_some_iff.mp before).1
  rw [same,before] at after
  cases Option.some.inj after

theorem reachesPipes {history : List (Event Devices)} (run : Run.Reaches served NewTask Started s history) :
    Neat s.vfs ∧ MakesPipes s :=
  run.stateInvariant (P := fun s => Neat s.vfs ∧ MakesPipes s)
    (fun s start => ⟨startedNeat s start,startedPipes s start⟩)
    (fun _ _ _ _ held new taken => ⟨servedNeat held.1 taken,servedPipes held.2 new taken⟩)

theorem pipeLost {pid : Pid} {nodes : PdNodes} (there : device s.vfs s.vfs.pipedevIdx = some pid)
    (running : s.drv.task pid = some (.pipedev nodes)) (full : pdFindEmptyNode nodes = none) :
    doPipe drivers i.request.client (received s i) = none := by
  -- The new node would stand before the table.
  have refused : drivers.ask { s.drv with rx := i.rx } pid { i.request.msg with cmd := .mknod } = none := by
    simp only [drivers,running,askDevice,pipedev,full,bind,Option.bind_some,Option.bind_none,Option.map_none]
  simp only [doPipe,received,there,sendrec,refused,bind,Option.bind_some,Option.bind_none]

theorem tracelessEnough (neat : Neat s.vfs) (pipes : MakesPipes s) (call : i.request.msg.cmd = .pipe)
    (traceless : Traceless s i) : Enough s i.request.client := by
  obtain ⟨pid,nodes,there,running⟩ := pipes
  obtain ⟨y,processed⟩ := answersServed traceless
  have ran : doPipe drivers i.request.client (received s i) = some y := by simpa only [process,call] using processed
  cases free : pdFindEmptyNode nodes with
  | none =>
    rw [pipeLost there running free] at ran
    contradiction
  | some ino =>
    obtain ⟨z,-,made,-,quiet,ends⟩ := @pipeGrabs s.vfs { s.drv with rx := i.rx } i.request.msg
      i.request.client pid nodes ino there running free
    have kept : z.drv.task ≠ s.drv.task := by
      intro same
      rw [same,running] at made
      exact nodeMade free _ (Device.pipedev.inj (Option.some.inj made)).symm
    -- What failed says -1, and the node is there.
    have spoiled : ∀ w : Tx Devices, w.drv = z.drv → w.log = z.log → y ≠ failPipe w := by
      rintro w same log rfl
      rcases (answersSource (.inr call) processed (by rw [← log] at quiet; exact quiet) traceless).2 with good | ⟨-,clean⟩
      · exact absurd good (by decide : ¬ (-1 : Int) = 0)
      · exact kept (by rw [← same]; exact clean.nodes)
    obtain ⟨first,input,rest⟩ := Option.bind_eq_some_iff.mp (ends.symm.trans ran)
    cases first with
    | none => exact absurd (Option.some.inj rest).symm (spoiled z rfl rfl)
    | some one =>
      obtain ⟨fdi,s₁⟩ := one
      obtain ⟨second,output,rest⟩ := Option.bind_eq_some_iff.mp rest
      cases second with
      | none => exact absurd (Option.some.inj rest).symm (spoiled _ rfl rfl)
      | some two =>
        obtain ⟨fdo,s₂⟩ := two
        cases Option.some.inj rest
        obtain ⟨real,-⟩ := answersSource (.inr call) processed quiet traceless
        rcases pipeEndCases input with lost | ⟨-,t,-,-,-,found,-⟩
        · contradiction
        obtain ⟨entries,t₁,found₁,width,fds⟩ := pipeEndTakes input found (neat t (foundMember found).1).width
        obtain ⟨entries₁,t₂,-,-,fds₁⟩ := pipeEndTakes output found₁ width
        exact ⟨real,⟨pid,nodes,there,running,by simp [free]⟩,by omega,t,found,by omega⟩

theorem enoughSucceeds (neat : Neat s.vfs) (call : i.request.msg.cmd = .pipe) (enough : Enough s i.request.client) :
    Answers s i (fun _ m => m.w2 = 0) := by
  obtain ⟨real,⟨pid,nodes,there,running,some_⟩,entries,t,found,fds⟩ := enough
  obtain ⟨ino,free⟩ := Option.ne_none_iff_exists'.mp some_
  obtain ⟨z,-,-,named,-,ends⟩ := @pipeGrabs s.vfs { s.drv with rx := i.rx } i.request.msg
    i.request.client pid nodes ino there running free
  obtain ⟨fdi,s₁,input⟩ := pipeEndGiven ino found (by omega) (by omega)
  obtain ⟨entries₁,t₁,found₁,-,fds₁⟩ := pipeEndTakes input found (neat t (foundMember found).1).width
  obtain ⟨fdo,s₂,output⟩ := pipeEndGiven ino found₁ (by omega) (by omega)
  rw [input,Option.bind_some] at ends
  simp only [output,Option.bind_some] at ends
  have processed : process drivers i.request (received s i) = doPipe drivers i.request.client (received s i) := by
    simp only [process,call]
  exact answersLast (.inr call) (processed.trans ends) real (by simp [named]) rfl

/-- In every state that is reached, a PIPE leaves no trace of a failure exactly if it cannot
fail: then it succeeds. What fails leaves the node with its two references; with every node
taken, pipedev leaves its table. -/
theorem pipeLeavesNoTrace {history : List (Event Devices)} (run : Run.Reaches served NewTask Started s history)
    (call : i.request.msg.cmd = .pipe) : (Traceless s i ↔ Enough s i.request.client) ∧
    (Enough s i.request.client → Answers s i (fun _ m => m.w2 = 0)) := by
  obtain ⟨neat,pipes⟩ := reachesPipes run
  refine ⟨⟨tracelessEnough neat pipes call,?_⟩,enoughSucceeds neat call⟩
  intro enough
  obtain ⟨s',out,m,taken,told,good⟩ := enoughSucceeds neat call enough
  exact ⟨s',out,m,taken,told,.inl good⟩

end

-- The first pipe of a task.
theorem pipeLeavesNoTraceOfFirst : ∃ s history, Run.Reaches served NewTask Started s history ∧
    Traceless s (demoInput 0x10 (demoMsg .pipe 0 0 0)) := by
  have start : Run.Reaches served NewTask Started (vfsInit drivers 1 noDevices) [] := .start ⟨1,by decide,rfl⟩
  have added := start.next (plainTask _ 2 (demoMsg .addtask 0x10 0 0)) rfl
  refine ⟨_,_,added,(pipeLeavesNoTrace added (i := demoInput 0x10 (demoMsg .pipe 0 0 0)) rfl).1.mpr ?_⟩
  exact ⟨by decide,⟨1,pipedevStart,rfl,rfl,by decide⟩,by decide,_,rfl,by decide⟩

/- After three pipes and a DUP one descriptor is free. The next PIPE fails at its second end:
descriptor 7 and entry 6 are taken, and node 3 is there with two references. -/
theorem pipeFailsAtSecondEnd : ∃ s history, Run.Reaches served NewTask Started s history ∧
    (vfsFindbypid s.vfs 0x10).map (·.fd) = some [0,1,2,3,4,5,0,-1] ∧
    ¬ Traceless s (demoInput 0x10 (demoMsg .pipe 0 0 0)) ∧
    ∃ s' out nodes, served s (demoInput 0x10 (demoMsg .pipe 0 0 0)) = some (s',out) ∧ sends out = [(0x10,-1)] ∧
      (vfsFindbypid s'.vfs 0x10).map (·.fd) = some [0,1,2,3,4,5,0,6] ∧
      s.vfs.filp[6]? = some ⟨0,0,0,0⟩ ∧ s'.vfs.filp[6]? = some ⟨0,3,1,0⟩ ∧
      s'.drv.task 1 = some (.pipedev nodes) ∧ nodes[3]? = some (some ⟨2,0,[]⟩) := by
  have start : Run.Reaches served NewTask Started (vfsInit drivers 1 noDevices) [] := .start ⟨1,by decide,rfl⟩
  have added := start.next (plainTask _ 2 (demoMsg .addtask 0x10 0 0)) rfl
  have one := added.next (plainTask _ 0x10 (demoMsg .pipe 0 0 0)) rfl
  have two := one.next (plainTask _ 0x10 (demoMsg .pipe 0 0 0)) rfl
  have three := two.next (plainTask _ 0x10 (demoMsg .pipe 0 0 0)) rfl
  have more := three.next (plainTask _ 0x10 (demoMsg .dup 0 0 0)) rfl
  refine ⟨_,_,more,rfl,?_,_,_,_,rfl,rfl,rfl,rfl,rfl,rfl,rfl⟩
  intro traceless
  obtain ⟨neat,pipes⟩ := reachesPipes more
  obtain ⟨-,-,-,t,found,fds⟩ := tracelessEnough neat pipes rfl traceless
  cases Option.some.inj found
  exact absurd fds (by decide)

end Avros.Vfs
