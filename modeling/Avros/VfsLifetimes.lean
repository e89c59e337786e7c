import Avros.VfsAgreement

/-! An inode lives as long as VFS has an open entry for it. Over every run in which
descriptors are given below MAX_FD and no more than 127 of them lead to one entry, the
drivers count exactly the open entries, and nothing reaches a node that is gone. -/
namespace Avros.Vfs

def received (s : System Devices) (i : Input) : Tx Devices := ⟨s.vfs,{ s.drv with rx := i.rx },i.request.msg,[]⟩

theorem servedSource {s s' : System Devices} {i : Input} {out : List (Event Devices)} (taken : served s i = some (s',out)) :
    ∃ y, process drivers i.request (received s i) = some y ∧ s' = ⟨y.vfs,y.drv⟩ ∧ out = finish i.request y := by
  simp only [served,vfs,bind,Option.bind_eq_some_iff] at taken
  obtain ⟨y,processed,last⟩ := taken
  obtain ⟨rfl,rfl⟩ := Prod.mk.inj (Option.some.inj last)
  exact ⟨y,processed,rfl,rfl⟩

theorem servedProcess {s : System Devices} {i : Input} {y : Tx Devices}
    (ok : process drivers i.request (received s i) = some y) : served s i = some (⟨y.vfs,y.drv⟩,finish i.request y) := by
  change (process drivers i.request (received s i) >>= _) = _
  rw [ok]
  rfl

def Settled (extra : Int → Int → Nat) (Z : Int → Int → Prop) (s : System Devices) : Prop :=
  Tallied (fun d n => holders s.vfs d n + extra d n) Z Nowhere s.vfs s.drv

theorem reachedOpen {s : Tables} (held : Counted s) (few : Bounded 255 s) {pid : Pid} {t : VfsTask} {i : Nat}
    {fp : Int} {f : Filp} (found : vfsFindbypid s pid = some t) (inside : i < maxFd)
    (at_ : descriptor t i = some fp) (real : 0 ≤ fp) (entry : s.filp[fp.toNat]? = some f) : f.refcnt ≠ 0 := by
  rw [descriptorInside (foundWidth held.shaped found) inside] at at_
  have less := putFdReferences (-1) found inside at_ fp.toNat
  rw [oneNegative (by decide : (-1 : Int) < 0),oneIndex real,if_pos rfl] at less
  intro zero
  have none := (held.open few entry).mp zero
  omega

def target (s : Tables) (r : Request) : Option (Pid × Int) := do
  let t ← vfsFindbypid s r.client
  let fp ← descriptor t r.msg.w0.toNat
  if fp < 0 then none else do
    let f ← s.filp[fp.toNat]?
    let pid ← device s f.dev
    some (pid,f.ino)

theorem Tallied.entry {K : Int → Int → Nat} {Z F : Int → Int → Prop} {s : Tables} {drv : Devices} {pid : Pid}
    {f : Filp} (tally : Tallied K Z F s drv) (there : device s f.dev = some pid) (some_ : K f.dev f.ino ≠ 0) :
    ∃ dv, drv.task pid = some dv ∧ Present f.ino dv := by
  obtain ⟨dv,task,counts,-⟩ := tally.kept f.dev pid there
  exact ⟨dv,task,(heldCounted counts some_).present⟩

def Alive : Event Devices → Prop
  | .asked drv pid msg => msg.cmd = .inodeRelease ∨ msg.cmd = .readc ∨ msg.cmd = .writec →
      ∃ dv, drv.task pid = some dv ∧ Present msg.w0 dv
  | .sent _ _ => True

theorem unblockedAlive {replies : List Msg} : ∀ e ∈ unblocked replies, Alive e := by
  intro e member
  obtain ⟨m,-,rfl⟩ := List.mem_map.mp member
  exact trivial

theorem Talk.alive {start : System Devices} {drv : Devices} {log : List (Event Devices)} (talk : Talk start log drv) :
    ∀ e ∈ log, Alive e := by
  induction talk with
  | quiet => simp
  | asked before proper turn again ih =>
    intro e member
    rcases List.mem_append.mp member with old | new
    · exact ih e old
    rcases List.mem_cons.mp new with rfl | told
    · intro call
      obtain ⟨dv,Z,F,task,-,held⟩ := proper.calm
      rcases call with release | other
      · exact ⟨dv,task,(held release).present⟩
      · have service := proper.service
        unfold Service at service
        rcases other with h | h <;> simp [h] at service
    · exact unblockedAlive e told

section
variable {extra : Int → Int → Nat} {Z : Int → Int → Prop} {s : System Devices} {x y : Tx Devices} {client : Pid}

theorem doRwSettled (held : Counted x.vfs) (few : Bounded 255 x.vfs) (index : x.msg.w0 < maxFd)
    (call : x.msg.cmd = .readc ∨ x.msg.cmd = .writec) (settled : Settled extra Z ⟨x.vfs,x.drv⟩) (none : x.log = [])
    (ok : doRw drivers client x = some y) :
    Settled extra Z ⟨y.vfs,y.drv⟩ ∧ (∀ e ∈ y.log, Alive e) ∧ y.vfs.devtab = x.vfs.devtab := by
  rcases doRwCases ok with rfl | ⟨t,fp,f,pid,z,given,found,at_,real,entry,there,asked,rfl⟩
  · exact ⟨settled,by simp [none],rfl⟩
  have open_ := reachedOpen held few found (by omega) at_ real entry
  have positive := holdersPositive entry open_
  obtain ⟨drv,front,last,turn,-,-,rfl⟩ := sendrecRepeatSource asked
  refine ⟨?_,?_,rfl⟩
  · have kept : Tallied _ Z Nowhere x.vfs drv :=
      Tallied.passed settled there (by rcases call with h | h <;> simp [h]) turn
    have moved : Tallied _ Z Nowhere
        (putFilp x.vfs fp.toNat { f with pos := f.pos + last.w1 }) drv := kept.tables rfl rfl
    have same : ∀ d n, holders (putFilp x.vfs fp.toNat { f with pos := f.pos + last.w1 }) d n =
        holders x.vfs d n := by
      refine holdersSame (by simp [putFilp]) ?_
      intro k f' there
      rcases putFilpEntry there entry with ⟨rfl,rfl⟩ | ⟨-,old⟩
      · exact ⟨f,entry,rfl,rfl,Iff.rfl⟩
      · exact ⟨f',old,rfl,rfl,Iff.rfl⟩
    unfold Settled
    simp only [withVfs,same]
    exact moved
  · intro e member
    simp only [withVfs,none,List.nil_append] at member
    rcases List.mem_cons.mp member with rfl | told
    · intro _
      exact Tallied.entry settled there (by dsimp only; omega)
    · exact unblockedAlive e told

theorem doIntSettled (call : x.msg.cmd = .rdInterrupt ∨ x.msg.cmd = .wrInterrupt)
    (settled : Settled extra Z ⟨x.vfs,x.drv⟩) (none : x.log = []) (ok : doInt drivers x = some y) :
    Settled extra Z ⟨y.vfs,y.drv⟩ ∧ (∀ e ∈ y.log, Alive e) ∧ y.vfs.devtab = x.vfs.devtab := by
  unfold doInt at ok
  split at ok <;> try contradiction
  rename_i real
  obtain ⟨drv,front,last,turn,-,-,rfl⟩ := sendrecRepeatSource ok
  refine ⟨Tallied.interrupted settled real call turn,?_,rfl⟩
  intro e member
  simp only [none,List.nil_append] at member
  rcases List.mem_cons.mp member with rfl | told
  · intro other
    rcases call with h | h <;> simp [h] at other
  · exact unblockedAlive e told

theorem doMkdevKeeps (newtask : Pid) :
    (doMkdev drivers newtask x).vfs.filp = x.vfs.filp ∧ (doMkdev drivers newtask x).log = x.log ∧
    ∀ d pid, device x.vfs d = some pid → device (doMkdev drivers newtask x).vfs d = some pid := by
  unfold doMkdev
  split
  · exact ⟨rfl,rfl,fun _ _ there => there⟩
  rename_i i empty
  refine ⟨rfl,rfl,?_⟩
  intro d pid there
  obtain ⟨inside,zero,-⟩ := List.findIdx?_eq_some_iff_getElem.mp empty
  change device { x.vfs with devtab := x.vfs.devtab.set i newtask } d = some pid
  rw [deviceSet _ inside,if_neg]
  · exact there
  · rintro rfl
    rw [emptySlot empty] at there
    contradiction

theorem servedSettled {i : Input} {s' : System Devices} {out : List (Event Devices)} (held : Counted s.vfs)
    (few : Bounded 255 s.vfs) (index : ∀ fd, fdArgument i.request.msg = some fd → fd < maxFd)
    (fresh : i.request.newtask ≠ 0 → i.request.newtask ∉ s.vfs.devtab) (small : Small extra)
    (named : ∀ d n, Z d n → holders s.vfs d n + extra d n ≠ 0) (settled : Settled extra Z s)
    (taken : served s i = some (s',out)) (few' : Bounded 255 s'.vfs) :
    (∀ e ∈ out, Alive e) ∧ (∀ d pid, device s.vfs d = some pid → device s'.vfs d = some pid) ∧
    ∃ extra', Small extra' ∧ Settled extra' Z s' ∧
      ((i.request.msg.cmd = .pipe → ∀ y, process drivers i.request (received s i) = some y → y.msg.w2 = 0) →
        extra' = extra) := by
  obtain ⟨y,processed,rfl,rfl⟩ := servedSource taken
  have finished : (∀ e ∈ y.log, Alive e) → ∀ e ∈ finish i.request y, Alive e := by
    intro before e member
    unfold finish at member
    split at member
    · rcases List.mem_append.mp member with old | new
      · exact before e old
      · rw [List.mem_singleton.mp new]
        exact trivial
    · exact before e member
  have stays : y.vfs.devtab = s.vfs.devtab → ∀ d pid, device s.vfs d = some pid → device y.vfs d = some pid := by
    intro same d pid there
    unfold device at there ⊢
    rw [same]
    exact there
  have begun : Settled extra Z ⟨(received s i).vfs,(received s i).drv⟩ :=
    ⟨settled.distinct,settled.unused,settled.known,settled.kept,settled.piped⟩
  by_cases own : Own i.request.msg.cmd
  · have agrees : Agrees ⟨(received s i).vfs,(received s i).drv⟩ extra Z (received s i) := ⟨begun,.quiet,rfl⟩
    obtain ⟨extra',less,after,exact_⟩ := processAgrees own held few rfl index small named agrees processed few'
    exact ⟨finished after.talk.alive,stays after.devtab,extra',less,after.tally,
      fun success => exact_ (fun call => success call y processed)⟩
  have others : i.request.msg.cmd = .mkdev ∨ (i.request.msg.cmd = .rdInterrupt ∨ i.request.msg.cmd = .wrInterrupt) ∨
      (i.request.msg.cmd = .readc ∨ i.request.msg.cmd = .writec) := by
    unfold Own at own
    grind
  rcases others with call | call | call
  · simp only [process,call] at processed
    cases Option.some.inj processed
    obtain ⟨filp,log,stay⟩ := doMkdevKeeps (x := received s i) i.request.newtask
    refine ⟨finished (by rw [log]; simp [received]),stay,extra,small,?_,fun _ => rfl⟩
    have after := doMkdevTallied (x := received s i) begun named fresh
    unfold Settled
    have same : ∀ d n, holders (doMkdev drivers i.request.newtask (received s i)).vfs d n =
        holders s.vfs d n := by
      intro d n
      unfold holders
      rw [filp]
      rfl
    simp only [same]
    exact after
  · have interrupt : doInt drivers (received s i) = some y := by
      rcases call with h | h <;> simpa only [process,h] using processed
    obtain ⟨after,alive,same⟩ := doIntSettled call begun rfl interrupt
    exact ⟨finished alive,stays same,extra,small,after,fun _ => rfl⟩
  · have asked : doRw drivers i.request.client { received s i with
        msg := { i.request.msg with client := i.request.client } } = some y := by
      unfold process at processed
      rcases call with h | h <;> rw [h] at processed <;> exact processed
    have inside := index i.request.msg.w0 (by rcases call with h | h <;> simp [fdArgument,h])
    obtain ⟨after,alive,same⟩ := doRwSettled (x := { received s i with
      msg := { i.request.msg with client := i.request.client } }) held few inside call begun rfl asked
    exact ⟨finished alive,stays same,extra,small,after,fun _ => rfl⟩

end

def Started (s : System Devices) : Prop := ∃ newtask, newtask ≠ 0 ∧ s = vfsInit drivers newtask noDevices

theorem startedCounted {s : System Devices} (start : Started s) : Counted s.vfs := by
  obtain ⟨newtask,-,rfl⟩ := start
  exact vfsInitCounted ⟨newtask,noDevices,rfl⟩

theorem startedHolders {s : System Devices} (start : Started s) (d n : Int) : holders s.vfs d n = 0 := by
  obtain ⟨newtask,-,rfl⟩ := start
  simp [holders,vfsInit,opens]

theorem startedSettled {s : System Devices} (start : Started s) : Settled (fun _ _ => 0) Nowhere s := by
  have closed := startedHolders start
  obtain ⟨newtask,real,rfl⟩ := start
  have slots : ∀ d, device (vfsInit drivers newtask noDevices).vfs d = if d = 0 then some newtask else none := by
    intro d
    have set := deviceSet (s := { (vfsInit drivers newtask noDevices).vfs with devtab := List.replicate maxDev 0 })
      (i := 0) newtask (by simp [maxDev]) d
    refine set.trans ?_
    rw [if_neg real]
    congr 1
    unfold device
    split
    · rfl
    · rw [Option.filter_eq_none_iff]
      intro pid found
      simp [List.eq_of_mem_replicate (List.mem_of_getElem? found)]
  have only : ∀ d pid, device (vfsInit drivers newtask noDevices).vfs d = some pid → d = 0 ∧ pid = newtask := by
    intro d pid there
    rw [slots] at there
    split at there <;> try contradiction
    rename_i same
    exact ⟨same,(Option.some.inj there).symm⟩
  have task : (vfsInit drivers newtask noDevices).drv.task newtask = some (.pipedev pipedevStart) :=
    Function.update_self _ _ _
  refine ⟨?_,?_,?_,?_,?_⟩
  · intro d e pid first second
    rw [(only d pid first).1,(only e pid second).1]
  · intro d n _
    change holders _ d n + 0 = 0
    rw [closed]
  · intro pid _ running
    refine ⟨0,?_⟩
    by_cases same : pid = newtask
    · rw [slots,if_pos rfl,same]
    · exact absurd (Function.update_of_ne same _ _) running
  · intro d pid there
    obtain ⟨rfl,rfl⟩ := only d pid there
    obtain ⟨counts,calm⟩ := startDeviceCounts .pipedev (Z := Nowhere 0) (fun _ nowhere => nowhere)
    refine ⟨_,task,?_,calm⟩
    simp only [closed,Nat.add_zero]
    exact counts
  · exact ⟨newtask,_,by rw [slots]; rfl,task⟩

/- What is asked of a run: descriptors are given below MAX_FD, before each request no
entry is the target of more than 127 of them, no PIPE fails, and createtask() answers
with a task that is not a device yet. -/
structure Sparing (s : System Devices) (i : Input) : Prop where
  index : ∀ fd, fdArgument i.request.msg = some fd → fd < maxFd
  small : Bounded 127 s.vfs
  pipes : i.request.msg.cmd = .pipe → ∀ y, process drivers i.request (received s i) = some y → y.msg.w2 = 0
  fresh : i.request.newtask ≠ 0 → i.request.newtask ∉ s.vfs.devtab

def openEntries (s : Tables) (d n : Int) : Nat :=
  s.filp.countP (fun f => 0 < f.refcnt ∧ f.dev = d ∧ f.ino = n)

theorem openHolders {s : Tables} (held : Counted s) (few : Bounded 127 s) (d n : Int) :
    holders s d n = openEntries s d n := by
  have natural : ∀ f ∈ s.filp, 0 ≤ f.refcnt := by
    intro f member
    obtain ⟨fp,entry⟩ := List.mem_iff_getElem?.mp member
    have bound := few fp
    rw [held.counts fp f entry,toCharSmall (by omega) (by omega)]
    omega
  unfold holders openEntries
  generalize s.filp = filp at natural
  induction filp with
  | nil => rfl
  | cons f rest ih =>
    rw [List.map_cons,List.sum_cons,List.countP_cons,ih (fun g member => natural g (List.mem_cons_of_mem _ member))]
    have low := natural f List.mem_cons_self
    have same : (f.refcnt ≠ 0 ∧ f.dev = d ∧ f.ino = n) ↔ (0 < f.refcnt ∧ f.dev = d ∧ f.ino = n) := by
      constructor
      · exact fun h => ⟨by omega,h.2⟩
      · exact fun h => ⟨by omega,h.2⟩
    unfold opens
    simp only [same,decide_eq_true_eq]
    omega

def Exact (s : System Devices) : Prop := Settled (fun _ _ => 0) Nowhere s

theorem servedExact {s s' : System Devices} {i : Input} {out : List (Event Devices)} {Z : Int → Int → Prop}
    (held : Counted s.vfs) (sparing : Sparing s i) (named : ∀ d n, Z d n → holders s.vfs d n ≠ 0)
    (settled : Settled (fun _ _ => 0) Z s) (taken : served s i = some (s',out)) (few' : Bounded 255 s'.vfs) :
    (∀ e ∈ out, Alive e) ∧ (∀ d pid, device s.vfs d = some pid → device s'.vfs d = some pid) ∧
    Settled (fun _ _ => 0) Z s' := by
  obtain ⟨alive,stays,extra,-,after,same⟩ := servedSettled held
    (fun fp => Nat.le_trans (sparing.small fp) (by decide)) sparing.index sparing.fresh (fun _ _ => Nat.zero_le _)
    named settled taken few'
  rw [same sparing.pipes] at after
  exact ⟨alive,stays,after⟩

theorem servedCounted {s s' : System Devices} {i : Input} {out : List (Event Devices)} (held : Counted s.vfs)
    (index : ∀ fd, fdArgument i.request.msg = some fd → fd < maxFd) (small : Bounded 255 s.vfs)
    (taken : served s i = some (s',out)) : Counted s'.vfs :=
  vfsCounted (D := drivers) (s := { s with drv := { s.drv with rx := i.rx } }) (r := i.request) held
    small (closeInside index) taken

theorem sparingInvariant {s : System Devices} {history : List (Event Devices)}
    (run : Run.Reaches served Sparing Started s history) :
    Counted s.vfs ∧ (Bounded 255 s.vfs → Exact s ∧ ∀ e ∈ history, Alive e) := by
  refine run.invariant (P := fun s history => Counted s.vfs ∧
    (Bounded 255 s.vfs → Exact s ∧ ∀ e ∈ history, Alive e)) ?_ ?_
  · intro s start
    exact ⟨startedCounted start,fun _ => ⟨startedSettled start,by simp⟩⟩
  · rintro s history i s' out ⟨held,before⟩ sparing taken
    have few : Bounded 255 s.vfs := fun fp => Nat.le_trans (sparing.small fp) (by decide)
    refine ⟨servedCounted held sparing.index few taken,?_⟩
    intro few'
    obtain ⟨exact_,past⟩ := before few
    obtain ⟨alive,-,after⟩ := servedExact held sparing (fun _ _ nowhere => nowhere.elim) exact_ taken few'
    refine ⟨after,?_⟩
    intro e member
    rcases List.mem_append.mp member with old | new
    · exact past e old
    · exact alive e new

theorem Tallied.marked {K : Int → Int → Nat} {s : Tables} {drv : Devices} (tally : Tallied K Nowhere Nowhere s drv)
    {d n : Int} {pid : Pid} {nodes : PdNodes} {node : PdNode} (there : device s d = some pid)
    (task : drv.task pid = some (.pipedev nodes)) (found : nodeAt nodes n = some (some node)) (plain : node.links = 0) :
    K d n ≠ 0 ∧ Tallied K (fun e j => e = d ∧ j = n) Nowhere s drv := by
  have used : K d n ≠ 0 := by
    obtain ⟨counts,calm⟩ := tally.at there task
    obtain ⟨i,rfl,-,at_⟩ := nodeAtIndex found
    have count := counts.at at_
    intro zero
    exact (calm i node found).used (by omega) plain
  refine ⟨used,tally.distinct,tally.unused,tally.known,?_,tally.piped⟩
  intro e p at_
  obtain ⟨dv,running,counts,calm⟩ := tally.kept e p at_
  refine ⟨dv,running,counts,?_⟩
  have same : e = d → dv = .pipedev nodes := by
    rintro rfl
    rw [there] at at_
    cases Option.some.inj at_
    rw [task] at running
    exact (Option.some.inj running).symm
  cases dv with
  | pipedev others =>
    intro j other there'
    have old := calm j other there'
    refine ⟨old.low,old.high,old.empty,?_,old.used⟩
    rintro ⟨here,rfl⟩
    cases same here
    rw [found] at there'
    cases Option.some.inj (Option.some.inj there')
    exact plain
  | memfile others =>
    rintro j ⟨here,-⟩
    cases same here
  | ttyUsart0 t =>
    rintro j ⟨here,-⟩
    cases same here

theorem inodesCountOpenEntries {s : System Devices} {history : List (Event Devices)}
    (run : Run.Reaches served Sparing Started s history) (small : Bounded 127 s.vfs) :
    (∀ d pid dv, device s.vfs d = some pid → s.drv.task pid = some dv → NodeCounts (openEntries s.vfs d) dv) ∧
    (∀ f ∈ s.vfs.filp, 0 < f.refcnt → ∃ pid dv, device s.vfs f.dev = some pid ∧ s.drv.task pid = some dv ∧
      Present f.ino dv) ∧
    (∀ e ∈ history, Alive e) ∧
    (∀ (r : Request) pid ino, 0 ≤ r.msg.w0 → r.msg.w0 < maxFd → target s.vfs r = some (pid,ino) →
      ∃ dv, s.drv.task pid = some dv ∧ Present ino dv) ∧
    ∀ i s' out, Sparing s i → served s i = some (s',out) → Bounded 127 s'.vfs →
      ∀ d pid nodes n node, device s.vfs d = some pid → s.drv.task pid = some (.pipedev nodes) →
        nodeAt nodes n = some (some node) → node.links = 0 →
        0 < openEntries s.vfs d n ∧ ∃ nodes', s'.drv.task pid = some (.pipedev nodes') ∧
          (¬ Present n (.pipedev nodes') ↔ openEntries s'.vfs d n = 0) := by
  obtain ⟨held,rest⟩ := sparingInvariant run
  have few : Bounded 255 s.vfs := fun fp => Nat.le_trans (small fp) (by decide)
  obtain ⟨exact_,past⟩ := rest few
  have counts : ∀ d pid dv, device s.vfs d = some pid → s.drv.task pid = some dv →
      NodeCounts (openEntries s.vfs d) dv := by
    intro d pid dv there task
    have counts := (Tallied.at exact_ there task).1
    simpa only [openHolders held small,Nat.add_zero] using counts
  have present : ∀ (fp : Nat) (f : Filp), s.vfs.filp[fp]? = some f → f.refcnt ≠ 0 →
      ∃ pid dv, device s.vfs f.dev = some pid ∧ s.drv.task pid = some dv ∧ Present f.ino dv := by
    intro fp f entry open_
    have positive := holdersPositive entry open_
    cases there : device s.vfs f.dev with
    | none =>
      have zero := exact_.unused f.dev f.ino there
      dsimp only at zero
      omega
    | some pid =>
      obtain ⟨dv,task,alive⟩ := Tallied.entry exact_ there (by dsimp only; omega)
      exact ⟨pid,dv,rfl,task,alive⟩
  refine ⟨counts,?_,past,?_,?_⟩
  · intro f member open_
    obtain ⟨fp,entry⟩ := List.mem_iff_getElem?.mp member
    exact present fp f entry (by omega)
  · intro r pid ino given inside goes
    simp only [target,bind,Option.bind_eq_some_iff] at goes
    obtain ⟨t,found,fp,at_,goes⟩ := goes
    split at goes <;> try contradiction
    rename_i real
    simp only [Option.bind_eq_some_iff] at goes
    obtain ⟨f,entry,device',there,last⟩ := goes
    cases Option.some.inj last
    have open_ := reachedOpen held few found (by omega) at_ (by omega) entry
    obtain ⟨pid',dv,same,task,alive⟩ := present _ f entry open_
    rw [there] at same
    cases Option.some.inj same
    exact ⟨dv,task,alive⟩
  · intro i s' out sparing taken small' d pid nodes n node there task found plain
    obtain ⟨used,marked⟩ := Tallied.marked exact_ there task found plain
    have few' : Bounded 255 s'.vfs := fun fp => Nat.le_trans (small' fp) (by decide)
    have held' := servedCounted held sparing.index few taken
    obtain ⟨-,stays,after⟩ := servedExact held sparing
      (by rintro e j ⟨rfl,rfl⟩; exact used) marked taken few'
    rw [openHolders held small,Nat.add_zero] at used
    refine ⟨by omega,?_⟩
    have there' := stays d pid there
    obtain ⟨dv,task',counts',calm'⟩ := after.kept d pid there'
    cases dv with
    | memfile others => exact absurd ⟨rfl,rfl⟩ (calm' n)
    | ttyUsart0 t => exact absurd ⟨rfl,rfl⟩ (calm' n)
    | pipedev nodes' =>
      refine ⟨nodes',task',?_⟩
      simp only [openHolders held' small',Nat.add_zero] at counts'
      constructor
      · intro gone
        rcases counts' n with ⟨left,found',-⟩ | ⟨-,zero⟩
        · exact absurd ⟨left,found'⟩ gone
        · exact zero
      · rintro zero ⟨left,found'⟩
        obtain ⟨j,rfl,-,at_⟩ := nodeAtIndex found'
        have calmLeft := calm' j left found'
        have count := counts'.at at_
        exact calmLeft.used (by omega) (calmLeft.unnamed ⟨rfl,rfl⟩)

def demoInput (client : Pid) (m : Msg) : Input := ⟨demoRequest client m,0⟩

-- Both ends of a pipe are open, and the driver counts two references.
theorem inodesCountOpenEntriesOfPipe : ∃ s history,
    Run.Reaches served Sparing Started s history ∧ openEntries s.vfs 0 0 = 2 ∧
    ∀ d pid dv, device s.vfs d = some pid → s.drv.task pid = some dv → NodeCounts (openEntries s.vfs d) dv := by
  have start : Run.Reaches served Sparing Started (vfsInit drivers 1 noDevices) [] := .start ⟨1,by decide,rfl⟩
  have added := start.next (i := demoInput 2 (demoMsg .addtask 0x10 0 0))
    ⟨by decide,fewTasks (by decide) (by decide),by simp [demoInput,demoRequest,demoMsg],by simp [demoInput,demoRequest]⟩ rfl
  have piped := added.next (i := demoInput 0x10 (demoMsg .pipe 0 0 0))
    ⟨by decide,fewTasks (by decide) (by decide),by rintro - y ⟨⟩; rfl,by simp [demoInput,demoRequest]⟩ rfl
  exact ⟨_,_,piped,rfl,(inodesCountOpenEntries piped (fewTasks (by decide) (by decide))).1⟩

/- What may be asked of the clients alone: an OPEN names a registered device and an inode
inside its table, and no PIPE or MKNOD fails. -/
def InTable (n : Int) : Device → Prop
  | .pipedev nodes => nodeAt nodes n ≠ none
  | .memfile nodes => nodeAt nodes n ≠ none
  | .ttyUsart0 _ => True

structure Polite (s : System Devices) (i : Input) : Prop where
  opens : i.request.msg.cmd = .open_ → ∃ pid dv, device s.vfs i.request.msg.w0 = some pid ∧
    s.drv.task pid = some dv ∧ InTable i.request.msg.w1 dv
  pipes : i.request.msg.cmd = .pipe → ∀ y, process drivers i.request (received s i) = some y → y.msg.w2 = 0
  mknods : i.request.msg.cmd = .mknod → ∀ y, process drivers i.request (received s i) = some y → 0 ≤ y.msg.w0
  fresh : i.request.newtask ≠ 0 → i.request.newtask ∉ s.vfs.devtab

theorem politeRequest (s : System Devices) (client : Pid) {m : Msg}
    (other : m.cmd ≠ .open_ ∧ m.cmd ≠ .pipe ∧ m.cmd ≠ .mknod) : Polite s (demoInput client m) :=
  ⟨fun call => absurd call other.1,fun call => absurd call other.2.1,fun call => absurd call other.2.2,
    fun real => absurd rfl real⟩

/- do_rw does not look whether a descriptor is below MAX_FD. The second word behind the
array is the working directory's inode, 0, taken for an entry of `filp`: the one of the
pipe that has just been closed. -/
theorem readReachesFreedPipe : ∃ s history, Run.Reaches served Polite Started s history ∧
    ∃ i pid ino dv, Polite s i ∧ i.request.msg.cmd = .readc ∧ target s.vfs i.request = some (pid,ino) ∧
      s.drv.task pid = some dv ∧ ¬ Present ino dv ∧ served s i = none := by
  have start : Run.Reaches served Polite Started (vfsInit drivers 1 noDevices) [] := .start ⟨1,by decide,rfl⟩
  have added := start.next (politeRequest _ 2 (m := demoMsg .addtask 0x10 0 0) (by decide)) rfl
  have piped := added.next (i := demoInput 0x10 (demoMsg .pipe 0 0 0))
    ⟨by simp [demoInput,demoRequest,demoMsg],by rintro - y ⟨⟩; rfl,
      by simp [demoInput,demoRequest,demoMsg],by simp [demoInput,demoRequest]⟩ rfl
  have half := piped.next (politeRequest _ 0x10 (m := demoMsg .close 0 0 0) (by decide)) rfl
  have closed := half.next (politeRequest _ 0x10 (m := demoMsg .close 1 0 0) (by decide)) rfl
  refine ⟨_,_,closed,demoInput 0x10 (demoMsg .readc 9 0 0),1,0,.pipedev pipedevStart,
    politeRequest _ 0x10 (by decide),rfl,rfl,rfl,?_,rfl⟩
  rintro ⟨node,found⟩
  cases Option.some.inj found

end Avros.Vfs
