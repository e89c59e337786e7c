import Avros.ProcessTable

/-! What a pid tells a parent. A zombie keeps its pid after the kernel has freed the task
it names, so a later child can get the same one; and do_wait decides to block by looking
for any child, not for one that could answer. -/
namespace Avros.Pm
open Run

-- A new pid is not the pid of a zombie its parent has still to wait for.
def Unshared (m : Machine) (r : Request) : Prop :=
  r.msg.cmd = .spawn → ∀ c t, Sender m.pm r.client c t →
    ∀ z ∈ m.pm.zombieQ, ∀ u, m.pm.record z = some u → u.parent = c → u.pid ≠ r.task

def Told (s : Tables) : Prop :=
  ∀ a b t u, s.record a = some t → s.record b = some u → t.parent = u.parent → t.pid = u.pid → a = b

def Awaited (s : Tables) (w : Addr) (word : Pid) : Prop :=
  ∃ a ∈ s.taskQ ++ s.waitQ, ∃ u, s.record a = some u ∧ u.parent = w ∧ (word = u.pid ∨ word = taskAny)

def Wakeable (s : Tables) : Prop := ∀ w ∈ s.waitQ, ∀ t, s.record w = some t → Awaited s w t.word

def Reported (s : Tables) (w : Addr) (word : Pid) : Prop :=
  ∃ z ∈ s.zombieQ, ∃ u, s.record z = some u ∧ u.parent = w ∧ (word = u.pid ∨ word = taskAny)

-- A wait that no child answers comes from a process without living children.
def Answerable (m : Machine) (r : Request) : Prop :=
  r.msg.cmd = .wait → ∀ c t, Sender m.pm r.client c t →
    Reported m.pm c r.msg.w0 ∨ Awaited m.pm c r.msg.w0 ∨ ∀ a ∈ m.pm.taskQ ++ m.pm.waitQ, childOf m.pm c a = false

section
variable {s s' : Tables} {c : Addr} {t : PmTask} {rest : List Addr} {r : Request} {calls : List Call}

theorem doesRecords {a : Addr} {v : PmTask} (there : s.record c = some t) (did : Does s c t rest r s' calls)
    (found : s'.record a = some v) :
    (r.msg.cmd = .spawn ∧ r.task ≠ 0 ∧ a = r.record ∧ v.pid = r.task ∧ v.parent = c) ∨
      ∃ u, s.record a = some u ∧ v.pid = u.pid ∧ (v.parent = u.parent ∨ v.parent = 0) := by
  have new : ∀ u : PmTask, u.pid = r.task → u.parent = c → (update s r.record u).record a = some v →
      a = r.record ∧ v.pid = r.task ∧ v.parent = c ∨ s.record a = some v := by
    intro u pid parent found
    by_cases same : a = r.record
    · subst same
      cases Option.some.inj ((updateAt s r.record u).symm.trans found)
      exact .inl ⟨rfl,pid,parent⟩
    · exact .inr ((updateAway u same).symm.trans found)
  have mine : ∀ u : PmTask, u.pid = t.pid → u.parent = t.parent → (update s c u).record a = some v →
      ∃ u, s.record a = some u ∧ v.pid = u.pid ∧ (v.parent = u.parent ∨ v.parent = 0) := by
    intro u pid parent found
    by_cases same : a = c
    · subst same
      cases Option.some.inj ((updateAt s a u).symm.trans found)
      exact ⟨t,there,pid,.inl parent⟩
    · exact ⟨v,(updateAway u same).symm.trans found,rfl,.inl rfl⟩
  have left : (bereaved s c t).record a = some v →
      ∃ u, s.record a = some u ∧ v.pid = u.pid ∧ (v.parent = u.parent ∨ v.parent = 0) := by
    intro found
    rcases bereavedSome found with ⟨rfl,rfl⟩ | ⟨-,u,record,rfl,-⟩
    · exact ⟨t,there,rfl,.inl rfl⟩
    · refine ⟨u,record,orphanPid c u,?_⟩
      rw [orphanParent]
      split
      · exact .inr rfl
      · exact .inl rfl
  have freed : ∀ (record : Addr → Option PmTask) (b : Addr), Function.update record b none a = some v →
      record a = some v := by
    intro record b found
    by_cases same : a = b
    · simp [same] at found
    · rwa [Function.update_of_ne same] at found
  cases did with
  | spawned cmd task =>
    rcases new ⟨r.task,[],0,c,r.args⟩ rfl rfl found with made | old
    · exact .inl ⟨cmd,task,made⟩
    · exact .inr ⟨v,old,rfl,.inl rfl⟩
  | stillborn cmd task =>
    rcases new ⟨r.task,[],0,c,0⟩ rfl rfl found with made | old
    · exact .inl ⟨cmd,task,made⟩
    · exact .inr ⟨v,old,rfl,.inl rfl⟩
  | unknown | foreign | ignored | unmade | stuck | denied => exact .inr ⟨v,found,rfl,.inl rfl⟩
  | replaced => exact .inr (mine { t with chunkQ := [], args := r.args } rfl rfl found)
  | orphanLeft | parentWoken => exact .inr (left (freed _ c found))
  | zombieMade =>
    refine .inr ?_
    by_cases same : a = c
    · subst same
      cases Option.some.inj ((updateAt (bereaved s a t) a _).symm.trans found)
      exact ⟨t,there,rfl,.inl rfl⟩
    · exact left ((updateAway _ same).symm.trans found)
  | @zombieReported z => exact .inr (mine { t with word := r.msg.w0 } rfl rfl (freed _ z found))
  | childless | blocked => exact .inr (mine { t with word := r.msg.w0 } rfl rfl found)
  | allocated => exact .inr (mine { t with chunkQ := ⟨r.chunk,r.block⟩::t.chunkQ } rfl rfl found)
  | @released k => exact .inr (mine { t with chunkQ := t.chunkQ.erase k } rfl rfl found)
end

section
variable {m m' : Machine} {lost : List Pid} {history out : List Served} {r : Request}

/- Only a zombie can have the pid a new child gets. -/
theorem toldStep (table : Ledger m lost) (told : Told m.pm) (possible : Possible m r) (unshared : Unshared m r)
    {c : Addr} {t : PmTask} {y : Tx} (sender : Sender m.pm r.client c t)
    (did : Does (attended m.pm c) c t (m.pm.taskQ.erase c) r y.pm y.calls)
    (kept : Ledger (after m y) (abandoned r ++ lost)) : Told y.pm := by
  -- A child of the sender with the new pid would have been alive already.
  have fresh : ∀ a u, r.msg.cmd = .spawn → m.pm.record a = some u → u.parent = c → u.pid = r.task → r.task = 0 := by
    intro a u cmd record parent pid
    rcases List.mem_append.mp (table.sound.queued record) with alive | zombie
    · have offered := possible.offered
      simp only [Offered,cmd] at offered
      refine offered.1.resolve_right (fun absent => absent ?_)
      refine table.tasks.mem_iff.mpr (List.mem_append_right _ (List.mem_map.mpr ⟨a,alive,?_⟩))
      rw [pidSome record,pid]
    · exact absurd pid (unshared cmd c t sender a zombie u record parent)
  intro a b v w here there parent pid
  by_cases orphan : v.parent = 0
  · have living : ∀ d x, y.pm.record d = some x → x.parent = 0 → d ∈ y.pm.taskQ ++ y.pm.waitQ := by
      intro d x record none
      rcases List.mem_append.mp (kept.sound.queued record) with alive | zombie
      · exact alive
      · exact absurd none (kept.sound.zombies d zombie x record).1
    exact kept.onePid (living a v here orphan) (living b w there (parent ▸ orphan)) here there pid
  · have old : ∀ d x, y.pm.record d = some x → x.parent ≠ 0 →
        (r.msg.cmd = .spawn ∧ r.task ≠ 0 ∧ d = r.record ∧ x.pid = r.task ∧ x.parent = c) ∨
          ∃ u, m.pm.record d = some u ∧ x.pid = u.pid ∧ x.parent = u.parent := by
      intro d x record child
      refine (doesRecords (s := attended m.pm c) sender.2.1 did record).imp_right ?_
      rintro ⟨u,before,same,parent⟩
      exact ⟨u,before,same,parent.resolve_right child⟩
    rcases old a v here orphan with ⟨cmd,task,rfl,pids,parents⟩ | ⟨u,record,pids,parents⟩
    · rcases old b w there (parent ▸ orphan) with ⟨-,-,rfl,-⟩ | ⟨x,record,same,from_⟩
      · rfl
      · exact absurd (fresh b x cmd record (by rw [← from_,← parent,parents]) (by rw [← same,← pid,pids])) task
    · rcases old b w there (parent ▸ orphan) with ⟨cmd,task,rfl,same,from_⟩ | ⟨x,record',same,from_⟩
      · exact absurd (fresh a u cmd record (by rw [← parents,parent,from_]) (by rw [← pids,pid,same])) task
      · exact told a b u x record record' (by rw [← parents,← from_,parent]) (by rw [← pids,← same,pid])

theorem stepMade {y : Tx} (served : serve m.pm r = some y) (taken : step m r = some (m',out)) :
    m' = after m y ∧ out = [⟨r,y.calls,y.clients⟩] := by
  simpa [step,served,eq_comm] using taken

theorem begunLone (begun : Begun m) : (∃ lost, Ledger m lost) ∧ m.pm.waitQ = [] ∧
    ∀ a t, m.pm.record a = some t → t.parent = 0 ∧ ∀ b u, m.pm.record b = some u → b = a := by
  obtain ⟨q,args,y,booting,start,rfl⟩ := begun
  obtain ⟨z,same,pm,-⟩ := pmStartTurn booting
  cases Option.some.inj (start.symm.trans same)
  have tables : (after ⟨blank,[],[args]⟩ y).pm = booted q := pm
  refine ⟨⟨_,begunLedger booting start⟩,?_⟩
  rw [tables,booted]
  split
  · have only : ∀ a t, (update blank q.record (first q)).record a = some t → a = q.record ∧ t = first q := by
      intro a t found
      by_cases same : a = q.record
      · subst same
        exact ⟨rfl,(Option.some.inj ((updateAt blank q.record (first q)).symm.trans found)).symm⟩
      · have none : blank.record a = some t := (updateAway (first q) same).symm.trans found
        contradiction
    refine ⟨rfl,fun a t here => ?_⟩
    obtain ⟨rfl,rfl⟩ := only a t here
    exact ⟨rfl,fun b u there => (only b u there).1⟩
  · refine ⟨rfl,fun a t here => ?_⟩
    contradiction

theorem runTold (run : Reaches step (fun m r => Possible m r ∧ Unshared m r) Begun m history) :
    (∃ lost, Ledger m lost) ∧ Told m.pm := by
  refine run.stateInvariant (P := fun m => (∃ lost, Ledger m lost) ∧ Told m.pm) ?_ ?_
  · intro m begun
    obtain ⟨ledger,-,alone⟩ := begunLone begun
    exact ⟨ledger,fun a b t u here there _ _ => ((alone a t here).2 b u there).symm⟩
  · rintro m r m' out ⟨⟨lost,table⟩,told⟩ ⟨possible,unshared⟩ taken
    obtain ⟨c,t,y,n,sender,served,-,did,kept⟩ := ledgerStep table possible
    obtain ⟨rfl,-⟩ := stepMade served taken
    exact ⟨⟨_,kept⟩,toldStep table told possible unshared sender did kept⟩

-- A spawn that gets the pid of a zombie child leaves two children with that pid.
theorem sharedTwins {lost : List Pid} (table : Ledger m lost) (possible : Possible m r) (cmd : r.msg.cmd = .spawn)
    (task : r.task ≠ 0) (record : r.record ≠ 0) (shared : ¬Unshared m r) :
    ∃ m' out, step m r = some (m',out) ∧ ¬Told m'.pm := by
  obtain ⟨c,t,y,n,sender,served,-,did,kept⟩ := ledgerStep table possible
  refine ⟨after m y,_,by simp [step,served]; rfl,fun told => ?_⟩
  simp only [Unshared,not_forall,exists_prop,not_not] at shared
  obtain ⟨-,d,v,sender',z,zombie,u,there,parent,pid⟩ := shared
  have mine : u.parent = c := parent.trans (table.onePid (List.mem_append_left _ sender'.1)
    (List.mem_append_left _ sender.1) sender'.2.1 sender.2.1 (sender'.2.2.trans sender.2.2.symm))
  have free : m.pm.record r.record = none := by
    have given := table.offers possible.offered
    simpa only [Offers,cmd] using given
  have other : z ≠ r.record := fun same => by
    rw [same,free] at there
    contradiction
  have twin : ∀ v : PmTask, v.pid = r.task → v.parent = c → y.pm.record = (update m.pm r.record v).record → False := by
    intro v same from_ records
    refine other (told z r.record u v ?_ ?_ (mine.trans from_.symm) (pid.trans same.symm))
    · exact (congrFun records z).trans ((updateAway v other).trans there)
    · exact (congrFun records r.record).trans (updateAt m.pm r.record v)
  generalize y.pm = final at did twin
  generalize y.calls = calls at did
  cases did with
  | spawned => exact twin ⟨r.task,[],0,c,r.args⟩ rfl rfl rfl
  | stillborn => exact twin ⟨r.task,[],0,c,0⟩ rfl rfl rfl
  | unmade cmd none => exact absurd none (not_or.mpr ⟨task,record⟩)
  | _ => simp_all

theorem waitReaps {s s' : Tables} {c z : Addr} {t u : PmTask} {rest : List Addr} {calls : List Call}
    (did : Does s c t rest r s' calls) (cmd : r.msg.cmd = .wait) (there : s.record z = some u)
    (gone : s'.record z = none) : u.parent = c ∧ (r.msg.w0 = u.pid ∨ r.msg.w0 = taskAny) := by
  have stays : ∀ v, (update s c v).record z ≠ none := by
    intro v none
    by_cases same : z = c
    · rw [same,updateAt] at none
      contradiction
    · rw [updateAway v same,there] at none
      contradiction
  cases did with
  | @zombieReported d w cmd first zombie =>
    by_cases same : z = d
    · subst same
      cases Option.some.inj (zombie.symm.trans there)
      simpa [answers,zombie] using List.find?_some first
    · exact absurd ((Function.update_of_ne same _ _).symm.trans gone) (stays _)
  | childless | blocked => exact absurd gone (stays _)
  | _ => simp_all

theorem pidsTell (run : Reaches step (fun m r => Possible m r ∧ Unshared m r) Begun m history) :
    (∀ a ∈ linked m.pm, ∀ b ∈ linked m.pm, ∀ t u, m.pm.record a = some t → m.pm.record b = some u →
      t.parent = u.parent → t.pid = u.pid → a = b) ∧
    (∀ r c t, Possible m r → Sender m.pm r.client c t → r.msg.cmd = .wait → r.msg.w0 ≠ taskAny →
      ∃ m' out, step m r = some (m',out) ∧ ∀ z u, m.pm.record z = some u → m'.pm.record z = none →
        u.parent = c ∧ u.pid = r.msg.w0 ∧
          ∀ b v, m.pm.record b = some v → v.parent = c → v.pid = r.msg.w0 → b = z) ∧
    ∀ r, Possible m r → r.msg.cmd = .spawn → r.task ≠ 0 → r.record ≠ 0 → ¬Unshared m r →
      ∃ m' out, step m r = some (m',out) ∧ ¬Told m'.pm := by
  obtain ⟨⟨lost,table⟩,told⟩ := runTold run
  refine ⟨fun a _ b _ t u here there => told a b t u here there,?_,?_⟩
  · intro r c t possible sender cmd named
    obtain ⟨d,v,y,n,found,served,-,did,kept⟩ := ledgerStep table possible
    cases table.onePid (List.mem_append_left _ found.1) (List.mem_append_left _ sender.1) found.2.1 sender.2.1
      (found.2.2.trans sender.2.2.symm)
    refine ⟨after m y,_,by simp [step,served]; rfl,fun z u there gone => ?_⟩
    obtain ⟨parent,fits⟩ := waitReaps did cmd there gone
    have pid := (fits.resolve_right named).symm
    exact ⟨parent,pid,fun b w record child same => told b z w u record there (child.trans parent.symm) (same.trans pid.symm)⟩
  · intro r possible cmd task record shared
    exact sharedTwins table possible cmd task record shared
end

-- The first child has exited and not been waited for when init spawns again.
def demoAgain : Request := ⟨50,⟨.spawn,8,64,0⟩,[],51,62,72,0,0,true,0,0,0⟩
def demoTwins : Machine := ((step demoExited demoAgain).get (by rfl)).1

theorem demoChild : ∃ history, Reaches step (fun m r => Possible m r ∧ Unshared m r) Begun demoExited history := by
  have boots : Booting demoBoot 100 := ⟨by decide,by decide,by decide⟩
  have spawn : Possible demoBooted demoSpawn := ⟨⟨60,⟨50,[],0,0,70⟩,by decide,rfl,rfl⟩,by decide,by decide,by decide⟩
  have exit : Possible demoSpawned demoExit := ⟨⟨61,⟨51,[],0,60,71⟩,by decide,rfl,rfl⟩,trivial⟩
  have lone : Unshared demoBooted demoSpawn := fun _ c t _ z zombie => nomatch zombie
  have other : Unshared demoSpawned demoExit := fun cmd => nomatch cmd
  have begun : Begun demoBooted := ⟨demoBoot,100,_,boots,(Option.some_get (by rfl)).symm,rfl⟩
  obtain ⟨out,first⟩ := stepTaken demoBooted demoSpawn (by rfl)
  obtain ⟨more,second⟩ := stepTaken demoSpawned demoExit (by rfl)
  exact ⟨_,.next (.next (.start begun) ⟨spawn,lone⟩ first) ⟨exit,other⟩ second⟩

theorem twinPids : ∃ m history, Reaches step Possible Begun m history ∧
    ∃ a ∈ linked m.pm, ∃ b ∈ linked m.pm, ∃ t u, m.pm.record a = some t ∧ m.pm.record b = some u ∧
      t.parent = u.parent ∧ t.pid = u.pid ∧ a ≠ b := by
  obtain ⟨history,run⟩ := demoChild
  have again : Possible demoExited demoAgain := ⟨⟨60,⟨50,[],0,0,70⟩,by decide,rfl,rfl⟩,by decide,by decide,by decide⟩
  obtain ⟨out,taken⟩ := stepTaken demoExited demoAgain (by rfl)
  refine ⟨demoTwins,_,.next (run.weaken (fun _ _ both => both.1) (fun _ begun => begun)) again taken,
    61,by decide,62,by decide,⟨51,[],7,60,71⟩,⟨51,[],0,60,72⟩,rfl,rfl,rfl,rfl,by decide⟩

theorem pidsTellAfterExit : ∃ history, Reaches step (fun m r => Possible m r ∧ Unshared m r) Begun demoExited history ∧
    ∀ b ∈ linked demoExited.pm, ∀ u, demoExited.pm.record b = some u → u.parent = 60 → u.pid = 51 → b = 61 := by
  obtain ⟨history,run⟩ := demoChild
  refine ⟨history,run,fun b member u record parent pid => ?_⟩
  exact (pidsTell run).1 b member 61 (by decide) u ⟨51,[],7,60,71⟩ record rfl parent pid

section
variable {s s' : Tables} {c : Addr} {t : PmTask} {rest : List Addr} {r : Request} {calls : List Call}

theorem Wakeable.kept (wakes : Wakeable s)
    (waiters : ∀ w ∈ s'.waitQ, ∀ v, s'.record w = some v → w ∈ s.waitQ ∧ ∃ u, s.record w = some u ∧ v.word = u.word)
    (children : ∀ w ∈ s'.waitQ, ∀ x, s.record w = some x → ∀ a ∈ s.taskQ ++ s.waitQ, ∀ u, s.record a = some u →
      u.parent = w → (x.word = u.pid ∨ x.word = taskAny) →
      a ∈ s'.taskQ ++ s'.waitQ ∧ ∃ v, s'.record a = some v ∧ v.pid = u.pid ∧ v.parent = u.parent) : Wakeable s' := by
  intro w waiting v found
  obtain ⟨before,x,record,word⟩ := waiters w waiting v found
  obtain ⟨a,alive,u,child,parent,fits⟩ := wakes w before x record
  obtain ⟨still,z,there,pid,same⟩ := children w waiting x record a alive u child parent fits
  refine ⟨a,still,z,there,same.trans parent,?_⟩
  rw [word,pid]
  exact fits

theorem Wakeable.updated {u : PmTask} (wakes : Wakeable s) (sound : Sound s) (front : s.taskQ = c::rest)
    (there : s.record c = some t) (pid : u.pid = t.pid) (parent : u.parent = t.parent) : Wakeable (update s c u) := by
  refine wakes.kept ?_ ?_
  · intro w waiting v found
    have other : w ≠ c := sound.behind front w (by simp [show w ∈ s.waitQ from waiting])
    exact ⟨waiting,v,(updateAway u other).symm.trans found,rfl⟩
  · intro w waiting x record a alive v child from_ fits
    refine ⟨alive,?_⟩
    by_cases same : a = c
    · subst same
      cases Option.some.inj (there.symm.trans child)
      exact ⟨u,updateAt s a u,pid,parent⟩
    · exact ⟨v,(updateAway u same).trans child,rfl,rfl⟩

theorem Wakeable.joined {u : PmTask} {a : Addr} (wakes : Wakeable s) (sound : Sound s) (free : s.record a = none) :
    Wakeable { update s a u with taskQ := s.taskQ ++ [a] } := by
  have other : ∀ b ∈ s.taskQ ++ s.waitQ, b ≠ a := fun b member => sound.unused free (List.mem_append_left _ member)
  refine wakes.kept ?_ ?_
  · intro w waiting v found
    exact ⟨waiting,v,(updateAway u (other w (List.mem_append_right _ waiting))).symm.trans found,rfl⟩
  · intro w waiting x record b alive v child from_ fits
    refine ⟨?_,v,(updateAway u (other b alive)).trans child,rfl,rfl⟩
    rcases List.mem_append.mp alive with task | waiter
    · exact List.mem_append_left _ (List.mem_append_left _ task)
    · exact List.mem_append_right _ waiter

/- An exit takes away the child of a waiter only when it wakes that waiter. -/
theorem Wakeable.left {W : List Addr} (wakes : Wakeable s) (sound : Sound s) (front : s.taskQ = c::rest)
    (there : s.record c = some t) (fewer : W ⊆ s.waitQ) (alive : ∀ a ∈ rest ++ s.waitQ, a ∈ s'.taskQ ++ s'.waitQ)
    (waits : s'.waitQ = W) (records : ∀ a, a ≠ c → s'.record a = (bereaved s c t).record a)
    (unwanted : t.parent ∈ W → ∀ x, s.record t.parent = some x → x.word ≠ t.pid ∧ x.word ≠ taskAny) :
    Wakeable s' := by
  have away : ∀ w ∈ s'.waitQ, w ∈ s.waitQ ∧ w ≠ c := by
    intro w waiting
    have old := fewer (waits ▸ waiting)
    exact ⟨old,sound.behind front w (by simp [old])⟩
  refine wakes.kept ?_ ?_
  · intro w waiting v found
    obtain ⟨old,other⟩ := away w waiting
    rw [records w other] at found
    rcases bereavedSome found with ⟨same,-⟩ | ⟨-,u,record,rfl,-⟩
    · contradiction
    · exact ⟨old,u,record,orphanWord c u⟩
  · intro w waiting x record a member u child parent fits
    obtain ⟨old,other⟩ := away w waiting
    have stays : a ≠ c := by
      intro same
      subst same
      cases Option.some.inj (there.symm.trans child)
      obtain ⟨pid,any⟩ := unwanted (by rw [parent,← waits]; exact waiting) x (by rw [parent]; exact record)
      exact fits.elim pid any
    refine ⟨alive a ?_,orphanOf c u,?_,orphanPid c u,?_⟩
    · rw [front,List.cons_append,List.mem_cons] at member
      exact member.resolve_left stays
    · rw [records a stays]
      exact bereavedLive sound stays member child
    · rw [orphanSelf]
      rw [parent]
      exact other

theorem Wakeable.blocks (wakes : Wakeable s) (front : s.taskQ = c::rest) (there : s.record c = some t)
    (awaited : Awaited s c t.word) : Wakeable { s with taskQ := rest, waitQ := s.waitQ ++ [c] } := by
  have same : ∀ w word, Awaited s w word → Awaited { s with taskQ := rest, waitQ := s.waitQ ++ [c] } w word := by
    rintro w word ⟨a,alive,u,child,fits⟩
    refine ⟨a,?_,u,child,fits⟩
    simp only [front,List.mem_append,List.mem_cons,List.not_mem_nil,or_false] at alive ⊢
    tauto
  intro w waiting v found
  rcases List.mem_append.mp waiting with old | new
  · exact same w v.word (wakes w old v found)
  · cases List.mem_singleton.mp new
    cases Option.some.inj (there.symm.trans found)
    exact same c t.word awaited

theorem doesWakes (sound : Sound s) (front : s.taskQ = c::rest) (there : s.record c = some t) (given : Offers s r)
    (wakes : Wakeable s) (answerable : r.msg.cmd = .wait → Reported s c r.msg.w0 ∨ Awaited s c r.msg.w0 ∨
      ∀ a ∈ s.taskQ ++ s.waitQ, childOf s c a = false) (did : Does s c t rest r s' calls) : Wakeable s' := by
  have reworded : Wakeable (update s c { t with word := r.msg.w0 }) := wakes.updated sound front there rfl rfl
  cases did with
  | spawned cmd | stillborn cmd =>
    simp only [Offers,cmd] at given
    exact wakes.joined sound given
  | unknown | foreign | ignored | unmade | stuck | denied => exact wakes
  | replaced | allocated | released => exact wakes.updated sound front there rfl rfl
  | orphanLeft cmd orphan =>
    refine wakes.left sound front there (List.Subset.refl _) (fun a => id) rfl
      (fun a other => Function.update_of_ne other _ _) ?_
    intro waiting
    exact absurd orphan (sound.real (by simp [waiting]))
  | parentWoken cmd waiting parent wanted =>
    refine wakes.left sound front there (W := s.waitQ.erase t.parent) List.erase_subset ?_ rfl
      (fun a other => Function.update_of_ne other _ _) ?_
    · intro a member
      by_cases same : a = t.parent
      · simp [same]
      · simpa [same,List.mem_erase_of_ne same] using member
    · intro still
      have unique := (List.nodup_append.mp (List.nodup_append.mp sound.unique).1).2.1
      exact absurd rfl (unique.mem_erase_iff.mp still).1
  | zombieMade cmd child unwanted =>
    exact wakes.left sound front there (List.Subset.refl _) (fun a => id) rfl (fun a other => updateAway _ other) unwanted
  | @zombieReported z u cmd first zombie =>
    have member := List.mem_of_find?_eq_some first
    have other : ∀ a ∈ s.taskQ ++ s.waitQ, a ≠ z := fun a alive same => sound.zombieApart alive member same.symm
    refine reworded.kept ?_ ?_
    · intro w waiting v found
      exact ⟨waiting,v,(Function.update_of_ne (other w (List.mem_append_right _ waiting)) _ _).symm.trans found,rfl⟩
    · intro w waiting x record a alive v child from_ fits
      exact ⟨alive,v,(Function.update_of_ne (other a alive) _ _).trans child,rfl,rfl⟩
  | childless => exact reworded
  | blocked cmd unanswered child =>
    refine reworded.blocks front (updateAt s c _) ?_
    rcases answerable cmd with ⟨z,zombie,u,record,parent,fits⟩ | ⟨a,alive,u,record,parent,fits⟩ | barren
    · have silent := unanswered z zombie
      simp only [answers,record,Option.any_some,parent,decide_eq_false_iff_not] at silent
      exact absurd ⟨trivial,fits⟩ silent
    · by_cases same : a = c
      · subst same
        cases Option.some.inj (there.symm.trans record)
        exact absurd parent (sound.others a t there)
      · exact ⟨a,alive,u,(updateAway _ same).trans record,parent,fits⟩
    · obtain ⟨a,alive,mine⟩ := child
      rw [barren a alive] at mine
      contradiction

theorem attendedAwaited {w : Addr} {word : Pid} (member : c ∈ s.taskQ) : Awaited (attended s c) w word ↔ Awaited s w word := by
  refine exists_congr (fun a => and_congr_left (fun _ => ?_))
  exact (attendedQueue member).mem_iff

theorem doesUnanswered (did : Does s c t rest r s' calls) (cmd : r.msg.cmd = .wait)
    (silent : ¬Reported s c r.msg.w0) :
    (s' = update s c { t with word := r.msg.w0 } ∧ calls = [.send r.client { r.msg with w0 := 0, w1 := 0 }] ∧
      ∀ a ∈ s.taskQ ++ s.waitQ, childOf s c a = false) ∨
    (s' = { update s c { t with word := r.msg.w0 } with taskQ := rest, waitQ := s.waitQ ++ [c] } ∧
      ∃ a ∈ s.taskQ ++ s.waitQ, childOf s c a = true) := by
  cases did with
  | @zombieReported z u cmd first zombie =>
    have fits : u.parent = c ∧ (r.msg.w0 = u.pid ∨ r.msg.w0 = taskAny) := by
      simpa [answers,zombie] using List.find?_some first
    exact absurd ⟨z,List.mem_of_find?_eq_some first,u,zombie,fits⟩ silent
  | childless cmd unanswered barren => exact .inl ⟨rfl,rfl,barren⟩
  | blocked cmd unanswered child => exact .inr ⟨rfl,child⟩
  | _ => simp_all
end

section
variable {m m' : Machine} {lost : List Pid} {history out : List Served} {r : Request}

theorem runWakes (run : Reaches step (fun m r => Possible m r ∧ Answerable m r) Begun m history) :
    (∃ lost, Ledger m lost) ∧ Wakeable m.pm := by
  refine run.stateInvariant (P := fun m => (∃ lost, Ledger m lost) ∧ Wakeable m.pm) ?_ ?_
  · intro m begun
    obtain ⟨ledger,nobody,-⟩ := begunLone begun
    refine ⟨ledger,fun w waiting => ?_⟩
    rw [nobody] at waiting
    contradiction
  · rintro m r m' out ⟨⟨lost,table⟩,wakes⟩ ⟨possible,answerable⟩ taken
    obtain ⟨c,t,y,n,sender,served,-,did,kept⟩ := ledgerStep table possible
    obtain ⟨rfl,-⟩ := stepMade served taken
    refine ⟨⟨_,kept⟩,?_⟩
    have still : Wakeable (attended m.pm c) :=
      fun w waiting v found => (attendedAwaited sender.1).mpr (wakes w waiting v found)
    refine doesWakes (table.attended sender.1).sound rfl sender.2.1 (table.offers possible.offered) still ?_ did
    intro cmd
    refine (answerable cmd c t sender).imp_right (Or.imp (attendedAwaited sender.1).mpr ?_)
    intro barren a alive
    exact barren a ((attendedQueue sender.1).mem_iff.mp alive)

theorem waitersWake (run : Reaches step (fun m r => Possible m r ∧ Answerable m r) Begun m history) :
    (∀ w ∈ m.pm.waitQ, ∀ t, m.pm.record w = some t → Awaited m.pm w t.word) ∧
    (∀ r c t, Possible m r → Answerable m r → Sender m.pm r.client c t → r.msg.cmd = .wait →
      ¬Awaited m.pm c r.msg.w0 → ¬Reported m.pm c r.msg.w0 → ∃ m' x, step m r = some (m',[x]) ∧
        x.calls = [.send r.client { r.msg with w0 := 0, w1 := 0 }] ∧ m'.pm.waitQ = m.pm.waitQ) ∧
    ∀ r, Possible m r → ¬Answerable m r → ∃ m' out, step m r = some (m',out) ∧
      ∃ w ∈ m'.pm.waitQ, ∃ t, m'.pm.record w = some t ∧ ¬Awaited m'.pm w t.word := by
  obtain ⟨⟨lost,table⟩,wakes⟩ := runWakes run
  refine ⟨wakes,?_,?_⟩
  · intro r c t possible answerable sender cmd alone silent
    obtain ⟨d,v,y,n,found,served,-,did,kept⟩ := ledgerStep table possible
    cases table.onePid (List.mem_append_left _ found.1) (List.mem_append_left _ sender.1) found.2.1 sender.2.1
      (found.2.2.trans sender.2.2.symm)
    refine ⟨after m y,_,by simp [step,served]; rfl,?_⟩
    rcases doesUnanswered did cmd silent with ⟨same,sent,-⟩ | ⟨-,a,alive,child⟩
    · refine ⟨sent,?_⟩
      change y.pm.waitQ = m.pm.waitQ
      rw [same]
      rfl
    · have barren := ((answerable cmd c t sender).resolve_left silent).resolve_left alone
      have none := barren a ((attendedQueue sender.1).mem_iff.mp alive)
      rw [show childOf m.pm c a = childOf (attended m.pm c) c a from rfl,child] at none
      contradiction
  · intro r possible refused
    simp only [Answerable,not_forall,not_or,exists_prop] at refused
    obtain ⟨cmd,d,v,sender',silent,alone,a,alive,child⟩ := refused
    obtain ⟨c,t,y,n,sender,served,-,did,kept⟩ := ledgerStep table possible
    cases table.onePid (List.mem_append_left _ sender'.1) (List.mem_append_left _ sender.1) sender'.2.1 sender.2.1
      (sender'.2.2.trans sender.2.2.symm)
    refine ⟨after m y,_,by simp [step,served]; rfl,?_⟩
    change ∃ w ∈ y.pm.waitQ, ∃ t, y.pm.record w = some t ∧ ¬Awaited y.pm w t.word
    rcases doesUnanswered did cmd silent with ⟨-,-,barren⟩ | ⟨same,-⟩
    · exact absurd (barren a ((attendedQueue sender.1).mem_iff.mpr alive)) child
    · rw [same]
      refine ⟨d,List.mem_append_right _ List.mem_cons_self,_,updateAt _ _ _,?_⟩
      rintro ⟨b,member,u,record,parent,fits⟩
      have queued : b ∈ m.pm.taskQ ++ m.pm.waitQ := by
        have order : (m.pm.taskQ.erase d ++ (m.pm.waitQ ++ [d])).Perm (m.pm.taskQ ++ m.pm.waitQ) := by
          rw [← List.append_assoc]
          exact (List.perm_append_singleton _ _).trans (attendedQueue sender.1)
        exact order.mem_iff.mp member
      by_cases mine : b = d
      · subst mine
        cases Option.some.inj ((updateAt (attended m.pm b) b _).symm.trans record)
        exact table.sound.others b t sender.2.1 parent
      · exact alone ⟨b,queued,u,(updateAway _ mine).symm.trans record,parent,fits⟩
end

-- init waits for a pid none of its children has.
def demoStray : Request := ⟨50,⟨.wait,99,0,0⟩,[],0,0,0,0,0,true,0,0,0⟩
def demoStuck : Machine := ((step demoSpawned demoStray).get (by rfl)).1

theorem demoParent : ∃ history, Reaches step (fun m r => Possible m r ∧ Answerable m r) Begun demoSpawned history := by
  have boots : Booting demoBoot 100 := ⟨by decide,by decide,by decide⟩
  have spawn : Possible demoBooted demoSpawn := ⟨⟨60,⟨50,[],0,0,70⟩,by decide,rfl,rfl⟩,by decide,by decide,by decide⟩
  have other : Answerable demoBooted demoSpawn := fun cmd => nomatch cmd
  have begun : Begun demoBooted := ⟨demoBoot,100,_,boots,(Option.some_get (by rfl)).symm,rfl⟩
  obtain ⟨out,taken⟩ := stepTaken demoBooted demoSpawn (by rfl)
  exact ⟨_,.next (.start begun) ⟨spawn,other⟩ taken⟩

theorem strayWaiter : ∃ m history, Reaches step Possible Begun m history ∧
    ∃ w ∈ m.pm.waitQ, ∃ t, m.pm.record w = some t ∧ ¬Awaited m.pm w t.word := by
  obtain ⟨history,run⟩ := demoParent
  have stray : Possible demoSpawned demoStray := ⟨⟨60,⟨50,[],0,0,70⟩,by decide,rfl,rfl⟩,trivial⟩
  obtain ⟨out,taken⟩ := stepTaken demoSpawned demoStray (by rfl)
  refine ⟨demoStuck,_,.next (run.weaken (fun _ _ both => both.1) (fun _ begun => begun)) stray taken,
    60,by decide,⟨50,[],99,0,70⟩,rfl,?_⟩
  rintro ⟨a,alive,u,record,parent,fits⟩
  have queues : demoStuck.pm.taskQ ++ demoStuck.pm.waitQ = [61,60] := rfl
  rw [queues] at alive
  rcases List.mem_cons.mp alive with rfl | last
  · have child : demoStuck.pm.record 61 = some ⟨51,[],0,60,71⟩ := rfl
    cases Option.some.inj (child.symm.trans record)
    exact absurd fits (by decide)
  · cases List.mem_singleton.mp last
    have own : demoStuck.pm.record 60 = some ⟨50,[],99,0,70⟩ := rfl
    cases Option.some.inj (own.symm.trans record)
    exact absurd parent (by decide)

-- init waits for the child it has.
def demoChildWait : Request := ⟨50,⟨.wait,51,0,0⟩,[],0,0,0,0,0,true,0,0,0⟩
def demoPaused : Machine := ((step demoSpawned demoChildWait).get (by rfl)).1

theorem waitersWakeChild :
    (∃ history, Reaches step (fun m r => Possible m r ∧ Answerable m r) Begun demoPaused history ∧
      demoPaused.pm.waitQ = [60] ∧ Awaited demoPaused.pm 60 51) ∧
    ∃ history, Reaches step (fun m r => Possible m r ∧ Answerable m r) Begun demoSpawned history ∧
      ∃ m' out, step demoSpawned demoStray = some (m',out) ∧
        ∃ w ∈ m'.pm.waitQ, ∃ t, m'.pm.record w = some t ∧ ¬Awaited m'.pm w t.word := by
  obtain ⟨history,run⟩ := demoParent
  constructor
  · have possible : Possible demoSpawned demoChildWait := ⟨⟨60,⟨50,[],0,0,70⟩,by decide,rfl,rfl⟩,trivial⟩
    have answerable : Answerable demoSpawned demoChildWait := by
      rintro - c t ⟨alive,record,pid⟩
      have queues : demoSpawned.pm.taskQ ++ demoSpawned.pm.waitQ = [60,61] := rfl
      have first : demoSpawned.pm.record 60 = some ⟨50,[],0,0,70⟩ := rfl
      have second : demoSpawned.pm.record 61 = some ⟨51,[],0,60,71⟩ := rfl
      rcases List.mem_cons.mp (queues ▸ List.mem_append_left _ alive : c ∈ [60,61]) with rfl | last
      · exact .inr (.inl ⟨61,queues ▸ by decide,_,second,rfl,.inl rfl⟩)
      · cases List.mem_singleton.mp last
        cases Option.some.inj (second.symm.trans record)
        exact absurd pid (by decide)
    obtain ⟨out,taken⟩ := stepTaken demoSpawned demoChildWait (by rfl)
    have waiting := run.next ⟨possible,answerable⟩ taken
    exact ⟨_,waiting,rfl,(waitersWake waiting).1 60 (by decide) ⟨50,[],51,0,70⟩ rfl⟩
  refine ⟨history,run,?_⟩
  have stray : Possible demoSpawned demoStray := ⟨⟨60,⟨50,[],0,0,70⟩,by decide,rfl,rfl⟩,trivial⟩
  refine (waitersWake run).2.2 demoStray stray (fun answerable => ?_)
  have mine : Sender demoSpawned.pm 50 60 ⟨50,[],0,0,70⟩ := ⟨by decide,rfl,rfl⟩
  rcases answerable rfl 60 _ mine with ⟨z,zombie,-⟩ | ⟨a,alive,u,record,parent,fits⟩ | barren
  · exact nomatch zombie
  · have queues : demoSpawned.pm.taskQ ++ demoSpawned.pm.waitQ = [60,61] := rfl
    rw [queues] at alive
    rcases List.mem_cons.mp alive with rfl | last
    · cases Option.some.inj (mine.2.1.symm.trans record)
      exact absurd parent (by decide)
    · cases List.mem_singleton.mp last
      have child : demoSpawned.pm.record 61 = some ⟨51,[],0,60,71⟩ := rfl
      cases Option.some.inj (child.symm.trans record)
      exact absurd fits (by decide)
  · exact absurd (barren 61 (by decide)) (by decide)

end Avros.Pm
