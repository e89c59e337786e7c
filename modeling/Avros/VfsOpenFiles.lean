import Avros.VfsAgreement
import Avros.VfsDescriptors
import Avros.VfsLastDescriptor

/-! An open file stays what it is: whatever the other tasks ask VFS for, and whatever else its
owner does, a descriptor that is not closed leads to the same entry, that entry names the same
device and inode, and only calls that read or write through it move its position. -/
namespace Avros.Vfs
open Run

section
variable {σ : Type} {D : Drivers σ} {x y : Tx σ} {s s' s'' : Tables} {client q : Pid} {i j fp : Nat}

def Leads (s : Tables) (q : Pid) (i fp : Nat) : Prop := ∃ t, vfsFindbypid s q = some t ∧ t.fd[i]? = some (fp : Int)

def Takes (q : Pid) (i : Nat) (r : Request) : Prop :=
  (r.msg.cmd = .close ∧ r.client = q ∧ r.msg.w0 = i) ∨ ((r.msg.cmd = .addtask ∨ r.msg.cmd = .deltask) ∧ about r = q)

def Moves (s : Tables) (r : Request) (fp : Nat) : Prop :=
  (r.msg.cmd = .readc ∨ r.msg.cmd = .writec) ∧ ∃ i : Nat, r.msg.w0 = i ∧ Leads s r.client i fp

theorem Leads.same (leads : Leads s q i fp) (same : s'.taskQ = s.taskQ) : Leads s' q i fp := by
  obtain ⟨t,found,held⟩ := leads
  exact ⟨t,Keeps.same same t found,held⟩

theorem setDescriptorAway (other : j ≠ i) (v : Int) (t : VfsTask) : (setDescriptor j v t).fd[i]? = t.fd[i]? := by
  unfold setDescriptor
  split
  · exact List.getElem?_set_ne other
  · repeat' split
    all_goals rfl

theorem Leads.put (leads : Leads s q i fp) (v : Int) (other : client = q → j ≠ i) : Leads (putFd s client j v) q i fp := by
  obtain ⟨t,found,held⟩ := leads
  by_cases mine : client = q
  · subst mine
    exact ⟨_,putFdFind j v found,(setDescriptorAway (other rfl) v t).trans held⟩
  · exact ⟨t,Keeps.put mine s j v t found,held⟩

theorem Leads.free {t : VfsTask} {fd : Nat} (leads : Leads s q i fp) (found : vfsFindbypid s client = some t)
    (free : findEmptyFd t = some fd) : client = q → fd ≠ i := by
  rintro rfl rfl
  obtain ⟨u,there,held⟩ := leads
  cases Option.some.inj (found.symm.trans there)
  obtain ⟨inside,empty,-⟩ := List.findIdx?_eq_some_iff_getElem.mp free
  rw [List.getElem?_eq_getElem inside] at held
  have negative : t.fd[fd] < 0 := by simpa using empty
  rw [Option.some.inj held] at negative
  omega

theorem pipeEndLeads {ino : Int} {fd : Nat} (leads : Leads s q i fp)
    (ok : pipeEnd client ino s = some (some (fd,s'))) : Leads s' q i fp := by
  rcases pipeEndCases ok with none | ⟨k,t,fd',f,-,found,free,-,made⟩
  · contradiction
  obtain ⟨rfl,rfl⟩ := Prod.mk.inj (Option.some.inj made)
  have kept : Leads (putFilp s k { f with
    dev := s.pipedevIdx, ino := ino, refcnt := toChar (f.refcnt + 1) }) q i fp := leads.same rfl
  exact kept.put _ (leads.free found free)

theorem doPipeLeads (leads : Leads x.vfs q i fp) (ok : doPipe D client x = some y) : Leads y.vfs q i fp := by
  obtain ⟨pid,made,-,asked,outcome⟩ := doPipeCases ok
  have first : Leads made.vfs q i fp := leads.same (by rw [sendrecVfs asked])
  rcases outcome with ⟨-,rfl⟩ | ⟨once,-,grab,outcome⟩
  · exact first
  have second : Leads once.vfs q i fp := first.same (by rw [sendrecVfs grab])
  rcases outcome with ⟨-,rfl⟩ | ⟨twice,-,again,outcome⟩
  · exact second
  have third : Leads twice.vfs q i fp := second.same (by rw [sendrecVfs again])
  rcases outcome with ⟨-,rfl⟩ | ⟨one,-,input,outcome⟩
  · exact third
  rcases outcome with ⟨-,rfl⟩ | ⟨fdi,u,two,rfl,output,outcome⟩
  · exact third
  have fourth : Leads u q i fp := pipeEndLeads third input
  rcases outcome with ⟨-,rfl⟩ | ⟨fdo,v,rfl,rfl⟩
  · exact fourth
  · exact pipeEndLeads fourth output

theorem doOpenLeads (leads : Leads x.vfs q i fp) (ok : doOpen D client x = some y) : Leads y.vfs q i fp := by
  rcases doOpenCases ok with rfl | ⟨t,fd,k,f,pid,z,found,free,-,-,-,asked,outcome⟩
  · exact leads
  have first : Leads z.vfs q i fp := leads.same (by rw [sendrecVfs asked]; rfl)
  rcases outcome with ⟨-,rfl⟩ | ⟨-,rfl⟩
  · exact first
  · have counted : Leads (incRef z.vfs k) q i fp := first.same rfl
    exact counted.put _ (leads.free found free)

theorem processLeads {r : Request} (own : x.msg = r.msg) (leads : Leads x.vfs q i fp) (spares : ¬ Takes q i r)
    (ok : process D r x = some y) : Leads y.vfs q i fp := by
  by_cases other : about r = q
  · have tasks : ¬ (r.msg.cmd = .addtask ∨ r.msg.cmd = .deltask) := fun call => spares (.inr ⟨call,other⟩)
    rw [about,if_neg tasks] at other
    unfold process at ok
    split at ok
    case h_1 call => exact absurd (.inl call) tasks
    case h_2 call => exact absurd (.inr call) tasks
    case h_3 =>
      cases Option.some.inj ok
      unfold doMkdev
      split <;> exact leads.same rfl
    case h_4 => exact leads.same (by rw [doMknodVfs ok])
    case h_5 =>
      rcases doDupCases ok with rfl | ⟨t,k,fd,f,-,found,-,-,free,-,rfl⟩
      · exact leads
      · exact (leads.put k (leads.free found free)).same rfl
    case h_6 => exact doPipeLeads leads ok
    case h_7 => exact leads.same (by rw [doStatVfs ok])
    case h_8 => exact doOpenLeads leads ok
    case h_9 call =>
      by_cases given : 0 ≤ x.msg.w0
      · refine (leads.put (-1) (fun _ same => ?_)).same (doCloseTasks ok given)
        refine spares (.inl ⟨call,other,?_⟩)
        rw [← own,← same,Int.toNat_of_nonneg given]
      · rcases doCloseCases ok with ⟨-,rfl⟩ | ⟨t,k,real,-⟩
        · exact leads
        · exact absurd real given
    case h_10 => exact leads.same (by rw [doIntVfs ok])
    case h_11 => exact leads.same (by rw [doIntVfs ok])
    case h_12 call => exact leads.same (rwTasks (.inl call) (by simpa [process,call] using ok))
    case h_13 call => exact leads.same (rwTasks (.inr call) (by simpa [process,call] using ok))
    case h_14 =>
      cases Option.some.inj ok
      exact leads.same rfl
    case h_15 =>
      cases Option.some.inj ok
      exact leads
  · obtain ⟨t,found,held⟩ := leads
    exact ⟨t,processKeeps own other ok t found,held⟩

def Recounts (s s' : Tables) (fp : Nat) : Prop :=
  ∀ g, s'.filp[fp]? = some g → ∃ f, s.filp[fp]? = some f ∧ g.dev = f.dev ∧ g.ino = f.ino ∧ g.pos = f.pos

theorem Recounts.same (same : s'.filp[fp]? = s.filp[fp]?) : Recounts s s' fp :=
  fun g entry => ⟨g,same.symm.trans entry,rfl,rfl,rfl⟩

theorem Recounts.trans (first : Recounts s s' fp) (second : Recounts s' s'' fp) : Recounts s s'' fp := by
  intro h entry
  obtain ⟨g,middle,dev,ino,pos⟩ := second h entry
  obtain ⟨f,old,dev',ino',pos'⟩ := first g middle
  exact ⟨f,old,dev.trans dev',ino.trans ino',pos.trans pos'⟩

theorem Recounts.incRef (s : Tables) (k fp : Nat) : Recounts s (incRef s k) fp := by
  intro g entry
  obtain ⟨f,old,⟨-,rfl⟩ | ⟨-,rfl⟩⟩ := incRefEntry entry
  · exact ⟨f,old,rfl,rfl,rfl⟩
  · exact ⟨g,old,rfl,rfl,rfl⟩

theorem Recounts.counter {f : Filp} {k : Nat} (entry : s.filp[k]? = some f) (n : Int) (fp : Nat) :
    Recounts s (putFilp s k { f with refcnt := n }) fp := by
  intro g there
  rcases putFilpEntry there entry with ⟨rfl,rfl⟩ | ⟨-,old⟩
  · exact ⟨f,entry,rfl,rfl,rfl⟩
  · exact ⟨g,old,rfl,rfl,rfl⟩

theorem Recounts.inherit (fds : List Int) (s : Tables) (fp : Nat) :
    Recounts s (fds.foldl (fun s fp => if fp ≥ 0 then Vfs.incRef s fp.toNat else s) s) fp := by
  induction fds generalizing s with
  | nil => exact .same rfl
  | cons v rest ih =>
    rw [List.foldl_cons]
    split
    · exact (Recounts.incRef s v.toNat fp).trans (ih _)
    · exact ih s

theorem doCloseRecounts (ok : doClose D client x = some y) (fp : Nat) : Recounts x.vfs y.vfs fp := by
  rcases doCloseCases ok with ⟨-,rfl⟩ | ⟨t,k,-,-,-,outcome⟩
  · exact .same rfl
  rcases outcome with ⟨-,rfl⟩ | ⟨f,-,entry,⟨-,rfl⟩ | ⟨-,-,rfl⟩ | ⟨-,-,pid,-,asked⟩⟩
  · exact .same rfl
  · exact .same rfl
  · exact Recounts.counter (s := putFd x.vfs client x.msg.w0.toNat (-1)) entry _ fp
  · rw [sendrecRepeatVfs asked]
    exact Recounts.counter (s := putFd x.vfs client x.msg.w0.toNat (-1)) entry _ fp

theorem closeAllRecounts {is : List Nat} (ok : closeAll D client is x = some y) (fp : Nat) : Recounts x.vfs y.vfs fp := by
  induction is generalizing x with
  | nil =>
    cases Option.some.inj ok
    exact .same rfl
  | cons i rest ih =>
    simp only [closeAll,bind,Option.bind_eq_some_iff] at ok
    obtain ⟨z,closed,ok⟩ := ok
    have first : Recounts x.vfs z.vfs fp := doCloseRecounts (x := reply x i) closed fp
    exact first.trans (ih ok)

theorem vfsRemovetaskRecounts (ok : vfsRemovetask D x = some y) (fp : Nat) : Recounts x.vfs y.vfs fp := by
  rcases vfsRemovetaskCases ok with ⟨-,rfl⟩ | ⟨t,z,-,closed,rfl⟩
  · exact .same rfl
  · exact (closeAllRecounts closed fp).trans (.same rfl)

theorem vfsAddnewtaskRecounts {kmalloc : Bool} (ok : vfsAddnewtask D kmalloc x = some y) (fp : Nat) :
    Recounts x.vfs y.vfs fp := by
  cases vfsAddnewtaskAdds ok with
  | first nobody => exact .same rfl
  | orphan removed => exact vfsRemovetaskRecounts (x := withVfs x _) removed fp
  | child found => exact Recounts.inherit _ { x.vfs with taskQ := _ } fp
  | full => exact .same rfl

theorem spareApart {f g : Filp} {k : Nat} (entry : s.filp[fp]? = some f) (counted : f.refcnt ≠ 0)
    (empty : findEmptyFilp s = some k) (spare : s.filp[k]? = some g) : k ≠ fp := by
  rintro rfl
  cases Option.some.inj (entry.symm.trans spare)
  exact counted (emptyFilp empty entry)

theorem putFilpAway {k : Nat} (other : k ≠ fp) (g : Filp) : (putFilp s k g).filp[fp]? = s.filp[fp]? :=
  List.getElem?_set_ne other

theorem pipeEndUntouched {ino : Int} {fd : Nat} {f : Filp} (entry : s.filp[fp]? = some f) (counted : f.refcnt ≠ 0)
    (ok : pipeEnd client ino s = some (some (fd,s'))) : s'.filp[fp]? = s.filp[fp]? := by
  rcases pipeEndCases ok with none | ⟨k,t,fd',g,empty,-,-,spare,made⟩
  · contradiction
  obtain ⟨-,rfl⟩ := Prod.mk.inj (Option.some.inj made)
  exact putFilpAway (spareApart entry counted empty spare) _

theorem doPipeUntouched {f : Filp} (entry : x.vfs.filp[fp]? = some f) (counted : f.refcnt ≠ 0)
    (ok : doPipe D client x = some y) : y.vfs.filp[fp]? = x.vfs.filp[fp]? := by
  obtain ⟨pid,made,-,asked,outcome⟩ := doPipeCases ok
  have first : made.vfs = x.vfs := by rw [sendrecVfs asked]
  rcases outcome with ⟨-,rfl⟩ | ⟨once,-,grab,outcome⟩
  · exact congrArg (·.filp[fp]?) first
  have second : once.vfs = x.vfs := by rw [sendrecVfs grab,← first]
  rcases outcome with ⟨-,rfl⟩ | ⟨twice,-,again,outcome⟩
  · exact congrArg (·.filp[fp]?) second
  have third : twice.vfs = x.vfs := by rw [sendrecVfs again,← second]
  rcases outcome with ⟨-,rfl⟩ | ⟨one,-,input,outcome⟩
  · exact congrArg (·.filp[fp]?) third
  rcases outcome with ⟨-,rfl⟩ | ⟨fdi,u,two,rfl,output,outcome⟩
  · exact congrArg (·.filp[fp]?) third
  rw [third] at input
  have fourth : u.filp[fp]? = x.vfs.filp[fp]? := pipeEndUntouched entry counted input
  rcases outcome with ⟨-,rfl⟩ | ⟨fdo,v,rfl,rfl⟩
  · exact fourth
  · exact (pipeEndUntouched (fourth.trans entry) counted output).trans fourth

theorem doOpenUntouched {f : Filp} (entry : x.vfs.filp[fp]? = some f) (counted : f.refcnt ≠ 0)
    (ok : doOpen D client x = some y) : y.vfs.filp[fp]? = x.vfs.filp[fp]? := by
  rcases doOpenCases ok with rfl | ⟨t,fd,k,g,pid,z,-,-,empty,spare,-,asked,outcome⟩
  · rfl
  have other := spareApart entry counted empty spare
  have first : z.vfs.filp[fp]? = x.vfs.filp[fp]? := by
    rw [sendrecVfs asked]
    exact putFilpAway other _
  rcases outcome with ⟨-,rfl⟩ | ⟨-,rfl⟩
  · exact first
  · exact (List.getElem?_modify_ne _ _ other).trans first

theorem doRwEntry {r : Request} (shaped : Shaped x.vfs) (inside : r.msg.w0 < maxFd) (own : x.msg.w0 = r.msg.w0)
    (call : r.msg.cmd = .readc ∨ r.msg.cmd = .writec) (ok : doRw D r.client x = some y) :
    ∀ g, y.vfs.filp[fp]? = some g → ∃ f, x.vfs.filp[fp]? = some f ∧ g.dev = f.dev ∧ g.ino = f.ino ∧
      (g.pos = f.pos ∨ Moves x.vfs r fp) := by
  intro g there
  rcases doRwCases ok with rfl | ⟨t,k,f,pid,z,given,found,held,real,entry,-,asked,rfl⟩
  · exact ⟨g,there,rfl,rfl,.inl rfl⟩
  have tables : z.vfs = x.vfs := by rw [sendrecRepeatVfs asked]
  rcases putFilpEntry (s := z.vfs) there (by rw [tables]; exact entry) with ⟨rfl,rfl⟩ | ⟨-,old⟩
  · rw [descriptorInside (foundWidth shaped found) (by omega)] at held
    refine ⟨f,entry,rfl,rfl,.inr ⟨call,x.msg.w0.toNat,?_,t,found,?_⟩⟩
    · rw [← own,Int.toNat_of_nonneg given]
    · rw [held,Int.toNat_of_nonneg real]
  · rw [tables] at old
    exact ⟨g,old,rfl,rfl,.inl rfl⟩

theorem processEntry {r : Request} {f : Filp} (own : x.msg = r.msg) (shaped : Shaped x.vfs)
    (index : ∀ fd, fdArgument r.msg = some fd → fd < maxFd) (entry : x.vfs.filp[fp]? = some f)
    (counted : f.refcnt ≠ 0) (ok : process D r x = some y) :
    ∀ g, y.vfs.filp[fp]? = some g → g.dev = f.dev ∧ g.ino = f.ino ∧ (g.pos = f.pos ∨ Moves x.vfs r fp) := by
  have still : Recounts x.vfs y.vfs fp →
      ∀ g, y.vfs.filp[fp]? = some g → g.dev = f.dev ∧ g.ino = f.ino ∧ (g.pos = f.pos ∨ Moves x.vfs r fp) := by
    intro recounts g there
    obtain ⟨old,before,dev,ino,pos⟩ := recounts g there
    cases Option.some.inj (before.symm.trans entry)
    exact ⟨dev,ino,.inl pos⟩
  have moved : (r.msg.cmd = .readc ∨ r.msg.cmd = .writec) →
      doRw D r.client { x with msg := { x.msg with client := r.client } } = some y →
      ∀ g, y.vfs.filp[fp]? = some g → g.dev = f.dev ∧ g.ino = f.ino ∧ (g.pos = f.pos ∨ Moves x.vfs r fp) := by
    intro call ok g there
    have inside : r.msg.w0 < maxFd := index _ (by rcases call with call | call <;> simp [fdArgument,call])
    obtain ⟨old,before,rest⟩ := doRwEntry (x := { x with msg := { x.msg with client := r.client } }) shaped inside
      (by rw [own]) call ok g there
    cases Option.some.inj (before.symm.trans entry)
    exact rest
  unfold process at ok
  split at ok
  case h_1 => exact still (vfsAddnewtaskRecounts ok fp)
  case h_2 => exact still (vfsRemovetaskRecounts ok fp)
  case h_3 =>
    cases Option.some.inj ok
    refine still (.same ?_)
    unfold doMkdev
    split <;> rfl
  case h_4 => exact still (.same (by rw [doMknodVfs ok]))
  case h_5 =>
    rcases doDupCases ok with rfl | ⟨t,k,fd,g,-,-,-,-,-,-,rfl⟩
    · exact still (.same rfl)
    · exact still (.incRef (putFd x.vfs r.client fd k) k.toNat fp)
  case h_6 => exact still (.same (doPipeUntouched entry counted ok))
  case h_7 => exact still (.same (by rw [doStatVfs ok]))
  case h_8 => exact still (.same (doOpenUntouched entry counted ok))
  case h_9 => exact still (doCloseRecounts ok fp)
  case h_10 => exact still (.same (by rw [doIntVfs ok]))
  case h_11 => exact still (.same (by rw [doIntVfs ok]))
  case h_12 call => exact moved (.inl call) ok
  case h_13 call => exact moved (.inr call) ok
  case h_14 =>
    cases Option.some.inj ok
    exact still (.same rfl)
  case h_15 =>
    cases Option.some.inj ok
    exact still (.same rfl)

theorem processDevice {r : Request} {d : Int} {pid : Pid} (there : device x.vfs d = some pid)
    (ok : process D r x = some y) : device y.vfs d = some pid := by
  by_cases call : r.msg.cmd = .mkdev
  · simp only [process,call] at ok
    cases Option.some.inj ok
    unfold doMkdev
    split
    · exact there
    · rename_i i empty
      obtain ⟨inside,-⟩ := List.findIdx?_eq_some_iff_getElem.mp empty
      have other : d ≠ i := by
        rintro rfl
        rw [emptySlot empty] at there
        contradiction
      exact (deviceSet r.newtask inside d).trans (by rw [if_neg other]; exact there)
  · have stable : Stable (fun s => device s d = some pid) :=
      ⟨fun _ _ _ _ held _ => held,fun _ _ held => held,fun _ _ held => held,fun _ _ _ _ _ _ held => held,
        fun _ _ _ _ held _ _ => held,fun _ _ held => held⟩
    exact stable.process there call ok

/- A descriptor that q keeps open, and the file it was opened on. -/
structure OpenFile (s : Tables) (q : Pid) (i fp : Nat) (dev ino : Int) : Prop where
  leads : Leads s q i fp
  entry : ∃ f, s.filp[fp]? = some f ∧ f.dev = dev ∧ f.ino = ino

theorem Leads.counted (leads : Leads s q i fp) (held : Counted s) (small : Bounded 255 s) {f : Filp}
    (entry : s.filp[fp]? = some f) : f.refcnt ≠ 0 := by
  obtain ⟨t,found,there⟩ := leads
  intro zero
  exact (held.unreferenced small entry).mp zero t (foundMember found).1 (List.mem_of_getElem? there)

theorem processOpenFile {r : Request} {dev ino : Int} (own : x.msg = r.msg) (held : Counted x.vfs)
    (counting : Counting 255 ⟨x.vfs,x.drv⟩ r) (spares : ¬ Takes q i r) (file : OpenFile x.vfs q i fp dev ino)
    (ok : process D r x = some y) : OpenFile y.vfs q i fp dev ino := by
  obtain ⟨f,entry,rfl,rfl⟩ := file.entry
  have after := processCounted held counting.small own (closeInside counting.index) ok
  have inside : fp < y.vfs.filp.length := by
    rw [after.shaped.slots,← held.shaped.slots]
    exact (List.getElem?_eq_some_iff.mp entry).1
  have here := List.getElem?_eq_getElem inside
  obtain ⟨dev,ino,-⟩ := processEntry own held.shaped counting.index entry
    (file.leads.counted held counting.small entry) ok _ here
  exact ⟨processLeads own file.leads spares ok,_,here,dev,ino⟩

theorem processAsks {r : Request} {dev ino : Int} {pid : Pid} (own : x.msg = r.msg) (width : Shaped x.vfs)
    (file : OpenFile x.vfs q i fp dev ino) (there : device x.vfs dev = some pid)
    (call : r.msg.cmd = .readc ∨ r.msg.cmd = .writec) (mine : r.client = q) (named : r.msg.w0 = i)
    (ok : process D r x = some y) : ∃ msg, .asked x.drv pid msg ∈ y.log ∧ msg.cmd = r.msg.cmd ∧ msg.w0 = ino := by
  have transfer : doRw D r.client { x with msg := { x.msg with client := r.client } } = some y := by
    rcases call with call | call <;> simpa only [process,call] using ok
  obtain ⟨t,found,held⟩ := file.leads
  obtain ⟨f,entry,rfl,rfl⟩ := file.entry
  have inside : i < maxFd := width.width t (foundMember found).1 ▸ (List.getElem?_eq_some_iff.mp held).1
  simp only [doRw,own,named,mine,found,descriptorInside (foundWidth width found) inside,held,entry,there,bind,
    Int.toNat_natCast,Option.bind_some] at transfer
  rw [if_neg (by omega),if_neg (by omega),Option.bind_eq_some_iff] at transfer
  obtain ⟨z,asked,last⟩ := transfer
  obtain ⟨drv,front,answer,-,-,-,rfl⟩ := sendrecRepeatSource asked
  cases Option.some.inj last
  exact ⟨_,List.mem_append_right _ List.mem_cons_self,by simp,rfl⟩

-- What is asked of the requests: that q's descriptor i is left to q, and q does not close it.
def Spares (q : Pid) (i : Nat) (s : System σ) (r : Request) : Prop := Counting 255 s r ∧ ¬ Takes q i r

theorem runCounted {s : System σ} {history : List (Event σ)} (run : Reaches (vfs D) (Counting 255) (Initial D) s history) :
    Counted s.vfs :=
  run.stateInvariant (P := fun s => Counted s.vfs) (fun _ start => vfsInitCounted start)
    (fun _ _ _ _ held counting taken => vfsCounted held counting.small (closeInside counting.index) taken)

theorem sparedStep {s s' : System σ} {r : Request} {out : List (Event σ)} {dev ino : Int} (held : Counted s.vfs)
    (file : OpenFile s.vfs q i fp dev ino) (spares : Spares q i s r) (taken : vfs D s r = some (s',out)) :
    Counted s'.vfs ∧ OpenFile s'.vfs q i fp dev ino ∧ ∀ d pid, device s.vfs d = some pid → device s'.vfs d = some pid := by
  refine ⟨vfsCounted held spares.1.small (closeInside spares.1.index) taken,?_⟩
  simp only [vfs,bind,Option.bind_eq_some_iff] at taken
  obtain ⟨y,processed,last⟩ := taken
  cases Option.some.inj last
  exact ⟨processOpenFile (x := ⟨s.vfs,s.drv,r.msg,[]⟩) rfl held spares.1 spares.2 file processed,
    fun d pid there => processDevice (x := ⟨s.vfs,s.drv,r.msg,[]⟩) there processed⟩

theorem finishKeeps (r : Request) {e : Event σ} (member : e ∈ x.log) : e ∈ finish r x := by
  unfold finish
  split
  · exact List.mem_append_left _ member
  · exact member

theorem openFileStays {s s' : System σ} {history more : List (Event σ)} {f : Filp}
    (run : Reaches (vfs D) (Counting 255) (Initial D) s history) (leads : Leads s.vfs q i fp)
    (entry : s.vfs.filp[fp]? = some f) (later : Reaches (vfs D) (Spares q i) (· = s) s' more) :
    Leads s'.vfs q i fp ∧ (∃ g, s'.vfs.filp[fp]? = some g ∧ g.dev = f.dev ∧ g.ino = f.ino) ∧
    (∀ r s'' out, Counting 255 s' r → vfs D s' r = some (s'',out) →
      ∀ g h, s'.vfs.filp[fp]? = some g → s''.vfs.filp[fp]? = some h → h.pos = g.pos ∨ Moves s'.vfs r fp) ∧
    ∀ pid r s'' out, device s.vfs f.dev = some pid → (r.msg.cmd = .readc ∨ r.msg.cmd = .writec) → r.client = q →
      r.msg.w0 = (i : Int) → vfs D s' r = some (s'',out) →
      ∃ msg, .asked s'.drv pid msg ∈ out ∧ msg.cmd = r.msg.cmd ∧ msg.w0 = f.ino := by
  obtain ⟨held,file,devices⟩ := later.stateInvariant
    (P := fun u => Counted u.vfs ∧ OpenFile u.vfs q i fp f.dev f.ino ∧
      ∀ d pid, device s.vfs d = some pid → device u.vfs d = some pid)
    (by
      rintro u rfl
      exact ⟨runCounted run,⟨leads,f,entry,rfl,rfl⟩,fun _ _ there => there⟩)
    (by
      rintro u r u' out ⟨held,file,devices⟩ spares taken
      obtain ⟨counted,kept,grown⟩ := sparedStep held file spares taken
      exact ⟨counted,kept,fun d pid there => grown d pid (devices d pid there)⟩)
  refine ⟨file.leads,file.entry,?_,?_⟩
  · intro r s'' out counting taken g h before after
    simp only [vfs,bind,Option.bind_eq_some_iff] at taken
    obtain ⟨y,processed,last⟩ := taken
    cases Option.some.inj last
    exact (processEntry (x := ⟨s'.vfs,s'.drv,r.msg,[]⟩) rfl held.shaped counting.index before
      (file.leads.counted held counting.small before) processed h after).2.2
  · intro pid r s'' out there call mine named taken
    simp only [vfs,bind,Option.bind_eq_some_iff] at taken
    obtain ⟨y,processed,last⟩ := taken
    cases Option.some.inj last
    obtain ⟨msg,asked,rest⟩ := processAsks (x := ⟨s'.vfs,s'.drv,r.msg,[]⟩) rfl held.shaped file (devices _ pid there) call
      mine named processed
    exact ⟨msg,finishKeeps r asked,rest⟩
end

-- The parent of a task closes both ends of the pipe that the task has from it.
theorem openFileStaysInherited : ∃ s s' history more,
    Reaches (vfs drivers) (Counting 255) (Initial drivers) s history ∧
    Reaches (vfs drivers) (Spares 0x11 0) (· = s) s' more ∧
    vfsFindbypid s'.vfs 0x10 = some ⟨0x10,List.replicate 8 (-1),1,0,1,0⟩ ∧ Leads s'.vfs 0x11 0 0 := by
  have start : Reaches (vfs drivers) (Counting 255) (Initial drivers) (vfsInit drivers 1 noDevices) [] :=
    .start ⟨1,noDevices,rfl⟩
  have added := start.next (i := demoRequest 2 (demoMsg .addtask 0x10 0 0))
    ⟨by decide,fewTasks (by decide) (by decide)⟩ rfl
  have piped := added.next (i := demoRequest 0x10 (demoMsg .pipe 0 0 0))
    ⟨by decide,fewTasks (by decide) (by decide)⟩ rfl
  have forked := piped.next (i := demoRequest 2 (demoMsg .addtask 0x11 0x10 0))
    ⟨by decide,fewTasks (by decide) (by decide)⟩ rfl
  have spares : ∀ n : Int, ¬ Takes 0x11 0 (demoRequest 0x10 (demoMsg .close n 0 0)) := by
    rintro n (⟨-,mine,-⟩ | ⟨call | call,-⟩)
    · have parent : (0x10 : Pid) = 0x11 := mine
      contradiction
    · exact nomatch call
    · exact nomatch call
  have here : ∀ {s history}, Reaches (vfs drivers) (Counting 255) (Initial drivers) s history →
      Reaches (vfs drivers) (Spares 0x11 0) (· = s) s [] := fun _ => .start rfl
  have first := (here forked).next (i := demoRequest 0x10 (demoMsg .close 0 0 0))
    ⟨⟨by decide,fewTasks (by decide) (by decide)⟩,spares 0⟩ rfl
  have second := first.next (i := demoRequest 0x10 (demoMsg .close 1 0 0))
    ⟨⟨by decide,fewTasks (by decide) (by decide)⟩,spares 1⟩ rfl
  exact ⟨_,_,_,_,forked,second,rfl,(openFileStays forked ⟨_,rfl,rfl⟩ rfl second).1⟩

end Avros.Vfs
