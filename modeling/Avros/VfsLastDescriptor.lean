import Avros.VfsWrap

/-! The counter of an entry is a `char`, and 0 means free. Over every run in which CLOSE
gets a descriptor below MAX_FD and no entry is the target of more than 255 of them, an
entry counts 0 exactly if no descriptor leads to it: find_empty_filp answers with entries
that are open nowhere, and a RELEASE goes out with the last descriptor. -/
namespace Avros.Vfs

def Unreferenced (s : Tables) (fp : Nat) : Prop := ∀ t ∈ s.taskQ, (fp : Int) ∉ t.fd

theorem unreferencedZero {s : Tables} {fp : Nat} : Unreferenced s fp ↔ references s fp = 0 := by
  simp [Unreferenced,references,List.sum_eq_zero_iff,List.count_eq_zero]

def SparesOpen (s : Tables) : Prop := ∀ fp, findEmptyFilp s = some fp → Unreferenced s fp

section
variable {σ : Type} {D : Drivers σ}

/- A RELEASE is about an entry that some descriptor led to before the request and none
leads to after it. -/
def LastReleased (s s' : Tables) : Event σ → Prop
  | .asked _ pid msg => msg.cmd = .inodeRelease → ∃ fp f, s.filp[fp]? = some f ∧ device s f.dev = some pid ∧
      msg.w0 = f.ino ∧ ¬ Unreferenced s fp ∧ Unreferenced s' fp
  | .sent _ _ => True

def Unreleasing (log : List (Event σ)) : Prop := ∀ drv pid msg, .asked drv pid msg ∈ log → msg.cmd ≠ .inodeRelease

variable {x y : Tx σ} {s s' : Tables} {client : Pid} {log : List (Event σ)}

theorem Unreleasing.lastReleased (quiet : Unreleasing log) : ∀ e ∈ log, LastReleased s s' e := by
  intro e member
  cases e with
  | asked drv pid msg => exact fun call => absurd call (quiet drv pid msg member)
  | sent client msg => trivial

theorem Unreleasing.asks (quiet : Unreleasing log) {drv : σ} {pid : Pid} {msg : Msg} (other : msg.cmd ≠ .inodeRelease) :
    Unreleasing (log ++ [.asked drv pid msg]) := by
  intro d p m member
  rcases List.mem_append.mp member with old | new
  · exact quiet d p m old
  · cases List.mem_singleton.mp new
    exact other

theorem Unreleasing.tells (quiet : Unreleasing log) (replies : List Msg) : Unreleasing (log ++ unblocked replies) := by
  intro d p m member
  rcases List.mem_append.mp member with old | new
  · exact quiet d p m old
  · obtain ⟨told,-,same⟩ := List.mem_map.mp new
    cases same

theorem sendrecUnreleasing {pid : Pid} (ok : sendrec D x pid = some y) (quiet : Unreleasing x.log)
    (other : x.msg.cmd ≠ .inodeRelease) : Unreleasing y.log := by
  obtain ⟨drv,m,-,rfl⟩ := sendrecSource ok
  exact quiet.asks other

theorem sendrecRepeatUnreleasing {checked : Bool} {pid : Pid} (ok : sendrecRepeat D checked x pid = some y)
    (quiet : Unreleasing x.log) (other : x.msg.cmd ≠ .inodeRelease) : Unreleasing y.log := by
  obtain ⟨drv,front,last,-,-,-,rfl⟩ := sendrecRepeatSource ok
  have asked : Unreleasing (x.log ++ [.asked x.drv pid x.msg]) := quiet.asks other
  have after := asked.tells front
  simpa only [List.append_assoc,List.singleton_append] using after

theorem unreleasingLookups : Lookups D (fun x => Unreleasing x.log) := by
  intro x y dev ino name pid quiet _ asked
  have after : Unreleasing y.log := sendrecUnreleasing asked quiet (by simp)
  exact after

theorem Unreleasing.pipe (quiet : Unreleasing x.log) (ok : doPipe D client x = some y) : Unreleasing y.log := by
  obtain ⟨pid,made,-,asked,outcome⟩ := doPipeCases ok
  have first : Unreleasing made.log := sendrecUnreleasing asked quiet (by simp)
  rcases outcome with ⟨-,rfl⟩ | ⟨once,-,grab,outcome⟩
  · exact first
  have second : Unreleasing once.log := sendrecUnreleasing grab first (by simp)
  rcases outcome with ⟨-,rfl⟩ | ⟨twice,-,again,outcome⟩
  · exact second
  have third : Unreleasing twice.log := sendrecUnreleasing again second (by simp)
  rcases outcome with ⟨-,rfl⟩ | ⟨one,-,-,outcome⟩
  · exact third
  rcases outcome with ⟨-,rfl⟩ | ⟨fdi,s',two,-,-,outcome⟩
  · exact third
  rcases outcome with ⟨-,rfl⟩ | ⟨fdo,s'',-,rfl⟩
  · exact third
  · exact third

theorem Unreleasing.open (quiet : Unreleasing x.log) (ok : doOpen D client x = some y) : Unreleasing y.log := by
  rcases doOpenCases ok with rfl | ⟨t,fd,fp,f,pid,z,-,-,-,-,-,asked,outcome⟩
  · exact quiet
  have after : Unreleasing z.log := sendrecUnreleasing asked quiet (by simp)
  rcases outcome with ⟨-,rfl⟩ | ⟨-,rfl⟩
  · exact after
  · exact after

theorem Unreleasing.mknod {kmalloc : Nat → Bool} (quiet : Unreleasing x.log) (call : x.msg.cmd = .mknod)
    (ok : doMknod D client kmalloc x = some y) : Unreleasing y.log := by
  obtain ⟨dev,dir,found,kept,same,outcome⟩ := doMknodCases unreleasingLookups quiet ok
  rcases outcome with ⟨-,rfl⟩ | ⟨pid,made,linked,-,-,asked,link,outcome⟩
  · exact kept
  have first : Unreleasing made.log := sendrecUnreleasing asked kept (by simp [same,call])
  have second : Unreleasing linked.log := sendrecUnreleasing link first (by simp)
  rcases outcome with ⟨-,rfl⟩ | ⟨-,rfl⟩
  · exact second
  · exact second

theorem Unreleasing.rw (quiet : Unreleasing x.log) (call : x.msg.cmd = .readc ∨ x.msg.cmd = .writec)
    (ok : doRw D client x = some y) : Unreleasing y.log := by
  rcases doRwCases ok with rfl | ⟨t,fp,f,pid,z,-,-,-,-,-,-,asked,rfl⟩
  · exact quiet
  · have after : Unreleasing z.log := sendrecRepeatUnreleasing asked quiet (by rcases call with h | h <;> simp [h])
    exact after

theorem Unreleasing.interrupt (quiet : Unreleasing x.log) (call : x.msg.cmd = .rdInterrupt ∨ x.msg.cmd = .wrInterrupt)
    (ok : doInt D x = some y) : Unreleasing y.log := by
  unfold doInt at ok
  split at ok <;> try contradiction
  exact sendrecRepeatUnreleasing ok quiet (by rcases call with h | h <;> simp [h])

/-! The requests that close descriptors. -/

/- While `s` loses descriptors: the entries go on naming their inodes, and each RELEASE so
far was the last one's. -/
structure Shrinking (s : Tables) (x : Tx σ) : Prop where
  counted : Counted x.vfs
  fewer : ∀ k, references x.vfs k ≤ references s k
  entries : ∀ (k : Nat) (f : Filp), x.vfs.filp[k]? = some f →
    ∃ g : Filp, s.filp[k]? = some g ∧ g.dev = f.dev ∧ g.ino = f.ino
  devtab : x.vfs.devtab = s.devtab
  log : ∀ e ∈ x.log, LastReleased s x.vfs e

theorem LastReleased.later {s'' : Tables} {e : Event σ} (fewer : ∀ k, references s'' k ≤ references s' k)
    (before : LastReleased s s' e) : LastReleased s s'' e := by
  cases e with
  | sent client msg => trivial
  | asked drv pid msg =>
    intro call
    obtain ⟨fp,f,entry,there,ino,open_,gone⟩ := before call
    rw [unreferencedZero] at gone
    exact ⟨fp,f,entry,there,ino,open_,unreferencedZero.mpr (Nat.le_zero.mp (gone ▸ fewer fp))⟩

theorem Shrinking.silent (shrinking : Shrinking s x) (counted : Counted s') (fewer : ∀ k, references s' k ≤ references x.vfs k)
    (entries : ∀ (k : Nat) (f : Filp), s'.filp[k]? = some f →
      ∃ g : Filp, x.vfs.filp[k]? = some g ∧ g.dev = f.dev ∧ g.ino = f.ino)
    (devtab : s'.devtab = x.vfs.devtab) : Shrinking s (withVfs x s') where
  counted := counted
  fewer k := Nat.le_trans (fewer k) (shrinking.fewer k)
  entries k f entry := by
    obtain ⟨g,old,dev,ino⟩ := entries k f entry
    obtain ⟨h,first,dev',ino'⟩ := shrinking.entries k g old
    exact ⟨h,first,dev'.trans dev,ino'.trans ino⟩
  devtab := devtab.trans shrinking.devtab
  log e member := (shrinking.log e member).later fewer

theorem putFilpNames {fp k : Nat} {f g old : Filp} (entry : (putFilp s fp g).filp[k]? = some f)
    (there : s.filp[fp]? = some old) (dev : old.dev = g.dev) (ino : old.ino = g.ino) :
    ∃ h : Filp, s.filp[k]? = some h ∧ h.dev = f.dev ∧ h.ino = f.ino := by
  rcases putFilpEntry entry there with ⟨rfl,rfl⟩ | ⟨-,same⟩
  · exact ⟨old,there,dev,ino⟩
  · exact ⟨f,same,rfl,rfl⟩

theorem Shrinking.doClose (shrinking : Shrinking s x) (small : Bounded 255 s) (index : x.msg.w0 < maxFd)
    (ok : doClose D client x = some y) : Shrinking s y := by
  have few : Bounded 255 x.vfs := fun k => Nat.le_trans (shrinking.fewer k) (small k)
  obtain ⟨counted,fewer⟩ := doCloseCounted shrinking.counted few index ok
  rcases doCloseCases ok with ⟨-,rfl⟩ | ⟨t,fp,given,found,at_,outcome⟩
  · exact shrinking
  have same : ∀ (k : Nat) (f : Filp), (putFd x.vfs client x.msg.w0.toNat (-1)).filp[k]? = some f →
      ∃ g : Filp, x.vfs.filp[k]? = some g ∧ g.dev = f.dev ∧ g.ino = f.ino := fun k f entry => ⟨f,entry,rfl,rfl⟩
  rcases outcome with ⟨-,rfl⟩ | ⟨f,real,entry,⟨-,rfl⟩ | ⟨-,-,rfl⟩ | ⟨-,last,pid,there,asked⟩⟩
  · exact shrinking.silent counted fewer same rfl
  · exact shrinking.silent counted fewer same rfl
  · exact shrinking.silent counted fewer (fun k g entry' => putFilpNames entry' entry rfl rfl) rfl
  obtain ⟨drv,front,reply,-,-,-,rfl⟩ := sendrecRepeatSource asked
  have shut : Shrinking s (withVfs x (putFilp (putFd x.vfs client x.msg.w0.toNat (-1)) fp.toNat
      { f with refcnt := toChar (f.refcnt - 1) })) :=
    shrinking.silent counted fewer (fun k g entry' => putFilpNames entry' entry rfl rfl) rfl
  refine ⟨shut.counted,shut.fewer,shut.entries,shut.devtab,?_⟩
  intro e member
  rcases List.mem_append.mp member with old | new
  · exact shut.log e old
  rcases List.mem_cons.mp new with rfl | told
  · intro _
    obtain ⟨g,first,dev,ino⟩ := shrinking.entries fp.toNat f entry
    -- The counter that has reached 0 is the one of an entry without descriptors.
    have zero : toChar (references (putFilp (putFd x.vfs client x.msg.w0.toNat (-1)) fp.toNat
        { f with refcnt := toChar (f.refcnt - 1) }) fp.toNat) = 0 := by
      rw [← last]
      exact (counted.counts fp.toNat _ (List.getElem?_set_self (List.getElem?_eq_some_iff.mp entry).1)).symm
    have inside : x.msg.w0.toNat < maxFd := by omega
    rw [descriptorInside (foundWidth shrinking.counted.shaped found) inside] at at_
    have moved := putFdReferences (-1) found inside at_ fp.toNat
    rw [oneIndex real,if_pos rfl,oneNegative (by decide : (-1 : Int) < 0)] at moved
    have before : references s fp.toNat ≠ 0 := by
      have more := shrinking.fewer fp.toNat
      omega
    refine ⟨fp.toNat,g,first,?_,ino.symm,fun gone => before (unreferencedZero.mp gone),?_⟩
    · unfold device at there ⊢
      rw [← shrinking.devtab,dev]
      exact there
    · exact unreferencedZero.mpr ((toCharZero (Nat.le_trans (shut.fewer fp.toNat) (small _))).mp zero)
  · obtain ⟨m,-,rfl⟩ := List.mem_map.mp told
    trivial

theorem Shrinking.closeAll {is : List Nat} (shrinking : Shrinking s x) (small : Bounded 255 s) (inside : ∀ i ∈ is, i < maxFd)
    (ok : closeAll D client is x = some y) : Shrinking s y := by
  induction is generalizing x with
  | nil =>
    cases Option.some.inj ok
    exact shrinking
  | cons i rest ih =>
    simp only [Vfs.closeAll,bind,Option.bind_eq_some_iff] at ok
    obtain ⟨z,closed,ok⟩ := ok
    have index : i < maxFd := inside i List.mem_cons_self
    have begun : Shrinking s (reply x i) := ⟨shrinking.counted,shrinking.fewer,shrinking.entries,shrinking.devtab,shrinking.log⟩
    exact ih (begun.doClose small (by change (i : Int) < (maxFd : Nat); omega) closed)
      (fun j member => inside j (List.mem_cons_of_mem _ member)) ok

theorem Shrinking.removetask (shrinking : Shrinking s x) (small : Bounded 255 s) (ok : vfsRemovetask D x = some y) :
    Shrinking s y := by
  have few : Bounded 255 x.vfs := fun k => Nat.le_trans (shrinking.fewer k) (small k)
  have counted := (vfsRemovetaskCounted shrinking.counted few ok).1
  rcases vfsRemovetaskCases ok with ⟨-,rfl⟩ | ⟨t,z,-,closed,rfl⟩
  · exact shrinking
  have shut : Shrinking s z := shrinking.closeAll small (fun i member => List.mem_range.mp member) closed
  refine shut.silent counted ?_ (fun k f entry => ⟨f,entry,rfl,rfl⟩) rfl
  exact fun k => (List.eraseP_sublist.map _).sum_le_sum (fun _ _ => Nat.zero_le _)

theorem Shrinking.start (held : Counted x.vfs) (none : x.log = []) : Shrinking x.vfs x :=
  ⟨held,fun _ => Nat.le_refl _,fun _ f entry => ⟨f,entry,rfl,rfl⟩,rfl,by simp [none]⟩

theorem vfsAddnewtaskReleases {kmalloc : Bool} (held : Counted x.vfs) (small : Bounded 255 x.vfs) (none : x.log = [])
    (ok : vfsAddnewtask D kmalloc x = some y) : ∀ e ∈ y.log, LastReleased x.vfs y.vfs e := by
  obtain ⟨queued,sum⟩ := held.addedEmpty (t := ⟨x.msg.w0.toNat,List.replicate maxFd (-1),0,0,0,0⟩) rfl
  cases vfsAddnewtaskAdds ok with
  | first nobody => simp [withVfs,none]
  | orphan removed =>
    have begun := (Shrinking.start held none).silent queued (fun k => Nat.le_of_eq (sum k))
      (fun k f entry => ⟨f,entry,rfl,rfl⟩) rfl
    exact (begun.removetask small removed).log
  | child found => simp [withVfs,none]
  | full => simp [reply,none]

theorem processReleases {r : Request} (held : Counted x.vfs) (small : Bounded 255 x.vfs) (own : x.msg = r.msg)
    (closes : r.msg.cmd = .close → r.msg.w0 < maxFd) (none : x.log = []) (ok : process D r x = some y) :
    ∀ e ∈ y.log, LastReleased x.vfs y.vfs e := by
  have quiet : Unreleasing x.log := by simp [Unreleasing,none]
  unfold process at ok
  split at ok
  case h_1 => exact vfsAddnewtaskReleases held small none ok
  case h_2 => exact ((Shrinking.start held none).removetask small ok).log
  case h_3 =>
    cases Option.some.inj ok
    unfold doMkdev
    split
    · exact quiet.lastReleased
    · exact quiet.lastReleased
  case h_4 call => exact (quiet.mknod (by rw [own]; exact call) ok).lastReleased
  case h_5 =>
    rcases doDupCases ok with rfl | ⟨t,fp,fd,f,-,-,-,-,-,-,rfl⟩
    · exact quiet.lastReleased
    · exact quiet.lastReleased
  case h_6 => exact (quiet.pipe ok).lastReleased
  case h_7 =>
    obtain ⟨found,a,b,c,kept,-,rfl⟩ := doStatCases unreleasingLookups quiet ok
    exact kept.lastReleased
  case h_8 => exact (quiet.open ok).lastReleased
  case h_9 call => exact ((Shrinking.start held none).doClose small (by rw [own]; exact closes call) ok).log
  case h_10 call => exact (quiet.interrupt (.inl (by rw [own]; exact call)) ok).lastReleased
  case h_11 call => exact (quiet.interrupt (.inr (by rw [own]; exact call)) ok).lastReleased
  case h_12 call =>
    exact (Unreleasing.rw (x := { x with msg := { x.msg with client := r.client } }) quiet
      (.inl (by simp [own,call])) ok).lastReleased
  case h_13 call =>
    exact (Unreleasing.rw (x := { x with msg := { x.msg with client := r.client } }) quiet
      (.inr (by simp [own,call])) ok).lastReleased
  case h_14 =>
    cases Option.some.inj ok
    exact quiet.lastReleased
  case h_15 =>
    cases Option.some.inj ok
    exact quiet.lastReleased

theorem vfsReleases {s s' : System σ} {r : Request} {out : List (Event σ)} (held : Counted s.vfs)
    (small : Bounded 255 s.vfs) (closes : r.msg.cmd = .close → r.msg.w0 < maxFd) (taken : vfs D s r = some (s',out)) :
    ∀ e ∈ out, LastReleased s.vfs s'.vfs e := by
  simp only [vfs,bind,Option.bind_eq_some_iff] at taken
  obtain ⟨y,processed,last⟩ := taken
  obtain ⟨rfl,rfl⟩ := Prod.mk.inj (Option.some.inj last)
  have releases := processReleases (x := ⟨s.vfs,s.drv,r.msg,[]⟩) held small rfl closes rfl processed
  intro e member
  unfold finish at member
  split at member
  · rcases List.mem_append.mp member with old | new
    · exact releases e old
    · cases List.mem_singleton.mp new
      trivial
  · exact releases e member

theorem Counted.unreferenced (held : Counted s) (small : Bounded 255 s) {fp : Nat} {f : Filp}
    (entry : s.filp[fp]? = some f) : f.refcnt = 0 ↔ Unreferenced s fp := by
  rw [held.counts fp f entry,unreferencedZero]
  exact toCharZero (small fp)

theorem Counted.sparesOpen (held : Counted s) (small : Bounded 255 s) : SparesOpen s := by
  intro fp free
  obtain ⟨inside,-⟩ := List.findIdx?_eq_some_iff_getElem.mp free
  have entry := List.getElem?_eq_getElem inside
  exact (held.unreferenced small entry).mp (emptyFilp free entry)

theorem pipeEndBounded {ino : Int} {fd : Nat} (held : Counted s) (small : Bounded 255 s)
    (ok : pipeEnd client ino s = some (some (fd,s'))) : Bounded 255 s' := by
  rcases pipeEndCases ok with none | ⟨fp,t,fd',f,empty,found,free,entry,same⟩
  · contradiction
  obtain ⟨rfl,rfl⟩ := Prod.mk.inj (Option.some.inj same)
  obtain ⟨inside,old,there,negative⟩ := emptyFd free (foundWidth held.shaped found)
  intro k
  have moved := putFdReferences (fp : Int) found inside there k
  rw [oneNegative negative,oneIndex (Int.natCast_nonneg fp),Int.toNat_natCast] at moved
  have count : references (putFd (putFilp s fp { f with
    dev := s.pipedevIdx, ino := ino, refcnt := toChar (f.refcnt + 1) }) client fd fp) k =
      references (putFd s client fd fp) k := rfl
  rw [count]
  have few := small k
  split at moved
  · rename_i here
    have none := unreferencedZero.mp (held.sparesOpen small fp empty)
    rw [here] at moved ⊢
    omega
  · omega

end

/- What is asked of a run: CLOSE gets a descriptor below MAX_FD, and before each request no
entry is the target of more than 255 descriptors. -/
structure Holding (s : System Devices) (i : Input) : Prop where
  closes : i.request.msg.cmd = .close → i.request.msg.w0 < maxFd
  small : Bounded 255 s.vfs

theorem releasedWithLastDescriptor {s : System Devices} {history : List (Event Devices)}
    (run : Run.Reaches served Holding Started s history) (small : Bounded 255 s.vfs) :
    (∀ (fp : Nat) (f : Filp), s.vfs.filp[fp]? = some f → (f.refcnt = 0 ↔ Unreferenced s.vfs fp)) ∧
    SparesOpen s.vfs ∧ (∀ client ino fd s', pipeEnd client ino s.vfs = some (some (fd,s')) → SparesOpen s') ∧
    ∀ i s' out, Holding s i → served s i = some (s',out) → ∀ e ∈ out, LastReleased s.vfs s'.vfs e := by
  have held : Counted s.vfs := run.stateInvariant (P := fun s => Counted s.vfs) (fun _ start => startedCounted start)
    (fun _ _ _ _ held holding taken => vfsCounted (D := drivers) held holding.small holding.closes taken)
  refine ⟨fun fp f entry => held.unreferenced small entry,held.sparesOpen small,?_,?_⟩
  · intro client ino fd s' ended
    exact (pipeEndCounted held ended).sparesOpen (pipeEndBounded held small ended)
  · intro i s' out holding taken
    exact vfsReleases (D := drivers) (s := { s with drv := { s.drv with rx := i.rx } }) (r := i.request) held small
      holding.closes taken

-- The first end of a pipe is closed: entry 0 had one descriptor, and is released.
theorem releasedWithLastDescriptorOfPipe : ∃ s history, Run.Reaches served Holding Started s history ∧
    ∃ s' out drv msg, served s (demoInput 0x10 (demoMsg .close 0 0 0)) = some (s',out) ∧
      .asked drv 1 msg ∈ out ∧ msg.cmd = .inodeRelease ∧ LastReleased s.vfs s'.vfs (.asked drv 1 msg) := by
  have start : Run.Reaches served Holding Started (vfsInit drivers 1 noDevices) [] := .start ⟨1,by decide,rfl⟩
  have added := start.next (i := demoInput 2 (demoMsg .addtask 0x10 0 0))
    ⟨by decide,fewTasks (by decide) (by decide)⟩ rfl
  have piped := added.next (i := demoInput 0x10 (demoMsg .pipe 0 0 0))
    ⟨by decide,fewTasks (by decide) (by decide)⟩ rfl
  refine ⟨_,_,piped,_,_,_,_,rfl,List.mem_cons_self,rfl,?_⟩
  exact (releasedWithLastDescriptor piped (fewTasks (by decide) (by decide))).2.2.2
    (demoInput 0x10 (demoMsg .close 0 0 0)) _ _ ⟨by decide,fewTasks (by decide) (by decide)⟩ rfl _ List.mem_cons_self

theorem sessionServed {s : Session} {history : List Told} (run : Run.Reaches session Valid Opening s history) :
    ∃ told, Run.Reaches served (fun _ i => ∀ fd, fdArgument i.request.msg = some fd → fd < maxFd) Started s.sys told := by
  induction run with
  | start first => exact ⟨[],.start first.1⟩
  | @next s _ i _ _ before allowed taken ih =>
    obtain ⟨told,run⟩ := ih
    simp only [session,bind,Option.bind_eq_some_iff] at taken
    obtain ⟨⟨sys,log⟩,step,last⟩ := taken
    obtain ⟨rfl,-⟩ := Prod.mk.inj (Option.some.inj last)
    exact ⟨_,run.next (i := i) allowed.index step⟩

/- 32 tasks have eight descriptors of entry 2 each. The entry counts 0, and is the one that
find_empty_filp answers with. -/
theorem openEntryHandedOut : ∃ s history,
    Run.Reaches served (fun _ i => ∀ fd, fdArgument i.request.msg = some fd → fd < maxFd) Started s history ∧
    ∃ f, s.vfs.filp[2]? = some f ∧ f.refcnt = 0 ∧ references s.vfs 2 = 256 ∧ findEmptyFilp s.vfs = some 2 ∧
      ¬ SparesOpen s.vfs := by
  obtain ⟨d,history,run⟩ := crowdGrows (crowdDups (crowdOpens crowdStarts)) 31
  obtain ⟨told,served⟩ := sessionServed run
  have many : references (crowdTables (fdsOf 8) 0 (children 31)) 2 = 256 := by decide +kernel
  refine ⟨_,told,served,_,rfl,rfl,many,rfl,?_⟩
  intro spares
  have none : references (crowdTables (fdsOf 8) 0 (children 31)) 2 = 0 := unreferencedZero.mp (spares 2 rfl)
  omega

end Avros.Vfs
