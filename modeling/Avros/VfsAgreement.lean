import Avros.VfsInodes
import Mathlib.Algebra.Order.BigOperators.Group.List
import Mathlib.Algebra.Order.Group.Nat

/-! VFS and its drivers agree on the inodes in use: each operation of VFS moves the open
entries of `filp` and the drivers' references together. `extra` are the references that a
PIPE leaves behind when it fails after it made the node. -/
namespace Avros.Vfs

def Agrees (start : System Devices) (extra : Int → Int → Nat) (Z : Int → Int → Prop) (x : Tx Devices) : Prop :=
  Sane start (fun d n => holders x.vfs d n + extra d n) Z Nowhere x

def Small (extra : Int → Int → Nat) : Prop := ∀ d n, extra d n ≤ 2

section
variable {start : System Devices} {extra : Int → Int → Nat} {Z : Int → Int → Prop} {x y : Tx Devices} {client : Pid}

theorem Agrees.stay (agrees : Agrees start extra Z x) (quiet : Quiet x y)
    (same : ∀ d n, holders y.vfs d n = holders x.vfs d n) : Agrees start extra Z y := by
  have moved : Sane start _ Z Nowhere y := Sane.tables agrees quiet
  exact moved.recount (fun d n => by rw [same])

theorem Agrees.saying (agrees : Agrees start extra Z x) (m : Msg) : Agrees start extra Z { x with msg := m } :=
  agrees.stay ⟨rfl,rfl,rfl,rfl⟩ (fun _ _ => rfl)

theorem countFits (shaped : Shaped x.vfs) (small : Small extra) (d n : Int) :
    holders x.vfs d n + extra d n ≤ 18 := by
  have few := holdersFew shaped d n
  have less := small d n
  unfold maxFilp at few
  omega

theorem doCloseAgrees (shaped : Shaped x.vfs) (small : Small extra) (agrees : Agrees start extra Z x)
    (ok : doClose drivers client x = some y) : Agrees start extra Z y := by
  rcases doCloseCases ok with ⟨-,rfl⟩ | ⟨t,fp,-,-,-,outcome⟩
  · exact agrees
  rcases outcome with ⟨-,rfl⟩ | ⟨f,-,entry,⟨-,rfl⟩ | ⟨open_,more,rfl⟩ | ⟨open_,last,pid,there,asked⟩⟩
  · exact agrees.stay ⟨rfl,rfl,rfl,rfl⟩ (fun _ _ => rfl)
  · exact agrees.stay ⟨rfl,rfl,rfl,rfl⟩ (fun _ _ => rfl)
  · refine agrees.stay ⟨rfl,rfl,rfl,rfl⟩ ?_
    refine holdersSame (by simp [withVfs,putFilp,putFd,onTask]) ?_
    intro k f' found
    rcases putFilpEntry (s := putFd x.vfs client x.msg.w0.toNat (-1)) found entry with ⟨rfl,rfl⟩ | ⟨-,old⟩
    · exact ⟨f,entry,rfl,rfl,by simp [open_,more]⟩
    · exact ⟨f',old,rfl,rfl,Iff.rfl⟩
  · have positive := holdersPositive entry open_
    have fits := countFits shaped small f.dev f.ino
    have before : Sane start _ Z Nowhere { x with
        vfs := putFilp (putFd x.vfs client x.msg.w0.toNat (-1)) fp.toNat
          { f with refcnt := toChar (f.refcnt - 1) }
        msg := { x.msg with cmd := .inodeRelease, w0 := f.ino } } := Sane.tables agrees ⟨rfl,rfl,rfl,rfl⟩
    have after := before.released (d := f.dev) there rfl (by dsimp only; omega) (by dsimp only; omega) asked
    refine after.recount ?_
    intro e j
    have less : holders y.vfs e j + at_ f.dev f.ino e j = holders x.vfs e j := by
      have moved := putFilpHolders (s := putFd x.vfs client x.msg.w0.toNat (-1)) entry
        { f with refcnt := toChar (f.refcnt - 1) } e j
      rw [opensOpen open_,opensClosed (f := { f with refcnt := toChar (f.refcnt - 1) }) last] at moved
      rw [sendrecRepeatVfs asked]
      exact moved
    dsimp only
    omega

theorem doCloseShaped (shaped : Shaped x.vfs) (index : x.msg.w0 < maxFd)
    (ok : doClose drivers client x = some y) : Shaped y.vfs := by
  rcases doCloseCases ok with ⟨-,rfl⟩ | ⟨t,fp,given,-,-,outcome⟩
  · exact shaped
  have inside : x.msg.w0.toNat < maxFd := by omega
  have closed : Shaped (putFd x.vfs client x.msg.w0.toNat (-1)) := shaped.putFd inside (Or.inl (by decide))
  rcases outcome with ⟨-,rfl⟩ | ⟨f,-,-,⟨-,rfl⟩ | ⟨-,-,rfl⟩ | ⟨-,-,pid,-,asked⟩⟩
  · exact closed
  · exact closed
  · exact closed.putFilp _ _
  · rw [sendrecRepeatVfs asked]
    exact closed.putFilp _ _

theorem closeAllAgrees {pid : Pid} {is : List Nat} (inside : ∀ i ∈ is, i < maxFd) (shaped : Shaped x.vfs)
    (small : Small extra) (agrees : Agrees start extra Z x) (ok : closeAll drivers pid is x = some y) :
    Agrees start extra Z y := by
  induction is generalizing x with
  | nil =>
    cases Option.some.inj ok
    exact agrees
  | cons i rest ih =>
    simp only [closeAll,bind,Option.bind_eq_some_iff] at ok
    obtain ⟨z,closed,ok⟩ := ok
    have index : (reply x (i : Int)).msg.w0 < (maxFd : Nat) := by
      have := inside i List.mem_cons_self
      change (i : Int) < (maxFd : Nat)
      omega
    exact ih (fun j member => inside j (List.mem_cons_of_mem _ member))
      (doCloseShaped (x := reply x i) shaped index closed)
      (doCloseAgrees (x := reply x i) shaped small (agrees.saying _) closed) ok

theorem vfsRemovetaskAgrees (shaped : Shaped x.vfs) (small : Small extra) (agrees : Agrees start extra Z x)
    (ok : vfsRemovetask drivers x = some y) : Agrees start extra Z y := by
  rcases vfsRemovetaskCases ok with ⟨-,rfl⟩ | ⟨t,z,-,closed,rfl⟩
  · exact agrees
  exact (closeAllAgrees (fun i member => List.mem_range.mp member) shaped small agrees closed).stay
    ⟨rfl,rfl,rfl,rfl⟩ (fun _ _ => rfl)

theorem Counted.open {s : Tables} (held : Counted s) (few : Bounded 255 s) {fp : Nat} {f : Filp}
    (entry : s.filp[fp]? = some f) : f.refcnt = 0 ↔ references s fp = 0 := by
  rw [held.counts fp f entry]
  exact toCharZero (few fp)

theorem holdersReached {s s' : Tables} (held : Counted s) (few : Bounded 255 s) (held' : Counted s')
    (few' : Bounded 255 s')
    (entries : ∀ (fp : Nat) (f' : Filp), s'.filp[fp]? = some f' → ∃ f : Filp, s.filp[fp]? = some f ∧
      f'.dev = f.dev ∧ f'.ino = f.ino) (reached : ∀ fp, references s' fp = 0 ↔ references s fp = 0) (d n : Int) :
    holders s' d n = holders s d n := by
  refine holdersSame (held'.shaped.slots.trans held.shaped.slots.symm) ?_ d n
  intro fp f' found
  obtain ⟨f,old,dev,ino⟩ := entries fp f' found
  exact ⟨f,old,dev,ino,(held'.open few' found).trans ((reached fp).trans (held.open few old).symm)⟩

theorem incRefNames {s : Tables} {k fp : Nat} {f' : Filp} (entry : (incRef s k).filp[fp]? = some f') :
    ∃ f : Filp, s.filp[fp]? = some f ∧ f'.dev = f.dev ∧ f'.ino = f.ino := by
  obtain ⟨f,old,⟨-,rfl⟩ | ⟨-,rfl⟩⟩ := incRefEntry entry
  · exact ⟨f,old,rfl,rfl⟩
  · exact ⟨f',old,rfl,rfl⟩

theorem doDupAgrees (held : Counted x.vfs) (few : Bounded 255 x.vfs) (index : x.msg.w0 < maxFd)
    (agrees : Agrees start extra Z x) (ok : doDup client x = some y) (few' : Bounded 255 y.vfs) :
    Agrees start extra Z y := by
  have held' := doDupCounted held ok
  rcases doDupCases ok with rfl | ⟨t,fp,fd,f,given,found,at_,real,free,entry,rfl⟩
  · exact agrees.saying _
  refine agrees.stay ⟨rfl,rfl,rfl,rfl⟩ (holdersReached held few held' few' ?_ ?_)
  · intro k f' there
    exact incRefNames there
  intro k
  obtain ⟨inside,old,empty,negative⟩ := emptyFd free (foundWidth held.shaped found)
  have moved := putFdReferences fp found inside empty k
  rw [oneNegative negative,oneIndex real] at moved
  rw [descriptorInside (foundWidth held.shaped found) (by omega)] at at_
  have positive := putFdReferences (-1) found (by omega) at_ k
  rw [oneNegative (by decide : (-1 : Int) < 0),oneIndex real] at positive
  change references (putFd x.vfs client fd fp) k = 0 ↔ _
  split at moved
  · rw [if_pos (by assumption)] at positive
    omega
  · omega

theorem inheritNames (fds : List Int) {s : Tables} {k : Nat} {f' : Filp}
    (entry : (fds.foldl (fun s fp => if fp ≥ 0 then incRef s fp.toNat else s) s).filp[k]? = some f') :
    ∃ f : Filp, s.filp[k]? = some f ∧ f'.dev = f.dev ∧ f'.ino = f.ino := by
  induction fds generalizing s with
  | nil => exact ⟨f',entry,rfl,rfl⟩
  | cons v rest ih =>
    rw [List.foldl_cons] at entry
    obtain ⟨g,there,dev,ino⟩ := ih entry
    split at there
    · obtain ⟨f,old,dev',ino'⟩ := incRefNames there
      exact ⟨f,old,dev.trans dev',ino.trans ino'⟩
    · exact ⟨g,there,dev,ino⟩

theorem inheritTables (fds : List Int) (s : Tables) :
    (fds.foldl (fun s fp => if fp ≥ 0 then incRef s fp.toNat else s) s).devtab = s.devtab ∧
    (fds.foldl (fun s fp => if fp ≥ 0 then incRef s fp.toNat else s) s).pipedevIdx = s.pipedevIdx := by
  obtain ⟨filp,same⟩ := inheritFilp fds s
  rw [same]
  exact ⟨rfl,rfl⟩

theorem vfsAddnewtaskAgrees {kmalloc : Bool} (held : Counted x.vfs) (few : Bounded 255 x.vfs) (small : Small extra)
    (agrees : Agrees start extra Z x) (ok : vfsAddnewtask drivers kmalloc x = some y)
    (few' : Bounded 255 y.vfs) : Agrees start extra Z y := by
  have held' := vfsAddnewtaskCounted held few ok
  obtain ⟨queued,sum⟩ := held.addedEmpty (t := ⟨x.msg.w0.toNat,List.replicate maxFd (-1),0,0,0,0⟩) rfl
  cases vfsAddnewtaskAdds ok with
  | first nobody => exact agrees.stay ⟨rfl,rfl,rfl,rfl⟩ (fun _ _ => rfl)
  | orphan removed =>
    refine (vfsRemovetaskAgrees (x := withVfs x _) queued.shaped small ?_ removed).saying _
    exact agrees.stay ⟨rfl,rfl,rfl,rfl⟩ (fun _ _ => rfl)
  | @child parent found =>
    obtain ⟨devtab,idx⟩ := inheritTables parent.fd { x.vfs with taskQ := x.vfs.taskQ ++
      [{ parent with pid := x.msg.w0.toNat, fd := parent.fd.map inheritedFd }] }
    refine agrees.stay ⟨rfl,rfl,devtab,idx⟩ (holdersReached held few held' few' ?_ ?_)
    · intro k f' there
      obtain ⟨f,old,dev,ino⟩ := inheritNames parent.fd there
      exact ⟨f,old,dev,ino⟩
    intro k
    have counted : parent.fd.count (k : Int) ≤ references x.vfs k := by
      have among := List.le_sum_of_mem
        (List.mem_map_of_mem (f := fun t : VfsTask => t.fd.count (k : Int)) (foundMember found).1)
      rw [← sum k]
      exact among
    change references (inheritFd parent _) k = 0 ↔ _
    rw [inheritedReferences]
    omega
  | full => exact agrees.saying _

theorem incRefPut {s : Tables} {fp : Nat} {f : Filp} (entry : s.filp[fp]? = some f) :
    incRef s fp = putFilp s fp { f with refcnt := toChar (f.refcnt + 1) } := by
  unfold incRef putFilp
  congr 1
  rw [List.modify_eq_set_getElem?,entry]
  rfl

theorem doOpenAgrees (held : Counted x.vfs) (small : Small extra) (agrees : Agrees start extra Z x)
    (ok : doOpen drivers client x = some y) : Agrees start extra Z y := by
  rcases doOpenCases ok with rfl | ⟨t,fd,fp,f,pid,z,found,free,empty,entry,there,asked,outcome⟩
  · exact agrees.saying _
  have zero := emptyFilp empty entry
  have fits := countFits held.shaped small x.msg.w0 x.msg.w1
  have tables := sendrecVfs asked
  have named : ∀ d n, holders z.vfs d n = holders x.vfs d n := by
    intro d n
    have moved := putFilpHolders entry { f with dev := x.msg.w0, ino := x.msg.w1, pos := 0 } d n
    rw [opensClosed zero,opensClosed (f := { f with dev := x.msg.w0, ino := x.msg.w1, pos := 0 }) zero] at moved
    rw [tables]
    exact moved
  have before : Sane start _ Z Nowhere { x with
      vfs := putFilp x.vfs fp { f with dev := x.msg.w0, ino := x.msg.w1, pos := 0 }
      msg := { x.msg with cmd := .inodeGrab, w0 := x.msg.w1 } } := Sane.tables agrees ⟨rfl,rfl,rfl,rfl⟩
  rcases before.grabbed (d := x.msg.w0) there rfl (by dsimp only; omega) asked with ⟨refused,after,-⟩ | ⟨granted,after⟩
  · rcases outcome with ⟨-,rfl⟩ | ⟨given,-⟩
    · have same : Agrees start extra Z z := after.recount (fun d n => by rw [named])
      exact same.saying _
    · omega
  · rcases outcome with ⟨denied,-⟩ | ⟨-,rfl⟩
    · omega
    have counted : ∀ d n, holders (putFd (incRef z.vfs fp) client fd fp) d n =
        holders x.vfs d n + at_ x.msg.w0 x.msg.w1 d n := by
      intro d n
      have entry' : z.vfs.filp[fp]? = some { f with dev := x.msg.w0, ino := x.msg.w1, pos := 0 } := by
        rw [tables]
        exact List.getElem?_set_self (List.getElem?_eq_some_iff.mp entry).1
      have one : toChar (f.refcnt + 1) ≠ 0 := by
        rw [zero]
        decide
      have moved := putFilpHolders entry' ⟨x.msg.w0,x.msg.w1,toChar (f.refcnt + 1),0⟩ d n
      rw [opensClosed (f := { f with dev := x.msg.w0, ino := x.msg.w1, pos := 0 }) zero,
        opensOpen (f := ⟨x.msg.w0,x.msg.w1,toChar (f.refcnt + 1),0⟩) one,named] at moved
      rw [incRefPut entry']
      exact moved
    refine Sane.recount (Sane.tables after ⟨rfl,rfl,rfl,rfl⟩) ?_
    intro d n
    change holders (putFd (incRef z.vfs fp) client fd fp) d n + extra d n = _
    rw [counted]
    dsimp only
    omega

theorem pipeEndHolders {ino : Int} {s s' : Tables} {fd : Nat} (ok : pipeEnd client ino s = some (some (fd,s'))) :
    s'.devtab = s.devtab ∧ s'.pipedevIdx = s.pipedevIdx ∧
      ∀ d n, holders s' d n = holders s d n + at_ s.pipedevIdx ino d n := by
  rcases pipeEndCases ok with none | ⟨fp,t,fd',f,empty,found,free,entry,same⟩
  · contradiction
  obtain ⟨rfl,rfl⟩ := Prod.mk.inj (Option.some.inj same)
  refine ⟨rfl,rfl,?_⟩
  intro d n
  have zero := emptyFilp empty entry
  have one : toChar (f.refcnt + 1) ≠ 0 := by
    rw [zero]
    decide
  have moved := putFilpHolders entry
    { f with dev := s.pipedevIdx, ino := ino, refcnt := toChar (f.refcnt + 1) } d n
  rw [opensClosed zero,opensOpen (f := { f with
    dev := s.pipedevIdx, ino := ino, refcnt := toChar (f.refcnt + 1) }) one] at moved
  exact moved

/- The node of a new pipe: MKNOD cannot give a used one, and GRAB cannot miss it. -/
theorem pipeMade {pid : Pid} (agrees : Agrees start extra Z x) (there : device x.vfs x.vfs.pipedevIdx = some pid)
    (ok : sendrec drivers { x with msg := { x.msg with cmd := .mknod } } pid = some y) :
    0 ≤ y.msg.w0 ∧ holders x.vfs x.vfs.pipedevIdx y.msg.w0 + extra x.vfs.pipedevIdx y.msg.w0 = 0 ∧
    (∀ nodes, y.drv.task pid = some (.pipedev nodes) → Present y.msg.w0 (.pipedev nodes)) ∧
    Sane start (fun d n => holders x.vfs d n + extra d n) Z
      (fun d n => Nowhere d n ∨ (d = x.vfs.pipedevIdx ∧ n = y.msg.w0)) y := by
  have before : Sane start (fun d n => holders x.vfs d n + extra d n) Z Nowhere
      { x with msg := { x.msg with cmd := .mknod } } := Sane.tables agrees ⟨rfl,rfl,rfl,rfl⟩
  obtain ⟨after,dv,task,fresh⟩ := before.made there rfl ok
  have same : device y.vfs y.vfs.pipedevIdx = some pid := by rw [sendrecVfs ok]; exact there
  obtain ⟨nodes,pipe⟩ := after.tally.pipe same
  rw [task] at pipe
  cases Option.some.inj pipe
  obtain ⟨zero,new⟩ := fresh
  obtain ⟨i,index,-,-⟩ := nodeAtIndex new
  refine ⟨by omega,zero,?_,after⟩
  intro others found
  rw [task] at found
  cases Option.some.inj found
  exact ⟨_,new⟩

theorem pipeGrabbed {K : Int → Int → Nat} {F : Int → Int → Prop} {pid : Pid} {ino : Int}
    (sane : Sane start K Z F x) (there : device x.vfs x.vfs.pipedevIdx = some pid)
    (present : ∀ nodes, x.drv.task pid = some (.pipedev nodes) → Present ino (.pipedev nodes))
    (fits : K x.vfs.pipedevIdx ino < 127)
    (ok : sendrec drivers { x with msg := { x.msg with cmd := .inodeGrab, w0 := ino } } pid = some y) :
    0 ≤ y.msg.w0 ∧ (∀ nodes, y.drv.task pid = some (.pipedev nodes) → Present ino (.pipedev nodes)) ∧
    Sane start (fun d n => K d n + at_ x.vfs.pipedevIdx ino d n) Z F y := by
  have before : Sane start K Z F { x with msg := { x.msg with cmd := .inodeGrab, w0 := ino } } :=
    Sane.tables sane ⟨rfl,rfl,rfl,rfl⟩
  rcases before.grabbed there rfl fits ok with ⟨-,-,absent⟩ | ⟨granted,after⟩
  · obtain ⟨nodes,pipe⟩ := sane.tally.pipe there
    exact absurd (present nodes pipe) (absent nodes pipe)
  refine ⟨granted,?_,after⟩
  intro nodes pipe
  have same : device y.vfs x.vfs.pipedevIdx = some pid := by rw [sendrecVfs ok]; exact there
  obtain ⟨counts,-⟩ := after.tally.at same pipe
  exact (heldCounted counts (n := ino) (by dsimp only; rw [atSelf]; omega)).present

theorem doPipeAgrees (small : Small extra) (agrees : Agrees start extra Z x)
    (ok : doPipe drivers client x = some y) :
    ∃ extra', Small extra' ∧ Agrees start extra' Z y ∧ (y.msg.w2 = 0 → extra' = extra) := by
  obtain ⟨pid,made,there,node,outcome⟩ := doPipeCases ok
  obtain ⟨given,zero,present,afterMade⟩ := pipeMade agrees there node
  have tables := sendrecVfs node
  rcases outcome with ⟨refused,-⟩ | ⟨once,-,grab,outcome⟩
  · omega
  have idx : made.vfs.pipedevIdx = x.vfs.pipedevIdx := by rw [tables]
  obtain ⟨given,present,afterOnce⟩ := pipeGrabbed afterMade (by rw [tables]; exact there) present
    (by rw [idx]; omega) grab
  have tables := (sendrecVfs grab).trans tables
  rcases outcome with ⟨refused,-⟩ | ⟨twice,-,again,outcome⟩
  · omega
  have idxOnce : once.vfs.pipedevIdx = x.vfs.pipedevIdx := by rw [tables]
  obtain ⟨given,-,afterTwice⟩ := pipeGrabbed afterOnce (by rw [tables]; exact there) present
    (by rw [idxOnce,idx,atSelf]; omega) again
  have tables : twice.vfs = x.vfs := (sendrecVfs again).trans tables
  rw [idx,idxOnce] at afterTwice
  -- Two references that no entry holds yet, and the node is no longer new.
  have grabbed : Sane start (fun d n => holders x.vfs d n + extra d n +
      2 * at_ x.vfs.pipedevIdx made.msg.w0 d n) Z Nowhere twice := by
    refine Sane.recount ⟨afterTwice.tally.settled ?_,afterTwice.talk,afterTwice.devtab⟩ (fun d n => by omega)
    rintro d n (nowhere | ⟨rfl,rfl⟩)
    · exact nowhere.elim
    · rw [atSelf]
      omega
  have fits : ∀ k, k ≤ 2 → Small (fun d n => extra d n + k * at_ x.vfs.pipedevIdx made.msg.w0 d n) := by
    intro k few d n
    have less := small d n
    unfold at_
    dsimp only
    split
    · rename_i here
      rw [here.1,here.2]
      omega
    · omega
  rcases outcome with ⟨refused,-⟩ | ⟨first,-,input,outcome⟩
  · omega
  rcases outcome with ⟨-,rfl⟩ | ⟨fdi,s,second,rfl,output,outcome⟩
  · refine ⟨_,fits 2 (by omega),?_,fun success => by simp [failPipe] at success⟩
    refine Sane.recount (Sane.tables grabbed ⟨rfl,rfl,rfl,rfl⟩) ?_
    intro d n
    change holders twice.vfs d n + (extra d n + 2 * at_ x.vfs.pipedevIdx made.msg.w0 d n) = _
    rw [tables]
    omega
  obtain ⟨devtab,idxInput,more⟩ := pipeEndHolders input
  rw [tables] at devtab idxInput more
  rcases outcome with ⟨-,rfl⟩ | ⟨fdo,s',rfl,rfl⟩
  · refine ⟨_,fits 1 (by omega),?_,fun success => by simp [failPipe] at success⟩
    refine Sane.recount (Sane.tables grabbed ⟨rfl,rfl,by rw [tables]; exact devtab,by rw [tables]; exact idxInput⟩) ?_
    intro d n
    change holders s d n + (extra d n + 1 * at_ x.vfs.pipedevIdx made.msg.w0 d n) = _
    rw [more]
    omega
  · obtain ⟨devtab',idxOutput,more'⟩ := pipeEndHolders output
    refine ⟨extra,small,?_,fun _ => rfl⟩
    refine Sane.recount (Sane.tables grabbed ⟨rfl,rfl,?_,?_⟩) ?_
    · rw [tables]
      exact devtab'.trans devtab
    · rw [tables]
      exact idxOutput.trans idxInput
    · intro d n
      change holders s' d n + _ = _
      rw [more',more,idxInput]
      omega

theorem lookupsAgree (start : System Devices) (extra : Int → Int → Nat) (Z : Int → Int → Prop) :
    Lookups drivers (fun x => Agrees start extra Z x) := by
  intro x y dev ino name pid agrees there asked
  have before : Sane start (fun d n => holders x.vfs d n + extra d n) Z Nowhere
      { x with msg := { x.msg with cmd := .getDirentry, w1 := ino, name := name } } :=
    Sane.tables agrees ⟨rfl,rfl,rfl,rfl⟩
  have after := before.lookup there rfl asked
  have same := sendrecVfs asked
  refine Sane.recount (Sane.tables after ⟨rfl,rfl,rfl,rfl⟩) ?_
  intro d n
  rw [same]

theorem doStatAgrees {kmalloc : Nat → Bool} (agrees : Agrees start extra Z x)
    (ok : doStat drivers client kmalloc x = some y) : Agrees start extra Z y := by
  obtain ⟨found,a,b,c,kept,-,rfl⟩ := doStatCases (lookupsAgree start extra Z) agrees ok
  exact kept.saying _

theorem doMknodAgrees {kmalloc : Nat → Bool} (call : x.msg.cmd = .mknod)
    (named : ∀ d n, Z d n → holders x.vfs d n + extra d n ≠ 0) (agrees : Agrees start extra Z x)
    (ok : doMknod drivers client kmalloc x = some y) : Agrees start extra Z y := by
  have lookups : Lookups drivers (fun z => Agrees start extra Z z ∧ z.vfs = x.vfs) := by
    rintro z w dev ino name pid ⟨agrees,tables⟩ there asked
    exact ⟨lookupsAgree start extra Z z w dev ino name pid agrees there asked,(sendrecVfs asked).trans tables⟩
  obtain ⟨dev,dirIno,found,⟨kept,tables⟩,msg,outcome⟩ := doMknodCases lookups ⟨agrees,rfl⟩ ok
  rcases outcome with ⟨-,rfl⟩ | ⟨pid,made,linked,-,there,asked,joined,outcome⟩
  · exact kept.saying _
  obtain ⟨afterMade,dv,task,fresh⟩ := Sane.made kept there (by rw [msg]; exact call) asked
  have tablesMade := sendrecVfs asked
  have before := Sane.tables (y := { made with msg := { made.msg with
    cmd := .link, name := x.msg.name, w1 := made.msg.w0, w0 := dirIno } }) afterMade ⟨rfl,rfl,rfl,rfl⟩
  have after := before.linked (d := dev) (by rw [tablesMade]; exact there) rfl task fresh
    (fun marked => by rw [tables]; exact named dev made.msg.w0 marked) joined
  -- The one new node is the one that has just been linked.
  have settled : Agrees start extra Z linked := by
    refine Sane.recount ⟨after.tally.settled ?_,after.talk,after.devtab⟩ ?_
    · rintro d n ⟨nowhere | new,other⟩
      · exact nowhere.elim
      · exact absurd new other
    · intro d n
      rw [(sendrecVfs joined).trans tablesMade]
  rcases outcome with ⟨-,rfl⟩ | ⟨-,rfl⟩
  · exact settled.saying _
  · exact settled.saying _

end

/-! Reads, writes and interrupts: the tally stays. -/

section
variable {K : Int → Int → Nat} {Z F : Int → Int → Prop} {s : Tables} {drv drv' : Devices} {pid : Pid} {msg : Msg}

theorem Tallied.passed (held : Tallied K Z F s drv) {d : Int} {replies : List Msg} (there : device s d = some pid)
    (call : msg.cmd = .readc ∨ msg.cmd = .writec ∨ msg.cmd = .rdInterrupt ∨ msg.cmd = .wrInterrupt)
    (ok : drivers.ask drv pid msg = some (drv',replies)) : Tallied K Z F s drv' := by
  obtain ⟨dv,dv',task,turn,rfl⟩ := askSource ok
  obtain ⟨counts,calm⟩ := held.at there task
  obtain ⟨counts,calm⟩ := otherDevice (by rcases call with h | h | h | h <;> simp [h]) counts calm turn
  exact held.put there task turn counts calm (fun _ _ => ⟨rfl,rfl⟩)

theorem Tallied.interrupted (held : Tallied K Z F s drv) {replies : List Msg} (real : pid ≠ 0)
    (call : msg.cmd = .rdInterrupt ∨ msg.cmd = .wrInterrupt)
    (ok : drivers.ask drv pid msg = some (drv',replies)) : Tallied K Z F s drv' := by
  obtain ⟨dv,dv',task,-,-⟩ := askSource ok
  obtain ⟨d,there⟩ := held.known pid real (by rw [task]; simp)
  exact held.passed there (Or.inr (Or.inr call)) ok

end

theorem startDeviceCounts (driver : Driver) {Z : Int → Prop} (unmarked : ∀ n, ¬ Z n) :
    NodeCounts (fun _ => 0) (startDevice driver) ∧ CalmPipes Z (fun _ => False) (startDevice driver) := by
  cases driver with
  | pipedev =>
    have none : ∀ n node, nodeAt pipedevStart n ≠ some (some node) := by
      intro n node found
      obtain ⟨i,-,-,there⟩ := nodeAtIndex found
      have none := List.eq_of_mem_replicate (List.mem_of_getElem? there)
      contradiction
    exact ⟨fun n => Or.inr ⟨none n,rfl⟩,fun n node found => absurd found (none n node)⟩
  | memfile =>
    refine ⟨?_,unmarked⟩
    intro n
    cases found : nodeAt memfileStart n with
    | none => exact Or.inr ⟨by simp,rfl⟩
    | some entry =>
      cases entry with
      | none => exact Or.inr ⟨by simp,rfl⟩
      | some node =>
        obtain ⟨i,-,-,there⟩ := nodeAtIndex found
        refine Or.inl ⟨node,rfl,?_⟩
        rcases setNode (by rfl : (List.replicate mfMaxNodes (none : Option MfNode))[0]? = some none) there with
          ⟨-,root⟩ | ⟨-,empty⟩
        · cases Option.some.inj root
          rfl
        · have none := List.eq_of_mem_replicate (List.mem_of_getElem? empty)
          contradiction
  | ttyUsart0 => exact ⟨trivial,unmarked⟩

theorem deviceTask {s : Tables} {d : Int} {pid : Pid} (there : device s d = some pid) : pid ≠ 0 ∧ pid ∈ s.devtab := by
  unfold device at there
  split at there <;> try contradiction
  obtain ⟨found,real⟩ := Option.filter_eq_some_iff.mp there
  exact ⟨by simpa using real,List.mem_of_getElem? found⟩

theorem deviceSet {s : Tables} {i : Nat} (pid : Pid) (inside : i < s.devtab.length) (d : Int) :
    device { s with devtab := s.devtab.set i pid } d =
      if d = i then (if pid = 0 then none else some pid) else device s d := by
  unfold device
  by_cases same : d = i
  · subst same
    simp [inside,Option.filter]
  · by_cases negative : d < 0
    · simp [negative,same]
    · have other : i ≠ d.toNat := by omega
      simp only [if_neg negative,if_neg same,List.getElem?_set_ne other]

theorem emptySlot {s : Tables} {i : Nat} (empty : findEmptyDevtab s = some i) : device s i = none := by
  obtain ⟨inside,zero,-⟩ := List.findIdx?_eq_some_iff_getElem.mp empty
  unfold device
  rw [if_neg (by omega),Int.toNat_natCast,List.getElem?_eq_getElem inside,Option.filter_eq_none_iff]
  intro pid same
  cases Option.some.inj same
  simpa using zero

/- A new device in an empty slot. createtask() answers with a task that is not a device
yet, or with NULL, and then the slot stays empty. -/
theorem doMkdevTallied {K : Int → Int → Nat} {Z : Int → Int → Prop} {newtask : Pid} {x : Tx Devices}
    (held : Tallied K Z Nowhere x.vfs x.drv) (named : ∀ d n, Z d n → K d n ≠ 0)
    (fresh : newtask ≠ 0 → newtask ∉ x.vfs.devtab) :
    Tallied K Z Nowhere (doMkdev drivers newtask x).vfs (doMkdev drivers newtask x).drv := by
  unfold doMkdev
  split
  · exact held
  rename_i i empty
  have inside := (List.findIdx?_eq_some_iff_getElem.mp empty).1
  have vacant := emptySlot empty
  have slots : ∀ d pid, device { x.vfs with devtab := x.vfs.devtab.set i newtask } d = some pid →
      (d = i ∧ pid = newtask ∧ newtask ≠ 0) ∨ (d ≠ i ∧ device x.vfs d = some pid ∧ pid ≠ newtask) := by
    intro d pid there
    rw [deviceSet _ inside] at there
    split at there
    · rename_i same
      split at there <;> try contradiction
      rename_i real
      exact Or.inl ⟨same,(Option.some.inj there).symm,real⟩
    · rename_i other
      refine Or.inr ⟨other,there,?_⟩
      rintro rfl
      obtain ⟨real,member⟩ := deviceTask there
      exact fresh real member
  have others : ∀ pid, pid ≠ newtask →
      (putDevice x.drv newtask (startDevice x.msg.driver)).task pid = x.drv.task pid :=
    fun pid other => Function.update_of_ne other _ _
  refine ⟨?_,?_,?_,?_,?_⟩
  · intro d e pid first second
    rcases slots d pid first with ⟨rfl,rfl,-⟩ | ⟨-,old,other⟩
    · rcases slots e _ second with ⟨rfl,-,-⟩ | ⟨-,-,other⟩
      · rfl
      · exact absurd rfl other
    · rcases slots e pid second with ⟨-,same,-⟩ | ⟨-,old',-⟩
      · exact absurd same other
      · exact held.distinct d e pid old old'
  · intro d n missing
    by_cases same : d = i
    · subst same
      exact held.unused i n vacant
    · refine held.unused d n ?_
      have old : device { x.vfs with devtab := x.vfs.devtab.set i newtask } d = none := missing
      rw [deviceSet _ inside,if_neg same] at old
      exact old
  · intro pid real running
    by_cases same : pid = newtask
    · subst same
      refine ⟨i,?_⟩
      change device { x.vfs with devtab := x.vfs.devtab.set i pid } i = some pid
      rw [deviceSet _ inside,if_pos rfl,if_neg real]
    · obtain ⟨d,there⟩ := held.known pid real (by rw [← others pid same]; exact running)
      have other : d ≠ i := by
        rintro rfl
        rw [vacant] at there
        contradiction
      refine ⟨d,?_⟩
      change device { x.vfs with devtab := x.vfs.devtab.set i newtask } d = some pid
      rw [deviceSet _ inside,if_neg other]
      exact there
  · intro d pid there
    rcases slots d pid there with ⟨rfl,rfl,-⟩ | ⟨-,old,other⟩
    · have none : K i = fun _ => 0 := funext fun n => held.unused i n vacant
      obtain ⟨counts,calm⟩ := startDeviceCounts x.msg.driver (Z := Z i)
        (fun n marked => named i n marked (held.unused i n vacant))
      exact ⟨startDevice x.msg.driver,Function.update_self _ _ _,none ▸ counts,calm⟩
    · obtain ⟨dv,task,rest⟩ := held.kept d pid old
      exact ⟨dv,(others pid other).trans task,rest⟩
  · obtain ⟨pid,nodes,there,task⟩ := held.piped
    have other : x.vfs.pipedevIdx ≠ i := by
      intro same
      rw [same,vacant] at there
      contradiction
    have apart : pid ≠ newtask := by
      rintro rfl
      obtain ⟨real,member⟩ := deviceTask there
      exact fresh real member
    refine ⟨pid,nodes,?_,(others pid apart).trans task⟩
    change device { x.vfs with devtab := x.vfs.devtab.set i newtask } x.vfs.pipedevIdx = some pid
    rw [deviceSet _ inside,if_neg other]
    exact there

def Own (cmd : Cmd) : Prop :=
  cmd ≠ .mkdev ∧ cmd ≠ .rdInterrupt ∧ cmd ≠ .wrInterrupt ∧ cmd ≠ .readc ∧ cmd ≠ .writec

theorem processAgrees {start : System Devices} {extra : Int → Int → Nat} {Z : Int → Int → Prop} {r : Request}
    {x y : Tx Devices} (own : Own r.msg.cmd) (held : Counted x.vfs) (few : Bounded 255 x.vfs) (same : x.msg = r.msg)
    (index : ∀ fd, fdArgument r.msg = some fd → fd < maxFd) (small : Small extra)
    (named : ∀ d n, Z d n → holders x.vfs d n + extra d n ≠ 0) (agrees : Agrees start extra Z x)
    (ok : process drivers r x = some y) (few' : Bounded 255 y.vfs) :
    ∃ extra', Small extra' ∧ Agrees start extra' Z y ∧ ((r.msg.cmd = .pipe → y.msg.w2 = 0) → extra' = extra) := by
  obtain ⟨notMkdev,notRead,notWrite,notReadc,notWritec⟩ := own
  unfold process at ok
  split at ok
  case h_1 => exact ⟨extra,small,vfsAddnewtaskAgrees held few small agrees ok few',fun _ => rfl⟩
  case h_2 => exact ⟨extra,small,vfsRemovetaskAgrees held.shaped small agrees ok,fun _ => rfl⟩
  case h_3 call => exact absurd call notMkdev
  case h_4 call => exact ⟨extra,small,doMknodAgrees (by rw [same]; exact call) named agrees ok,fun _ => rfl⟩
  case h_5 call =>
    have inside := index x.msg.w0 (by simp [fdArgument,call,same])
    exact ⟨extra,small,doDupAgrees held few inside agrees ok few',fun _ => rfl⟩
  case h_6 call =>
    obtain ⟨extra',less,after,exact_⟩ := doPipeAgrees small agrees ok
    exact ⟨extra',less,after,fun success => exact_ (success call)⟩
  case h_7 => exact ⟨extra,small,doStatAgrees agrees ok,fun _ => rfl⟩
  case h_8 => exact ⟨extra,small,doOpenAgrees held small agrees ok,fun _ => rfl⟩
  case h_9 => exact ⟨extra,small,doCloseAgrees held.shaped small agrees ok,fun _ => rfl⟩
  case h_10 call => exact absurd call notRead
  case h_11 call => exact absurd call notWrite
  case h_12 call => exact absurd call notReadc
  case h_13 call => exact absurd call notWritec
  case h_14 =>
    cases Option.some.inj ok
    exact ⟨extra,small,agrees.stay ⟨rfl,rfl,rfl,rfl⟩ (fun _ _ => rfl),fun _ => rfl⟩
  case h_15 =>
    cases Option.some.inj ok
    exact ⟨extra,small,agrees,fun _ => rfl⟩

end Avros.Vfs
