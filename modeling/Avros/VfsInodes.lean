import Avros.VfsNodes

/-! What VFS and its drivers both count: the open entries of `filp` that name an inode,
and the references the inode's driver has for it. Between two messages the two differ by
what VFS has grabbed and not stored, or stored and not grabbed; `K` is the driver's side. -/
namespace Avros.Vfs

def opens (d n : Int) (f : Filp) : Nat := if f.refcnt ≠ 0 ∧ f.dev = d ∧ f.ino = n then 1 else 0

def holders (s : Tables) (d n : Int) : Nat := (s.filp.map (opens d n)).sum

def at_ (d n e j : Int) : Nat := if e = d ∧ j = n then 1 else 0

theorem atSelf (d n : Int) : at_ d n d n = 1 := if_pos ⟨rfl,rfl⟩

theorem atUnit (d n j : Int) : at_ d n d j = unit n j := by
  unfold at_ unit
  simp

theorem atOther {d n e : Int} (j : Int) (other : e ≠ d) : at_ d n e j = 0 := if_neg (fun h => other h.1)

theorem sumSet {α : Type} (w : α → Nat) {l : List α} {i : Nat} {f : α} (there : l[i]? = some f) (g : α) :
    ((l.set i g).map w).sum + w f = (l.map w).sum + w g := by
  induction l generalizing i with
  | nil => simp at there
  | cons a rest ih =>
    cases i with
    | zero =>
      cases Option.some.inj there
      simp only [List.set_cons_zero,List.map_cons,List.sum_cons]
      omega
    | succ i =>
      have after := ih (i := i) (by simpa using there)
      simp only [List.set_cons_succ,List.map_cons,List.sum_cons]
      omega

theorem opensOpen {f : Filp} (open_ : f.refcnt ≠ 0) (e j : Int) : opens e j f = at_ f.dev f.ino e j := by
  unfold opens at_
  simp only [open_,true_and,ne_eq,not_false_eq_true]
  congr 1
  exact propext ⟨fun h => ⟨h.1.symm,h.2.symm⟩,fun h => ⟨h.1.symm,h.2.symm⟩⟩

theorem opensClosed {f : Filp} (closed : f.refcnt = 0) (e j : Int) : opens e j f = 0 := by
  unfold opens
  simp [closed]

theorem putFilpHolders {s : Tables} {fp : Nat} {f : Filp} (there : s.filp[fp]? = some f) (g : Filp) (d n : Int) :
    holders (putFilp s fp g) d n + opens d n f = holders s d n + opens d n g :=
  sumSet (opens d n) there g

theorem holdersSame {s s' : Tables} (slots : s'.filp.length = s.filp.length)
    (entries : ∀ (fp : Nat) (f' : Filp), s'.filp[fp]? = some f' → ∃ f : Filp, s.filp[fp]? = some f ∧
      f'.dev = f.dev ∧ f'.ino = f.ino ∧ (f'.refcnt = 0 ↔ f.refcnt = 0)) (d n : Int) :
    holders s' d n = holders s d n := by
  have same : s'.filp.map (opens d n) = s.filp.map (opens d n) := by
    refine List.ext_getElem? ?_
    intro fp
    rw [List.getElem?_map,List.getElem?_map]
    cases found : s'.filp[fp]? with
    | none =>
      have outside := List.getElem?_eq_none_iff.mp found
      rw [slots] at outside
      rw [List.getElem?_eq_none_iff.mpr outside]
    | some f' =>
      obtain ⟨f,old,dev,ino,closed⟩ := entries fp f' found
      rw [old]
      simp only [Option.map_some,opens,dev,ino,ne_eq,closed]
  unfold holders
  rw [same]

theorem holdersPositive {s : Tables} {fp : Nat} {f : Filp} (there : s.filp[fp]? = some f)
    (open_ : f.refcnt ≠ 0) : 0 < holders s f.dev f.ino := by
  have less := putFilpHolders there { f with refcnt := 0 } f.dev f.ino
  rw [opensOpen open_,atSelf,opensClosed (f := { f with refcnt := 0 }) rfl] at less
  omega

theorem sumBounded {α : Type} (w : α → Nat) (small : ∀ a, w a ≤ 1) (l : List α) : (l.map w).sum ≤ l.length := by
  induction l with
  | nil => simp
  | cons a rest ih =>
    have one := small a
    simp only [List.map_cons,List.sum_cons,List.length_cons]
    omega

theorem holdersFew {s : Tables} (shaped : Shaped s) (d n : Int) : holders s d n ≤ maxFilp := by
  rw [← shaped.slots]
  refine sumBounded _ ?_ _
  intro f
  unfold opens
  split <;> omega

/-! The drivers' side. -/

structure Tallied (K : Int → Int → Nat) (Z F : Int → Int → Prop) (s : Tables) (drv : Devices) : Prop where
  distinct : ∀ d d' pid, device s d = some pid → device s d' = some pid → d = d'
  unused : ∀ d n, device s d = none → K d n = 0
  known : ∀ pid, pid ≠ 0 → drv.task pid ≠ none → ∃ d, device s d = some pid
  kept : ∀ d pid, device s d = some pid →
    ∃ dv, drv.task pid = some dv ∧ NodeCounts (K d) dv ∧ CalmPipes (Z d) (F d) dv
  piped : ∃ pid nodes, device s s.pipedevIdx = some pid ∧ drv.task pid = some (.pipedev nodes)

def Nowhere (_ _ : Int) : Prop := False

section
variable {K K' : Int → Int → Nat} {Z F F' : Int → Int → Prop} {s s' : Tables} {drv : Devices}

theorem Tallied.at (held : Tallied K Z F s drv) {d : Int} {pid : Pid} {dv : Device}
    (there : device s d = some pid) (task : drv.task pid = some dv) :
    NodeCounts (K d) dv ∧ CalmPipes (Z d) (F d) dv := by
  obtain ⟨found,same,counts,calm⟩ := held.kept d pid there
  rw [task] at same
  cases Option.some.inj same
  exact ⟨counts,calm⟩

theorem Tallied.pipe (held : Tallied K Z F s drv) {pid : Pid} (there : device s s.pipedevIdx = some pid) :
    ∃ nodes, drv.task pid = some (.pipedev nodes) := by
  obtain ⟨found,nodes,same,task⟩ := held.piped
  rw [there] at same
  cases Option.some.inj same
  exact ⟨nodes,task⟩

theorem Tallied.tables (held : Tallied K Z F s drv) (devtab : s'.devtab = s.devtab)
    (idx : s'.pipedevIdx = s.pipedevIdx) : Tallied K Z F s' drv := by
  have same : device s' = device s := by
    funext d
    unfold device
    rw [devtab]
  refine ⟨?_,?_,?_,?_,?_⟩ <;> rw [same]
  · exact held.distinct
  · exact held.unused
  · exact held.known
  · exact held.kept
  · rw [idx]
    exact held.piped

theorem Tallied.put (held : Tallied K Z F s drv) {d : Int} {pid : Pid} {dv dv' : Device} {rx : Int} {msg : Msg}
    {replies : List Msg} (there : device s d = some pid) (task : drv.task pid = some dv)
    (turn : askDevice rx msg dv = some (dv',replies)) (counts : NodeCounts (K' d) dv')
    (calm : CalmPipes (Z d) (F' d) dv') (others : ∀ e, e ≠ d → K' e = K e ∧ F' e = F e) :
    Tallied K' Z F' s (putDevice drv pid dv') := by
  refine ⟨held.distinct,?_,?_,?_,?_⟩
  · intro e n missing
    have other : e ≠ d := by
      rintro rfl
      rw [there] at missing
      contradiction
    rw [(others e other).1]
    exact held.unused e n missing
  · intro p real running
    by_cases same : p = pid
    · subst same
      exact ⟨d,there⟩
    · refine held.known p real ?_
      simpa [putDevice,Function.update_of_ne same] using running
  · intro e p found
    by_cases same : p = pid
    · subst same
      cases held.distinct e d p found there
      exact ⟨dv',by simp [putDevice],counts,calm⟩
    · have other : e ≠ d := by
        rintro rfl
        rw [there] at found
        exact same (Option.some.inj found).symm
      obtain ⟨old,running,oldCounts,oldCalm⟩ := held.kept e p found
      rw [(others e other).1,(others e other).2]
      exact ⟨old,by simpa [putDevice,Function.update_of_ne same] using running,oldCounts,oldCalm⟩
  · obtain ⟨p,nodes,found,running⟩ := held.piped
    by_cases same : p = pid
    · subst same
      rw [task] at running
      cases Option.some.inj running
      obtain ⟨after,rfl,-⟩ := deviceTurn turn
      exact ⟨p,after,found,by simp [putDevice]⟩
    · exact ⟨p,nodes,found,by simpa [putDevice,Function.update_of_ne same] using running⟩

theorem Tallied.settled (held : Tallied K Z F s drv) (grabbed : ∀ d n, F d n → K d n ≠ 0) :
    Tallied K Z Nowhere s drv := by
  refine ⟨held.distinct,held.unused,held.known,?_,held.piped⟩
  intro d pid there
  obtain ⟨dv,running,counts,calm⟩ := held.kept d pid there
  refine ⟨dv,running,counts,?_⟩
  cases dv with
  | pipedev nodes =>
    intro n node found
    have old := calm n node found
    refine ⟨old.low,old.high,old.empty,old.unnamed,?_⟩
    intro zero plain
    obtain ⟨i,rfl,-,at_⟩ := nodeAtIndex found
    have count := counts.at at_
    exact grabbed d i (old.used zero plain) (by omega)
  | memfile nodes => exact calm
  | ttyUsart0 t => exact calm

theorem heldCounted {k : Int → Nat} {n : Int} {dv : Device} (counts : NodeCounts k dv) (some_ : k n ≠ 0) :
    Held n dv := by
  cases dv with
  | pipedev nodes =>
    rcases counts n with ⟨node,found,count⟩ | ⟨-,zero⟩
    · exact ⟨node,found,by omega⟩
    · exact absurd zero some_
  | memfile nodes =>
    rcases counts n with ⟨node,found,-⟩ | ⟨-,zero⟩
    · exact ⟨node,found⟩
    · exact absurd zero some_
  | ttyUsart0 t => exact trivial

end

/-! What VFS says to the drivers on its own account: everything but reads, writes and
interrupts. -/

def Service (cmd : Cmd) : Prop :=
  cmd = .mknod ∨ cmd = .link ∨ cmd = .inodeGrab ∨ cmd = .inodeRelease ∨ cmd = .getDirentry

structure Proper (s : Tables) (drv : Devices) (pid : Pid) (msg : Msg) : Prop where
  registered : ∃ d, device s d = some pid
  service : Service msg.cmd
  calm : ∃ dv Z F, drv.task pid = some dv ∧ CalmPipes Z F dv ∧ (msg.cmd = .inodeRelease → Held msg.w0 dv)

inductive Talk (start : System Devices) : List (Event Devices) → Devices → Prop where
  | quiet : Talk start [] start.drv
  | asked {log mid after pid msg front last} (before : Talk start log mid) (proper : Proper start.vfs mid pid msg)
      (turn : drivers.ask mid pid msg = some (after,front ++ [last])) (again : ∀ m ∈ front, m.cmd = .repeat_) :
      Talk start (log ++ .asked mid pid msg :: unblocked front) after

structure Quiet (x y : Tx Devices) : Prop where
  drv : y.drv = x.drv
  log : y.log = x.log
  devtab : y.vfs.devtab = x.vfs.devtab
  idx : y.vfs.pipedevIdx = x.vfs.pipedevIdx

structure Sane (start : System Devices) (K : Int → Int → Nat) (Z F : Int → Int → Prop) (x : Tx Devices) : Prop where
  tally : Tallied K Z F x.vfs x.drv
  talk : Talk start x.log x.drv
  devtab : x.vfs.devtab = start.vfs.devtab

section
variable {start : System Devices} {K K' : Int → Int → Nat} {Z F : Int → Int → Prop} {x y : Tx Devices} {d : Int} {pid : Pid}

theorem Sane.recount (sane : Sane start K Z F x) (same : ∀ d n, K' d n = K d n) : Sane start K' Z F x := by
  have equal : K' = K := funext fun d => funext (same d)
  rw [equal]
  exact sane

theorem Sane.tables (sane : Sane start K Z F x) (quiet : Quiet x y) : Sane start K Z F y := by
  refine ⟨?_,?_,quiet.devtab.trans sane.devtab⟩
  · rw [quiet.drv]
    exact sane.tally.tables quiet.devtab quiet.idx
  · rw [quiet.drv,quiet.log]
    exact sane.talk

theorem Sane.exchange (sane : Sane start K Z F x) (there : device x.vfs d = some pid) (service : Service x.msg.cmd)
    (some_ : x.msg.cmd = .inodeRelease → K d x.msg.w0 ≠ 0) {drv : Devices} (front : List Msg) {last : Msg}
    (ok : drivers.ask x.drv pid x.msg = some (drv,front ++ [last])) (again : ∀ m ∈ front, m.cmd = .repeat_) :
    ∃ dv dv', x.drv.task pid = some dv ∧ NodeCounts (K d) dv ∧ CalmPipes (Z d) (F d) dv ∧
      askDevice x.drv.rx x.msg dv = some (dv',front ++ [last]) ∧ drv = putDevice x.drv pid dv' ∧
      Talk start (x.log ++ .asked x.drv pid x.msg :: unblocked front) drv := by
  obtain ⟨dv,dv',task,turn,rfl⟩ := askSource ok
  obtain ⟨counts,calm⟩ := sane.tally.at there task
  refine ⟨dv,dv',task,counts,calm,turn,rfl,sane.talk.asked ⟨⟨d,?_⟩,service,dv,Z d,F d,task,calm,?_⟩ ok again⟩
  · unfold device at there ⊢
    rw [← sane.devtab]
    exact there
  · intro release
    exact heldCounted counts (some_ release)

theorem Sane.grabbed (sane : Sane start K Z F x) (there : device x.vfs d = some pid)
    (call : x.msg.cmd = .inodeGrab) (fits : K d x.msg.w0 < 127) (ok : sendrec drivers x pid = some y) :
    (y.msg.w0 < 0 ∧ Sane start K Z F y ∧ ∀ nodes, x.drv.task pid = some (.pipedev nodes) →
      ¬ Present x.msg.w0 (.pipedev nodes)) ∨
    (0 ≤ y.msg.w0 ∧ Sane start (fun e j => K e j + at_ d x.msg.w0 e j) Z F y) := by
  obtain ⟨drv,m,asked,rfl⟩ := sendrecSource ok
  obtain ⟨dv,dv',task,counts,calm,turn,rfl,talk⟩ := sane.exchange there (by simp [Service,call])
    (by simp [call]) [] asked (by simp)
  obtain ⟨last,single,⟨negative,rfl,absent⟩ | ⟨positive,counts,calm⟩⟩ := grabDevice call counts calm fits turn
  · cases single
    refine Or.inl ⟨negative,⟨?_,talk,sane.devtab⟩,?_⟩
    · exact sane.tally.put there task turn counts calm (fun _ _ => ⟨rfl,rfl⟩)
    · intro nodes same
      rw [task] at same
      cases Option.some.inj same
      exact absent nodes rfl
  · cases single
    refine Or.inr ⟨positive,sane.tally.put there task turn ?_ calm ?_,talk,sane.devtab⟩
    · simpa only [atUnit] using counts
    · intro e other
      refine ⟨?_,rfl⟩
      funext j
      rw [atOther j other,Nat.add_zero]

theorem Sane.made (sane : Sane start K Z F x) (there : device x.vfs d = some pid) (call : x.msg.cmd = .mknod)
    (ok : sendrec drivers x pid = some y) :
    Sane start K Z (fun e j => F e j ∨ (e = d ∧ j = y.msg.w0)) y ∧
      ∃ dv, y.drv.task pid = some dv ∧ Fresh (K d) y.msg.w0 dv := by
  obtain ⟨drv,m,asked,rfl⟩ := sendrecSource ok
  obtain ⟨dv,dv',task,counts,calm,turn,rfl,talk⟩ := sane.exchange there (by simp [Service,call])
    (by simp [call]) [] asked (by simp)
  obtain ⟨last,single,counts,calm,fresh⟩ := makeDevice call counts calm turn
  cases single
  refine ⟨⟨sane.tally.put there task turn counts ?_ ?_,talk,sane.devtab⟩,dv',by simp [putDevice],fresh⟩
  · simpa only [true_and] using calm
  · intro e other
    refine ⟨rfl,?_⟩
    funext j
    simp [other]

theorem Sane.linked (sane : Sane start K Z F x) (there : device x.vfs d = some pid) (call : x.msg.cmd = .link)
    {dv : Device} (task : x.drv.task pid = some dv) (fresh : Fresh (K d) x.msg.w1 dv)
    (apart : Z d x.msg.w1 → K d x.msg.w1 ≠ 0) (ok : sendrec drivers x pid = some y) :
    Sane start K Z (fun e j => F e j ∧ ¬ (e = d ∧ j = x.msg.w1)) y := by
  obtain ⟨drv,m,asked,rfl⟩ := sendrecSource ok
  obtain ⟨dv,dv',task,counts,calm,turn,rfl,talk⟩ := sane.exchange there (by simp [Service,call])
    (by simp [call]) [] asked (by simp)
  rename_i same
  rw [task] at same
  cases Option.some.inj same
  obtain ⟨counts,calm⟩ := linkDevice call counts calm fresh apart turn
  refine ⟨sane.tally.put there task turn counts ?_ ?_,talk,sane.devtab⟩
  · simpa only [true_and] using calm
  · intro e other
    refine ⟨rfl,?_⟩
    funext j
    simp [other]

theorem Sane.lookup (sane : Sane start K Z F x) (there : device x.vfs d = some pid)
    (call : x.msg.cmd = .getDirentry) (ok : sendrec drivers x pid = some y) : Sane start K Z F y := by
  obtain ⟨drv,m,asked,rfl⟩ := sendrecSource ok
  obtain ⟨dv,dv',task,counts,calm,turn,rfl,talk⟩ := sane.exchange there (by simp [Service,call])
    (by simp [call]) [] asked (by simp)
  obtain ⟨counts,calm⟩ := otherDevice (by simp [call]) counts calm turn
  exact ⟨sane.tally.put there task turn counts calm (fun _ _ => ⟨rfl,rfl⟩),talk,sane.devtab⟩

theorem Sane.released {checked : Bool} (sane : Sane start K Z F x) (there : device x.vfs d = some pid)
    (call : x.msg.cmd = .inodeRelease) (some_ : 0 < K d x.msg.w0) (fits : K d x.msg.w0 ≤ 127)
    (ok : sendrecRepeat drivers checked x pid = some y) :
    Sane start (fun e j => K e j - at_ d x.msg.w0 e j) Z F y := by
  obtain ⟨drv,front,last,asked,again,-,rfl⟩ := sendrecRepeatSource ok
  obtain ⟨dv,dv',task,counts,calm,turn,rfl,talk⟩ := sane.exchange there (by simp [Service,call])
    (fun _ => by omega) front asked again
  obtain ⟨counts,calm⟩ := releaseDevice call counts calm some_ fits turn
  refine ⟨sane.tally.put there task turn ?_ calm ?_,talk,sane.devtab⟩
  · simpa only [atUnit] using counts
  · intro e other
    refine ⟨?_,rfl⟩
    funext j
    rw [atOther j other,Nat.sub_zero]

end

end Avros.Vfs
