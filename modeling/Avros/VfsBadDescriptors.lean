import Avros.VfsDescriptors
import Avros.VfsLifetimes

/-! Descriptors that a client gives and has not got. do_dup, do_close and do_rw look whether
the number is negative and whether the entry is, and not whether the number is below
MAX_FD: the four words behind the array are then taken for entries. -/
namespace Avros.Vfs

/- The descriptor tables over every run: eight of them in a record, and the closed ones
hold -1. -/
structure NeatTask (t : VfsTask) : Prop where
  width : t.fd.length = maxFd
  closed : ∀ v ∈ t.fd, v < 0 → v = -1

def Neat (s : Tables) : Prop := ∀ t ∈ s.taskQ, NeatTask t

section
variable {σ : Type} {D : Drivers σ} {x y : Tx σ} {s s' : Tables} {client : Pid}

theorem NeatTask.put {t : VfsTask} (neat : NeatTask t) (i : Nat) {v : Int} (value : v < 0 → v = -1) :
    NeatTask (setDescriptor i v t) := by
  by_cases inside : i < maxFd
  · refine ⟨by rw [setDescriptorFd inside,List.length_set,neat.width],?_⟩
    rw [setDescriptorFd inside]
    intro w member negative
    rcases List.mem_or_eq_of_mem_set member with old | rfl
    · exact neat.closed w old negative
    · exact value negative
  · have same : (setDescriptor i v t).fd = t.fd := by
      unfold setDescriptor
      rw [if_neg inside]
      repeat' split
      all_goals rfl
    exact ⟨by rw [same,neat.width],by rw [same]; exact neat.closed⟩

theorem Neat.added (neat : Neat s) {t : VfsTask} (own : NeatTask t) : Neat { s with taskQ := s.taskQ ++ [t] } := by
  intro u member
  rcases List.mem_append.mp member with old | new
  · exact neat u old
  · rw [List.mem_singleton.mp new]
    exact own

theorem neatStable : Stable Neat where
  put s client i v neat value t member := by
    rcases onFirstMem member with old | ⟨u,there,rfl⟩
    · exact neat t old
    · exact (neat u there).put i value
  filp s filp neat := neat
  debug s n neat := neat
  empty s pid a b c d neat := neat.added ⟨List.length_replicate,fun v member _ => List.eq_of_mem_replicate member⟩
  child s t parent pid neat queued member := by
    have own : NeatTask parent := queued parent member
    refine neat.added ⟨by rw [List.length_map,own.width],?_⟩
    intro v member negative
    obtain ⟨w,-,rfl⟩ := List.mem_map.mp member
    unfold inheritedFd at negative ⊢
    omega
  erased s p neat t member := neat t (List.mem_of_mem_eraseP member)

theorem vfsNeat {s s' : System σ} {r : Request} {out : List (Event σ)} (neat : Neat s.vfs)
    (taken : vfs D s r = some (s',out)) : Neat s'.vfs := by
  simp only [vfs,bind,Option.bind_eq_some_iff] at taken
  obtain ⟨y,processed,last⟩ := taken
  obtain ⟨rfl,-⟩ := Prod.mk.inj (Option.some.inj last)
  by_cases call : r.msg.cmd = .mkdev
  · simp only [process,call] at processed
    cases Option.some.inj processed
    unfold doMkdev
    split
    · exact neat
    · exact neat
  · exact neatStable.process (x := ⟨s.vfs,s.drv,r.msg,[]⟩) neat call processed

theorem reachesNeat {s : System σ} {history : List (Event σ)} {legal : System σ → Request → Prop}
    (run : Run.Reaches (vfs D) legal (Initial D) s history) : Neat s.vfs :=
  run.stateInvariant (P := fun s => Neat s.vfs)
    (by
      rintro s ⟨newtask,drv,rfl⟩ t member
      contradiction)
    (fun _ _ _ _ neat _ taken => vfsNeat neat taken)

end

/-! A request with a bad descriptor. -/

def BadDescriptor (t : VfsTask) (fd : Int) : Prop :=
  fd < 0 ∨ (maxFd : Int) ≤ fd ∨ ∃ v, t.fd[fd.toNat]? = some v ∧ v < 0

-- What reports a failure: descriptor -1, or EOF for data. A CLOSE reports nothing.
def Fails (cmd : Cmd) (m : Msg) : Prop := (cmd = .dup → m.w0 = -1) ∧ (cmd = .readc ∨ cmd = .writec → m.w2 = eof)

/- The client is told of the failure, the tables are as before, and a CLOSE asks no driver
for anything. -/
def Harmless {σ : Type} (D : Drivers σ) (s : System σ) (r : Request) : Prop :=
  ∃ s' out m, vfs D s r = some (s',out) ∧ .sent r.client m ∈ out ∧ Fails r.msg.cmd m ∧
    s'.vfs.taskQ = s.vfs.taskQ ∧ s'.vfs.filp = s.vfs.filp ∧
    (r.msg.cmd = .close → ∀ drv pid asked, .asked drv pid asked ∉ out)

/- Below MAX_FD all is well. Behind the array it depends on the word that stands there. -/
def Guarded (t : VfsTask) (m : Msg) : Prop :=
  m.w0 < maxFd ∨ ∃ v, descriptor t m.w0.toNat = some v ∧
    (if m.cmd = .dup then v < 0 ∨ findEmptyFd t = none else if m.cmd = .close then v = -1 else v < 0)

theorem descriptorBehind {t : VfsTask} (width : t.fd.length = maxFd) (j : Nat) :
    descriptor t (maxFd + j) = [t.wdev,t.wino,t.rdev,t.rino][j]? := by
  unfold descriptor
  rw [List.getElem?_append_right (by omega),width,Nat.add_sub_cancel_left]

theorem descriptorSame {t : VfsTask} {i : Nat} {v w : Int} (width : t.fd.length = maxFd) (held : descriptor t i = some v) :
    descriptor (setDescriptor i w t) i = some w ∧ (v = w → setDescriptor i w t = t) := by
  by_cases array : i < maxFd
  · rw [descriptorInside width array] at held
    have wide : (setDescriptor i w t).fd.length = maxFd := by rw [setDescriptorFd array,List.length_set,width]
    refine ⟨?_,?_⟩
    · rw [descriptorInside wide array,setDescriptorFd array]
      exact List.getElem?_set_self (by omega)
    · rintro rfl
      obtain ⟨inside,same⟩ := List.getElem?_eq_some_iff.mp held
      unfold setDescriptor
      rw [if_pos array,← same,List.set_getElem_self]
  · obtain ⟨j,rfl⟩ : ∃ j, i = maxFd + j := ⟨i - maxFd,by omega⟩
    rw [descriptorBehind width] at held
    have behind : (setDescriptor (maxFd + j) w t).fd.length = maxFd := by
      unfold setDescriptor
      rw [if_neg array]
      repeat' split
      all_goals exact width
    rw [descriptorBehind behind]
    -- One of the four words.
    have few : j < 4 := (List.getElem?_eq_some_iff.mp held).1
    obtain rfl | rfl | rfl | rfl : j = 0 ∨ j = 1 ∨ j = 2 ∨ j = 3 := by omega
    all_goals
      cases Option.some.inj held
      exact ⟨rfl,by rintro rfl; rfl⟩

theorem onFirstSame {tasks : List VfsTask} {pid : Pid} {f : VfsTask → VfsTask} {t : VfsTask}
    (found : tasks.find? (·.pid = pid) = some t) (same : f t = t) : onFirst pid f tasks = tasks := by
  induction tasks with
  | nil => rfl
  | cons u rest ih =>
    by_cases here : u.pid = pid
    · have first : u = t := by simpa [List.find?_cons,here] using found
      rw [onFirst,if_pos here,first,same]
    · have later : rest.find? (·.pid = pid) = some t := by simpa [List.find?_cons,here] using found
      rw [onFirst,if_neg here,ih later]

section
variable {σ : Type} {D : Drivers σ} {s : System σ} {r : Request} {t : VfsTask} {y : Tx σ}

theorem harmlessEnd (real : r.client ≠ 0)
    (call : r.msg.cmd = .dup ∨ r.msg.cmd = .close ∨ r.msg.cmd = .readc ∨ r.msg.cmd = .writec)
    (processed : process D r ⟨s.vfs,s.drv,r.msg,[]⟩ = some y) (tasks : y.vfs.taskQ = s.vfs.taskQ)
    (filp : y.vfs.filp = s.vfs.filp) (quiet : y.log = []) (same : y.msg.cmd = r.msg.cmd) (fails : Fails r.msg.cmd y.msg) :
    Harmless D s r := by
  have named : answered r y = r.client :=
    answeredClient (by rcases call with h | h | h | h <;> simp [h]) y
  have speaks : y.msg.cmd ≠ .hold := by
    rw [same]
    rcases call with h | h | h | h <;> simp [h]
  refine ⟨⟨y.vfs,y.drv⟩,[.sent r.client { y.msg with cmd := .final }],{ y.msg with cmd := .final },?_,
    List.mem_singleton_self _,fails,tasks,filp,by simp⟩
  simp only [vfs,processed,bind,Option.bind_some,finish,named,quiet,List.nil_append]
  rw [if_pos ⟨speaks,real⟩]

theorem dupHarmless (real : r.client ≠ 0) (found : vfsFindbypid s.vfs r.client = some t) (call : r.msg.cmd = .dup)
    (word : 0 ≤ r.msg.w0 → ∃ v, descriptor t r.msg.w0.toNat = some v ∧ (v < 0 ∨ findEmptyFd t = none)) :
    Harmless D s r := by
  have refused : doDup r.client ⟨s.vfs,s.drv,r.msg,[]⟩ = some (reply ⟨s.vfs,s.drv,r.msg,[]⟩ (-1)) := by
    unfold doDup
    split
    · rfl
    rename_i given
    obtain ⟨v,held,closed⟩ := word (Int.not_lt.mp given)
    simp only [found,held,bind,Option.bind_some]
    split
    · rfl
    · rename_i open_
      rw [closed.resolve_left open_]
  exact harmlessEnd real (.inl call) (by simpa only [process,call] using refused) rfl rfl rfl rfl
    ⟨fun _ => rfl,by simp [call]⟩

theorem closeHarmless (real : r.client ≠ 0) (found : vfsFindbypid s.vfs r.client = some t) (width : t.fd.length = maxFd)
    (call : r.msg.cmd = .close) (word : 0 ≤ r.msg.w0 → descriptor t r.msg.w0.toNat = some (-1)) : Harmless D s r := by
  have fails : ∀ m, Fails r.msg.cmd m := fun m => ⟨by simp [call],by simp [call]⟩
  by_cases negative : r.msg.w0 < 0
  · have nothing : doClose D r.client ⟨s.vfs,s.drv,r.msg,[]⟩ = some ⟨s.vfs,s.drv,r.msg,[]⟩ := by
      unfold doClose
      rw [if_pos negative]
    exact harmlessEnd real (.inr (.inl call)) (by simpa only [process,call] using nothing) rfl rfl rfl rfl (fails _)
  · have held := word (Int.not_lt.mp negative)
    have nothing : doClose D r.client ⟨s.vfs,s.drv,r.msg,[]⟩ =
        some ⟨putFd s.vfs r.client r.msg.w0.toNat (-1),s.drv,r.msg,[]⟩ := by
      unfold doClose
      rw [if_neg negative]
      simp only [found,held,bind,Option.bind_some]
      rfl
    exact harmlessEnd real (.inr (.inl call)) (by simpa only [process,call] using nothing)
      (onFirstSame found ((descriptorSame width held).2 rfl)) rfl rfl rfl (fails _)

theorem rwHarmless (real : r.client ≠ 0) (found : vfsFindbypid s.vfs r.client = some t)
    (call : r.msg.cmd = .readc ∨ r.msg.cmd = .writec)
    (word : 0 ≤ r.msg.w0 → ∃ v, descriptor t r.msg.w0.toNat = some v ∧ v < 0) : Harmless D s r := by
  have refused : doRw D r.client ⟨s.vfs,s.drv,{ r.msg with client := r.client },[]⟩ =
      some ⟨s.vfs,s.drv,{ r.msg with client := r.client, w2 := eof },[]⟩ := by
    unfold doRw
    split
    · rfl
    rename_i given
    obtain ⟨v,held,closed⟩ := word (Int.not_lt.mp given)
    simp only [found,held,bind,Option.bind_some]
    rw [if_pos closed]
  refine harmlessEnd real (.inr (.inr call)) (y := ⟨s.vfs,s.drv,{ r.msg with client := r.client, w2 := eof },[]⟩)
    ?_ rfl rfl rfl rfl ⟨by rcases call with h | h <;> simp [h],fun _ => rfl⟩
  rcases call with call | call <;> simpa only [process,call] using refused

end

-- A driver that has a byte, 0, for everybody.
def generous : Drivers Unit where
  start d _ _ := d
  ask d _ msg := some (d,[{ msg with w2 := 0, cmd := .final }])

section
variable {s : Tables} {r : Request} {t : VfsTask}

theorem harmlessProcess {σ : Type} {D : Drivers σ} {drv : σ} (harmless : Harmless D ⟨s,drv⟩ r) :
    ∃ y m, process D r ⟨s,drv,r.msg,[]⟩ = some y ∧ .sent r.client m ∈ finish r y ∧ Fails r.msg.cmd m ∧
      y.vfs.taskQ = s.taskQ := by
  obtain ⟨s',out,m,taken,told,fails,tasks,-⟩ := harmless
  simp only [vfs,bind,Option.bind_eq_some_iff] at taken
  obtain ⟨y,processed,last⟩ := taken
  obtain ⟨rfl,rfl⟩ := Prod.mk.inj (Option.some.inj last)
  exact ⟨y,m,processed,told,fails,tasks⟩

theorem finishTold {σ : Type} {y : Tx σ} {client : Pid} {m : Msg} (told : .sent client m ∈ finish r y)
    (quiet : ∀ c n, .sent c n ∉ y.log) : m = { y.msg with cmd := .final } := by
  unfold finish at told
  split at told
  · rcases List.mem_append.mp told with old | new
    · exact absurd old (quiet _ _)
    · cases List.mem_singleton.mp new
      rfl
  · exact absurd told (quiet _ _)

theorem dupGuarded (found : vfsFindbypid s r.client = some t) (call : r.msg.cmd = .dup) (given : 0 ≤ r.msg.w0)
    (harmless : Harmless generous ⟨s,()⟩ r) :
    ∃ v, descriptor t r.msg.w0.toNat = some v ∧ (v < 0 ∨ findEmptyFd t = none) := by
  obtain ⟨y,m,processed,told,fails,-⟩ := harmlessProcess harmless
  simp only [process,call,doDup,if_neg (Int.not_lt.mpr given),found,bind,Option.bind_some,
    Option.bind_eq_some_iff] at processed
  obtain ⟨v,held,processed⟩ := processed
  refine ⟨v,held,?_⟩
  split at processed
  · rename_i closed
    exact .inl closed
  split at processed
  · rename_i full
    exact .inr full
  rename_i fd free
  simp only [Option.bind_eq_some_iff] at processed
  obtain ⟨f,-,last⟩ := processed
  cases Option.some.inj last
  have answer := fails.1 call
  rw [finishTold told (by simp [reply,withVfs])] at answer
  simp only [reply] at answer
  omega

theorem closeGuarded (found : vfsFindbypid s r.client = some t) (width : t.fd.length = maxFd) (call : r.msg.cmd = .close)
    (given : 0 ≤ r.msg.w0) (harmless : Harmless generous ⟨s,()⟩ r) : descriptor t r.msg.w0.toNat = some (-1) := by
  obtain ⟨y,m,processed,-,-,tasks⟩ := harmlessProcess harmless
  have closed : doClose generous r.client ⟨s,(),r.msg,[]⟩ = some y := by simpa only [process,call] using processed
  have put := doCloseTasks closed given
  rcases doCloseCases closed with ⟨negative,-⟩ | ⟨u,v,-,known,held,-⟩
  · exact absurd given (Int.not_le.mpr negative)
  cases Option.some.inj (known.symm.trans found)
  -- The record is the one before, so the word was -1 already.
  have after : vfsFindbypid (putFd s r.client r.msg.w0.toNat (-1)) r.client = some (setDescriptor r.msg.w0.toNat (-1) t) :=
    putFdFind _ (-1) found
  have same : setDescriptor r.msg.w0.toNat (-1) t = t := by
    unfold vfsFindbypid at after found
    rw [← put,tasks,found] at after
    exact (Option.some.inj after).symm
  have shut := (descriptorSame (w := -1) width held).1
  rwa [same] at shut

theorem rwGuarded (found : vfsFindbypid s r.client = some t) (call : r.msg.cmd = .readc ∨ r.msg.cmd = .writec)
    (given : 0 ≤ r.msg.w0) (harmless : Harmless generous ⟨s,()⟩ r) :
    ∃ v, descriptor t r.msg.w0.toNat = some v ∧ v < 0 := by
  obtain ⟨y,m,processed,told,fails,-⟩ := harmlessProcess harmless
  have passed : doRw generous r.client ⟨s,(),{ r.msg with client := r.client },[]⟩ = some y := by
    rcases call with call | call <;> simpa only [process,call] using processed
  simp only [doRw,if_neg (Int.not_lt.mpr given),found,bind,Option.bind_some,Option.bind_eq_some_iff] at passed
  obtain ⟨v,held,passed⟩ := passed
  refine ⟨v,held,?_⟩
  split at passed
  · assumption
  simp only [Option.bind_eq_some_iff] at passed
  obtain ⟨f,-,pid,-,z,asked,last⟩ := passed
  cases Option.some.inj last
  simp only [sendrecRepeat,generous,bind,Option.bind_some,repeatLoop] at asked
  cases Option.some.inj asked
  have answer := fails.2 call
  rw [finishTold told (by simp [withVfs])] at answer
  simp [eof,withVfs] at answer

end

/-- Over every run, whatever the drivers have answered: a request with a bad descriptor is
harmless, whatever they answer next, exactly if its number is below MAX_FD or the word it
leads to happens to be harmless. -/
theorem badDescriptorsHarmless {σ : Type} {D : Drivers σ} {s : System σ} {history : List (Event σ)}
    (run : Run.Reaches (vfs D) (fun _ _ => True) (Initial D) s history) {r : Request} {t : VfsTask}
    (real : r.client ≠ 0) (found : vfsFindbypid s.vfs r.client = some t)
    (call : r.msg.cmd = .dup ∨ r.msg.cmd = .close ∨ r.msg.cmd = .readc ∨ r.msg.cmd = .writec)
    (bad : BadDescriptor t r.msg.w0) :
    (∀ (τ : Type) (E : Drivers τ) (drv : τ), Harmless E ⟨s.vfs,drv⟩ r) ↔ Guarded t r.msg := by
  have neat : NeatTask t := reachesNeat run t (foundMember found).1
  constructor
  · intro harmless
    have plain := harmless Unit generous ()
    by_cases below : r.msg.w0 < maxFd
    · exact .inl below
    have given : 0 ≤ r.msg.w0 := Int.le_trans (Int.natCast_nonneg _) (Int.not_lt.mp below)
    right
    rcases call with call | call | call
    · obtain ⟨v,held,word⟩ := dupGuarded found call given plain
      exact ⟨v,held,by simpa [call] using word⟩
    · exact ⟨-1,closeGuarded found neat.width call given plain,by simp [call]⟩
    · obtain ⟨v,held,word⟩ := rwGuarded found call given plain
      exact ⟨v,held,by rcases call with h | h <;> simpa [h] using word⟩
  · intro guarded τ E drv
    -- A closed descriptor of the array holds -1, which every guard lets pass.
    have word : 0 ≤ r.msg.w0 → ∃ v, descriptor t r.msg.w0.toNat = some v ∧
        (if r.msg.cmd = .dup then v < 0 ∨ findEmptyFd t = none else if r.msg.cmd = .close then v = -1 else v < 0) := by
      intro given
      rcases guarded with below | behind
      · have inside : r.msg.w0.toNat < maxFd := by omega
        rcases bad with negative | beyond | ⟨v,held,closed⟩
        · omega
        · omega
        · have shut := neat.closed v (List.mem_of_getElem? held) closed
          refine ⟨v,by rw [descriptorInside neat.width inside]; exact held,?_⟩
          split
          · exact .inl closed
          · split <;> assumption
      · exact behind
    rcases call with call | call | call
    · exact dupHarmless real found call (fun given => by simpa [call] using word given)
    · refine closeHarmless real found neat.width call ?_
      intro given
      obtain ⟨v,held,shut⟩ := word given
      have minus : v = -1 := by simpa [call] using shut
      rw [held,minus]
    · refine rwHarmless real found call ?_
      intro given
      obtain ⟨v,held,shut⟩ := word given
      exact ⟨v,held,by rcases call with h | h <;> simpa [h] using shut⟩

-- Descriptor 3 is not open, and so is descriptor -7 never.
theorem badDescriptorsHarmlessClosed : ∃ (s : System Devices) (history : List (Event Devices)),
    Run.Reaches (vfs drivers) (fun _ _ => True) (Initial drivers) s history ∧
    (∀ (τ : Type) (E : Drivers τ) (drv : τ), Harmless E ⟨s.vfs,drv⟩ (demoRequest 0x10 (demoMsg .close 3 0 0))) ∧
    ∀ (τ : Type) (E : Drivers τ) (drv : τ), Harmless E ⟨s.vfs,drv⟩ (demoRequest 0x10 (demoMsg .readc (-7) 0 0)) := by
  have start : Run.Reaches (vfs drivers) (fun _ _ => True) (Initial drivers) (vfsInit drivers 1 noDevices) [] :=
    .start ⟨1,noDevices,rfl⟩
  have added := start.next (i := demoRequest 2 (demoMsg .addtask 0x10 0 0)) trivial rfl
  have piped := added.next (i := demoRequest 0x10 (demoMsg .pipe 0 0 0)) trivial rfl
  refine ⟨_,_,piped,?_,?_⟩
  · exact (badDescriptorsHarmless piped (r := demoRequest 0x10 (demoMsg .close 3 0 0)) (by decide) rfl (by decide)
      (.inr (.inr ⟨-1,rfl,by decide⟩))).mpr (.inl (by decide))
  · exact (badDescriptorsHarmless piped (r := demoRequest 0x10 (demoMsg .readc (-7) 0 0)) (by decide) rfl (by decide)
      (.inl (by decide))).mpr (.inl (by decide))

/- A task without an open descriptor duplicates number 8, which is its working device, 1:
it is given descriptor 0 of entry 1. -/
theorem dupOfWorkingDevice : ∃ (s : System Devices) (history : List (Event Devices)) (t : VfsTask),
    Run.Reaches (vfs drivers) (fun _ _ => True) (Initial drivers) s history ∧
    vfsFindbypid s.vfs 0x10 = some t ∧ BadDescriptor t 8 ∧ (∀ v ∈ t.fd, v < 0) ∧
    ¬ Harmless drivers s (demoRequest 0x10 (demoMsg .dup 8 0 0)) ∧
    ∃ s' m, vfs drivers s (demoRequest 0x10 (demoMsg .dup 8 0 0)) = some (s',[.sent 0x10 m]) ∧ m.w0 = 0 ∧
      s'.vfs.taskQ ≠ s.vfs.taskQ ∧ s'.vfs.filp ≠ s.vfs.filp := by
  have start : Run.Reaches (vfs drivers) (fun _ _ => True) (Initial drivers) (vfsInit drivers 1 noDevices) [] :=
    .start ⟨1,noDevices,rfl⟩
  have added := start.next (i := demoRequest 2 (demoMsg .addtask 0x10 0 0)) trivial rfl
  refine ⟨_,_,_,added,rfl,.inr (.inl (by decide)),by decide,?_,_,_,rfl,rfl,by decide +kernel,by decide +kernel⟩
  rintro ⟨s',out,m,taken,-,-,tasks,-⟩
  obtain ⟨rfl,-⟩ := Prod.mk.inj (Option.some.inj taken)
  revert tasks
  decide +kernel

end Avros.Vfs
