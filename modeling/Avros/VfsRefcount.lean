import Mathlib.Algebra.GroupWithZero.Nat
import Avros.VfsDrivers

/-! `filp[fp].refcnt` counts the descriptors that lead to `filp[fp]`, over every run of
requests and whatever the drivers answer. The counter is a `char`: it agrees with the
number of descriptors modulo 256, and that number is what it shows up to 127. -/
namespace Avros.Vfs

def references (s : Tables) (fp : Nat) : Nat := (s.taskQ.map (fun t => t.fd.count (fp : Int))).sum

def Bounded (bound : Nat) (s : Tables) : Prop := ∀ fp, references s fp ≤ bound

structure Shaped (s : Tables) : Prop where
  slots : s.filp.length = maxFilp
  width : ∀ t ∈ s.taskQ, t.fd.length = maxFd
  valid : ∀ t ∈ s.taskQ, ∀ v ∈ t.fd, v < 0 ∨ v.toNat < maxFilp

def Counts (s : Tables) : Prop := ∀ fp f, s.filp[fp]? = some f → f.refcnt = toChar (references s fp)

structure Counted (s : Tables) : Prop where
  shaped : Shaped s
  counts : Counts s

def one (v : Int) (fp : Nat) : Nat := if v = fp then 1 else 0

theorem oneNegative {v : Int} (negative : v < 0) (fp : Nat) : one v fp = 0 := by
  unfold one
  split
  · omega
  · rfl

theorem oneIndex {v : Int} (real : 0 ≤ v) (fp : Nat) : one v fp = if fp = v.toNat then 1 else 0 := by
  unfold one
  split <;> split <;> omega

theorem toCharAdd (a b : Int) : toChar (toChar a + b) = toChar (a + b) := by
  unfold toChar
  omega

theorem toCharZero {n : Nat} (small : n ≤ 255) : toChar n = 0 ↔ n = 0 := by
  unfold toChar
  omega

theorem countSet {l : List Int} {i : Nat} {old : Int} (held : l[i]? = some old) (v : Int) (fp : Nat) :
    (l.set i v).count (fp : Int) + one old fp = l.count (fp : Int) + one v fp := by
  obtain ⟨inside,same⟩ := List.getElem?_eq_some_iff.mp held
  rw [List.count_set inside,same]
  have present : old = (fp : Int) → 0 < l.count (fp : Int) := by
    rintro rfl
    exact List.count_pos_iff.mpr (List.mem_of_getElem? held)
  unfold one
  by_cases here : old = (fp : Int)
  · have positive := present here
    by_cases new : v = (fp : Int)
    · simp only [here,new,beq_self_eq_true,if_true]; omega
    · simp only [here,new,beq_self_eq_true,if_true,if_false,beq_iff_eq]; omega
  · by_cases new : v = (fp : Int)
    · simp only [here,new,beq_self_eq_true,if_true,if_false,beq_iff_eq]; omega
    · simp only [here,new,if_false,beq_iff_eq]; omega

/-! The record vfs_findbypid() answers with, and stores through it. -/

theorem onFirstReferences {tasks : List VfsTask} {pid : Pid} {t : VfsTask} (f : VfsTask → VfsTask)
    (found : tasks.find? (·.pid = pid) = some t) (fp : Nat) :
    ((onFirst pid f tasks).map (fun u => u.fd.count (fp : Int))).sum + t.fd.count (fp : Int) =
      (tasks.map (fun u => u.fd.count (fp : Int))).sum + (f t).fd.count (fp : Int) := by
  induction tasks with
  | nil => contradiction
  | cons u rest ih =>
    by_cases here : u.pid = pid
    · have same : u = t := by simpa [List.find?_cons,here] using found
      subst same
      simp only [onFirst,if_pos here,List.map_cons,List.sum_cons]
      omega
    · have later : rest.find? (·.pid = pid) = some t := by simpa [List.find?_cons,here] using found
      have after := ih later
      simp only [onFirst,if_neg here,List.map_cons,List.sum_cons]
      omega

theorem onFirstMem {tasks : List VfsTask} {pid : Pid} {f : VfsTask → VfsTask} {u : VfsTask}
    (member : u ∈ onFirst pid f tasks) : u ∈ tasks ∨ ∃ t ∈ tasks, u = f t := by
  induction tasks with
  | nil => contradiction
  | cons v rest ih =>
    unfold onFirst at member
    split at member
    · rcases List.mem_cons.mp member with rfl | old
      · exact Or.inr ⟨v,List.mem_cons_self,rfl⟩
      · exact Or.inl (List.mem_cons_of_mem _ old)
    · rcases List.mem_cons.mp member with rfl | old
      · exact Or.inl List.mem_cons_self
      · rcases ih old with old | ⟨t,there,same⟩
        · exact Or.inl (List.mem_cons_of_mem _ old)
        · exact Or.inr ⟨t,List.mem_cons_of_mem _ there,same⟩

theorem onFirstFind {tasks : List VfsTask} {pid : Pid} {f : VfsTask → VfsTask} {t : VfsTask}
    (found : tasks.find? (·.pid = pid) = some t) (keeps : (f t).pid = t.pid) :
    (onFirst pid f tasks).find? (·.pid = pid) = some (f t) := by
  induction tasks with
  | nil => contradiction
  | cons u rest ih =>
    by_cases here : u.pid = pid
    · have same : u = t := by simpa [List.find?_cons,here] using found
      subst same
      simp [onFirst,here,keeps]
    · have later : rest.find? (·.pid = pid) = some t := by simpa [List.find?_cons,here] using found
      simpa [onFirst,here,List.find?_cons] using ih later

theorem foundMember {s : Tables} {pid : Pid} {t : VfsTask} (found : vfsFindbypid s pid = some t) :
    t ∈ s.taskQ ∧ t.pid = pid :=
  ⟨List.mem_of_find?_eq_some found,by simpa using List.find?_some found⟩

theorem setDescriptorPid (i : Nat) (v : Int) (t : VfsTask) : (setDescriptor i v t).pid = t.pid := by
  unfold setDescriptor
  repeat' split
  all_goals rfl

theorem setDescriptorFd {i : Nat} (inside : i < maxFd) (v : Int) (t : VfsTask) :
    (setDescriptor i v t).fd = t.fd.set i v := by
  simp [setDescriptor,inside]

theorem putFdFind {s : Tables} {pid : Pid} {t : VfsTask} (i : Nat) (v : Int)
    (found : vfsFindbypid s pid = some t) : vfsFindbypid (putFd s pid i v) pid = some (setDescriptor i v t) :=
  onFirstFind found (setDescriptorPid i v t)

theorem putFdReferences {s : Tables} {pid : Pid} {t : VfsTask} {i : Nat} {old : Int} (v : Int)
    (found : vfsFindbypid s pid = some t) (inside : i < maxFd) (held : t.fd[i]? = some old) (fp : Nat) :
    references (putFd s pid i v) fp + one old fp = references s fp + one v fp := by
  have moved := onFirstReferences (setDescriptor i v) found fp
  have changed := countSet held v fp
  rw [setDescriptorFd inside] at moved
  have sum : references (putFd s pid i v) fp =
      ((onFirst pid (setDescriptor i v) s.taskQ).map (fun u => u.fd.count (fp : Int))).sum := rfl
  unfold references at sum ⊢
  omega

theorem descriptorInside {t : VfsTask} {i : Nat} (width : t.fd.length = maxFd) (inside : i < maxFd) :
    descriptor t i = t.fd[i]? := by
  unfold descriptor
  rw [List.getElem?_append_left (by omega)]

theorem emptyFd {t : VfsTask} {fd : Nat} (free : findEmptyFd t = some fd) (width : t.fd.length = maxFd) :
    fd < maxFd ∧ ∃ old, t.fd[fd]? = some old ∧ old < 0 := by
  obtain ⟨inside,empty,-⟩ := List.findIdx?_eq_some_iff_getElem.mp free
  exact ⟨width ▸ inside,_,List.getElem?_eq_getElem inside,by simpa using empty⟩

theorem emptyFilp {s : Tables} {fp : Nat} {f : Filp} (free : findEmptyFilp s = some fp)
    (entry : s.filp[fp]? = some f) : f.refcnt = 0 := by
  obtain ⟨inside,empty,-⟩ := List.findIdx?_eq_some_iff_getElem.mp free
  rw [List.getElem?_eq_getElem inside] at entry
  cases Option.some.inj entry
  simpa using empty

/-! The tables keep their shape. -/

theorem Shaped.putFd {s : Tables} (shaped : Shaped s) {pid : Pid} {i : Nat} {v : Int} (inside : i < maxFd)
    (index : v < 0 ∨ v.toNat < maxFilp) : Shaped (putFd s pid i v) where
  slots := shaped.slots
  width t member := by
    rcases onFirstMem member with old | ⟨u,there,rfl⟩
    · exact shaped.width t old
    · rw [setDescriptorFd inside,List.length_set]
      exact shaped.width u there
  valid t member := by
    rcases onFirstMem member with old | ⟨u,there,rfl⟩
    · exact shaped.valid t old
    · intro w among
      rw [setDescriptorFd inside] at among
      rcases List.mem_or_eq_of_mem_set among with old | rfl
      · exact shaped.valid u there w old
      · exact index

theorem Shaped.withFilp {s : Tables} (shaped : Shaped s) {filp : List Filp}
    (slots : filp.length = s.filp.length) : Shaped { s with filp := filp } :=
  ⟨slots.trans shaped.slots,shaped.width,shaped.valid⟩

theorem Shaped.putFilp {s : Tables} (shaped : Shaped s) (fp : Nat) (f : Filp) : Shaped (putFilp s fp f) :=
  shaped.withFilp (by simp)

theorem Shaped.index {s : Tables} (shaped : Shaped s) {fp : Nat} {f : Filp}
    (entry : s.filp[fp]? = some f) : fp < maxFilp :=
  shaped.slots ▸ (List.getElem?_eq_some_iff.mp entry).1

-- The one way a counter moves: with the number of descriptors, by `d`.
theorem Counts.shifted {s s' : Tables} (counts : Counts s) (d : Nat → Int)
    (refs : ∀ fp, (references s' fp : Int) = references s fp + d fp)
    (entries : ∀ fp f', s'.filp[fp]? = some f' → ∃ f, s.filp[fp]? = some f ∧
      (f'.refcnt = toChar (f.refcnt + d fp) ∨ d fp = 0 ∧ f'.refcnt = f.refcnt)) : Counts s' := by
  intro fp f' entry
  obtain ⟨f,old,moved | ⟨zero,same⟩⟩ := entries fp f' entry
  · rw [moved,counts fp f old,toCharAdd,refs]
  · rw [same,counts fp f old,refs,zero,Int.add_zero]

theorem Counts.same {s s' : Tables} (counts : Counts s) (refs : ∀ fp, references s' fp = references s fp)
    (entries : ∀ (fp : Nat) (f' : Filp), s'.filp[fp]? = some f' →
      ∃ f : Filp, s.filp[fp]? = some f ∧ f'.refcnt = f.refcnt) : Counts s' := by
  refine counts.shifted (fun _ => 0) (fun fp => by simp [refs]) ?_
  intro fp f' entry
  obtain ⟨f,old,same⟩ := entries fp f' entry
  exact ⟨f,old,Or.inr ⟨rfl,same⟩⟩

theorem putFilpEntry {s : Tables} {fp k : Nat} {f g : Filp} (entry : (putFilp s fp g).filp[k]? = some f)
    {old : Filp} (there : s.filp[fp]? = some old) : (k = fp ∧ f = g) ∨ (k ≠ fp ∧ s.filp[k]? = some f) := by
  unfold putFilp at entry
  dsimp only at entry
  by_cases same : k = fp
  · subst same
    rw [List.getElem?_set_self (List.getElem?_eq_some_iff.mp there).1] at entry
    exact Or.inl ⟨rfl,(Option.some.inj entry).symm⟩
  · rw [List.getElem?_set_ne (fun h => same h.symm)] at entry
    exact Or.inr ⟨same,entry⟩

theorem incRefEntry {s : Tables} {fp k : Nat} {f' : Filp} (entry : (incRef s fp).filp[k]? = some f') :
    ∃ f, s.filp[k]? = some f ∧
      ((k = fp ∧ f' = { f with refcnt := toChar (f.refcnt + 1) }) ∨ (k ≠ fp ∧ f' = f)) := by
  unfold incRef at entry
  dsimp only at entry
  by_cases same : k = fp
  · subst same
    rw [List.getElem?_modify_eq,Option.map_eq_map,Option.map_eq_some_iff] at entry
    obtain ⟨f,old,rfl⟩ := entry
    exact ⟨f,old,Or.inl ⟨rfl,rfl⟩⟩
  · rw [List.getElem?_modify_ne _ _ (fun h => same h.symm)] at entry
    exact ⟨f',entry,Or.inr ⟨same,rfl⟩⟩

theorem foundWidth {s : Tables} (shaped : Shaped s) {pid : Pid} {t : VfsTask}
    (found : vfsFindbypid s pid = some t) : t.fd.length = maxFd := shaped.width t (foundMember found).1

theorem Counted.linked {s s' : Tables} (held : Counted s) {pid : Pid} {t : VfsTask} {fd fp : Nat}
    (found : vfsFindbypid s pid = some t) (free : findEmptyFd t = some fd) (inside : fp < maxFilp)
    (tasks : s'.taskQ = (putFd s pid fd fp).taskQ) (slots : s'.filp.length = s.filp.length)
    (entries : ∀ (k : Nat) (f' : Filp), s'.filp[k]? = some f' → ∃ f : Filp, s.filp[k]? = some f ∧
      ((k = fp ∧ f'.refcnt = toChar (f.refcnt + 1)) ∨ (k ≠ fp ∧ f'.refcnt = f.refcnt))) : Counted s' := by
  obtain ⟨index,old,empty,negative⟩ := emptyFd free (foundWidth held.shaped found)
  have shape : Shaped (putFd s pid fd fp) := held.shaped.putFd index (Or.inr (by simpa using inside))
  refine ⟨⟨slots.trans held.shaped.slots,?_,?_⟩,?_⟩
  · rw [tasks]; exact shape.width
  · rw [tasks]; exact shape.valid
  refine held.counts.shifted (fun k => if k = fp then 1 else 0) ?_ ?_
  · intro k
    have moved := putFdReferences (fp : Int) found index empty k
    have sum : references s' k = references (putFd s pid fd fp) k := by unfold references; rw [tasks]
    rw [oneNegative negative,oneIndex (by omega : (0 : Int) ≤ fp),Int.toNat_natCast] at moved
    rw [sum]
    split
    · rw [if_pos (by assumption)] at moved; omega
    · rw [if_neg (by assumption)] at moved; omega
  · intro k f' entry
    obtain ⟨f,there,⟨rfl,counted⟩ | ⟨other,same⟩⟩ := entries k f' entry
    · exact ⟨f,there,Or.inl (by simpa using counted)⟩
    · exact ⟨f,there,Or.inr ⟨by simp [other],same⟩⟩

theorem Counted.unlinked {s s' : Tables} (held : Counted s) {pid : Pid} {t : VfsTask} {i : Nat} {fp : Int}
    (found : vfsFindbypid s pid = some t) (inside : i < maxFd) (at_ : t.fd[i]? = some fp)
    (tasks : s'.taskQ = (putFd s pid i (-1)).taskQ) (slots : s'.filp.length = s.filp.length)
    (entries : ∀ (k : Nat) (f' : Filp), s'.filp[k]? = some f' → ∃ f : Filp, s.filp[k]? = some f ∧
      ((k : Int) = fp ∧ f'.refcnt = toChar (f.refcnt - 1) ∨ (k : Int) ≠ fp ∧ f'.refcnt = f.refcnt)) :
    Counted s' ∧ ∀ k, references s' k ≤ references s k := by
  have shape : Shaped (putFd s pid i (-1)) := held.shaped.putFd inside (Or.inl (by decide))
  have sum : ∀ k, references s' k + one fp k = references s k := by
    intro k
    have moved := putFdReferences (-1) found inside at_ k
    rw [oneNegative (by decide : (-1 : Int) < 0)] at moved
    have same : references s' k = references (putFd s pid i (-1)) k := by unfold references; rw [tasks]
    omega
  refine ⟨⟨⟨slots.trans held.shaped.slots,?_,?_⟩,?_⟩,fun k => by have := sum k; omega⟩
  · rw [tasks]; exact shape.width
  · rw [tasks]; exact shape.valid
  refine held.counts.shifted (fun k => -(one fp k : Int)) (fun k => by have := sum k; omega) ?_
  intro k f' entry
  obtain ⟨f,there,⟨here,counted⟩ | ⟨other,same⟩⟩ := entries k f' entry
  · refine ⟨f,there,Or.inl ?_⟩
    simpa [one,here,Int.sub_eq_add_neg] using counted
  · exact ⟨f,there,Or.inr ⟨by simpa [one] using other.symm,same⟩⟩

section
variable {σ : Type} {D : Drivers σ}

theorem doDupCounted {client : Pid} {x y : Tx σ} (held : Counted x.vfs)
    (ok : doDup client x = some y) : Counted y.vfs := by
  rcases doDupCases ok with rfl | ⟨t,fp,fd,f,given,found,at_,real,free,entry,rfl⟩
  · exact held
  have inside := held.shaped.index entry
  have natural : ((fp.toNat : Nat) : Int) = fp := Int.toNat_of_nonneg real
  refine held.linked found free inside (by rw [natural]; rfl) (by simp [reply,withVfs,incRef,putFd,onTask]) ?_
  intro k f' there
  obtain ⟨g,old,⟨rfl,rfl⟩ | ⟨other,rfl⟩⟩ := incRefEntry there
  · exact ⟨g,old,Or.inl ⟨rfl,rfl⟩⟩
  · exact ⟨f',old,Or.inr ⟨other,rfl⟩⟩

theorem doOpenCounted {client : Pid} {x y : Tx σ} (held : Counted x.vfs)
    (ok : doOpen D client x = some y) : Counted y.vfs := by
  rcases doOpenCases ok with rfl | ⟨t,fd,fp,f,pid,z,found,free,empty,entry,-,asked,outcome⟩
  · exact held
  have tables := sendrecVfs asked
  have zero := emptyFilp empty entry
  have kept : Counted z.vfs := by
    rw [tables]
    refine ⟨held.shaped.putFilp fp _,held.counts.same (fun _ => rfl) ?_⟩
    intro k f' there
    rcases putFilpEntry there entry with ⟨rfl,rfl⟩ | ⟨-,old⟩
    · exact ⟨f,entry,rfl⟩
    · exact ⟨f',old,rfl⟩
  rcases outcome with ⟨-,rfl⟩ | ⟨-,rfl⟩
  · exact kept
  have same : vfsFindbypid z.vfs client = some t := by rw [tables]; exact found
  refine kept.linked same free (held.shaped.index entry) rfl (by simp [reply,withVfs,incRef,putFd,onTask]) ?_
  intro k f' there
  obtain ⟨g,old,⟨rfl,rfl⟩ | ⟨other,rfl⟩⟩ := incRefEntry (s := z.vfs) there
  · exact ⟨g,old,Or.inl ⟨rfl,rfl⟩⟩
  · exact ⟨f',old,Or.inr ⟨other,rfl⟩⟩

theorem pipeEndCounted {client : Pid} {ino : Int} {s s' : Tables} {fd : Nat} (held : Counted s)
    (ok : pipeEnd client ino s = some (some (fd,s'))) : Counted s' := by
  rcases pipeEndCases ok with none | ⟨fp,t,fd',f,empty,found,free,entry,same⟩
  · contradiction
  obtain ⟨rfl,rfl⟩ := Prod.mk.inj (Option.some.inj same)
  refine held.linked found free (held.shaped.index entry) rfl (by simp [putFilp,putFd,onTask]) ?_
  intro k f' there
  rcases putFilpEntry (s := s) there entry with ⟨rfl,rfl⟩ | ⟨other,old⟩
  · exact ⟨f,entry,Or.inl ⟨rfl,rfl⟩⟩
  · exact ⟨f',old,Or.inr ⟨other,rfl⟩⟩

theorem doPipeCounted {client : Pid} {x y : Tx σ} (held : Counted x.vfs)
    (ok : doPipe D client x = some y) : Counted y.vfs := by
  obtain ⟨pid,made,-,node,outcome⟩ := doPipeCases ok
  have afterNode : Counted made.vfs := by rw [sendrecVfs node]; exact held
  rcases outcome with ⟨-,rfl⟩ | ⟨once,-,grab,outcome⟩
  · exact afterNode
  have afterOnce : Counted once.vfs := by rw [sendrecVfs grab]; exact afterNode
  rcases outcome with ⟨-,rfl⟩ | ⟨twice,-,again,outcome⟩
  · exact afterOnce
  have afterTwice : Counted twice.vfs := by rw [sendrecVfs again]; exact afterOnce
  rcases outcome with ⟨-,rfl⟩ | ⟨first,-,input,outcome⟩
  · exact afterTwice
  rcases outcome with ⟨-,rfl⟩ | ⟨fdi,s,second,rfl,output,outcome⟩
  · exact afterTwice
  have afterInput : Counted s := pipeEndCounted afterTwice input
  rcases outcome with ⟨-,rfl⟩ | ⟨fdo,s',rfl,rfl⟩
  · exact afterInput
  · exact pipeEndCounted afterInput output

theorem doRwCounted {client : Pid} {x y : Tx σ} (held : Counted x.vfs)
    (ok : doRw D client x = some y) : Counted y.vfs := by
  rcases doRwCases ok with rfl | ⟨t,fp,f,pid,z,-,-,-,-,entry,-,asked,rfl⟩
  · exact held
  have tables := sendrecRepeatVfs asked
  have kept : Counted z.vfs := by rw [tables]; exact held
  have there : z.vfs.filp[fp.toNat]? = some f := by rw [tables]; exact entry
  refine ⟨kept.shaped.putFilp _ _,kept.counts.same (fun _ => rfl) ?_⟩
  intro k f' entry'
  rcases putFilpEntry (s := z.vfs) entry' there with ⟨rfl,rfl⟩ | ⟨-,old⟩
  · exact ⟨f,there,rfl⟩
  · exact ⟨f',old,rfl⟩

theorem doCloseTasks {client : Pid} {x y : Tx σ} (ok : doClose D client x = some y) (given : 0 ≤ x.msg.w0) :
    y.vfs.taskQ = (putFd x.vfs client x.msg.w0.toNat (-1)).taskQ := by
  rcases doCloseCases ok with ⟨negative,-⟩ | ⟨t,fp,-,-,-,outcome⟩
  · omega
  rcases outcome with ⟨-,rfl⟩ | ⟨f,-,-,⟨-,rfl⟩ | ⟨-,-,rfl⟩ | ⟨-,-,pid,-,asked⟩⟩
  · rfl
  · rfl
  · rfl
  · rw [sendrecRepeatVfs asked]
    rfl

theorem doCloseCounted {client : Pid} {x y : Tx σ} (held : Counted x.vfs) (small : Bounded 255 x.vfs)
    (index : x.msg.w0 < maxFd) (ok : doClose D client x = some y) :
    Counted y.vfs ∧ ∀ k, references y.vfs k ≤ references x.vfs k := by
  rcases doCloseCases ok with ⟨-,rfl⟩ | ⟨t,fp,given,found,at_,outcome⟩
  · exact ⟨held,fun _ => Nat.le_refl _⟩
  have inside : x.msg.w0.toNat < maxFd := by omega
  rw [descriptorInside (foundWidth held.shaped found) inside] at at_
  -- The descriptor itself is one reference, so the counter of its entry is not zero.
  have positive : 0 ≤ fp → 1 ≤ references x.vfs fp.toNat := by
    intro real
    have moved := putFdReferences (-1) found inside at_ fp.toNat
    rw [oneIndex real,if_pos rfl,oneNegative (by decide : (-1 : Int) < 0)] at moved
    omega
  have tables : ∀ f : Filp, 0 ≤ fp → x.vfs.filp[fp.toNat]? = some f → Counted (putFilp
      (putFd x.vfs client x.msg.w0.toNat (-1)) fp.toNat { f with refcnt := toChar (f.refcnt - 1) }) ∧
      ∀ k, references (putFilp (putFd x.vfs client x.msg.w0.toNat (-1)) fp.toNat
        { f with refcnt := toChar (f.refcnt - 1) }) k ≤ references x.vfs k := by
    intro f real entry
    refine held.unlinked found inside at_ rfl (by simp [putFilp,putFd,onTask]) ?_
    intro k f' there
    rcases putFilpEntry (s := putFd x.vfs client x.msg.w0.toNat (-1)) there entry with ⟨rfl,rfl⟩ | ⟨other,old⟩
    · exact ⟨f,entry,Or.inl ⟨by omega,rfl⟩⟩
    · exact ⟨f',old,Or.inr ⟨by omega,rfl⟩⟩
  rcases outcome with ⟨nowhere,rfl⟩ | ⟨f,real,entry,⟨zero,-⟩ | ⟨-,-,rfl⟩ | ⟨-,-,pid,-,asked⟩⟩
  · refine held.unlinked found inside at_ rfl rfl ?_
    intro k f' there
    exact ⟨f',there,Or.inr ⟨by omega,rfl⟩⟩
  · rw [held.counts _ f entry,toCharZero (small _)] at zero
    have := positive real
    omega
  · exact tables f real entry
  · rw [sendrecRepeatVfs asked]
    exact tables f real entry

theorem closeAllShuts {pid : Pid} {is : List Nat} {x y : Tx σ} {t : VfsTask} (inside : ∀ i ∈ is, i < maxFd)
    (found : vfsFindbypid x.vfs pid = some t) (width : t.fd.length = maxFd) (ok : closeAll D pid is x = some y) :
    ∃ u : VfsTask, vfsFindbypid y.vfs pid = some u ∧ u.fd.length = maxFd ∧ (∀ i ∈ is, u.fd[i]? = some (-1)) ∧
      ∀ i : Nat, t.fd[i]? = some (-1) → u.fd[i]? = some (-1) := by
  induction is generalizing x t with
  | nil =>
    cases Option.some.inj ok
    exact ⟨t,found,width,by simp,fun _ h => h⟩
  | cons i rest ih =>
    simp only [closeAll,bind,Option.bind_eq_some_iff] at ok
    obtain ⟨z,closed,ok⟩ := ok
    have index : i < maxFd := inside i List.mem_cons_self
    have tasks := doCloseTasks closed (by change (0 : Int) ≤ i; omega)
    have named : (reply x (i : Int)).msg.w0.toNat = i := Int.toNat_natCast i
    rw [named] at tasks
    have next : vfsFindbypid z.vfs pid = some (setDescriptor i (-1) t) := by
      have after := putFdFind i (-1) found
      unfold vfsFindbypid at after ⊢
      rw [tasks]
      exact after
    have set : ∀ j, (setDescriptor i (-1) t).fd[j]? = if j = i then some (-1) else t.fd[j]? := by
      intro j
      rw [setDescriptorFd index]
      split
      · subst j
        exact List.getElem?_set_self (by omega)
      · exact List.getElem?_set_ne (fun h => absurd h.symm (by assumption))
    obtain ⟨u,there,wide,closedRest,stay⟩ := ih (fun j member => inside j (List.mem_cons_of_mem _ member)) next
      (by rw [setDescriptorFd index,List.length_set,width]) ok
    refine ⟨u,there,wide,?_,?_⟩
    · intro j member
      rcases List.mem_cons.mp member with rfl | later
      · exact stay j (by rw [set,if_pos rfl])
      · exact closedRest j later
    · intro j old
      refine stay j ?_
      rw [set]
      split
      · rfl
      · exact old

theorem closeAllEmpty {pid : Pid} {x y : Tx σ} {t : VfsTask} (found : vfsFindbypid x.vfs pid = some t)
    (width : t.fd.length = maxFd) (ok : closeAll D pid (List.range maxFd) x = some y) :
    ∃ u : VfsTask, vfsFindbypid y.vfs pid = some u ∧ ∀ v ∈ u.fd, v = -1 := by
  obtain ⟨u,there,wide,empty,-⟩ := closeAllShuts (fun i member => List.mem_range.mp member) found width ok
  refine ⟨u,there,fun v member => ?_⟩
  obtain ⟨i,inside,at_⟩ := List.mem_iff_getElem.mp member
  have closedHere := empty i (List.mem_range.mpr (by omega))
  rw [List.getElem?_eq_getElem inside,at_] at closedHere
  exact Option.some.inj closedHere

theorem closeAllCounted {pid : Pid} {is : List Nat} {x y : Tx σ} (held : Counted x.vfs) (small : Bounded 255 x.vfs)
    (inside : ∀ i ∈ is, i < maxFd) (ok : closeAll D pid is x = some y) :
    Counted y.vfs ∧ ∀ k, references y.vfs k ≤ references x.vfs k := by
  induction is generalizing x with
  | nil =>
    cases Option.some.inj ok
    exact ⟨held,fun _ => Nat.le_refl _⟩
  | cons i rest ih =>
    simp only [closeAll,bind,Option.bind_eq_some_iff] at ok
    obtain ⟨z,closed,ok⟩ := ok
    have index : i < maxFd := inside i List.mem_cons_self
    obtain ⟨kept,fewer⟩ := doCloseCounted (x := reply x i) held small
      (by change (i : Int) < (maxFd : Nat); omega) closed
    obtain ⟨last,less⟩ := ih kept (fun k => Nat.le_trans (fewer k) (small k))
      (fun j member => inside j (List.mem_cons_of_mem _ member)) ok
    exact ⟨last,fun k => Nat.le_trans (less k) (fewer k)⟩

theorem eraseReferences {tasks : List VfsTask} {pid : Pid} {t : VfsTask}
    (found : tasks.find? (·.pid = pid) = some t) (fp : Nat) :
    ((tasks.eraseP (·.pid = pid)).map (fun u => u.fd.count (fp : Int))).sum + t.fd.count (fp : Int) =
      (tasks.map (fun u => u.fd.count (fp : Int))).sum := by
  induction tasks with
  | nil => contradiction
  | cons u rest ih =>
    by_cases here : u.pid = pid
    · have same : u = t := by simpa [List.find?_cons,here] using found
      subst same
      simp only [List.eraseP_cons,here,decide_true,cond_true,List.map_cons,List.sum_cons]
      omega
    · have later : rest.find? (·.pid = pid) = some t := by simpa [List.find?_cons,here] using found
      have after := ih later
      simp only [List.eraseP_cons,here,decide_false,cond_false,List.map_cons,List.sum_cons]
      omega

theorem vfsRemovetaskCounted {x y : Tx σ} (held : Counted x.vfs) (small : Bounded 255 x.vfs)
    (ok : vfsRemovetask D x = some y) :
    Counted y.vfs ∧ ∀ k, references y.vfs k ≤ references x.vfs k := by
  rcases vfsRemovetaskCases ok with ⟨-,rfl⟩ | ⟨t,z,found,closed,rfl⟩
  · exact ⟨held,fun _ => Nat.le_refl _⟩
  have own : vfsFindbypid x.vfs t.pid = some t := by rw [(foundMember found).2]; exact found
  obtain ⟨kept,fewer⟩ := closeAllCounted held small (fun i member => List.mem_range.mp member) closed
  obtain ⟨u,there,empty⟩ := closeAllEmpty own (foundWidth held.shaped own) closed
  have none : ∀ fp : Nat, u.fd.count (fp : Int) = 0 := by
    intro fp
    refine List.count_eq_zero.mpr (fun member => ?_)
    have := empty _ member
    omega
  have sum : ∀ fp, references { z.vfs with taskQ := z.vfs.taskQ.eraseP (·.pid = t.pid) } fp =
      references z.vfs fp := by
    intro fp
    have erased := eraseReferences there fp
    rw [none fp] at erased
    exact erased
  have members : ∀ v ∈ z.vfs.taskQ.eraseP (·.pid = t.pid), v ∈ z.vfs.taskQ :=
    fun v member => List.mem_of_mem_eraseP member
  refine ⟨⟨⟨kept.shaped.slots,?_,?_⟩,kept.counts.same sum (fun _ f entry => ⟨f,entry,rfl⟩)⟩,?_⟩
  · exact fun v member => kept.shaped.width v (members v member)
  · exact fun v member => kept.shaped.valid v (members v member)
  · exact fun k => by rw [withVfs,sum]; exact fewer k

theorem inheritFilp (fds : List Int) (s : Tables) :
    ∃ filp, fds.foldl (fun s fp => if fp ≥ 0 then incRef s fp.toNat else s) s = { s with filp := filp } := by
  induction fds generalizing s with
  | nil => exact ⟨s.filp,rfl⟩
  | cons v rest ih =>
    rw [List.foldl_cons]
    obtain ⟨filp,same⟩ := ih (if v ≥ 0 then incRef s v.toNat else s)
    refine ⟨filp,same.trans ?_⟩
    split <;> rfl

theorem inheritTasks (fds : List Int) (s : Tables) :
    (fds.foldl (fun s fp => if fp ≥ 0 then incRef s fp.toNat else s) s).taskQ = s.taskQ := by
  obtain ⟨filp,same⟩ := inheritFilp fds s
  rw [same]

theorem inheritSlots (fds : List Int) (s : Tables) :
    (fds.foldl (fun s fp => if fp ≥ 0 then incRef s fp.toNat else s) s).filp.length = s.filp.length := by
  induction fds generalizing s with
  | nil => rfl
  | cons v rest ih =>
    rw [List.foldl_cons,ih]
    split
    · simp [incRef]
    · rfl

theorem inheritEntry {fds : List Int} {s : Tables} {k : Nat} {f' : Filp} (n : Int)
    (entry : (fds.foldl (fun s fp => if fp ≥ 0 then incRef s fp.toNat else s) s).filp[k]? = some f') :
    ∃ f, s.filp[k]? = some f ∧
      (f.refcnt = toChar n → f'.refcnt = toChar (n + fds.count (k : Int))) := by
  induction fds generalizing s n with
  | nil => exact ⟨f',entry,fun h => by simpa using h⟩
  | cons v rest ih =>
    rw [List.foldl_cons] at entry
    split at entry
    · rename_i real
      obtain ⟨g,there,counted⟩ := ih (if k = v.toNat then n + 1 else n) entry
      obtain ⟨f,old,⟨rfl,rfl⟩ | ⟨other,rfl⟩⟩ := incRefEntry there
      · refine ⟨f,old,fun start => ?_⟩
        rw [counted (by rw [if_pos rfl,start,toCharAdd]),if_pos rfl]
        have same : ((v.toNat : Nat) : Int) = v := Int.toNat_of_nonneg real
        rw [same,List.count_cons_self]
        push_cast
        congr 1
        omega
      · refine ⟨g,old,fun start => ?_⟩
        have apart : v ≠ (k : Int) := by omega
        rw [counted (by rw [if_neg other]; exact start),if_neg other,List.count_cons_of_ne apart]
    · rename_i negative
      obtain ⟨f,old,counted⟩ := ih n entry
      have apart : v ≠ (k : Int) := by omega
      exact ⟨f,old,fun start => by rw [counted start,List.count_cons_of_ne apart]⟩

theorem countInherited (fds : List Int) (fp : Nat) : (fds.map inheritedFd).count (fp : Int) = fds.count (fp : Int) := by
  induction fds with
  | nil => rfl
  | cons v rest ih =>
    rw [List.map_cons]
    by_cases here : v = (fp : Int)
    · have kept : inheritedFd v = (fp : Int) := by unfold inheritedFd; omega
      rw [kept,here,List.count_cons_self,List.count_cons_self,ih]
    · have other : inheritedFd v ≠ (fp : Int) := by unfold inheritedFd; omega
      rw [List.count_cons_of_ne other,List.count_cons_of_ne here,ih]

theorem addedReferences (s : Tables) (t : VfsTask) (fp : Nat) :
    references { s with taskQ := s.taskQ ++ [t] } fp = references s fp + t.fd.count (fp : Int) := by
  simp [references]

theorem Shaped.added {s : Tables} (shaped : Shaped s) {t : VfsTask} (width : t.fd.length = maxFd)
    (valid : ∀ v ∈ t.fd, v < 0 ∨ v.toNat < maxFilp) : Shaped { s with taskQ := s.taskQ ++ [t] } where
  slots := shaped.slots
  width u member := by
    rcases List.mem_append.mp member with old | new
    · exact shaped.width u old
    · rw [List.mem_singleton.mp new]; exact width
  valid u member := by
    rcases List.mem_append.mp member with old | new
    · exact shaped.valid u old
    · rw [List.mem_singleton.mp new]; exact valid

theorem Counted.addedEmpty {s : Tables} (held : Counted s) {t : VfsTask}
    (closed : t.fd = List.replicate maxFd (-1)) :
    Counted { s with taskQ := s.taskQ ++ [t] } ∧
      ∀ fp, references { s with taskQ := s.taskQ ++ [t] } fp = references s fp := by
  have none : ∀ fp : Nat, t.fd.count (fp : Int) = 0 := by
    intro fp
    rw [closed,List.count_eq_zero]
    intro member
    have := List.eq_of_mem_replicate member
    omega
  have sum : ∀ fp, references { s with taskQ := s.taskQ ++ [t] } fp = references s fp := by
    intro fp
    rw [addedReferences,none,Nat.add_zero]
  refine ⟨⟨held.shaped.added (by rw [closed]; rfl) ?_,?_⟩,sum⟩
  · intro v member
    rw [closed] at member
    exact Or.inl (by rw [List.eq_of_mem_replicate member]; decide)
  · exact held.counts.same sum (fun _ f entry => ⟨f,entry,rfl⟩)

theorem inheritedReferences (s : Tables) (parent : VfsTask) (pid fp : Nat) :
    references (inheritFd parent { s with
      taskQ := s.taskQ ++ [{ parent with pid := pid, fd := parent.fd.map inheritedFd }] }) fp =
      references s fp + parent.fd.count (fp : Int) := by
  unfold references inheritFd
  rw [inheritTasks]
  simp [countInherited]

theorem Counted.inherited {s : Tables} (held : Counted s) {parent : VfsTask} (pid : Pid)
    (width : parent.fd.length = maxFd) (valid : ∀ v ∈ parent.fd, v < 0 ∨ v.toNat < maxFilp) :
    Counted (inheritFd parent { s with
      taskQ := s.taskQ ++ [{ parent with pid := pid, fd := parent.fd.map inheritedFd }] }) := by
  have shape : Shaped { s with
      taskQ := s.taskQ ++ [{ parent with pid := pid, fd := parent.fd.map inheritedFd }] } := by
    refine held.shaped.added (by simpa using width) ?_
    intro v member
    obtain ⟨w,there,rfl⟩ := List.mem_map.mp member
    have old := valid w there
    unfold inheritedFd
    omega
  refine ⟨⟨(inheritSlots _ _).trans shape.slots,?_,?_⟩,?_⟩
  · rw [inheritFd,inheritTasks]; exact shape.width
  · rw [inheritFd,inheritTasks]; exact shape.valid
  intro fp f' entry
  obtain ⟨f,old,counted⟩ := inheritEntry (references s fp) entry
  rw [counted (held.counts fp f old),inheritedReferences]
  push_cast
  rfl

theorem vfsAddnewtaskCounted {kmalloc : Bool} {x y : Tx σ} (held : Counted x.vfs) (small : Bounded 255 x.vfs)
    (ok : vfsAddnewtask D kmalloc x = some y) : Counted y.vfs := by
  obtain ⟨queued,sum⟩ := held.addedEmpty (t := ⟨x.msg.w0.toNat,List.replicate maxFd (-1),0,0,0,0⟩) rfl
  cases vfsAddnewtaskAdds ok with
  | first nobody => exact (held.addedEmpty rfl).1
  | orphan removed =>
    exact (vfsRemovetaskCounted (x := withVfs x _) queued (fun fp => (sum fp).symm ▸ small fp) removed).1
  | @child parent found =>
    have member := (foundMember found).1
    exact held.inherited _ (queued.shaped.width parent member) (queued.shaped.valid parent member)
  | full => exact held

theorem doIntVfs {x y : Tx σ} (ok : doInt D x = some y) : y.vfs = x.vfs := by
  unfold doInt at ok
  split at ok <;> try contradiction
  exact sendrecRepeatVfs ok

theorem lookupsVfs (D : Drivers σ) (s : Tables) : Lookups D (fun x => x.vfs = s) := by
  intro x y dev ino name pid held _ asked
  exact (sendrecVfs asked).trans held

theorem doMknodVfs {client : Pid} {kmalloc : Nat → Bool} {x y : Tx σ}
    (ok : doMknod D client kmalloc x = some y) : y.vfs = x.vfs := by
  obtain ⟨dev,dirIno,found,kept,-,outcome⟩ := doMknodCases (lookupsVfs D x.vfs) rfl ok
  rcases outcome with ⟨-,rfl⟩ | ⟨pid,made,linked,-,-,asked,joined,⟨-,rfl⟩ | ⟨-,rfl⟩⟩
  · exact kept
  · exact (sendrecVfs joined).trans ((sendrecVfs asked).trans kept)
  · exact (sendrecVfs joined).trans ((sendrecVfs asked).trans kept)

theorem doStatVfs {client : Pid} {kmalloc : Nat → Bool} {x y : Tx σ}
    (ok : doStat D client kmalloc x = some y) : y.vfs = x.vfs := by
  obtain ⟨found,a,b,c,kept,-,rfl⟩ := doStatCases (lookupsVfs D x.vfs) rfl ok
  exact kept

-- The descriptor a request gives by number.
def fdArgument (m : Msg) : Option Int :=
  if m.cmd = .dup ∨ m.cmd = .close ∨ m.cmd = .readc ∨ m.cmd = .writec then some m.w0 else none

theorem closeInside {r : Request} (index : ∀ fd, fdArgument r.msg = some fd → fd < maxFd) (call : r.msg.cmd = .close) :
    r.msg.w0 < maxFd := index _ (by simp [fdArgument,call])

theorem processCounted {r : Request} {x y : Tx σ} (held : Counted x.vfs) (small : Bounded 255 x.vfs)
    (own : x.msg = r.msg) (closes : r.msg.cmd = .close → r.msg.w0 < maxFd)
    (ok : process D r x = some y) : Counted y.vfs := by
  unfold process at ok
  split at ok
  case h_1 => exact vfsAddnewtaskCounted held small ok
  case h_2 => exact (vfsRemovetaskCounted held small ok).1
  case h_3 =>
    cases Option.some.inj ok
    unfold doMkdev
    split
    · exact held
    · exact ⟨⟨held.shaped.slots,held.shaped.width,held.shaped.valid⟩,held.counts⟩
  case h_4 => rw [doMknodVfs ok]; exact held
  case h_5 => exact doDupCounted held ok
  case h_6 => exact doPipeCounted held ok
  case h_7 => rw [doStatVfs ok]; exact held
  case h_8 => exact doOpenCounted held ok
  case h_9 call =>
    exact (doCloseCounted held small (by rw [own]; exact closes call) ok).1
  case h_10 => rw [doIntVfs ok]; exact held
  case h_11 => rw [doIntVfs ok]; exact held
  case h_12 => exact doRwCounted (x := { x with msg := { x.msg with client := r.client } }) held ok
  case h_13 => exact doRwCounted (x := { x with msg := { x.msg with client := r.client } }) held ok
  case h_14 =>
    cases Option.some.inj ok
    exact ⟨⟨held.shaped.slots,held.shaped.width,held.shaped.valid⟩,held.counts⟩
  case h_15 =>
    cases Option.some.inj ok
    exact held

/- A descriptor in a request is below MAX_FD, and no entry is the target of more than `bound`
descriptors. -/
structure Counting (bound : Nat) (s : System σ) (r : Request) : Prop where
  index : ∀ fd, fdArgument r.msg = some fd → fd < maxFd
  small : Bounded bound s.vfs

def Initial (D : Drivers σ) (s : System σ) : Prop := ∃ newtask drv, s = vfsInit D newtask drv

theorem vfsInitCounted {s : System σ} (start : Initial D s) : Counted s.vfs := by
  obtain ⟨newtask,drv,rfl⟩ := start
  refine ⟨⟨rfl,by simp [vfsInit],by simp [vfsInit]⟩,?_⟩
  intro fp f entry
  have zero : f = ⟨0,0,0,0⟩ := List.eq_of_mem_replicate (List.mem_of_getElem? entry)
  rw [zero]
  simp [references,vfsInit,toChar]

theorem vfsCounted {s s' : System σ} {r : Request} {out : List (Event σ)} (held : Counted s.vfs)
    (small : Bounded 255 s.vfs) (closes : r.msg.cmd = .close → r.msg.w0 < maxFd) (taken : vfs D s r = some (s',out)) :
    Counted s'.vfs := by
  simp only [vfs,bind,Option.bind_eq_some_iff] at taken
  obtain ⟨y,processed,last⟩ := taken
  cases Option.some.inj last
  exact processCounted held small rfl closes processed

theorem filpRefcounts {s : System σ} {history : List (Event σ)}
    (run : Run.Reaches (vfs D) (Counting 127) (Initial D) s history) (small : Bounded 127 s.vfs) :
    s.vfs.filp.length = maxFilp ∧
    (∀ t ∈ s.vfs.taskQ, t.fd.length = maxFd ∧ ∀ v ∈ t.fd, v < 0 ∨ v.toNat < maxFilp) ∧
    ∀ (fp : Nat) (f : Filp), s.vfs.filp[fp]? = some f → f.refcnt = references s.vfs fp := by
  have held : Counted s.vfs := run.stateInvariant (P := fun s => Counted s.vfs)
    (fun _ start => vfsInitCounted start)
    (fun _ _ _ _ held counting taken => vfsCounted held
      (fun fp => Nat.le_trans (counting.small fp) (by decide)) (closeInside counting.index) taken)
  refine ⟨held.shaped.slots,fun t member => ⟨held.shaped.width t member,held.shaped.valid t member⟩,?_⟩
  intro fp f entry
  have bound := small fp
  rw [held.counts fp f entry,toCharSmall (by omega) (by omega)]

end

def demoMsg (cmd : Cmd) (w0 w1 w2 : Int) : Msg := ⟨cmd,0,w0,w1,w2,none,.pipedev⟩
def demoRequest (client : Pid) (m : Msg) : Request := ⟨client,m,0,fun _ => true⟩

theorem fewReferences {tasks : List VfsTask} (width : ∀ t ∈ tasks, t.fd.length = maxFd) (fp : Nat) :
    (tasks.map (fun t => t.fd.count (fp : Int))).sum ≤ maxFd * tasks.length := by
  induction tasks with
  | nil => simp
  | cons t rest ih =>
    have first : t.fd.count (fp : Int) ≤ maxFd := width t List.mem_cons_self ▸ List.count_le_length
    have others := ih (fun u member => width u (List.mem_cons_of_mem _ member))
    simp only [List.map_cons,List.sum_cons,List.length_cons,Nat.mul_succ]
    omega

theorem fewTasks {s : Tables} {bound : Nat} (width : ∀ t ∈ s.taskQ, t.fd.length = maxFd)
    (few : maxFd * s.taskQ.length ≤ bound) : Bounded bound s :=
  fun fp => Nat.le_trans (fewReferences width fp) few

-- A task opens a pipe and its child inherits both ends: each end has two descriptors.
theorem filpRefcountsAfterFork : ∃ s history,
    Run.Reaches (vfs drivers) (Counting 127) (Initial drivers) s history ∧ references s.vfs 0 = 2 ∧
    ∀ (fp : Nat) (f : Filp), s.vfs.filp[fp]? = some f → f.refcnt = references s.vfs fp := by
  have start : Run.Reaches (vfs drivers) (Counting 127) (Initial drivers)
      (vfsInit drivers 1 noDevices) [] := .start ⟨1,noDevices,rfl⟩
  have added := start.next (i := demoRequest 2 (demoMsg .addtask 0x10 0 0))
    ⟨by decide,fewTasks (by decide) (by decide)⟩ rfl
  have piped := added.next (i := demoRequest 0x10 (demoMsg .pipe 0 0 0))
    ⟨by decide,fewTasks (by decide) (by decide)⟩ rfl
  have forked := piped.next (i := demoRequest 2 (demoMsg .addtask 0x11 0x10 0))
    ⟨by decide,fewTasks (by decide) (by decide)⟩ rfl
  exact ⟨_,_,forked,rfl,(filpRefcounts forked (fewTasks (by decide) (by decide))).2.2⟩

end Avros.Vfs
