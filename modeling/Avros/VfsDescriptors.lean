import Avros.VfsEdits

/-! A table of slots, free or taken. What is added goes into the lowest free slot. A
program may keep the table as integers, the free slots marked by a negative one. -/
namespace Avros.Slots

variable {α : Type} (code : α → Int)

def lowest (table : List (Option α)) : Option Nat := table.findIdx? (·.isNone)

def encode : Option α → Int
  | none => -1
  | some a => code a

theorem lowestEncoded {table : List (Option α)} (real : ∀ a, some a ∈ table → 0 ≤ code a) :
    (table.map (encode code)).findIdx? (· < 0) = lowest table := by
  induction table with
  | nil => rfl
  | cons slot rest ih =>
    have tail := ih (fun a member => real a (List.mem_cons_of_mem _ member))
    cases slot with
    | none => simp [lowest,encode,List.findIdx?_cons]
    | some a =>
      have taken : ¬ code a < 0 := Int.not_lt.mpr (real a List.mem_cons_self)
      simp only [lowest,List.map_cons,List.findIdx?_cons,encode,Option.isNone_some] at tail ⊢
      simp [tail,taken]

theorem slotEncoded {table : List (Option α)} {i : Nat} {slot : Option α} (there : table[i]? = some slot) :
    (table.map (encode code))[i]? = some (encode code slot) := by
  rw [List.getElem?_map,there]
  rfl

theorem setEncoded (table : List (Option α)) (i : Nat) (slot : Option α) :
    (table.map (encode code)).set i (encode code slot) = (table.set i slot).map (encode code) :=
  List.map_set.symm

theorem realSet {table : List (Option α)} (real : ∀ a, some a ∈ table → 0 ≤ code a) {i : Nat} {slot : Option α}
    (new : ∀ a, slot = some a → 0 ≤ code a) : ∀ a, some a ∈ table.set i slot → 0 ≤ code a := by
  intro a member
  rcases List.mem_or_eq_of_mem_set member with old | same
  · exact real a old
  · exact new a same.symm

end Avros.Slots

/-! A task's record in VFS: only its own requests, and PM's about it, change it; and its
own dup, close, pipe and open act on its descriptors as on a table of slots. -/
namespace Avros.Vfs

section
variable {σ : Type} {D : Drivers σ} {x y : Tx σ} {s s' : Tables} {client q : Pid} {t : VfsTask}

def Keeps (s s' : Tables) (q : Pid) : Prop := ∀ t, vfsFindbypid s q = some t → vfsFindbypid s' q = some t

theorem Keeps.same (same : s'.taskQ = s.taskQ) : Keeps s s' q := by
  intro t found
  unfold vfsFindbypid at found ⊢
  rw [same]
  exact found

theorem Keeps.trans {s'' : Tables} (first : Keeps s s' q) (second : Keeps s' s'' q) : Keeps s s'' q :=
  fun t found => second t (first t found)

theorem onFirstOther {tasks : List VfsTask} {f : VfsTask → VfsTask} (other : client ≠ q)
    (keeps : ∀ t, (f t).pid = t.pid) (found : tasks.find? (·.pid = q) = some t) :
    (onFirst client f tasks).find? (·.pid = q) = some t := by
  induction tasks with
  | nil => contradiction
  | cons u rest ih =>
    by_cases mine : u.pid = q
    · have apart : u.pid ≠ client := fun same => other (same.symm.trans mine)
      rw [onFirst,if_neg apart]
      simpa [List.find?_cons,mine] using found
    · have later : rest.find? (·.pid = q) = some t := by simpa [List.find?_cons,mine] using found
      by_cases here : u.pid = client
      · simpa [onFirst,here,List.find?_cons,keeps,other] using later
      · simpa [onFirst,here,List.find?_cons,mine] using ih later

theorem Keeps.put (other : client ≠ q) (s : Tables) (i : Nat) (v : Int) : Keeps s (putFd s client i v) q :=
  fun _ found => onFirstOther other (setDescriptorPid i v) found

theorem Edits.keeps (edits : Edits client s s') (other : client ≠ q) : Keeps s s' q := by
  induction edits with
  | same same => exact .same same
  | put s i v => exact .put other s i v
  | trans first second ihFirst ihSecond => exact ihFirst.trans ihSecond

theorem eraseOther {tasks : List VfsTask} (other : client ≠ q) (found : tasks.find? (·.pid = q) = some t) :
    (tasks.eraseP (·.pid = client)).find? (·.pid = q) = some t := by
  induction tasks with
  | nil => contradiction
  | cons u rest ih =>
    by_cases here : u.pid = client
    · simpa [here,other] using found
    · by_cases mine : u.pid = q
      · rw [List.eraseP_cons_of_neg (by simpa using here)]
        simpa [List.find?_cons,mine] using found
      · have later : rest.find? (·.pid = q) = some t := by simpa [List.find?_cons,mine] using found
        simpa [here,List.find?_cons,mine] using ih later

theorem vfsRemovetaskKeeps (other : x.msg.w0.toNat ≠ q) (ok : vfsRemovetask D x = some y) :
    Keeps x.vfs y.vfs q := by
  rcases vfsRemovetaskCases ok with ⟨-,rfl⟩ | ⟨t,z,found,closed,rfl⟩
  · exact .same rfl
  rw [(foundMember found).2] at closed ⊢
  exact ((closeAllEdits closed).keeps other).trans (fun _ there => eraseOther other there)

theorem Keeps.added (s : Tables) (u : VfsTask) : Keeps s { s with taskQ := s.taskQ ++ [u] } q := by
  intro t found
  unfold vfsFindbypid at found ⊢
  rw [List.find?_append,found]
  rfl

theorem inheritFind (parent : VfsTask) : vfsFindbypid (inheritFd parent s) q = vfsFindbypid s q := by
  unfold vfsFindbypid inheritFd
  rw [inheritTasks]

theorem vfsAddnewtaskKeeps {kmalloc : Bool} (other : x.msg.w0.toNat ≠ q) (ok : vfsAddnewtask D kmalloc x = some y) :
    Keeps x.vfs y.vfs q := by
  cases vfsAddnewtaskAdds ok with
  | first nobody => exact Keeps.added x.vfs _
  | orphan removed =>
    have left := vfsRemovetaskKeeps (q := q) (by exact other) removed
    exact (Keeps.added x.vfs _).trans left
  | child found => exact fun t there => (inheritFind _).trans (Keeps.added x.vfs _ t there)
  | full => exact .same rfl

def about (r : Request) : Pid := if r.msg.cmd = .addtask ∨ r.msg.cmd = .deltask then r.msg.w0.toNat else r.client

theorem processKeeps {r : Request} (own : x.msg = r.msg) (other : about r ≠ q) (ok : process D r x = some y) :
    Keeps x.vfs y.vfs q := by
  unfold about at other
  by_cases tasks : r.msg.cmd = .addtask ∨ r.msg.cmd = .deltask
  · rw [if_pos tasks,← own] at other
    rcases tasks with call | call <;> simp only [process,call] at ok
    · exact vfsAddnewtaskKeeps other ok
    · exact vfsRemovetaskKeeps other ok
  · rw [if_neg tasks] at other
    exact (processEdits (not_or.mp tasks) ok).keeps other

theorem doCloseOwn {i : Nat} (found : vfsFindbypid x.vfs client = some t) (named : x.msg.w0 = i) (inside : i < maxFd)
    (ok : doClose D client x = some y) :
    ∃ u, vfsFindbypid y.vfs client = some u ∧ u.fd = t.fd.set i (-1) := by
  have tasks := doCloseTasks ok (by rw [named]; exact Int.natCast_nonneg i)
  rw [named,Int.toNat_natCast] at tasks
  have after := putFdFind i (-1) found
  refine ⟨setDescriptor i (-1) t,?_,setDescriptorFd inside (-1) t⟩
  unfold vfsFindbypid at after ⊢
  rw [tasks]
  exact after

theorem doDupOwn {i : Nat} (found : vfsFindbypid x.vfs client = some t) (width : t.fd.length = maxFd)
    (named : x.msg.w0 = i) (inside : i < maxFd) (ok : doDup client x = some y) (granted : 0 ≤ y.msg.w0) :
    ∃ (u : VfsTask) (fd : Nat) (fp : Int), vfsFindbypid y.vfs client = some u ∧ t.fd[i]? = some fp ∧ 0 ≤ fp ∧
      findEmptyFd t = some fd ∧ y.msg.w0 = fd ∧ u.fd = t.fd.set fd fp := by
  rcases doDupCases ok with rfl | ⟨v,fp,fd,f,-,there,held,real,free,-,rfl⟩
  · exact absurd granted (by simp [reply])
  cases Option.some.inj (there.symm.trans found)
  rw [named,Int.toNat_natCast,descriptorInside width inside] at held
  have room := (emptyFd free width).1
  exact ⟨setDescriptor fd fp t,fd,fp,putFdFind fd fp found,held,real,free,rfl,setDescriptorFd room fp t⟩

theorem doOpenOwn (found : vfsFindbypid x.vfs client = some t) (width : t.fd.length = maxFd)
    (ok : doOpen D client x = some y) (granted : 0 ≤ y.msg.w0) :
    ∃ (u : VfsTask) (fd fp : Nat), vfsFindbypid y.vfs client = some u ∧ findEmptyFd t = some fd ∧
      y.msg.w0 = fd ∧ u.fd = t.fd.set fd fp := by
  rcases doOpenCases ok with rfl | ⟨v,fd,fp,f,pid,z,there,free,-,-,-,asked,outcome⟩
  · exact absurd granted (by simp [reply])
  cases Option.some.inj (there.symm.trans found)
  rcases outcome with ⟨-,rfl⟩ | ⟨-,rfl⟩
  · exact absurd granted (by simp [reply])
  have still : vfsFindbypid z.vfs client = some t := by
    rw [sendrecVfs asked]
    exact found
  have room := (emptyFd free width).1
  exact ⟨setDescriptor fd fp t,fd,fp,putFdFind fd fp still,free,rfl,setDescriptorFd room fp t⟩

theorem pipeEndOwn {ino : Int} {fd : Nat} (found : vfsFindbypid s client = some t) (width : t.fd.length = maxFd)
    (ok : pipeEnd client ino s = some (some (fd,s'))) :
    ∃ (u : VfsTask) (fp : Nat), vfsFindbypid s' client = some u ∧ findEmptyFd t = some fd ∧ u.fd = t.fd.set fd fp := by
  rcases pipeEndCases ok with none | ⟨fp,v,i,f,-,there,free,-,made⟩
  · contradiction
  cases Option.some.inj (there.symm.trans found)
  obtain ⟨rfl,rfl⟩ := Prod.mk.inj (Option.some.inj made)
  have room := (emptyFd free width).1
  exact ⟨setDescriptor fd fp t,fp,putFdFind fd fp found,free,setDescriptorFd room fp t⟩

theorem doPipeOwn (found : vfsFindbypid x.vfs client = some t) (width : t.fd.length = maxFd)
    (ok : doPipe D client x = some y) (granted : y.msg.w2 = 0) :
    ∃ (u v : VfsTask) (fdi fdo fpi fpo : Nat), findEmptyFd t = some fdi ∧ u.fd = t.fd.set fdi fpi ∧
      findEmptyFd u = some fdo ∧ v.fd = u.fd.set fdo fpo ∧ vfsFindbypid y.vfs client = some v ∧
      y.msg.w0 = fdi ∧ y.msg.w1 = fdo := by
  have failed : ∀ z : Tx σ, y = failPipe z → False := by
    rintro z rfl
    exact absurd granted (by simp [failPipe])
  obtain ⟨pid,made,-,asked,outcome⟩ := doPipeCases ok
  rcases outcome with ⟨-,fails⟩ | ⟨once,-,grab,outcome⟩
  · exact (failed _ fails).elim
  rcases outcome with ⟨-,fails⟩ | ⟨twice,-,again,outcome⟩
  · exact (failed _ fails).elim
  have same : vfsFindbypid twice.vfs client = some t := by
    rw [sendrecVfs again,sendrecVfs grab,sendrecVfs asked]
    exact found
  rcases outcome with ⟨-,fails⟩ | ⟨one,-,input,outcome⟩
  · exact (failed _ fails).elim
  rcases outcome with ⟨-,fails⟩ | ⟨fdi,s,two,rfl,output,outcome⟩
  · exact (failed _ fails).elim
  rcases outcome with ⟨-,fails⟩ | ⟨fdo,s',rfl,rfl⟩
  · exact (failed _ fails).elim
  obtain ⟨u,fpi,first,free,table⟩ := pipeEndOwn same width input
  have wide : u.fd.length = maxFd := by rw [table,List.length_set,width]
  obtain ⟨v,fpo,second,next,last⟩ := pipeEndOwn first wide output
  exact ⟨u,v,fdi,fdo,fpi,fpo,free,table,next,last,second,rfl,rfl⟩

theorem vfsAddnewtaskInherits {parent : VfsTask} (found : vfsFindbypid x.vfs q = some parent) (real : q ≠ 0)
    (from_ : x.msg.w1 = q) (fresh : vfsFindbypid x.vfs x.msg.w0.toNat = none)
    (ok : vfsAddnewtask D true x = some y) :
    ∃ u, vfsFindbypid y.vfs x.msg.w0.toNat = some u ∧ u.fd = parent.fd.map inheritedFd := by
  have child : ¬ (q : Int) = 0 := by exact_mod_cast real
  simp only [vfsAddnewtask,if_true,from_,if_neg child,Int.toNat_natCast] at ok
  rw [Keeps.added x.vfs _ parent found] at ok
  cases Option.some.inj ok
  refine ⟨{ parent with pid := x.msg.w0.toNat, fd := parent.fd.map inheritedFd },?_,rfl⟩
  refine (inheritFind parent).trans ?_
  unfold vfsFindbypid at fresh ⊢
  rw [List.find?_append,fresh]
  simp
end

end Avros.Vfs
