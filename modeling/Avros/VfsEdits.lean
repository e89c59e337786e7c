import Avros.VfsRefcount

/-! What a request does to the task records: but for addtask and deltask it leaves them
alone or sets descriptors of its own client. -/
namespace Avros.Vfs

inductive Edits (client : Pid) : Tables → Tables → Prop where
  | same {s s' : Tables} (same : s'.taskQ = s.taskQ) : Edits client s s'
  | put (s : Tables) (i : Nat) (v : Int) : Edits client s (putFd s client i v)
  | trans {s s' s'' : Tables} (first : Edits client s s') (second : Edits client s' s'') : Edits client s s''

section
variable {σ : Type} {D : Drivers σ} {x y : Tx σ} {s s' : Tables} {client : Pid}

theorem doCloseEdits (ok : doClose D client x = some y) : Edits client x.vfs y.vfs := by
  rcases doCloseCases ok with ⟨-,rfl⟩ | ⟨t,fp,given,-⟩
  · exact .same rfl
  · exact (Edits.put x.vfs _ (-1)).trans (.same (doCloseTasks ok given))

theorem pipeEndEdits {ino : Int} {fd : Nat} (ok : pipeEnd client ino s = some (some (fd,s'))) : Edits client s s' := by
  rcases pipeEndCases ok with none | ⟨fp,t,i,f,-,-,-,-,made⟩
  · contradiction
  obtain ⟨rfl,rfl⟩ := Prod.mk.inj (Option.some.inj made)
  have slot : ∀ g, Edits client s (putFilp s fp g) := fun _ => .same rfl
  exact (slot _).trans (.put _ fd fp)

theorem doPipeEdits (ok : doPipe D client x = some y) : Edits client x.vfs y.vfs := by
  obtain ⟨pid,made,-,asked,outcome⟩ := doPipeCases ok
  have first : Edits client x.vfs made.vfs := .same (by rw [sendrecVfs asked])
  rcases outcome with ⟨-,rfl⟩ | ⟨once,-,grab,outcome⟩
  · exact first
  have second : Edits client x.vfs once.vfs := first.trans (.same (by rw [sendrecVfs grab]))
  rcases outcome with ⟨-,rfl⟩ | ⟨twice,-,again,outcome⟩
  · exact second
  have third : Edits client x.vfs twice.vfs := second.trans (.same (by rw [sendrecVfs again]))
  rcases outcome with ⟨-,rfl⟩ | ⟨one,-,input,outcome⟩
  · exact third
  rcases outcome with ⟨-,rfl⟩ | ⟨fdi,s,two,rfl,output,outcome⟩
  · exact third
  have fourth : Edits client x.vfs s := third.trans (pipeEndEdits input)
  rcases outcome with ⟨-,rfl⟩ | ⟨fdo,s',rfl,rfl⟩
  · exact fourth
  · exact fourth.trans (pipeEndEdits output)

theorem doOpenEdits (ok : doOpen D client x = some y) : Edits client x.vfs y.vfs := by
  rcases doOpenCases ok with rfl | ⟨t,fd,fp,f,pid,z,-,-,-,-,-,asked,outcome⟩
  · exact .same rfl
  have first : Edits client x.vfs z.vfs := .same (by rw [sendrecVfs asked]; rfl)
  rcases outcome with ⟨-,rfl⟩ | ⟨-,rfl⟩
  · exact first
  · have slot : Edits client z.vfs (incRef z.vfs fp) := .same rfl
    exact first.trans (slot.trans (.put _ fd fp))

theorem doDupEdits (ok : doDup client x = some y) : Edits client x.vfs y.vfs := by
  rcases doDupCases ok with rfl | ⟨t,fp,fd,f,-,-,-,-,-,-,rfl⟩
  · exact .same rfl
  · exact (Edits.put x.vfs fd fp).trans (.same rfl)

theorem doRwTasks (ok : doRw D client x = some y) : y.vfs.taskQ = x.vfs.taskQ := by
  rcases doRwCases ok with rfl | ⟨t,fp,f,pid,z,-,-,-,-,-,-,asked,rfl⟩
  · rfl
  · change z.vfs.taskQ = x.vfs.taskQ
    rw [sendrecRepeatVfs asked]

theorem rwTasks {r : Request} (call : r.msg.cmd = .readc ∨ r.msg.cmd = .writec) (ok : process D r x = some y) :
    y.vfs.taskQ = x.vfs.taskQ := by
  rcases call with call | call <;> simp only [process,call] at ok
  · exact doRwTasks (x := { x with msg := { x.msg with client := r.client } }) ok
  · exact doRwTasks (x := { x with msg := { x.msg with client := r.client } }) ok

theorem closeAllEdits {is : List Nat} (ok : closeAll D client is x = some y) : Edits client x.vfs y.vfs := by
  induction is generalizing x with
  | nil =>
    cases Option.some.inj ok
    exact .same rfl
  | cons i rest ih =>
    simp only [closeAll,bind,Option.bind_eq_some_iff] at ok
    obtain ⟨z,closed,ok⟩ := ok
    have first : Edits client x.vfs z.vfs := doCloseEdits (x := reply x i) closed
    exact first.trans (ih ok)

theorem processEdits {r : Request} (other : r.msg.cmd ≠ .addtask ∧ r.msg.cmd ≠ .deltask) (ok : process D r x = some y) :
    Edits r.client x.vfs y.vfs := by
  unfold process at ok
  split at ok
  case h_1 call => exact absurd call other.1
  case h_2 call => exact absurd call other.2
  case h_3 =>
    cases Option.some.inj ok
    unfold doMkdev
    split <;> exact .same rfl
  case h_4 => exact .same (by rw [doMknodVfs ok])
  case h_5 => exact doDupEdits ok
  case h_6 => exact doPipeEdits ok
  case h_7 => exact .same (by rw [doStatVfs ok])
  case h_8 => exact doOpenEdits ok
  case h_9 => exact doCloseEdits ok
  case h_10 => exact .same (by rw [doIntVfs ok])
  case h_11 => exact .same (by rw [doIntVfs ok])
  case h_12 call => exact .same (rwTasks (.inl call) (by simpa [process,call] using ok))
  case h_13 call => exact .same (rwTasks (.inr call) (by simpa [process,call] using ok))
  case h_14 =>
    cases Option.some.inj ok
    exact .same rfl
  case h_15 =>
    cases Option.some.inj ok
    exact .same rfl

/- What a property of the tables has to survive: with that, every request but MKDEV keeps it. -/
structure Stable (P : Tables → Prop) : Prop where
  put : ∀ s client i v, P s → (v < 0 → v = -1) → P (putFd s client i v)
  filp : ∀ s filp, P s → P { s with filp := filp }
  debug : ∀ s n, P s → P { s with debugn := n }
  empty : ∀ s pid a b c d, P s → P { s with taskQ := s.taskQ ++ [⟨pid,List.replicate maxFd (-1),a,b,c,d⟩] }
  child : ∀ s t parent pid, P s → P { s with taskQ := s.taskQ ++ [t] } → parent ∈ s.taskQ ++ [t] →
    P { s with taskQ := s.taskQ ++ [{ parent with pid := pid, fd := parent.fd.map inheritedFd }] }
  erased : ∀ s p, P s → P { s with taskQ := s.taskQ.eraseP p }

section
variable {P : Tables → Prop} (stable : Stable P) (held : P x.vfs)
include stable held

theorem Stable.close (ok : doClose D client x = some y) : P y.vfs := by
  rcases doCloseCases ok with ⟨-,rfl⟩ | ⟨t,fp,-,-,-,outcome⟩
  · exact held
  have closed : P (putFd x.vfs client x.msg.w0.toNat (-1)) := stable.put _ _ _ _ held (fun _ => rfl)
  rcases outcome with ⟨-,rfl⟩ | ⟨f,-,-,⟨-,rfl⟩ | ⟨-,-,rfl⟩ | ⟨-,-,pid,-,asked⟩⟩
  · exact closed
  · exact closed
  · exact stable.filp _ _ closed
  · rw [sendrecRepeatVfs asked]
    exact stable.filp _ _ closed

theorem Stable.closes {is : List Nat} (ok : closeAll D client is x = some y) : P y.vfs := by
  induction is generalizing x with
  | nil =>
    cases Option.some.inj ok
    exact held
  | cons i rest ih =>
    simp only [closeAll,bind,Option.bind_eq_some_iff] at ok
    obtain ⟨z,closed,ok⟩ := ok
    have first : P z.vfs := stable.close (x := reply x i) held closed
    exact ih first ok

theorem Stable.removetask (ok : vfsRemovetask D x = some y) : P y.vfs := by
  rcases vfsRemovetaskCases ok with ⟨-,rfl⟩ | ⟨t,z,-,closed,rfl⟩
  · exact held
  · exact stable.erased _ _ (stable.closes held closed)

theorem Stable.addnewtask {kmalloc : Bool} (ok : vfsAddnewtask D kmalloc x = some y) : P y.vfs := by
  have queued := stable.empty x.vfs x.msg.w0.toNat 0 0 0 0 held
  cases vfsAddnewtaskAdds ok with
  | first nobody => exact stable.empty _ _ _ _ _ _ held
  | orphan removed =>
    have after := stable.removetask (x := withVfs x _) queued removed
    exact after
  | @child parent found =>
    have child := stable.child _ _ parent x.msg.w0.toNat held queued (foundMember found).1
    obtain ⟨filp,same⟩ := inheritFilp parent.fd { x.vfs with
      taskQ := x.vfs.taskQ ++ [{ parent with pid := x.msg.w0.toNat, fd := parent.fd.map inheritedFd }] }
    change P (inheritFd parent _)
    rw [inheritFd,same]
    exact stable.filp _ _ child
  | full => exact held

omit held in
theorem Stable.pipeEnd {ino : Int} {fd : Nat} (held : P s) (ok : pipeEnd client ino s = some (some (fd,s'))) : P s' := by
  rcases pipeEndCases ok with none | ⟨fp,t,fd',f,-,-,-,-,same⟩
  · contradiction
  obtain ⟨-,rfl⟩ := Prod.mk.inj (Option.some.inj same)
  exact stable.put _ _ _ _ (stable.filp _ _ held) (by omega)

theorem Stable.pipe (ok : doPipe D client x = some y) : P y.vfs := by
  obtain ⟨pid,made,-,asked,outcome⟩ := doPipeCases ok
  have first : P made.vfs := sendrecVfs asked ▸ held
  rcases outcome with ⟨-,rfl⟩ | ⟨once,-,grab,outcome⟩
  · exact first
  have second : P once.vfs := sendrecVfs grab ▸ first
  rcases outcome with ⟨-,rfl⟩ | ⟨twice,-,again,outcome⟩
  · exact second
  have third : P twice.vfs := sendrecVfs again ▸ second
  rcases outcome with ⟨-,rfl⟩ | ⟨one,-,input,outcome⟩
  · exact third
  rcases outcome with ⟨-,rfl⟩ | ⟨fdi,s,two,rfl,output,outcome⟩
  · exact third
  have fourth : P s := stable.pipeEnd third input
  rcases outcome with ⟨-,rfl⟩ | ⟨fdo,s',rfl,rfl⟩
  · exact fourth
  · exact stable.pipeEnd fourth output

theorem Stable.open (ok : doOpen D client x = some y) : P y.vfs := by
  rcases doOpenCases ok with rfl | ⟨t,fd,fp,f,pid,z,-,-,-,-,-,asked,outcome⟩
  · exact held
  have first : P z.vfs := by
    rw [sendrecVfs asked]
    exact stable.filp _ _ held
  rcases outcome with ⟨-,rfl⟩ | ⟨-,rfl⟩
  · exact first
  · exact stable.put _ _ _ _ (stable.filp _ _ first) (by omega)

theorem Stable.rw (ok : doRw D client x = some y) : P y.vfs := by
  rcases doRwCases ok with rfl | ⟨t,fp,f,pid,z,-,-,-,-,-,-,asked,rfl⟩
  · exact held
  · have same : P z.vfs := sendrecRepeatVfs asked ▸ held
    exact stable.filp _ _ same

theorem Stable.process {r : Request} (other : r.msg.cmd ≠ .mkdev) (ok : process D r x = some y) : P y.vfs := by
  unfold Vfs.process at ok
  split at ok
  case h_1 => exact stable.addnewtask held ok
  case h_2 => exact stable.removetask held ok
  case h_3 call => exact absurd call other
  case h_4 => exact doMknodVfs ok ▸ held
  case h_5 =>
    rcases doDupCases ok with rfl | ⟨t,fp,fd,f,-,-,-,real,-,-,rfl⟩
    · exact held
    · exact stable.filp _ _ (stable.put _ _ _ _ held (by omega))
  case h_6 => exact stable.pipe held ok
  case h_7 => exact doStatVfs ok ▸ held
  case h_8 => exact stable.open held ok
  case h_9 => exact stable.close held ok
  case h_10 => exact doIntVfs ok ▸ held
  case h_11 => exact doIntVfs ok ▸ held
  case h_12 => exact stable.rw (x := { x with msg := { x.msg with client := r.client } }) held ok
  case h_13 => exact stable.rw (x := { x with msg := { x.msg with client := r.client } }) held ok
  case h_14 =>
    cases Option.some.inj ok
    exact stable.debug _ _ held
  case h_15 =>
    cases Option.some.inj ok
    exact held

end

end

end Avros.Vfs
