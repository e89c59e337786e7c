import Avros.VfsRefcount

/-! What VFS says to the drivers, request by request: a MKNOD and the LINK of its answer,
GRABs, RELEASEs and lookups, interrupts, and the read or the write of a client. What each
of these keeps of the drivers' state, a request keeps. -/
namespace Avros.Vfs

-- The message in which do_rw passes a request on.
def transfer (s : Tables) (r : Request) : Option (Pid × Msg) :=
  if r.msg.w0 < 0 then none else do
    let t ← vfsFindbypid s r.client
    let fp ← descriptor t r.msg.w0.toNat
    if fp < 0 then none else do
      let f ← s.filp[fp.toNat]?
      let pid ← device s f.dev
      some (pid,{ r.msg with client := r.client, w0 := f.ino, w1 := f.pos })

def Plain (cmd : Cmd) : Prop :=
  cmd = .mknod ∨ cmd = .inodeGrab ∨ cmd = .inodeRelease ∨ cmd = .getDirentry ∨ cmd = .rdInterrupt ∨ cmd = .wrInterrupt

section
variable {σ : Type} {D : Drivers σ} {P : σ → Prop} {s : Tables} {start : σ} {r : Request} {x y : Tx σ} {client : Pid}

/- The exchanges of a request, each of which keeps `P`. A read or a write is the first
of its request, and finds the drivers as they were. -/
structure Exchanges (D : Drivers σ) (s : Tables) (start : σ) (r : Request) (P : σ → Prop) : Prop where
  starts : r.msg.cmd = .mkdev → ∀ drv driver, P drv → P (D.start drv r.newtask driver)
  plain : ∀ drv pid msg drv' replies, P drv → Plain msg.cmd → D.ask drv pid msg = some (drv',replies) → P drv'
  links : ∀ drv pid msg drv' made next drv'' replies, P drv → msg.cmd = .mknod →
    D.ask drv pid msg = some (drv',[made]) → next.cmd = .link → next.w1 = made.w0 →
    D.ask drv' pid next = some (drv'',replies) → P drv''
  transfers : r.msg.cmd = .readc ∨ r.msg.cmd = .writec → ∀ pid msg drv' replies, transfer s r = some (pid,msg) →
    D.ask start pid msg = some (drv',replies) → P drv'

theorem Exchanges.sendrec (keeps : Exchanges D s start r P) {pid : Pid} (ok : Vfs.sendrec D x pid = some y)
    (plain : Plain x.msg.cmd) (held : P x.drv) : P y.drv := by
  obtain ⟨drv,m,asked,rfl⟩ := sendrecSource ok
  exact keeps.plain _ _ _ _ _ held plain asked

theorem Exchanges.repeats (keeps : Exchanges D s start r P) {checked : Bool} {pid : Pid}
    (ok : sendrecRepeat D checked x pid = some y) (plain : Plain x.msg.cmd) (held : P x.drv) : P y.drv := by
  obtain ⟨drv,front,last,asked,-,-,rfl⟩ := sendrecRepeatSource ok
  exact keeps.plain _ _ _ _ _ held plain asked

theorem Exchanges.lookups (keeps : Exchanges D s start r P) : Lookups D (fun x => P x.drv) := by
  intro x y dev ino name pid held _ asked
  have after : P y.drv := keeps.sendrec asked (by simp [Plain]) held
  exact after

theorem Exchanges.doClose (keeps : Exchanges D s start r P) (ok : doClose D client x = some y) (held : P x.drv) : P y.drv := by
  rcases doCloseCases ok with ⟨-,rfl⟩ | ⟨t,fp,-,-,-,outcome⟩
  · exact held
  rcases outcome with ⟨-,rfl⟩ | ⟨f,-,-,⟨-,rfl⟩ | ⟨-,-,rfl⟩ | ⟨-,-,pid,-,asked⟩⟩
  · exact held
  · exact held
  · exact held
  · exact keeps.repeats asked (by simp [Plain]) held

theorem Exchanges.closeAll (keeps : Exchanges D s start r P) {is : List Nat} (ok : closeAll D client is x = some y)
    (held : P x.drv) : P y.drv := by
  induction is generalizing x with
  | nil =>
    cases Option.some.inj ok
    exact held
  | cons i rest ih =>
    simp only [Vfs.closeAll,bind,Option.bind_eq_some_iff] at ok
    obtain ⟨z,closed,ok⟩ := ok
    exact ih ok (keeps.doClose closed held)

theorem Exchanges.removetask (keeps : Exchanges D s start r P) (ok : vfsRemovetask D x = some y) (held : P x.drv) : P y.drv := by
  rcases vfsRemovetaskCases ok with ⟨-,rfl⟩ | ⟨t,z,-,closed,rfl⟩
  · exact held
  · exact keeps.closeAll (y := z) closed held

theorem Exchanges.addnewtask (keeps : Exchanges D s start r P) {kmalloc : Bool} (ok : vfsAddnewtask D kmalloc x = some y)
    (held : P x.drv) : P y.drv := by
  cases vfsAddnewtaskAdds ok with
  | first nobody => exact held
  | @orphan z removed => exact keeps.removetask (y := z) removed held
  | child found => exact held
  | full => exact held

theorem Exchanges.pipe (keeps : Exchanges D s start r P) (held : P x.drv) (ok : doPipe D client x = some y) : P y.drv := by
  obtain ⟨pid,made,-,asked,outcome⟩ := doPipeCases ok
  have first := keeps.sendrec asked (by simp [Plain]) held
  rcases outcome with ⟨-,rfl⟩ | ⟨once,-,grab,outcome⟩
  · exact first
  have second := keeps.sendrec grab (by simp [Plain]) first
  rcases outcome with ⟨-,rfl⟩ | ⟨twice,-,again,outcome⟩
  · exact second
  have third := keeps.sendrec again (by simp [Plain]) second
  rcases outcome with ⟨-,rfl⟩ | ⟨one,-,-,outcome⟩
  · exact third
  rcases outcome with ⟨-,rfl⟩ | ⟨fdi,s',two,-,-,outcome⟩
  · exact third
  rcases outcome with ⟨-,rfl⟩ | ⟨fdo,s'',-,rfl⟩
  · exact third
  · exact third

theorem Exchanges.open (keeps : Exchanges D s start r P) (held : P x.drv) (ok : doOpen D client x = some y) : P y.drv := by
  rcases doOpenCases ok with rfl | ⟨t,fd,fp,f,pid,z,-,-,-,-,-,asked,outcome⟩
  · exact held
  have after := keeps.sendrec asked (by simp [Plain]) held
  rcases outcome with ⟨-,rfl⟩ | ⟨-,rfl⟩
  · exact after
  · exact after

theorem Exchanges.mknod (keeps : Exchanges D s start r P) {kmalloc : Nat → Bool} (call : x.msg.cmd = .mknod) (held : P x.drv)
    (ok : doMknod D client kmalloc x = some y) : P y.drv := by
  obtain ⟨dev,dir,found,kept,same,outcome⟩ := doMknodCases keeps.lookups held ok
  rcases outcome with ⟨-,rfl⟩ | ⟨pid,made,joined,-,-,asked,link,outcome⟩
  · exact kept
  obtain ⟨drv,m,first,rfl⟩ := sendrecSource asked
  obtain ⟨drv',m',second,rfl⟩ := sendrecSource link
  have after : P drv' := keeps.links _ _ _ _ _ _ _ _ kept (by rw [same]; exact call) first rfl rfl second
  rcases outcome with ⟨-,rfl⟩ | ⟨-,rfl⟩
  · exact after
  · exact after

theorem Exchanges.rw (keeps : Exchanges D x.vfs x.drv r P) (call : r.msg.cmd = .readc ∨ r.msg.cmd = .writec) (held : P x.drv)
    (ok : doRw D r.client { x with msg := { r.msg with client := r.client } } = some y) : P y.drv := by
  rcases doRwCases ok with rfl | ⟨t,fp,f,pid,z,given,found,at_,real,entry,there,asked,rfl⟩
  · exact held
  obtain ⟨drv,front,last,turn,-,-,rfl⟩ := sendrecRepeatSource asked
  dsimp only at given found at_ entry there
  have goes : transfer x.vfs r = some (pid,{ r.msg with client := r.client, w0 := f.ino, w1 := f.pos }) := by
    simp only [transfer,if_neg (Int.not_lt.mpr given),found,at_,if_neg (Int.not_lt.mpr real),entry,there,bind,
      Option.bind_some]
  exact keeps.transfers call _ _ _ _ goes turn

theorem Exchanges.interrupt (keeps : Exchanges D s start r P) (call : x.msg.cmd = .rdInterrupt ∨ x.msg.cmd = .wrInterrupt)
    (held : P x.drv) (ok : doInt D x = some y) : P y.drv := by
  unfold doInt at ok
  split at ok <;> try contradiction
  exact keeps.repeats ok (by rcases call with h | h <;> simp [Plain,h]) held

theorem Exchanges.process (keeps : Exchanges D x.vfs x.drv r P) (own : x.msg = r.msg) (held : P x.drv)
    (ok : process D r x = some y) : P y.drv := by
  unfold Vfs.process at ok
  split at ok
  case h_1 => exact keeps.addnewtask ok held
  case h_2 => exact keeps.removetask ok held
  case h_3 call =>
    cases Option.some.inj ok
    unfold doMkdev
    split
    · exact held
    · exact keeps.starts call _ _ held
  case h_4 call => exact keeps.mknod (by rw [own]; exact call) held ok
  case h_5 =>
    rcases doDupCases ok with rfl | ⟨t,fp,fd,f,-,-,-,-,-,-,rfl⟩
    · exact held
    · exact held
  case h_6 => exact keeps.pipe held ok
  case h_7 =>
    obtain ⟨found,a,b,c,kept,-,rfl⟩ := doStatCases keeps.lookups held ok
    exact kept
  case h_8 => exact keeps.open held ok
  case h_9 => exact keeps.doClose ok held
  case h_10 call => exact keeps.interrupt (Or.inl (by rw [own]; exact call)) held ok
  case h_11 call => exact keeps.interrupt (Or.inr (by rw [own]; exact call)) held ok
  case h_12 call =>
    rw [own] at ok
    exact keeps.rw (Or.inl call) held ok
  case h_13 call =>
    rw [own] at ok
    exact keeps.rw (Or.inr call) held ok
  case h_14 =>
    cases Option.some.inj ok
    exact held
  case h_15 =>
    cases Option.some.inj ok
    exact held

end

end Avros.Vfs
