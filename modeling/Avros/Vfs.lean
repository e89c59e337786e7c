import Avros.Kernel

/-! `servers/vfs.c`. VFS serves one request at a time, from receive(TASK_ANY) to the
next: within it, it talks to drivers and answers clients. What a driver sends back in
one exchange is a list of messages: as many VFS_REPEAT as it likes, then the last one.
VFS acknowledges each VFS_REPEAT, and the driver drops the acknowledgement. A request
has no result when VFS does not come back: it sends to NULL, follows a NULL record,
leaves a table, or the driver does. -/
namespace Avros.Vfs
open Queue
export Kernel (Pid)

/-! `servers/vfs.h`: the message VFS, its clients and its drivers pass around. The
members of the message union share their words, so they are modelled as words:

  rw        fd, ino = w0    pos, bnum = w1    data = w2
  openclose fd, dev = w0    ino = w1
  mknod     dev, ino = w0   link  dir_ino = w0, ino = w1
  pipe      fdi = w0        fdo = w1          result = w2
  stat.ans  code = w0       dev = w1          ino = w2
  adddel    pid = w0        parent = w1
  iget.ino, dup.fd, mkdev.ans.id, interrupt.data = w0

The pointer members (a name, a driver's entry point) are kept as what they point to.
No function reads such a member after it wrote a word that shares its place. -/

inductive Cmd where
  | hold | repeat_ | final
  | rdInterrupt | wrInterrupt
  | inodeGrab | inodeRelease | link | unlink
  | mknod | mkdev | getDirentry | debug
  | stat | dup | pipe | open_ | close | creat | readc | writec | addtask | deltask
  deriving DecidableEq, Repr

inductive Driver where | pipedev | memfile | ttyUsart0
  deriving DecidableEq, Repr

structure Msg where
  cmd : Cmd
  client : Pid
  w0 : Int
  w1 : Int
  w2 : Int
  name : Option (List Char)
  driver : Driver
  deriving DecidableEq, Repr

def eof : Int := -1

-- What a `char` holds after a store, `char` being signed and 8 bits wide.
def toChar (v : Int) : Int := (v + 128) % 256 - 128

theorem toCharSmall {v : Int} (low : -128 ≤ v) (high : v ≤ 127) : toChar v = v := by
  unfold toChar
  omega

def maxDev : Nat := 6
def maxFilp : Nat := 16
def maxFd : Nat := 8

structure Filp where
  dev : Int
  ino : Int
  refcnt : Int
  pos : Int
  deriving DecidableEq, Repr

structure VfsTask where
  pid : Pid
  fd : List Int
  wdev : Int
  wino : Int
  rdev : Int
  rino : Int
  deriving DecidableEq, Repr

structure Tables where
  devtab : List Pid
  pipedevIdx : Int
  filp : List Filp
  taskQ : List VfsTask
  debugn : Int
  deriving DecidableEq, Repr

structure Drivers (σ : Type) where
  start : σ → Pid → Driver → σ
  ask : σ → Pid → Msg → Option (σ × List Msg)

/- What a request leaves in the history: each message that reached a driver, with the
drivers as it found them, and each message sent to a client. -/
inductive Event (σ : Type) where
  | asked (drv : σ) (pid : Pid) (msg : Msg)
  | sent (client : Pid) (msg : Msg)

structure Tx (σ : Type) where
  vfs : Tables
  drv : σ
  msg : Msg
  log : List (Event σ)

-- `newtask` is what createtask answers, `kmalloc n` whether the n-th allocation succeeds.
structure Request where
  client : Pid
  msg : Msg
  newtask : Pid
  kmalloc : Nat → Bool

def findEmptyDevtab (s : Tables) : Option Nat := s.devtab.findIdx? (· = 0)
def findEmptyFilp (s : Tables) : Option Nat := s.filp.findIdx? (·.refcnt = 0)
def findEmptyFd (t : VfsTask) : Option Nat := t.fd.findIdx? (· < 0)

def vfsFindbypid (s : Tables) (pid : Pid) : Option VfsTask := s.taskQ.find? (·.pid = pid)

-- A store through the pointer that vfs_findbypid(pid) gave.
def onFirst (pid : Pid) (f : VfsTask → VfsTask) : List VfsTask → List VfsTask
  | [] => []
  | t::rest => if t.pid = pid then f t::rest else t::onFirst pid f rest

def onTask (s : Tables) (pid : Pid) (f : VfsTask → VfsTask) : Tables :=
  { s with taskQ := onFirst pid f s.taskQ }

/- `fd[i]`. The four directory words stand right behind the array in the record. -/
def descriptor (t : VfsTask) (i : Nat) : Option Int := (t.fd ++ [t.wdev,t.wino,t.rdev,t.rino])[i]?

def setDescriptor (i : Nat) (v : Int) (t : VfsTask) : VfsTask :=
  if i < maxFd then { t with fd := t.fd.set i v }
  else if i = maxFd then { t with wdev := v }
  else if i = maxFd + 1 then { t with wino := v }
  else if i = maxFd + 2 then { t with rdev := v }
  else if i = maxFd + 3 then { t with rino := v }
  else t

def putFd (s : Tables) (pid : Pid) (i : Nat) (v : Int) : Tables := onTask s pid (setDescriptor i v)
def putFilp (s : Tables) (fp : Nat) (f : Filp) : Tables := { s with filp := s.filp.set fp f }

-- `filp[fp].refcnt++`
def incRef (s : Tables) (fp : Nat) : Tables :=
  { s with filp := s.filp.modify fp (fun f => { f with refcnt := toChar (f.refcnt + 1) }) }

-- A device a message can be sent to: sendrec(NULL) never returns.
def device (s : Tables) (dev : Int) : Option Pid :=
  if dev < 0 then none else (s.devtab[dev.toNat]?).filter (· ≠ 0)

section
variable {σ : Type} (D : Drivers σ)

def reply (x : Tx σ) (v : Int) : Tx σ := { x with msg := { x.msg with w0 := v } }
def withVfs (x : Tx σ) (s : Tables) : Tx σ := { x with vfs := s }

def sendrec (x : Tx σ) (pid : Pid) : Option (Tx σ) :=
  match D.ask x.drv pid x.msg with
  | some (drv,[m]) => some { x with drv := drv, msg := m, log := x.log ++ [.asked x.drv pid x.msg] }
  | _ => none

/- `while (msg->cmd == VFS_REPEAT)`. Only do_close sends without looking whether there
is a client to send to. -/
def repeatLoop (checked : Bool) (x : Tx σ) : List Msg → Option (Tx σ)
  | [] => none
  | m::rest =>
    if m.cmd = .repeat_ then
      if m.client ≠ 0 then
        repeatLoop checked { x with log := x.log ++ [.sent m.client { m with cmd := .final }] } rest
      else if checked then repeatLoop checked x rest else none
    else if rest = [] then some { x with msg := m } else none

def sendrecRepeat (checked : Bool) (x : Tx σ) (pid : Pid) : Option (Tx σ) := do
  let (drv,replies) ← D.ask x.drv pid x.msg
  repeatLoop checked { x with drv := drv, log := x.log ++ [.asked x.drv pid x.msg] } replies

def doDup (client : Pid) (x : Tx σ) : Option (Tx σ) :=
  if x.msg.w0 < 0 then some (reply x (-1)) else do
    let t ← vfsFindbypid x.vfs client
    let fp ← descriptor t x.msg.w0.toNat
    if fp < 0 then some (reply x (-1)) else
      match findEmptyFd t with
      | none => some (reply x (-1))
      | some fd => do
        let _ ← x.vfs.filp[fp.toNat]?
        some (reply (withVfs x (incRef (putFd x.vfs client fd fp) fp.toNat)) fd)

def setupDev (newtask : Pid) (x : Tx σ) : Tx σ := { x with drv := D.start x.drv newtask x.msg.driver }

def doMkdev (newtask : Pid) (x : Tx σ) : Tx σ :=
  match findEmptyDevtab x.vfs with
  | none => reply x (-1)
  | some i =>
    reply (withVfs (setupDev D newtask x) { x.vfs with devtab := x.vfs.devtab.set i newtask }) i

/- The message of a lookup is a local of vfs_get_direntry: the request's own message
is left alone. -/
def vfsGetDirentry (dev : Int) (ino : Int) (name : List Char) (kmalloc : Bool) (x : Tx σ) :
    Option (Int × Tx σ) :=
  if kmalloc then do
    let pid ← device x.vfs dev
    let asked ← sendrec D { x with msg := { x.msg with cmd := .getDirentry, w1 := ino, name := some name } } pid
    some (asked.msg.w1,{ asked with msg := x.msg })
  else some (-1,x)

/- The loop of vfs_get_dir. `word` is the component read so far, reversed, and `n`
counts the components before it; the part behind the last '/' is left to the caller. -/
def walkDir (dev : Int) (kmalloc : Nat → Bool) :
    List Char → List Char → Nat → Int → Tx σ → Option (Int × Tx σ)
  | [],_,_,ino,x => some (ino,x)
  | '/'::rest,word,n,ino,x =>
    if ino < 0 then some (ino,x) else do
      let (next,x) ← vfsGetDirentry D dev ino word.reverse (kmalloc n) x
      walkDir dev kmalloc rest [] (n + 1) next x
  | c::rest,word,n,ino,x => walkDir dev kmalloc rest (c::word) n ino x

/- Answers with the device, the inode and the state. A NULL or empty path leaves the
device unset, which is 0 here: only do_stat shows it to anybody. -/
def vfsGetDir (t : VfsTask) (path : Option (List Char)) (kmalloc : Nat → Bool) (x : Tx σ) :
    Option (Int × Int × Tx σ) :=
  match path with
  | none => some (0,-1,x)
  | some [] => some (0,-1,x)
  | some ('/'::rest) => do
    let (ino,x) ← walkDir D t.rdev kmalloc rest [] 0 t.rino x
    some (t.rdev,ino,x)
  | some path => do
    let (ino,x) ← walkDir D t.wdev kmalloc path [] 0 t.wino x
    some (t.wdev,ino,x)

def basename : List Char → List Char → List Char
  | [],word => word.reverse
  | '/'::rest,_ => basename rest []
  | c::rest,word => basename rest (c::word)

def vfsGetNode (t : VfsTask) (path : Option (List Char)) (kmalloc : Nat → Bool) (x : Tx σ) :
    Option (Int × Int × Tx σ) := do
  let (dev,ino,x) ← vfsGetDir D t path kmalloc x
  if ino < 0 then some (dev,-1,x) else
    let bn := basename (path.getD []) []
    if bn = [] then some (dev,ino,x) else do
      let (node,x) ← vfsGetDirentry D dev ino bn (kmalloc (path.getD []).length) x
      some (dev,node,x)

def doMknod (client : Pid) (kmalloc : Nat → Bool) (x : Tx σ) : Option (Tx σ) := do
  let t ← vfsFindbypid x.vfs client
  let (dev,dirIno,x) ← vfsGetDir D t x.msg.name kmalloc x
  if dirIno < 0 then some (reply x (-1)) else do
    let pid ← device x.vfs dev
    let name := x.msg.name
    let x ← sendrec D x pid
    let ino := x.msg.w0
    let x ← sendrec D { x with msg := { x.msg with cmd := .link, name := name, w1 := ino, w0 := dirIno } } pid
    if x.msg.w1 < 0 then some (reply x (-1)) else some (reply x ino)

def doStat (client : Pid) (kmalloc : Nat → Bool) (x : Tx σ) : Option (Tx σ) := do
  let t ← vfsFindbypid x.vfs client
  let (dev,ino,x) ← vfsGetNode D t x.msg.name kmalloc x
  some { x with msg := { x.msg with w0 := if ino < 0 then -1 else 0, w1 := dev, w2 := ino } }

def failPipe (x : Tx σ) : Tx σ := { x with msg := { x.msg with w2 := -1 } }

/- Both ends are made the same way; `some (some ..)` is the descriptor of the new end. -/
def pipeEnd (client : Pid) (ino : Int) (s : Tables) : Option (Option (Nat × Tables)) :=
  match findEmptyFilp s with
  | none => some none
  | some fp => do
    let t ← vfsFindbypid s client
    match findEmptyFd t with
    | none => some none
    | some fd => do
      let f ← s.filp[fp]?
      some (some (fd,putFd (putFilp s fp { f with
        dev := s.pipedevIdx, ino := ino, refcnt := toChar (f.refcnt + 1) }) client fd fp))

def doPipe (client : Pid) (x : Tx σ) : Option (Tx σ) := do
  let pid ← device x.vfs x.vfs.pipedevIdx
  let x ← sendrec D { x with msg := { x.msg with cmd := .mknod } } pid
  if x.msg.w0 < 0 then some (failPipe x) else do
    let ino := x.msg.w0
    let x ← sendrec D { x with msg := { x.msg with cmd := .inodeGrab, w0 := ino } } pid
    if x.msg.w0 < 0 then some (failPipe x) else do
      let x ← sendrec D { x with msg := { x.msg with cmd := .inodeGrab, w0 := ino } } pid
      if x.msg.w0 < 0 then some (failPipe x) else do
        match ← pipeEnd client ino x.vfs with
        | none => some (failPipe x)
        | some (fdi,s) => do
          let x := { x with vfs := s, msg := { x.msg with w0 := fdi } }
          match ← pipeEnd client ino x.vfs with
          | none => some (failPipe x)
          | some (fdo,s) => some { x with vfs := s, msg := { x.msg with w1 := fdo, w2 := 0 } }

def doOpen (client : Pid) (x : Tx σ) : Option (Tx σ) := do
  let t ← vfsFindbypid x.vfs client
  match findEmptyFd t with
  | none => some (reply x (-1))
  | some fd =>
    match findEmptyFilp x.vfs with
    | none => some (reply x (-1))
    | some fp => do
      let f ← x.vfs.filp[fp]?
      let x := withVfs x (putFilp x.vfs fp { f with dev := x.msg.w0, ino := x.msg.w1, pos := 0 })
      let pid ← device x.vfs x.msg.w0
      let x ← sendrec D { x with msg := { x.msg with cmd := .inodeGrab, w0 := x.msg.w1 } } pid
      if x.msg.w0 < 0 then some (reply x (-1)) else
        some (reply (withVfs x (putFd (incRef x.vfs fp) client fd fp)) fd)

def doClose (client : Pid) (x : Tx σ) : Option (Tx σ) :=
  if x.msg.w0 < 0 then some x else do
    let t ← vfsFindbypid x.vfs client
    let fp ← descriptor t x.msg.w0.toNat
    let x := withVfs x (putFd x.vfs client x.msg.w0.toNat (-1))
    if fp < 0 then some x else do
      let f ← x.vfs.filp[fp.toNat]?
      if f.refcnt = 0 then some x else
        let x := withVfs x (putFilp x.vfs fp.toNat { f with refcnt := toChar (f.refcnt - 1) })
        if toChar (f.refcnt - 1) ≠ 0 then some x else do
          let pid ← device x.vfs f.dev
          sendrecRepeat D false { x with msg := { x.msg with cmd := .inodeRelease, w0 := f.ino } } pid

def doRw (client : Pid) (x : Tx σ) : Option (Tx σ) :=
  if x.msg.w0 < 0 then some { x with msg := { x.msg with w2 := eof } } else do
    let t ← vfsFindbypid x.vfs client
    let fp ← descriptor t x.msg.w0.toNat
    if fp < 0 then some { x with msg := { x.msg with w2 := eof } } else do
      let f ← x.vfs.filp[fp.toNat]?
      let pid ← device x.vfs f.dev
      let x ← sendrecRepeat D true { x with msg := { x.msg with w0 := f.ino, w1 := f.pos } } pid
      some (withVfs x (putFilp x.vfs fp.toNat { f with pos := f.pos + x.msg.w1 }))

def doInt (x : Tx σ) : Option (Tx σ) :=
  if x.msg.client = 0 then none else sendrecRepeat D true x x.msg.client

def closeAll (pid : Pid) : List Nat → Tx σ → Option (Tx σ)
  | [],x => some x
  | i::rest,x => do
    let x ← doClose D pid (reply x i)
    closeAll pid rest x

def vfsRemovetask (x : Tx σ) : Option (Tx σ) :=
  match vfsFindbypid x.vfs x.msg.w0.toNat with
  | none => some x
  | some t => do
    let x ← closeAll D t.pid (List.range maxFd) x
    some (withVfs x { x.vfs with taskQ := x.vfs.taskQ.eraseP (·.pid = t.pid) })

def inheritedFd (fp : Int) : Int := if fp ≥ 0 then fp else -1
def inheritFd (parent : VfsTask) (s : Tables) : Tables :=
  parent.fd.foldl (fun s fp => if fp ≥ 0 then incRef s fp.toNat else s) s

def vfsAddnewtask (kmalloc : Bool) (x : Tx σ) : Option (Tx σ) :=
  if kmalloc then
    let pt : VfsTask := ⟨x.msg.w0.toNat,List.replicate maxFd (-1),0,0,0,0⟩
    let queued := { x.vfs with taskQ := x.vfs.taskQ ++ [pt] }
    if x.msg.w1 = 0 then
      some (withVfs x { x.vfs with
        taskQ := x.vfs.taskQ ++ [{ pt with rdev := 1, rino := 0, wdev := 1, wino := 0 }] })
    else
      match vfsFindbypid queued x.msg.w1.toNat with
      | none => do
        let x ← vfsRemovetask D (withVfs x queued)
        some (reply x 0)
      | some parent => some (withVfs x (inheritFd parent { x.vfs with
          taskQ := x.vfs.taskQ ++ [{ parent with pid := pt.pid, fd := parent.fd.map inheritedFd }] }))
  else some (reply x 0)

def doDebug (x : Tx σ) : Tx σ :=
  let debugn := if x.msg.w0 ≠ 0 then 0 else x.vfs.debugn
  reply (withVfs x { x.vfs with debugn := debugn }) debugn

def process (r : Request) (x : Tx σ) : Option (Tx σ) :=
  match r.msg.cmd with
  | .addtask => vfsAddnewtask D (r.kmalloc 0) x
  | .deltask => vfsRemovetask D x
  | .mkdev => some (doMkdev D r.newtask x)
  | .mknod => doMknod D r.client r.kmalloc x
  | .dup => doDup r.client x
  | .pipe => doPipe D r.client x
  | .stat => doStat D r.client r.kmalloc x
  | .open_ => doOpen D r.client x
  | .close => doClose D r.client x
  | .rdInterrupt => doInt D x
  | .wrInterrupt => doInt D x
  | .readc => doRw D r.client { x with msg := { x.msg with client := r.client } }
  | .writec => doRw D r.client { x with msg := { x.msg with client := r.client } }
  | .debug => some (doDebug x)
  | _ => some x

-- Whom the last message of the round goes to.
def answered (r : Request) (x : Tx σ) : Pid :=
  match r.msg.cmd with
  | .rdInterrupt => x.msg.client
  | .wrInterrupt => x.msg.client
  | _ => r.client

def finish (r : Request) (x : Tx σ) : List (Event σ) :=
  if x.msg.cmd ≠ .hold ∧ answered r x ≠ 0 then
    x.log ++ [.sent (answered r x) { x.msg with cmd := .final }]
  else x.log

structure System (σ : Type) where
  vfs : Tables
  drv : σ

def vfs : Run.Step (System σ) Request (Event σ) := fun s r => do
  let x ← process D r ⟨s.vfs,s.drv,r.msg,[]⟩
  some (⟨x.vfs,x.drv⟩,finish r x)

def vfsInit (newtask : Pid) (drv : σ) : System σ :=
  ⟨⟨(List.replicate maxDev 0).set 0 newtask,0,List.replicate maxFilp ⟨0,0,0,0⟩,[],0⟩,
    D.start drv newtask .pipedev⟩

end

/-! What the calls can do, as facts. -/

section
variable {σ : Type} {D : Drivers σ}

theorem answeredClient {r : Request} (request : r.msg.cmd ≠ .rdInterrupt ∧ r.msg.cmd ≠ .wrInterrupt) (y : Tx σ) :
    answered r y = r.client := by
  unfold answered
  split
  · rename_i call
    exact absurd call request.1
  · rename_i call
    exact absurd call request.2
  · rfl

theorem sendrecSource {x y : Tx σ} {pid : Pid} (ok : sendrec D x pid = some y) :
    ∃ drv m, D.ask x.drv pid x.msg = some (drv,[m]) ∧
      y = { x with drv := drv, msg := m, log := x.log ++ [.asked x.drv pid x.msg] } := by
  unfold sendrec at ok
  split at ok <;> try contradiction
  rename_i drv m found
  exact ⟨drv,m,found,(Option.some.inj ok).symm⟩

theorem sendrecVfs {x y : Tx σ} {pid : Pid} (ok : sendrec D x pid = some y) : y.vfs = x.vfs := by
  obtain ⟨drv,m,-,rfl⟩ := sendrecSource ok
  rfl

def unblocked (replies : List Msg) : List (Event σ) :=
  (replies.filter (fun m => m.cmd = .repeat_ ∧ m.client ≠ 0)).map
    (fun m => .sent m.client { m with cmd := .final })

theorem repeatLoopSource {checked : Bool} {x y : Tx σ} {replies : List Msg}
    (ok : repeatLoop checked x replies = some y) :
    ∃ front last, replies = front ++ [last] ∧ (∀ m ∈ front, m.cmd = .repeat_) ∧ last.cmd ≠ .repeat_ ∧
      y = { x with msg := last, log := x.log ++ unblocked front } := by
  induction replies generalizing x with
  | nil => contradiction
  | cons m rest ih =>
    simp only [repeatLoop] at ok
    split at ok
    · rename_i again
      split at ok
      · rename_i real
        obtain ⟨front,last,rfl,repeats,stop,rfl⟩ := ih ok
        refine ⟨m::front,last,rfl,?_,stop,?_⟩
        · simpa [again] using repeats
        · simp [unblocked,again,real]
      · rename_i null
        split at ok <;> try contradiction
        obtain ⟨front,last,rfl,repeats,stop,rfl⟩ := ih ok
        refine ⟨m::front,last,rfl,?_,stop,?_⟩
        · simpa [again] using repeats
        · simp [unblocked,again,null]
    · rename_i stop
      split at ok <;> try contradiction
      rename_i alone
      cases Option.some.inj ok
      exact ⟨[],m,by simp [alone],by simp,stop,by simp [unblocked]⟩

theorem sendrecRepeatSource {checked : Bool} {x y : Tx σ} {pid : Pid}
    (ok : sendrecRepeat D checked x pid = some y) :
    ∃ drv front last, D.ask x.drv pid x.msg = some (drv,front ++ [last]) ∧
      (∀ m ∈ front, m.cmd = .repeat_) ∧ last.cmd ≠ .repeat_ ∧
      y = { x with drv := drv, msg := last, log := x.log ++ .asked x.drv pid x.msg :: unblocked front } := by
  simp only [sendrecRepeat,bind,Option.bind_eq_some_iff] at ok
  obtain ⟨⟨drv,replies⟩,found,loop⟩ := ok
  obtain ⟨front,last,rfl,repeats,stop,rfl⟩ := repeatLoopSource loop
  exact ⟨drv,front,last,found,repeats,stop,by simp⟩

theorem sendrecRepeatVfs {checked : Bool} {x y : Tx σ} {pid : Pid}
    (ok : sendrecRepeat D checked x pid = some y) : y.vfs = x.vfs := by
  obtain ⟨drv,front,last,-,-,-,rfl⟩ := sendrecRepeatSource ok
  rfl

theorem doDupCases {client : Pid} {x y : Tx σ} (ok : doDup client x = some y) :
    y = reply x (-1) ∨ ∃ t fp fd f, 0 ≤ x.msg.w0 ∧ vfsFindbypid x.vfs client = some t ∧
      descriptor t x.msg.w0.toNat = some fp ∧ 0 ≤ fp ∧ findEmptyFd t = some fd ∧
      x.vfs.filp[fp.toNat]? = some f ∧
      y = reply (withVfs x (incRef (putFd x.vfs client fd fp) fp.toNat)) fd := by
  unfold doDup at ok
  split at ok
  · exact Or.inl (Option.some.inj ok).symm
  rename_i given
  simp only [bind,Option.bind_eq_some_iff] at ok
  obtain ⟨t,found,fp,held,ok⟩ := ok
  split at ok
  · exact Or.inl (Option.some.inj ok).symm
  rename_i real
  split at ok
  · exact Or.inl (Option.some.inj ok).symm
  rename_i fd free
  simp only [Option.bind_eq_some_iff] at ok
  obtain ⟨f,entry,last⟩ := ok
  exact Or.inr ⟨t,fp,fd,f,by omega,found,held,by omega,free,entry,(Option.some.inj last).symm⟩

/- do_close: nothing to close, a descriptor that led nowhere, one reference less, or
the last reference and the exchange with the driver. -/
theorem doCloseCases {client : Pid} {x y : Tx σ} (ok : doClose D client x = some y) :
    (x.msg.w0 < 0 ∧ y = x) ∨ ∃ t fp, 0 ≤ x.msg.w0 ∧ vfsFindbypid x.vfs client = some t ∧
      descriptor t x.msg.w0.toNat = some fp ∧
      ((fp < 0 ∧ y = withVfs x (putFd x.vfs client x.msg.w0.toNat (-1))) ∨
       ∃ f, 0 ≤ fp ∧ x.vfs.filp[fp.toNat]? = some f ∧
        ((f.refcnt = 0 ∧ y = withVfs x (putFd x.vfs client x.msg.w0.toNat (-1))) ∨
         (f.refcnt ≠ 0 ∧ toChar (f.refcnt - 1) ≠ 0 ∧
          y = withVfs x (putFilp (putFd x.vfs client x.msg.w0.toNat (-1)) fp.toNat
            { f with refcnt := toChar (f.refcnt - 1) })) ∨
         (f.refcnt ≠ 0 ∧ toChar (f.refcnt - 1) = 0 ∧ ∃ pid, device x.vfs f.dev = some pid ∧
          sendrecRepeat D false { x with
            vfs := putFilp (putFd x.vfs client x.msg.w0.toNat (-1)) fp.toNat
              { f with refcnt := toChar (f.refcnt - 1) }
            msg := { x.msg with cmd := .inodeRelease, w0 := f.ino } } pid = some y))) := by
  unfold doClose at ok
  split at ok
  · rename_i negative
    exact Or.inl ⟨negative,(Option.some.inj ok).symm⟩
  rename_i given
  simp only [bind,Option.bind_eq_some_iff] at ok
  obtain ⟨t,found,fp,held,ok⟩ := ok
  refine Or.inr ⟨t,fp,by omega,found,held,?_⟩
  split at ok
  · rename_i empty
    exact Or.inl ⟨empty,(Option.some.inj ok).symm⟩
  rename_i real
  simp only [Option.bind_eq_some_iff] at ok
  obtain ⟨f,entry,ok⟩ := ok
  refine Or.inr ⟨f,by omega,entry,?_⟩
  split at ok
  · rename_i zero
    exact Or.inl ⟨zero,(Option.some.inj ok).symm⟩
  rename_i counted
  split at ok
  · rename_i more
    exact Or.inr (Or.inl ⟨counted,more,(Option.some.inj ok).symm⟩)
  · rename_i last
    simp only [Option.bind_eq_some_iff] at ok
    obtain ⟨pid,there,asked⟩ := ok
    exact Or.inr (Or.inr ⟨counted,by simpa using last,pid,there,asked⟩)

theorem doRwCases {client : Pid} {x y : Tx σ} (ok : doRw D client x = some y) :
    y = { x with msg := { x.msg with w2 := eof } } ∨
    ∃ t fp f pid z, 0 ≤ x.msg.w0 ∧ vfsFindbypid x.vfs client = some t ∧
      descriptor t x.msg.w0.toNat = some fp ∧ 0 ≤ fp ∧ x.vfs.filp[fp.toNat]? = some f ∧
      device x.vfs f.dev = some pid ∧
      sendrecRepeat D true { x with msg := { x.msg with w0 := f.ino, w1 := f.pos } } pid = some z ∧
      y = withVfs z (putFilp z.vfs fp.toNat { f with pos := f.pos + z.msg.w1 }) := by
  unfold doRw at ok
  split at ok
  · exact Or.inl (Option.some.inj ok).symm
  rename_i given
  simp only [bind,Option.bind_eq_some_iff] at ok
  obtain ⟨t,found,fp,held,ok⟩ := ok
  split at ok
  · exact Or.inl (Option.some.inj ok).symm
  rename_i real
  simp only [Option.bind_eq_some_iff] at ok
  obtain ⟨f,entry,pid,there,z,asked,last⟩ := ok
  exact Or.inr ⟨t,fp,f,pid,z,by omega,found,held,by omega,entry,there,asked,(Option.some.inj last).symm⟩

theorem doOpenCases {client : Pid} {x y : Tx σ} (ok : doOpen D client x = some y) :
    y = reply x (-1) ∨ ∃ t fd fp f pid z, vfsFindbypid x.vfs client = some t ∧
      findEmptyFd t = some fd ∧ findEmptyFilp x.vfs = some fp ∧ x.vfs.filp[fp]? = some f ∧
      device x.vfs x.msg.w0 = some pid ∧
      sendrec D { x with
        vfs := putFilp x.vfs fp { f with dev := x.msg.w0, ino := x.msg.w1, pos := 0 }
        msg := { x.msg with cmd := .inodeGrab, w0 := x.msg.w1 } } pid = some z ∧
      ((z.msg.w0 < 0 ∧ y = reply z (-1)) ∨
       (0 ≤ z.msg.w0 ∧ y = reply (withVfs z (putFd (incRef z.vfs fp) client fd fp)) fd)) := by
  simp only [doOpen,bind,Option.bind_eq_some_iff] at ok
  obtain ⟨t,found,ok⟩ := ok
  split at ok
  · exact Or.inl (Option.some.inj ok).symm
  rename_i fd free
  split at ok
  · exact Or.inl (Option.some.inj ok).symm
  rename_i fp empty
  simp only [Option.bind_eq_some_iff] at ok
  obtain ⟨f,entry,pid,there,z,asked,ok⟩ := ok
  refine Or.inr ⟨t,fd,fp,f,pid,z,found,free,empty,entry,there,asked,?_⟩
  split at ok
  · rename_i refused
    exact Or.inl ⟨refused,(Option.some.inj ok).symm⟩
  · rename_i granted
    exact Or.inr ⟨by omega,(Option.some.inj ok).symm⟩

theorem pipeEndCases {client : Pid} {ino : Int} {s : Tables} {r : Option (Nat × Tables)}
    (ok : pipeEnd client ino s = some r) :
    r = none ∨ ∃ fp t fd f, findEmptyFilp s = some fp ∧ vfsFindbypid s client = some t ∧
      findEmptyFd t = some fd ∧ s.filp[fp]? = some f ∧
      r = some (fd,putFd (putFilp s fp { f with
        dev := s.pipedevIdx, ino := ino, refcnt := toChar (f.refcnt + 1) }) client fd fp) := by
  unfold pipeEnd at ok
  split at ok
  · exact Or.inl (Option.some.inj ok).symm
  rename_i fp empty
  simp only [bind,Option.bind_eq_some_iff] at ok
  obtain ⟨t,found,ok⟩ := ok
  split at ok
  · exact Or.inl (Option.some.inj ok).symm
  rename_i fd free
  simp only [Option.bind_eq_some_iff] at ok
  obtain ⟨f,entry,last⟩ := ok
  exact Or.inr ⟨fp,t,fd,f,empty,found,free,entry,(Option.some.inj last).symm⟩

theorem vfsRemovetaskCases {x y : Tx σ} (ok : vfsRemovetask D x = some y) :
    (vfsFindbypid x.vfs x.msg.w0.toNat = none ∧ y = x) ∨
    ∃ t z, vfsFindbypid x.vfs x.msg.w0.toNat = some t ∧ closeAll D t.pid (List.range maxFd) x = some z ∧
      y = withVfs z { z.vfs with taskQ := z.vfs.taskQ.eraseP (·.pid = t.pid) } := by
  unfold vfsRemovetask at ok
  split at ok
  · rename_i missing
    exact Or.inl ⟨missing,(Option.some.inj ok).symm⟩
  · rename_i t found
    simp only [bind,Option.bind_eq_some_iff] at ok
    obtain ⟨z,closed,last⟩ := ok
    exact Or.inr ⟨t,z,found,closed,(Option.some.inj last).symm⟩

/- vfs_addnewtask: a task of nobody's, one whose parent is not found and that is removed again,
a child, or no record for want of memory. -/
inductive Adds (D : Drivers σ) (x : Tx σ) : Tx σ → Prop where
  | first (nobody : x.msg.w1 = 0) : Adds D x (withVfs x { x.vfs with
      taskQ := x.vfs.taskQ ++ [⟨x.msg.w0.toNat,List.replicate maxFd (-1),1,0,1,0⟩] })
  | orphan {z : Tx σ} (removed : vfsRemovetask D (withVfs x { x.vfs with
      taskQ := x.vfs.taskQ ++ [⟨x.msg.w0.toNat,List.replicate maxFd (-1),0,0,0,0⟩] }) = some z) : Adds D x (reply z 0)
  | child {parent : VfsTask} (found : vfsFindbypid { x.vfs with
      taskQ := x.vfs.taskQ ++ [⟨x.msg.w0.toNat,List.replicate maxFd (-1),0,0,0,0⟩] } x.msg.w1.toNat = some parent) :
      Adds D x (withVfs x (inheritFd parent { x.vfs with
        taskQ := x.vfs.taskQ ++ [{ parent with pid := x.msg.w0.toNat, fd := parent.fd.map inheritedFd }] }))
  | full : Adds D x (reply x 0)

theorem vfsAddnewtaskAdds {kmalloc : Bool} {x y : Tx σ} (ok : vfsAddnewtask D kmalloc x = some y) : Adds D x y := by
  unfold vfsAddnewtask at ok
  split at ok
  · dsimp only at ok
    split at ok
    · rename_i nobody
      cases Option.some.inj ok
      exact .first nobody
    split at ok
    · simp only [bind,Option.bind_eq_some_iff] at ok
      obtain ⟨z,removed,last⟩ := ok
      cases Option.some.inj last
      exact .orphan removed
    · rename_i parent found
      cases Option.some.inj ok
      exact .child found
  · cases Option.some.inj ok
    exact .full

/- do_pipe: MKNOD and two GRABs, each of which may be the end of it, then two ends. -/
theorem doPipeCases {client : Pid} {x y : Tx σ} (ok : doPipe D client x = some y) :
    ∃ pid made, device x.vfs x.vfs.pipedevIdx = some pid ∧
      sendrec D { x with msg := { x.msg with cmd := .mknod } } pid = some made ∧
      ((made.msg.w0 < 0 ∧ y = failPipe made) ∨ ∃ once, 0 ≤ made.msg.w0 ∧
        sendrec D { made with msg := { made.msg with cmd := .inodeGrab, w0 := made.msg.w0 } } pid = some once ∧
        ((once.msg.w0 < 0 ∧ y = failPipe once) ∨ ∃ twice, 0 ≤ once.msg.w0 ∧
          sendrec D { once with msg := { once.msg with cmd := .inodeGrab, w0 := made.msg.w0 } } pid = some twice ∧
          ((twice.msg.w0 < 0 ∧ y = failPipe twice) ∨ ∃ first, 0 ≤ twice.msg.w0 ∧
            pipeEnd client made.msg.w0 twice.vfs = some first ∧
            ((first = none ∧ y = failPipe twice) ∨ ∃ fdi s second, first = some (fdi,s) ∧
              pipeEnd client made.msg.w0 s = some second ∧
              ((second = none ∧ y = failPipe { twice with vfs := s, msg := { twice.msg with w0 := fdi } }) ∨
               ∃ fdo s', second = some (fdo,s') ∧ y = { twice with
                 vfs := s', msg := { twice.msg with w0 := fdi, w1 := fdo, w2 := 0 } }))))) := by
  simp only [doPipe,bind,Option.bind_eq_some_iff] at ok
  obtain ⟨pid,there,made,asked,ok⟩ := ok
  refine ⟨pid,made,there,asked,?_⟩
  split at ok
  · rename_i refused
    exact Or.inl ⟨refused,(Option.some.inj ok).symm⟩
  rename_i granted
  simp only [Option.bind_eq_some_iff] at ok
  obtain ⟨once,grab,ok⟩ := ok
  refine Or.inr ⟨once,by omega,grab,?_⟩
  split at ok
  · rename_i refused
    exact Or.inl ⟨refused,(Option.some.inj ok).symm⟩
  rename_i granted
  simp only [Option.bind_eq_some_iff] at ok
  obtain ⟨twice,again,ok⟩ := ok
  refine Or.inr ⟨twice,by omega,again,?_⟩
  split at ok
  · rename_i refused
    exact Or.inl ⟨refused,(Option.some.inj ok).symm⟩
  rename_i granted
  simp only [Option.bind_eq_some_iff] at ok
  obtain ⟨first,input,ok⟩ := ok
  refine Or.inr ⟨first,by omega,input,?_⟩
  split at ok
  · exact Or.inl ⟨rfl,(Option.some.inj ok).symm⟩
  rename_i fdi s
  simp only [Option.bind_eq_some_iff] at ok
  obtain ⟨second,output,ok⟩ := ok
  refine Or.inr ⟨fdi,s,second,rfl,output,?_⟩
  split at ok
  · exact Or.inl ⟨rfl,(Option.some.inj ok).symm⟩
  · rename_i fdo s'
    exact Or.inr ⟨fdo,s',rfl,(Option.some.inj ok).symm⟩

/- A property of the state that each lookup of a directory entry keeps. -/
def Lookups (D : Drivers σ) (P : Tx σ → Prop) : Prop :=
  ∀ x y dev ino name pid, P x → device x.vfs dev = some pid →
    sendrec D { x with msg := { x.msg with cmd := .getDirentry, w1 := ino, name := name } } pid = some y →
    P { y with msg := x.msg }

theorem vfsGetDirentryKeeps {P : Tx σ → Prop} (keeps : Lookups D P) {dev ino : Int} {name : List Char}
    {kmalloc : Bool} {x : Tx σ} {r : Int × Tx σ} (held : P x)
    (ok : vfsGetDirentry D dev ino name kmalloc x = some r) : P r.2 ∧ r.2.msg = x.msg := by
  unfold vfsGetDirentry at ok
  split at ok
  · simp only [bind,Option.bind_eq_some_iff] at ok
    obtain ⟨pid,there,asked,sent,last⟩ := ok
    cases Option.some.inj last
    exact ⟨keeps x asked dev ino (some name) pid held there sent,rfl⟩
  · cases Option.some.inj ok
    exact ⟨held,rfl⟩

theorem walkDirKeeps {P : Tx σ → Prop} (keeps : Lookups D P) {dev : Int} {kmalloc : Nat → Bool}
    {path word : List Char} {n : Nat} {ino : Int} {x : Tx σ} {r : Int × Tx σ} (held : P x)
    (ok : walkDir D dev kmalloc path word n ino x = some r) : P r.2 ∧ r.2.msg = x.msg := by
  fun_induction walkDir D dev kmalloc path word n ino x with
  | case1 => cases Option.some.inj ok; exact ⟨held,rfl⟩
  | case2 => cases Option.some.inj ok; exact ⟨held,rfl⟩
  | case3 rest word n ino x real ih =>
    simp only [bind,Option.bind_eq_some_iff] at ok
    obtain ⟨⟨next,z⟩,entry,ok⟩ := ok
    obtain ⟨kept,same⟩ := vfsGetDirentryKeeps keeps held entry
    obtain ⟨after,msg⟩ := ih next z kept ok
    exact ⟨after,msg.trans same⟩
  | case4 c rest word n ino x other ih => exact ih held ok

theorem vfsGetDirKeeps {P : Tx σ → Prop} (keeps : Lookups D P) {t : VfsTask} {path : Option (List Char)}
    {kmalloc : Nat → Bool} {x : Tx σ} {r : Int × Int × Tx σ} (held : P x)
    (ok : vfsGetDir D t path kmalloc x = some r) : P r.2.2 ∧ r.2.2.msg = x.msg := by
  unfold vfsGetDir at ok
  split at ok
  · cases Option.some.inj ok; exact ⟨held,rfl⟩
  · cases Option.some.inj ok; exact ⟨held,rfl⟩
  all_goals
    simp only [bind,Option.bind_eq_some_iff] at ok
    obtain ⟨⟨ino,z⟩,walk,last⟩ := ok
    cases Option.some.inj last
    exact walkDirKeeps keeps held walk

theorem vfsGetNodeKeeps {P : Tx σ → Prop} (keeps : Lookups D P) {t : VfsTask} {path : Option (List Char)}
    {kmalloc : Nat → Bool} {x : Tx σ} {r : Int × Int × Tx σ} (held : P x)
    (ok : vfsGetNode D t path kmalloc x = some r) : P r.2.2 ∧ r.2.2.msg = x.msg := by
  simp only [vfsGetNode,bind,Option.bind_eq_some_iff] at ok
  obtain ⟨⟨dev,ino,z⟩,dir,ok⟩ := ok
  obtain ⟨kept,same⟩ := vfsGetDirKeeps keeps held dir
  split at ok
  · cases Option.some.inj ok; exact ⟨kept,same⟩
  split at ok
  · cases Option.some.inj ok; exact ⟨kept,same⟩
  simp only [Option.bind_eq_some_iff] at ok
  obtain ⟨⟨node,w⟩,entry,last⟩ := ok
  cases Option.some.inj last
  obtain ⟨after,msg⟩ := vfsGetDirentryKeeps keeps kept entry
  exact ⟨after,msg.trans same⟩

theorem doMknodCases {P : Tx σ → Prop} (keeps : Lookups D P) {client : Pid} {kmalloc : Nat → Bool}
    {x y : Tx σ} (held : P x) (ok : doMknod D client kmalloc x = some y) :
    ∃ dev dirIno found, P found ∧ found.msg = x.msg ∧
      ((dirIno < 0 ∧ y = reply found (-1)) ∨ ∃ pid made linked, 0 ≤ dirIno ∧
        device found.vfs dev = some pid ∧ sendrec D found pid = some made ∧
        sendrec D { made with msg := { made.msg with
          cmd := .link, name := x.msg.name, w1 := made.msg.w0, w0 := dirIno } } pid = some linked ∧
        ((linked.msg.w1 < 0 ∧ y = reply linked (-1)) ∨
         (0 ≤ linked.msg.w1 ∧ y = reply linked made.msg.w0))) := by
  simp only [doMknod,bind,Option.bind_eq_some_iff] at ok
  obtain ⟨t,-,⟨dev,dirIno,found⟩,dir,ok⟩ := ok
  obtain ⟨kept,same⟩ := vfsGetDirKeeps keeps held dir
  refine ⟨dev,dirIno,found,kept,same,?_⟩
  split at ok
  · rename_i missing
    exact Or.inl ⟨missing,(Option.some.inj ok).symm⟩
  rename_i real
  simp only [Option.bind_eq_some_iff] at ok
  obtain ⟨pid,there,made,asked,linked,joined,ok⟩ := ok
  dsimp only at same
  rw [same] at joined
  refine Or.inr ⟨pid,made,linked,Int.not_lt.mp real,there,asked,joined,?_⟩
  split at ok
  · rename_i refused
    exact Or.inl ⟨refused,(Option.some.inj ok).symm⟩
  · rename_i granted
    exact Or.inr ⟨by omega,(Option.some.inj ok).symm⟩

theorem doStatCases {P : Tx σ → Prop} (keeps : Lookups D P) {client : Pid} {kmalloc : Nat → Bool}
    {x y : Tx σ} (held : P x) (ok : doStat D client kmalloc x = some y) :
    ∃ found a b c, P found ∧ found.msg = x.msg ∧
      y = { found with msg := { found.msg with w0 := a, w1 := b, w2 := c } } := by
  simp only [doStat,bind,Option.bind_eq_some_iff] at ok
  obtain ⟨t,-,⟨dev,ino,found⟩,node,last⟩ := ok
  obtain ⟨kept,same⟩ := vfsGetNodeKeeps keeps held node
  exact ⟨found,_,_,_,kept,same,(Option.some.inj last).symm⟩

end

end Avros.Vfs
