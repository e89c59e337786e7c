import Avros.VfsFailures
import Avros.VfsPath

/-! A MKNOD in two messages: MKNOD, and a LINK of what it answered. When memfile's table is
full it answers -1, and the LINK looks at nodes[-1]. -/
namespace Avros.Vfs.Mknod
open Vfs.Path (lookups dirLookups startDev startIno relative)

-- What a lookup finds; none if memfile leaves its table or the node. The other drivers send it back.
def entry (name : List Char) (ino : Int) : Device → Option Int
  | .memfile nodes => do
    match ← nodeAt nodes ino with
    | none => none
    | some node => if node.dir then mfGetDirentry node name else some (-1)
  | _ => some ino

def running (s : System Devices) (dev : Int) : Option Device := (device s.vfs dev).bind s.drv.task

-- One component after the other. A lookup that gets no memory finds nothing.
def directory (dv : Option Device) (kmalloc : Nat → Bool) : List (List Char) → Nat → Int → Option Int
  | [],_,ino => some ino
  | name::rest,n,ino =>
    if ino < 0 then some ino
    else if kmalloc n then do
      let found ← entry name ino (← dv)
      directory dv kmalloc rest (n + 1) found
    else some (-1)

def pathOf (i : Input) : List Char := i.request.msg.name.getD []

def dirPart (s : System Devices) (i : Input) (t : VfsTask) : Option Int :=
  directory (running s (startDev t (pathOf i))) i.request.kmalloc ((relative (pathOf i)).splitOn '/').dropLast 0
    (startIno t (pathOf i))

def Target (s : System Devices) (i : Input) (pid : Pid) (nodes : MfNodes) : Prop :=
  ∃ t ino, vfsFindbypid s.vfs i.request.client = some t ∧ pathOf i ≠ [] ∧ dirPart s i t = some ino ∧ 0 ≤ ino ∧
    device s.vfs (startDev t (pathOf i)) = some pid ∧ s.drv.task pid = some (.memfile nodes)

section
variable {s : System Devices} {i : Input} {x y z : Tx Devices} {dev ino : Int} {name : List Char} {pid : Pid}
  {kmalloc : Nat → Bool} {names : List (List Char)} {t : VfsTask} {nodes : MfNodes} {dv : Device}

structure Same (s : System Devices) (x : Tx Devices) : Prop where
  vfs : x.vfs = s.vfs
  task : x.drv.task = s.drv.task

theorem Same.put (same : Same s x) (there : s.drv.task pid = some dv) (vfs : z.vfs = s.vfs)
    (drv : z.drv = putDevice x.drv pid dv) : Same s z := by
  have old : x.drv.task pid = some dv := by rw [same.task,there]
  exact ⟨vfs,by rw [drv,putSame old,same.task]⟩

-- do_mknod behind the walk.
def create (dev dirIno : Int) (x : Tx Devices) : Option (Tx Devices) := do
  let pid ← device x.vfs dev
  let made ← sendrec drivers x pid
  let linked ← sendrec drivers { made with msg := { made.msg with
    cmd := .link, name := x.msg.name, w1 := made.msg.w0, w0 := dirIno } } pid
  if linked.msg.w1 < 0 then some (reply linked (-1)) else some (reply linked made.msg.w0)

theorem Target.reached (target : Target s i pid nodes) (found : vfsFindbypid s.vfs i.request.client = some t) :
    pathOf i ≠ [] ∧ (∃ ino, dirPart s i t = some ino ∧ 0 ≤ ino) ∧
      device s.vfs (startDev t (pathOf i)) = some pid ∧ s.drv.task pid = some (.memfile nodes) := by
  obtain ⟨u,ino,known,some_,part,real,there,task⟩ := target
  cases Option.some.inj (known.symm.trans found)
  exact ⟨some_,⟨ino,part,real⟩,there,task⟩

theorem Target.runs (target : Target s i pid nodes) (found : vfsFindbypid s.vfs i.request.client = some t)
    (runs : running s (startDev t (pathOf i)) = some dv) : dv = .memfile nodes := by
  obtain ⟨-,-,there,task⟩ := target.reached found
  rw [running,there,Option.bind_some,task] at runs
  exact (Option.some.inj runs).symm

end

end Avros.Vfs.Mknod
