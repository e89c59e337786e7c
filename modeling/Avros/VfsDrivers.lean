import Avros.Vfs
import Avros.MemFile
import Avros.Tty

/-! The drivers of the repository behind VFS: a device is a driver task with its own
state, found by the pid that stands in `devtab`. -/
namespace Avros.Vfs

inductive Device where
  | pipedev (nodes : PdNodes)
  | memfile (nodes : MfNodes)
  | ttyUsart0 (t : Tty)
  deriving DecidableEq, Repr

structure Devices where
  task : Pid → Option Device
  rx : Int

def startDevice : Driver → Device
  | .pipedev => .pipedev pipedevStart
  | .memfile => .memfile memfileStart
  | .ttyUsart0 => .ttyUsart0 ttyStart

def askDevice (rx : Int) (msg : Msg) : Device → Option (Device × List Msg)
  | .pipedev nodes => (pipedev nodes msg).map (fun r => (.pipedev r.1,r.2))
  | .memfile nodes => (memfile nodes msg).map (fun r => (.memfile r.1,r.2))
  | .ttyUsart0 t => (ttyUsart0 rx t msg).map (fun r => (.ttyUsart0 r.1,r.2))

theorem deviceTurn {α : Type} {turn : Option (α × List Msg)} {device : α → Device} {d : Device} {replies : List Msg}
    (ok : turn.map (fun r => (device r.1,r.2)) = some (d,replies)) :
    ∃ after, d = device after ∧ turn = some (after,replies) := by
  obtain ⟨⟨after,out⟩,took,same⟩ := Option.map_eq_some_iff.mp ok
  cases same
  exact ⟨after,rfl,took⟩

def putDevice (s : Devices) (pid : Pid) (d : Device) : Devices :=
  { s with task := Function.update s.task pid (some d) }

def drivers : Drivers Devices where
  start s pid driver := putDevice s pid (startDevice driver)
  ask s pid msg := do
    let d ← s.task pid
    let r ← askDevice s.rx msg d
    some (putDevice s pid r.1,r.2)

-- A request, and what UDR0 holds while it is served.
structure Input where
  request : Request
  rx : Int

def served : Run.Step (System Devices) Input (Event Devices) := fun s i =>
  vfs drivers { s with drv := { s.drv with rx := i.rx } } i.request

def noDevices : Devices := ⟨fun _ => none,0⟩

theorem putSelf (s : Devices) (pid : Pid) (d : Device) : (putDevice s pid d).task pid = some d := Function.update_self _ _ _

theorem putOther (s : Devices) {pid q : Pid} (other : q ≠ pid) (d : Device) : (putDevice s pid d).task q = s.task q :=
  Function.update_of_ne other _ _

theorem askSource {s s' : Devices} {pid : Pid} {msg : Msg} {replies : List Msg}
    (ok : drivers.ask s pid msg = some (s',replies)) :
    ∃ d d', s.task pid = some d ∧ askDevice s.rx msg d = some (d',replies) ∧ s' = putDevice s pid d' := by
  simp only [drivers,bind,Option.bind_eq_some_iff] at ok
  obtain ⟨d,there,⟨d',out⟩,turn,last⟩ := ok
  obtain ⟨rfl,rfl⟩ := Prod.mk.inj (Option.some.inj last)
  exact ⟨d,d',there,turn,rfl⟩

end Avros.Vfs
