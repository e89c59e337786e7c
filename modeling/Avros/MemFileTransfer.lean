import Avros.PipeFifo
import Avros.VfsLifetimes

/-! A file of memfile read and written through VFS, a byte a request. VFS keeps the
position in the entry of `filp` and memfile the bytes and the size: WRITEC stores at the
position and makes the size one more, READC reads there, and the answer says how far to
move on. Between two requests of a client anything may happen that leaves alone where its
descriptor leads and what the file holds. -/
namespace Avros.Vfs

def position (s : Tables) (client : Pid) (fd : Nat) : Option (Int × Int × Int) := do
  let t ← vfsFindbypid s client
  let fp ← descriptor t fd
  if fp < 0 then none else do
    let f ← s.filp[fp.toNat]?
    some (f.dev,f.ino,f.pos)

def fileOf (s : System Devices) (dev ino : Int) : Option (List Int × Int) := do
  let pid ← device s.vfs dev
  match ← s.drv.task pid with
  | .memfile nodes => do
    let node ← ← nodeAt nodes ino
    some (node.file,node.size)
  | _ => none

theorem positionEntry {s : Tables} {client : Pid} {fd : Nat} {dev ino pos : Int}
    (at_ : position s client fd = some (dev,ino,pos)) :
    ∃ t fp f, vfsFindbypid s client = some t ∧ descriptor t fd = some fp ∧ 0 ≤ fp ∧
      s.filp[fp.toNat]? = some f ∧ f.dev = dev ∧ f.ino = ino ∧ f.pos = pos := by
  simp only [position,bind,Option.bind_eq_some_iff] at at_
  obtain ⟨t,found,fp,held,at_⟩ := at_
  split at at_ <;> try contradiction
  rename_i real
  simp only [Option.bind_eq_some_iff] at at_
  obtain ⟨f,entry,last⟩ := at_
  cases Option.some.inj last
  exact ⟨t,fp,f,found,held,Int.not_lt.mp real,entry,rfl,rfl,rfl⟩

theorem fileNode {s : System Devices} {dev ino size : Int} {file : List Int} (there : fileOf s dev ino = some (file,size)) :
    ∃ pid nodes node, device s.vfs dev = some pid ∧ s.drv.task pid = some (.memfile nodes) ∧
      nodeAt nodes ino = some (some node) ∧ node.file = file ∧ node.size = size := by
  simp only [fileOf,bind,Option.bind_eq_some_iff] at there
  obtain ⟨pid,registered,dv,task,there⟩ := there
  split at there <;> try contradiction
  rename_i nodes
  simp only [Option.bind_eq_some_iff] at there
  obtain ⟨entry,found,node,rfl,last⟩ := there
  cases Option.some.inj last
  exact ⟨pid,nodes,node,registered,task,found,rfl,rfl⟩

theorem fileOfNode {s : System Devices} {dev ino : Int} {pid : Pid} {nodes : MfNodes} {node : MfNode}
    (there : device s.vfs dev = some pid) (task : s.drv.task pid = some (.memfile nodes))
    (found : nodeAt nodes ino = some (some node)) : fileOf s dev ino = some (node.file,node.size) := by
  simp only [fileOf,there,task,found,bind,Option.bind_some]

theorem nodeAtSelf {α : Type} {nodes : List (Option α)} {ino : Int} {old new : Option α}
    (found : nodeAt nodes ino = some old) : nodeAt (nodes.set ino.toNat new) ino = some new := by
  obtain ⟨i,rfl,named,there⟩ := nodeAtIndex found
  rw [named,nodeAtNat]
  exact List.getElem?_set_self (List.getElem?_eq_some_iff.mp there).1

section
variable {s s' : System Devices} {i : Input} {client : Pid} {fd : Nat} {dev ino pos size : Int} {file : List Int}

structure Asks (i : Input) (client : Pid) (fd : Nat) (cmd : Cmd) (data : Int) : Prop where
  client : i.request.client = client
  cmd : i.request.msg.cmd = cmd
  fd : i.request.msg.w0 = fd
  data : i.request.msg.w2 = data

/- What a request answers, where it leaves the descriptor and what it leaves in the file. -/
structure Outcome (s' : System Devices) (out : List (Event Devices)) (client : Pid) (fd : Nat) (dev ino : Int)
    (data pos : Int) (file : List Int) (size : Int) : Prop where
  told : sends out = [(client,data)]
  position : position s'.vfs client fd = some (dev,ino,pos)
  file : fileOf s' dev ino = some (file,size)

theorem rwServed {call : Cmd} {data : Int} {pid : Pid} {nodes after : MfNodes} {node : MfNode}
    (kind : call = .readc ∨ call = .writec) (real : client ≠ 0) (asks : Asks i client fd call data)
    (at_ : Vfs.position s.vfs client fd = some (dev,ino,pos)) (there : device s.vfs dev = some pid)
    (task : s.drv.task pid = some (.memfile nodes)) {told bytes : Int}
    (turn : memfile nodes { i.request.msg with client := client, w0 := ino, w1 := pos } =
      some (after,[{ i.request.msg with client := client, w0 := ino, w1 := bytes, w2 := told }]))
    (found : nodeAt after ino = some (some node)) :
    ∃ s' out, served s i = some (s',out) ∧ Outcome s' out client fd dev ino told (pos + bytes) node.file node.size := by
  obtain ⟨t,fp,f,known,held,index,entry,rfl,rfl,rfl⟩ := positionEntry at_
  have named : i.request.msg.w0.toNat = fd := by rw [asks.fd,Int.toNat_natCast]
  have given : ¬ i.request.msg.w0 < 0 := by rw [asks.fd]; exact Int.not_lt.mpr (Int.natCast_nonneg fd)
  have plain : ¬ i.request.msg.cmd = .repeat_ := by rw [asks.cmd]; rcases kind with h | h <;> simp [h]
  have answers : i.request.msg.cmd ≠ .hold := by rw [asks.cmd]; rcases kind with h | h <;> simp [h]
  have passed : doRw drivers client ⟨s.vfs,{ s.drv with rx := i.rx },{ i.request.msg with client := client },[]⟩ =
      some ⟨putFilp s.vfs fp.toNat { f with pos := f.pos + bytes },
        putDevice { s.drv with rx := i.rx } pid (.memfile after),
        { i.request.msg with client := client, w0 := f.ino, w1 := bytes, w2 := told },
        [.asked { s.drv with rx := i.rx } pid { i.request.msg with client := client, w0 := f.ino, w1 := f.pos }]⟩ := by
    have asked : drivers.ask { s.drv with rx := i.rx } pid { i.request.msg with client := client, w0 := f.ino, w1 := f.pos } =
        some (putDevice { s.drv with rx := i.rx } pid (.memfile after),
          [{ i.request.msg with client := client, w0 := f.ino, w1 := bytes, w2 := told }]) := by
      simp only [drivers,task,bind,Option.bind_some,askDevice,turn,Option.map_some]
    simp only [doRw,if_neg given,named,known,held,if_neg (Int.not_lt.mpr index),entry,there,bind,Option.bind_some,
      sendrecRepeat,asked,repeatLoop,if_neg plain,if_true,withVfs,List.nil_append]
  have ran : process drivers i.request (received s i) =
      doRw drivers client ⟨s.vfs,{ s.drv with rx := i.rx },{ i.request.msg with client := client },[]⟩ := by
    have call := asks.cmd
    rcases kind with rfl | rfl <;> simp only [process,call,asks.client,received]
  have receiver : ∀ x : Tx Devices, answered i.request x = client := by
    intro x
    rw [answeredClient (by rw [asks.cmd]; rcases kind with rfl | rfl <;> simp),asks.client]
  refine ⟨_,_,servedProcess (ran.trans passed),?_,?_,?_⟩
  · simp [finish,receiver,answers,real,sends]
  · have slot : (putFilp s.vfs fp.toNat { f with pos := f.pos + bytes }).filp[fp.toNat]? =
        some { f with pos := f.pos + bytes } :=
      List.getElem?_set_self (List.getElem?_eq_some_iff.mp entry).1
    have same : vfsFindbypid (putFilp s.vfs fp.toNat { f with pos := f.pos + bytes }) client = some t := known
    simp only [Vfs.position,same,held,if_neg (Int.not_lt.mpr index),slot,bind,Option.bind_some]
  · exact fileOfNode (s := ⟨putFilp s.vfs fp.toNat { f with pos := f.pos + bytes },
      putDevice { s.drv with rx := i.rx } pid (.memfile after)⟩) there (putSelf _ pid _) found

section
variable {b : Int} (real : client ≠ 0) (asks : Asks i client fd .writec b)
  (at_ : Vfs.position s.vfs client fd = some (dev,ino,pos)) (there : fileOf s dev ino = some (file,size))
include real asks at_ there

theorem writeServed (low : 0 ≤ pos) (room : pos < 127) : ∃ s' out, served s i = some (s',out) ∧
    Outcome s' out client fd dev ino b (pos + 1) (file.set pos.toNat (toChar b)) (pos + 1) := by
  obtain ⟨pid,nodes,node,registered,task,found,rfl,rfl⟩ := fileNode there
  have data := asks.data
  have turn : memfile nodes { i.request.msg with client := client, w0 := ino, w1 := pos } =
      some (nodes.set ino.toNat (some { node with file := node.file.set pos.toNat (toChar b), size := pos + 1 }),
        [{ i.request.msg with client := client, w0 := ino, w1 := 1, w2 := b }]) := by
    simp only [memfile,asks.cmd,ge_iff_le,if_neg (Int.not_le.mpr room),found,if_neg (Int.not_lt.mpr low),bind,
      Option.bind_some,data]
  exact rwServed (.inr rfl) real asks at_ registered task turn (nodeAtSelf found)

theorem writeRefused (full : 127 ≤ pos) : ∃ s' out, served s i = some (s',out) ∧
    Outcome s' out client fd dev ino eof pos file size := by
  obtain ⟨pid,nodes,node,registered,task,found,rfl,rfl⟩ := fileNode there
  have turn : memfile nodes { i.request.msg with client := client, w0 := ino, w1 := pos } =
      some (nodes,[{ i.request.msg with client := client, w0 := ino, w1 := 0, w2 := eof }]) := by
    simp only [memfile,asks.cmd,ge_iff_le,if_pos full]
  have answer := rwServed (.inr rfl) real asks at_ registered task turn found
  rwa [Int.add_zero] at answer

end

section
variable {b : Int} (real : client ≠ 0) (asks : Asks i client fd .readc b)
  (at_ : Vfs.position s.vfs client fd = some (dev,ino,pos)) (there : fileOf s dev ino = some (file,size))
include real asks at_ there

theorem readServed (low : 0 ≤ pos) (inside : pos < 127 ∧ pos < size) : ∃ s' out, served s i = some (s',out) ∧
    Outcome s' out client fd dev ino (file.getD pos.toNat 0) (pos + 1) file size := by
  obtain ⟨pid,nodes,node,registered,task,found,rfl,rfl⟩ := fileNode there
  have turn : memfile nodes { i.request.msg with client := client, w0 := ino, w1 := pos } =
      some (nodes,[{ i.request.msg with client := client, w0 := ino, w1 := 1, w2 := node.file.getD pos.toNat 0 }]) := by
    simp only [memfile,asks.cmd,ge_iff_le,if_neg (Int.not_le.mpr inside.1),found,if_neg (Int.not_le.mpr inside.2),
      if_neg (Int.not_lt.mpr low),bind,Option.bind_some]
  exact rwServed (.inl rfl) real asks at_ registered task turn found

theorem readEnded (ended : 127 ≤ pos ∨ size ≤ pos) : ∃ s' out, served s i = some (s',out) ∧
    Outcome s' out client fd dev ino eof pos file size := by
  obtain ⟨pid,nodes,node,registered,task,found,rfl,rfl⟩ := fileNode there
  have turn : memfile nodes { i.request.msg with client := client, w0 := ino, w1 := pos } =
      some (nodes,[{ i.request.msg with client := client, w0 := ino, w1 := 0, w2 := eof }]) := by
    by_cases full : 127 ≤ pos
    · simp only [memfile,asks.cmd,ge_iff_le,if_pos full]
    · have short : node.size ≤ pos := by omega
      simp only [memfile,asks.cmd,ge_iff_le,if_neg full,found,if_pos short,bind,Option.bind_some]
  have answer := rwServed (.inl rfl) real asks at_ registered task turn found
  rwa [Int.add_zero] at answer

end

end

def grants (out : List (Event Devices)) : List (Pid × Int) :=
  out.filterMap (fun e => match e with
    | .sent client m => some (client,m.w0)
    | .asked _ _ _ => none)

-- `int fd[MAX_FD]`
def Sized (s : System Devices) : Prop := ∀ t ∈ s.vfs.taskQ, t.fd.length = maxFd

structure Opens (i : Input) (client : Pid) (dev ino : Int) : Prop where
  client : i.request.client = client
  cmd : i.request.msg.cmd = .open_
  dev : i.request.msg.w0 = dev
  ino : i.request.msg.w1 = ino

theorem openedPosition {s : Tables} {client : Pid} {t : VfsTask} {fd fp : Nat} {f : Filp}
    (known : vfsFindbypid s client = some t) (wide : t.fd.length = maxFd) (inside : fd < maxFd)
    (entry : s.filp[fp]? = some f) (g : Filp) :
    position (putFd (incRef (putFilp s fp g) fp) client fd fp) client fd = some (g.dev,g.ino,g.pos) := by
  have named : vfsFindbypid (putFd (incRef (putFilp s fp g) fp) client fd fp) client = some (setDescriptor fd fp t) :=
    putFdFind fd fp known
  have held : descriptor (setDescriptor fd fp t) fd = some (fp : Int) := by
    have width : (setDescriptor fd fp t).fd.length = maxFd := by rw [setDescriptorFd inside,List.length_set,wide]
    rw [descriptorInside width inside,setDescriptorFd inside,List.getElem?_set_self (by omega)]
  have counted : (incRef (putFilp s fp g) fp).filp[fp]? = some { g with refcnt := toChar (g.refcnt + 1) } := by
    have first : (putFilp s fp g).filp[fp]? = some g := List.getElem?_set_self (List.getElem?_eq_some_iff.mp entry).1
    simp only [incRef,List.getElem?_modify_eq,first,Option.map_eq_map,Option.map_some]
  have kept : (putFd (incRef (putFilp s fp g) fp) client fd fp).filp[((fp : Nat) : Int).toNat]? =
      some { g with refcnt := toChar (g.refcnt + 1) } := counted
  simp only [position,named,held,kept,bind,Option.bind_some]
  rw [if_neg (Int.not_lt.mpr (Int.natCast_nonneg fp))]

theorem openServed {s s' : System Devices} {i : Input} {out : List (Event Devices)} {client : Pid} {fd : Nat}
    {dev ino size : Int} {file : List Int} (sized : Sized s) (opens : Opens i client dev ino)
    (there : fileOf s dev ino = some (file,size)) (taken : served s i = some (s',out))
    (granted : grants out = [(client,(fd : Int))]) :
    position s'.vfs client fd = some (dev,ino,0) ∧ fileOf s' dev ino = some (file,size) := by
  obtain ⟨pid,nodes,node,registered,task,found,rfl,rfl⟩ := fileNode there
  obtain ⟨y,processed,rfl,rfl⟩ := servedSource taken
  have ran : doOpen drivers client ⟨s.vfs,{ s.drv with rx := i.rx },i.request.msg,[]⟩ = some y := by
    simpa only [process,opens.cmd,opens.client,received] using processed
  -- Nobody else is told a descriptor, so the answer is the message's own.
  have own : (∀ e ∈ y.log, ∀ c m, e ≠ .sent c m) → y.msg.w0 = fd := by
    intro silent
    have none : grants y.log = [] := by
      refine List.filterMap_eq_nil_iff.mpr ?_
      intro e member
      cases e with
      | asked => rfl
      | sent c m => exact absurd rfl (silent _ member c m)
    unfold finish at granted
    split at granted
    · unfold grants at granted none
      rw [List.filterMap_append,none] at granted
      exact (Prod.mk.inj (List.cons.inj granted).1).2
    · rw [none] at granted
      contradiction
  rcases doOpenCases ran with rfl | ⟨t,free,fp,f,p,z,known,slot,empty,entry,p_,asked,outcome⟩
  · have negative := own (by simp [reply])
    simp only [reply] at negative
    omega
  dsimp only at known p_
  rw [opens.dev,registered] at p_
  cases Option.some.inj p_
  obtain ⟨drv,m,turn,rfl⟩ := sendrecSource asked
  obtain ⟨d,d',running,answer,rfl⟩ := askSource turn
  dsimp only at running
  rw [task] at running
  cases Option.some.inj running
  simp only [askDevice,memfile,opens.ino,found,bind,Option.bind_some,Option.map_some,Option.some.injEq,
    Prod.mk.injEq] at answer
  obtain ⟨rfl,-⟩ := answer
  have file : ∀ tables : Tables, device tables dev = some pid → fileOf ⟨tables,putDevice { s.drv with rx := i.rx } pid
      (.memfile (nodes.set ino.toNat (some { node with refcnt := toChar (node.refcnt + 1) })))⟩ dev ino =
        some (node.file,node.size) := by
    intro tables there
    have counted : nodeAt (nodes.set ino.toNat (some { node with refcnt := toChar (node.refcnt + 1) })) ino =
        some (some { node with refcnt := toChar (node.refcnt + 1) }) := nodeAtSelf found
    have file := fileOfNode (s := ⟨tables,_⟩) there (putSelf { s.drv with rx := i.rx } pid _)
      counted
    exact file
  rcases outcome with ⟨-,rfl⟩ | ⟨-,rfl⟩
  · have negative := own (by simp [reply])
    simp only [reply] at negative
    omega
  have given : (free : Int) = fd := own (by simp [reply,withVfs])
  obtain rfl : free = fd := Int.ofNat.inj given
  have wide := sized t (foundMember known).1
  have inside := (emptyFd slot wide).1
  have at_ := openedPosition known wide inside entry
    { f with dev := i.request.msg.w0, ino := i.request.msg.w1, pos := 0 }
  exact ⟨at_.trans (by rw [opens.dev,opens.ino]),file _ registered⟩

structure Moved where
  data : Int
  told : List (Pid × Int)
  after : Option (Int × Int × Int)

/- The requests of a client for one of its descriptors. Before each of them the system may
do anything that leaves alone where the descriptor leads and what the file holds. -/
inductive Transcript (cmd : Cmd) (client : Pid) (fd : Nat) (dev ino : Int) :
    System Devices → List Moved → System Devices → Prop where
  | done (s : System Devices) : Transcript cmd client fd dev ino s [] s
  | next {s u v s' : System Devices} {i : Input} {out : List (Event Devices)} {data : Int} {rest : List Moved}
      (leads : position u.vfs client fd = position s.vfs client fd) (holds : fileOf u dev ino = fileOf s dev ino)
      (asks : Asks i client fd cmd data) (taken : served u i = some (v,out))
      (others : Transcript cmd client fd dev ino v rest s') :
      Transcript cmd client fd dev ino s (⟨data,sends out,position v.vfs client fd⟩::rest) s'

theorem Transcript.right {cmd : Cmd} {client : Pid} {fd : Nat} {dev ino : Int} {s v s' : System Devices}
    {out : List (Event Devices)} {rest : List Moved} (data : Int)
    (taken : served s (demoInput client (demoMsg cmd fd 0 data)) = some (v,out))
    (others : Transcript cmd client fd dev ino v rest s') :
    Transcript cmd client fd dev ino s (⟨data,sends out,position v.vfs client fd⟩::rest) s' :=
  .next rfl rfl ⟨rfl,rfl,rfl,rfl⟩ taken others

theorem setBytesBelow {file : List Int} {n k : Nat} (bytes : List Int) (below : k < n) :
    (setBytes file n bytes)[k]? = file[k]? := by
  induction bytes generalizing file n with
  | nil => rfl
  | cons b rest ih => rw [setBytes,ih (by omega),List.getElem?_set_ne (by omega)]

theorem setBytesInside {file bytes : List Int} {n k : Nat} (fit : n + bytes.length ≤ file.length) (inside : k < bytes.length) :
    (setBytes file n bytes)[n + k]? = bytes[k]? := by
  induction bytes generalizing file n k with
  | nil => contradiction
  | cons b rest ih =>
    rw [List.length_cons] at fit inside
    rw [setBytes]
    cases k with
    | zero =>
      have before : n + 0 < n + 1 := by omega
      rw [setBytesBelow rest before,Nat.add_zero]
      exact List.getElem?_set_self (by omega)
    | succ k =>
      have step : n + (k + 1) = n + 1 + k := by omega
      rw [step,ih (by rw [List.length_set]; omega) (by omega)]
      rfl

section
variable {s s' : System Devices} {client : Pid} {fd : Nat} {dev ino size : Int} {file : List Int} {moved : List Moved}

def fits (n : Nat) (moved : List Moved) : List Int := ((moved.map Moved.data).take (127 - n)).map toChar

theorem Transcript.written {n : Nat} (run : Transcript .writec client fd dev ino s moved s') (real : client ≠ 0)
    (at_ : position s.vfs client fd = some (dev,ino,(n : Int))) (there : fileOf s dev ino = some (file,size))
    (below : n ≤ 127) (grown : n ≠ 0 → size = n) :
    (∀ (k : Nat) e, moved[k]? = some e → e.told = [(client,if n + k < 127 then e.data else eof)] ∧
      e.after = some (dev,ino,((min (n + k + 1) 127 : Nat) : Int))) ∧
    position s'.vfs client fd = some (dev,ino,((min (n + moved.length) 127 : Nat) : Int)) ∧
    fileOf s' dev ino = some (setBytes file n (fits n moved),
      if moved = [] then size else ((min (n + moved.length) 127 : Nat) : Int)) := by
  induction run generalizing n file size with
  | done s =>
    refine ⟨by simp,?_,?_⟩
    · simpa [Nat.min_eq_left below] using at_
    · simpa [fits,setBytes] using there
  | @next s u v s' i out data rest leads holds asks taken others ih =>
    rw [← leads] at at_
    rw [← holds] at there
    by_cases room : n < 127
    · obtain ⟨v',out',step,outcome⟩ := writeServed real asks at_ there (Int.natCast_nonneg n) (by omega)
      obtain ⟨rfl,rfl⟩ := Prod.mk.inj (Option.some.inj (taken.symm.trans step))
      have told := outcome.told
      have after := outcome.position
      have stored := outcome.file
      have one : (n : Int) + 1 = ((n + 1 : Nat) : Int) := by omega
      rw [one] at after stored
      obtain ⟨each,last,end_⟩ := ih after stored (by omega) (fun _ => rfl)
      have more : min (n + (rest.length + 1)) 127 = min (n + 1 + rest.length) 127 := by omega
      refine ⟨?_,?_,?_⟩
      · intro k e entry
        cases k with
        | zero =>
          cases Option.some.inj entry
          refine ⟨by simpa [room] using told,?_⟩
          rw [after,Nat.add_zero,Nat.min_eq_left (by omega)]
        | succ k =>
          have later := each k e entry
          have step : n + (k + 1) = n + 1 + k := by omega
          rwa [step]
      · rw [last,List.length_cons,more]
      · have head : fits n (⟨data,sends out,position v.vfs client fd⟩::rest) = toChar data::fits (n + 1) rest := by
          have left : 127 - n = (127 - (n + 1)) + 1 := by omega
          simp [fits,left]
        rw [end_,head,setBytes,Int.toNat_natCast,if_neg (List.cons_ne_nil _ _),List.length_cons,more]
        congr 2
        split
        · rename_i empty
          rw [empty,List.length_nil,Nat.add_zero,Nat.min_eq_left (by omega)]
        · rfl
    · obtain rfl : n = 127 := by omega
      obtain ⟨v',out',step,outcome⟩ := writeRefused real asks at_ there (by decide)
      obtain ⟨rfl,rfl⟩ := Prod.mk.inj (Option.some.inj (taken.symm.trans step))
      have told := outcome.told
      have after := outcome.position
      obtain ⟨each,last,end_⟩ := ih after outcome.file (Nat.le_refl _) grown
      have full : ∀ k, min (127 + k) 127 = 127 := fun k => by omega
      refine ⟨?_,?_,?_⟩
      · intro k e entry
        cases k with
        | zero =>
          cases Option.some.inj entry
          exact ⟨by simpa using told,after⟩
        | succ k =>
          have later := each k e entry
          have step : ¬ 127 + (k + 1) < 127 := by omega
          rw [if_neg step]
          rw [if_neg (by omega : ¬ 127 + k < 127),Nat.add_assoc,full] at later
          rwa [Nat.add_assoc,full]
      · rw [last,full,full]
      · rw [end_,full,full,if_neg (List.cons_ne_nil _ _)]
        have none : ∀ l, fits 127 l = [] := fun l => by simp [fits]
        rw [none,none,grown (by decide)]
        split <;> rfl

theorem Transcript.read {n top : Nat} (run : Transcript .readc client fd dev ino s moved s') (real : client ≠ 0)
    (at_ : position s.vfs client fd = some (dev,ino,(n : Int))) (there : fileOf s dev ino = some (file,(top : Int)))
    (few : top ≤ 127) (below : n ≤ top) :
    (∀ (k : Nat) e, moved[k]? = some e → e.told = [(client,if n + k < top then file.getD (n + k) 0 else eof)] ∧
      e.after = some (dev,ino,((min (n + k + 1) top : Nat) : Int))) ∧
    position s'.vfs client fd = some (dev,ino,((min (n + moved.length) top : Nat) : Int)) ∧
    fileOf s' dev ino = some (file,(top : Int)) := by
  induction run generalizing n with
  | done s =>
    refine ⟨by simp,?_,there⟩
    simpa [Nat.min_eq_left below] using at_
  | @next s u v s' i out data rest leads holds asks taken others ih =>
    rw [← leads] at at_
    rw [← holds] at there
    by_cases inside : n < top
    · obtain ⟨v',out',step,outcome⟩ := readServed real asks at_ there (Int.natCast_nonneg n) (by omega)
      obtain ⟨rfl,rfl⟩ := Prod.mk.inj (Option.some.inj (taken.symm.trans step))
      have told := outcome.told
      have after := outcome.position
      have one : (n : Int) + 1 = ((n + 1 : Nat) : Int) := by omega
      rw [one] at after
      obtain ⟨each,last,end_⟩ := ih after outcome.file (by omega)
      refine ⟨?_,?_,end_⟩
      · intro k e entry
        cases k with
        | zero =>
          cases Option.some.inj entry
          refine ⟨by simpa [inside] using told,?_⟩
          rw [after,Nat.add_zero,Nat.min_eq_left (by omega)]
        | succ k =>
          have later := each k e entry
          have step : n + (k + 1) = n + 1 + k := by omega
          rwa [step]
      · have more : min (n + (rest.length + 1)) top = min (n + 1 + rest.length) top := by omega
        rw [last,List.length_cons,more]
    · obtain rfl : n = top := by omega
      obtain ⟨v',out',step,outcome⟩ := readEnded real asks at_ there (.inr (Int.le_refl _))
      obtain ⟨rfl,rfl⟩ := Prod.mk.inj (Option.some.inj (taken.symm.trans step))
      have told := outcome.told
      have after := outcome.position
      obtain ⟨each,last,end_⟩ := ih after outcome.file (Nat.le_refl _)
      have full : ∀ k, min (n + k) n = n := fun k => by omega
      refine ⟨?_,?_,end_⟩
      · intro k e entry
        cases k with
        | zero =>
          cases Option.some.inj entry
          refine ⟨by simpa using told,?_⟩
          rw [after,Nat.add_assoc,full]
        | succ k =>
          have later := each k e entry
          rw [if_neg (by omega : ¬ n + (k + 1) < n)]
          rw [if_neg (by omega : ¬ n + k < n),Nat.add_assoc,full] at later
          rwa [Nat.add_assoc,full]
      · rw [last,full,full]

theorem transferServed {i : Input} {cmd : Cmd} {data : Int} {n top : Nat} (kind : cmd = .readc ∨ cmd = .writec)
    (real : client ≠ 0) (asks : Asks i client fd cmd data)
    (at_ : position s.vfs client fd = some (dev,ino,(n : Int))) (there : fileOf s dev ino = some (file,(top : Int))) :
    ∃ s' out, served s i = some (s',out) := by
  rcases kind with rfl | rfl
  · by_cases inside : n < 127 ∧ n < top
    · obtain ⟨s',out,step,-⟩ := readServed real asks at_ there (Int.natCast_nonneg n) (by omega)
      exact ⟨s',out,step⟩
    · obtain ⟨s',out,step,-⟩ := readEnded real asks at_ there (by omega)
      exact ⟨s',out,step⟩
  · by_cases room : n < 127
    · obtain ⟨s',out,step,-⟩ := writeServed real asks at_ there (Int.natCast_nonneg n) (by omega)
      exact ⟨s',out,step⟩
    · obtain ⟨s',out,step,-⟩ := writeRefused real asks at_ there (by omega)
      exact ⟨s',out,step⟩

end

def readBack (bytes : List Int) (k : Nat) : Int :=
  match (bytes.take 127)[k]? with
  | some b => toChar b
  | none => eof

/-- Open, write, open again and read. `a` to `e` are the states after the first OPEN, after
the writes, before and after the second OPEN, and after the reads. -/
theorem memoryFileRoundTrip {s a b c d e : System Devices} {i j : Input} {out out' : List (Event Devices)}
    {writer reader : Pid} {fdw fdr : Nat} {dev ino size : Int} {file : List Int} {writes reads : List Moved}
    (plain : fileOf s dev ino = some (file,size)) (array : file.length = mfMaxEntries * mfEntrySize)
    (clients : writer ≠ 0 ∧ reader ≠ 0) (sized : Sized s ∧ Sized c)
    (first : Opens i writer dev ino ∧ served s i = some (a,out) ∧ grants out = [(writer,(fdw : Int))])
    (write : Transcript .writec writer fdw dev ino a writes b) (some_ : writes ≠ [])
    (kept : fileOf c dev ino = fileOf b dev ino)
    (again : Opens j reader dev ino ∧ served c j = some (d,out') ∧ grants out' = [(reader,(fdr : Int))])
    (read : Transcript .readc reader fdr dev ino d reads e) :
    (∀ (k : Nat) w, writes[k]? = some w → w.told = [(writer,if k < 127 then w.data else eof)] ∧
      w.after = some (dev,ino,((min (k + 1) 127 : Nat) : Int))) ∧
    (∀ (k : Nat) r, reads[k]? = some r → r.told = [(reader,readBack (writes.map Moved.data) k)] ∧
      r.after = some (dev,ino,((min (k + 1) (min writes.length 127) : Nat) : Int))) ∧
    (∀ l data, Asks l writer fdw .writec data → ∃ b' told, served b l = some (b',told)) ∧
    ∀ l data, Asks l reader fdr .readc data → ∃ e' told, served e l = some (e',told) := by
  obtain ⟨opens,opened,granted⟩ := first
  obtain ⟨at_,there⟩ := openServed sized.1 opens plain opened granted
  obtain ⟨written,stands,stored⟩ := write.written (n := 0) clients.1 at_ there (by decide) (fun h => absurd rfl h)
  rw [if_neg some_] at stored
  obtain ⟨opens',opened',granted'⟩ := again
  obtain ⟨at',there'⟩ := openServed sized.2 opens' (kept.trans stored) opened' granted'
  obtain ⟨got,ends,still⟩ := read.read (n := 0) clients.2 at' there' (by omega) (Nat.zero_le _)
  simp only [Nat.zero_add] at written got stands stored ends still
  refine ⟨written,?_,?_,?_⟩
  · intro k r entry
    obtain ⟨told,after⟩ := got k r entry
    refine ⟨?_,after⟩
    rw [told]
    have taken : (fits 0 writes).length = min writes.length 127 := by simp [fits,Nat.min_comm]
    congr 2
    unfold readBack
    by_cases inside : k < min writes.length 127
    · have bytes : (setBytes file 0 (fits 0 writes))[0 + k]? = (fits 0 writes)[k]? := by
        refine setBytesInside ?_ (by omega)
        rw [taken,array,mfMaxEntries,mfEntrySize]
        omega
      rw [Nat.zero_add] at bytes
      rw [if_pos inside,List.getD_eq_getElem?_getD,bytes]
      have shown : (fits 0 writes)[k]? = (((writes.map Moved.data).take 127)[k]?).map toChar := by
        simp only [fits,Nat.sub_zero,List.getElem?_map]
      rw [shown]
      cases at_k : ((writes.map Moved.data).take 127)[k]? with
      | some b => rfl
      | none =>
        rw [List.getElem?_eq_none_iff,List.length_take,List.length_map] at at_k
        omega
    · have beyond : ((writes.map Moved.data).take 127)[k]? = none := by
        rw [List.getElem?_eq_none_iff,List.length_take,List.length_map]
        omega
      rw [if_neg inside,beyond]
  · intro l data asks
    exact transferServed (.inr rfl) clients.1 asks stands stored
  · intro l data asks
    exact transferServed (.inl rfl) clients.2 asks ends still

-- memfile is device 1, and its node 1 a file that nobody has opened.
def demoDisk : System Devices :=
  ⟨⟨[1,2,0,0,0,0],0,List.replicate maxFilp ⟨0,0,0,0⟩,[⟨0x10,List.replicate maxFd (-1),1,0,1,0⟩],0⟩,
    putDevice noDevices 2 (.memfile (memfileStart.set 1 (some (mfNewNode false))))⟩

-- Two bytes, the first of them above 127, and three reads.
theorem memoryFileRoundTripOfTwo : ∃ d reads e, Transcript .readc 0x10 1 1 1 d reads e ∧ reads.length = 3 ∧
    ∀ (k : Nat) r, reads[k]? = some r → r.told = [(0x10,readBack [200,65] k)] := by
  have script : ∃ a out, served demoDisk (demoInput 0x10 (demoMsg .open_ 1 1 0)) = some (a,out) ∧
      grants out = [(0x10,0)] ∧ ∃ writes b, Transcript .writec 0x10 0 1 1 a writes b ∧
        writes.map Moved.data = [200,65] ∧ Sized b ∧
        ∃ d out, served b (demoInput 0x10 (demoMsg .open_ 1 1 0)) = some (d,out) ∧ grants out = [(0x10,1)] ∧
        ∃ reads e, Transcript .readc 0x10 1 1 1 d reads e ∧ reads.length = 3 := by
    refine ⟨_,_,rfl,rfl,_,_,.right 200 rfl (.right 65 rfl (.done _)),rfl,?_,_,_,rfl,rfl,_,_,
      .right 0 rfl (.right 0 rfl (.right 0 rfl (.done _))),rfl⟩
    exact (by decide : ∀ t ∈ [(⟨0x10,[0,-1,-1,-1,-1,-1,-1,-1],1,0,1,0⟩ : VfsTask)], t.fd.length = maxFd)
  obtain ⟨a,out,first,granted,writes,b,write,data,sized,d,out',second,again,reads,e,read,three⟩ := script
  refine ⟨d,reads,e,read,three,?_⟩
  intro k r entry
  rw [← data]
  have plain : fileOf demoDisk 1 1 = some (List.replicate (mfMaxEntries * mfEntrySize) 0,0) := rfl
  exact ((memoryFileRoundTrip plain List.length_replicate ⟨by decide,by decide⟩ ⟨by simp [Sized,demoDisk],sized⟩
    ⟨⟨rfl,rfl,rfl,rfl⟩,first,granted⟩ write (by rintro rfl; simp at data) rfl
    ⟨⟨rfl,rfl,rfl,rfl⟩,second,again⟩ read).2.1 k r entry).1

end Avros.Vfs
