import Mathlib.Algebra.GroupWithZero.Nat
import Avros.Kernel

/-! `servers/pm.c`. PM serves one request at a time, from receive(TASK_ANY) to the next.
A process record stands at an address, 0 is NULL, and a freed address holds no record:
a request has no result when PM reads through NULL or through a freed record. What the
kernel, VFS and EX answer during a request comes with it; the calls PM makes are listed
in order. Every word is kept as its 16 bits, and the members of the message union share
their words:

  spawn.ask  ptp = w0   stack = w1   argv = w2     spawn.ans  pid = w0
  exec.ask   name = w0  argv = w1                  exit       code = w0
  wait.ask   pid = w0                              wait.ans   pid = w0   code = w1
  malloc.ask size = w0                             malloc.ans, free  ptr = w0 -/
namespace Avros.Pm
open Queue
export Kernel (Pid Addr taskAny)

inductive Cmd where | spawn | exec | wait | exit | malloc | free | other
  deriving DecidableEq, Repr

structure Msg where
  cmd : Cmd
  w0 : Nat
  w1 : Nat
  w2 : Nat
  deriving DecidableEq, Repr

structure MemChunk where
  self : Addr
  ptr : Addr
  deriving DecidableEq, Repr

-- `word` is the union of waitfor and exitcode.
structure PmTask where
  pid : Pid
  chunkQ : List MemChunk
  word : Nat
  parent : Addr
  args : Addr
  deriving DecidableEq, Repr

structure Tables where
  taskQ : List Addr
  waitQ : List Addr
  zombieQ : List Addr
  record : Addr → Option PmTask

inductive Call where
  | kmalloc (size : Nat) (ptr : Addr)
  | kfree (ptr : Addr)
  | wrote (bytes : List (Addr × Nat))
  | createtask (task : Pid)
  | stoptask (task : Pid)
  | deletetask (task : Pid)
  | allocatestack (task : Pid) (size : Nat) (stack : Addr)
  | setuptask (task : Pid) (ptr args : Addr)
  | starttask (task : Pid)
  | vfsCreatetask (task parent : Pid) (ok : Bool)
  | vfsDeletetask (task : Pid)
  | exGetprg (name : Addr) (ptr : Addr) (stack : Nat)
  | send (client : Pid) (msg : Msg)
  deriving DecidableEq, Repr

/- A received message, the strings its argv points to, and the answers PM gets while it
serves it: createtask, the kmalloc calls by what they are for, vfs_createtask,
allocatestack and the program ex_getprg finds. -/
structure Request where
  client : Pid
  msg : Msg
  argv : List (List Nat)
  task : Pid
  record : Addr
  args : Addr
  chunk : Addr
  block : Addr
  vfs : Bool
  stack : Addr
  prg : Addr
  prgStack : Nat
  deriving DecidableEq, Repr

-- `clients` lists the values PM_CLIENT had wherever the request used it.
structure Tx where
  pm : Tables
  msg : Msg
  calls : List Call
  clients : List Addr

def pmClient (x : Tx) : Addr := x.pm.taskQ.headD 0

def call (x : Tx) (c : Call) : Tx := { x with calls := x.calls ++ [c] }
def look (x : Tx) : Tx := { x with clients := x.clients ++ [pmClient x] }
def answer (x : Tx) (w0 w1 : Nat) : Tx := { x with msg := { x.msg with w0 := w0, w1 := w1 } }
def store (x : Tx) (a : Addr) (t : PmTask) : Tx :=
  { x with pm := { x.pm with record := Function.update x.pm.record a (some t) } }
def kfree (x : Tx) (ptr : Addr) : Tx :=
  call { x with pm := { x.pm with record := Function.update x.pm.record ptr none } } (.kfree ptr)

def taskRemv (x : Tx) (a : Addr) : Tx := { x with pm := { x.pm with taskQ := qRemv x.pm.taskQ a } }
def taskEnd (x : Tx) (a : Addr) : Tx := { x with pm := { x.pm with taskQ := qEnd x.pm.taskQ a } }
def waitRemv (x : Tx) (a : Addr) : Tx := { x with pm := { x.pm with waitQ := qRemv x.pm.waitQ a } }
def waitEnd (x : Tx) (a : Addr) : Tx := { x with pm := { x.pm with waitQ := qEnd x.pm.waitQ a } }
def zombieRemv (x : Tx) (a : Addr) : Tx := { x with pm := { x.pm with zombieQ := qRemv x.pm.zombieQ a } }
def zombieEnd (x : Tx) (a : Addr) : Tx := { x with pm := { x.pm with zombieQ := qEnd x.pm.zombieQ a } }

def pmPidof (x : Tx) (p : Addr) : Option Pid := if p = 0 then some 0 else (x.pm.record p).map (·.pid)

def pmNewtask (x : Tx) (r : Request) (pid : Pid) (parent : Addr) : Tx × Addr :=
  let x := call x (.kmalloc 16 r.record)
  if r.record = 0 then (x,0) else (store x r.record ⟨pid,[],0,parent,0⟩,r.record)

def pmFindbypid (s : Tables) (pid : Pid) : List Addr → Option Addr
  | [] => some 0
  | it::rest => do
    let t ← s.record it
    if t.pid = pid then some it else pmFindbypid s pid rest

/- q_forall with callbacks that work on the tables. The walk goes over the items the
queue had at the call: a callback unlinks at most the item it stands on, and the
successor is fetched before. -/
def forall_ (callback : Tx → Addr → Option (Tx × Addr)) : List Addr → Tx → Option (Tx × Addr)
  | [],x => some (x,0)
  | it::rest,x => do
    let (x,ret) ← callback x it
    if ret ≠ 0 then some (x,ret) else forall_ callback rest x

def pmHaschild (x : Tx) (ptsk : Addr) : Option (Tx × Addr) := do
  let x := look x
  let t ← x.pm.record ptsk
  if t.parent ≠ pmClient x then some (x,0) else some (x,ptsk)

def pmFindzombie (x : Tx) (ptsk : Addr) : Option (Tx × Addr) := do
  let x := look x
  let t ← x.pm.record ptsk
  if t.parent ≠ pmClient x then some (x,0)
  else
    let client ← x.pm.record (pmClient x)
    if client.word ≠ t.pid ∧ client.word ≠ taskAny then some (x,0) else some (x,ptsk)

def pmMakechildorphan (x : Tx) (ptsk : Addr) : Option (Tx × Addr) := do
  let x := look x
  let t ← x.pm.record ptsk
  if t.parent ≠ pmClient x then some (x,0) else some (store x ptsk { t with parent := 0 },0)

-- Only ever called on zombie_q.
def pmRemovechild (x : Tx) (ptsk : Addr) : Option (Tx × Addr) := do
  let x := look x
  let t ← x.pm.record ptsk
  if t.parent ≠ pmClient x then some (x,0) else some (kfree (zombieRemv (kfree x t.args) ptsk) ptsk,0)

def pmFindmyparent (x : Tx) (ptsk : Addr) : Option (Tx × Addr) := do
  let x := look x
  let client ← x.pm.record (pmClient x)
  if client.parent ≠ ptsk then some (x,0) else some (x,ptsk)

def findchunk (x : Tx) (ptsk ptr : Addr) : Option (Option MemChunk) :=
  if ptsk = 0 ∨ ptr = 0 then some none
  else do
    let t ← x.pm.record ptsk
    some (t.chunkQ.find? (·.ptr = ptr))

-- `kfree(Q_REMV(&(ptsk->chunk_q), chunk))`
def dropChunk (x : Tx) (ptsk : Addr) (chunk : MemChunk) : Option Tx := do
  let t ← x.pm.record ptsk
  some (kfree (store x ptsk { t with chunkQ := t.chunkQ.erase chunk }) chunk.self)

def pmDelchunks (ptsk : Addr) : List MemChunk → Tx → Option Tx
  | [],x => some x
  | chunk::rest,x => do
    let x := if chunk.ptr ≠ 0 then kfree x chunk.ptr else x
    let x ← dropChunk x ptsk chunk
    pmDelchunks ptsk rest x

def doPmalloc (r : Request) (x : Tx) : Option Tx :=
  let size := x.msg.w0
  let x := call x (.kmalloc 6 r.chunk)
  if r.chunk = 0 then some (answer x 0 x.msg.w1)
  else
    let x := call x (.kmalloc size r.block)
    if r.block = 0 then
      let x := kfree x r.chunk
      some (answer x 0 x.msg.w1)
    else do
      let x := look x
      let client ← x.pm.record (pmClient x)
      let x := store x (pmClient x) { client with chunkQ := ⟨r.chunk,r.block⟩::client.chunkQ }
      some (answer x r.block x.msg.w1)

def doPmfree (x : Tx) : Option Tx := do
  let x := look x
  match ← findchunk x (pmClient x) x.msg.w0 with
  | none => some (kfree (look x) 0)
  | some chunk =>
    let x := if chunk.ptr ≠ 0 then kfree x chunk.ptr else x
    let x := look x
    dropChunk x (pmClient x) chunk

def argvOf (r : Request) (p : Addr) : List (List Nat) := if p = 0 then [] else r.argv

def pmArgstackSize (argv : List (List Nat)) : Nat :=
  ((argv.map (fun s => s.length + 1)).sum + 2 * (argv.length + 1)) % 65536

def pointerBytes (at_ v : Addr) : List (Addr × Nat) := [(at_,v % 256),(at_ + 1,v / 256 % 256)]
def stringBytes (at_ : Addr) (s : List Nat) : List (Addr × Nat) :=
  (s ++ [0]).mapIdx (fun i c => (at_ + i,c))

-- The loop of cook_argstack: `slot` is &newargv[i].
def cookStrings (slot bottom : Addr) : List (List Nat) → List (Addr × Nat)
  | [] => pointerBytes slot 0
  | s::rest =>
    pointerBytes slot bottom ++ stringBytes bottom s ++ cookStrings (slot + 2) (bottom + (s.length + 1)) rest

def cookArgstack (bottom : Addr) (argv : List (List Nat)) : List (Addr × Nat) :=
  cookStrings bottom (bottom + 2 * (argv.length + 1)) argv

def pmSetuptask (r : Request) (x : Tx) (ptsk : Addr) (stacksize : Nat) (ptr : Addr)
    (argv : List (List Nat)) : Option (Tx × Addr) :=
  let x := call x (.kmalloc (pmArgstackSize argv) r.args)
  if r.args = 0 then some (x,0)
  else do
    let x := call x (.wrote (cookArgstack r.args argv))
    let x := call x (.stoptask (← pmPidof x ptsk))
    let t ← x.pm.record ptsk
    let x ← pmDelchunks ptsk t.chunkQ x
    let t ← x.pm.record ptsk
    let x := if t.args ≠ 0 then kfree x t.args else x
    let t ← x.pm.record ptsk
    let x := store x ptsk { t with args := r.args }
    let x := call x (.allocatestack t.pid stacksize r.stack)
    some (call x (.setuptask t.pid ptr r.args),ptsk)

def doSpawn (r : Request) (x : Tx) : Option Tx :=
  let x := call x (.createtask r.task)
  if r.task = 0 then some x
  else
    let x := look x
    let (x,pmTask) := pmNewtask x r r.task (pmClient x)
    if pmTask = 0 then some x
    else do
      let x := look (taskEnd x pmTask)
      let parent ← pmPidof x (pmClient x)
      let x := call x (.vfsCreatetask r.task parent r.vfs)
      if r.vfs = false then some x
      else
        let (x,done) ← pmSetuptask r x pmTask x.msg.w1 x.msg.w0 (argvOf r x.msg.w2)
        if done = 0 then some x
        else
          let x := call x (.starttask r.task)
          some (answer x r.task x.msg.w1)

-- The second component says whether the caller gets a reply.
def doExec (r : Request) (x : Tx) : Option (Tx × Bool) := do
  let x := call x (.exGetprg x.msg.w0 r.prg r.prgStack)
  if r.prg = 0 then some (x,true)
  else
    let x := look x
    let (x,done) ← pmSetuptask r x (pmClient x) r.prgStack r.prg (argvOf r x.msg.w1)
    if done = 0 then some (x,false)
    else
      let x := look x
      let client ← x.pm.record (pmClient x)
      some (call x (.starttask client.pid),false)

def doSpawnexec (r : Request) (x : Tx) : Option Tx :=
  let x := call x (.createtask r.task)
  if r.task = 0 then some x
  else do
    let x := look x
    let parent ← pmPidof x (pmClient x)
    let x := call x (.vfsCreatetask r.task parent r.vfs)
    if r.vfs = false then some x
    else
      let x := look x
      let (x,pmTask) := pmNewtask x r r.task (pmClient x)
      if pmTask = 0 then some x
      else
        let x := taskEnd x pmTask
        let x := call x (.exGetprg x.msg.w0 r.prg r.prgStack)
        if r.prg = 0 then some x
        else
          let (x,done) ← pmSetuptask r x pmTask r.prgStack r.prg (argvOf r x.msg.w1)
          if done = 0 then some x
          else
            let x := call x (.starttask r.task)
            some (answer x r.task x.msg.w1)

-- `kfree(PM_CLIENT->args); kfree(Q_REMV(&task_q, PM_CLIENT));`
def removeClient (x : Tx) : Option Tx := do
  let x := look x
  let client ← x.pm.record (pmClient x)
  let x := look (kfree x client.args)
  let gone := pmClient x
  some (kfree (taskRemv x gone) gone)

-- `PM_CLIENT->exitcode = msg->exit.code`
def saveExitcode (x : Tx) : Option Tx := do
  let x := look x
  let client ← x.pm.record (pmClient x)
  some (store x (pmClient x) { client with word := x.msg.w0 })

def parentWaits (x : Tx) (pmTask : Addr) : Option Bool :=
  if pmTask = 0 then some false
  else do
    let parent ← x.pm.record pmTask
    let pid ← pmPidof x (pmClient x)
    some (parent.word = pid ∨ parent.word = taskAny)

-- What do_exit does before it looks at the parent.
def clearClient (x : Tx) : Option Tx := do
  let x := look x
  let client ← x.pm.record (pmClient x)
  let x := look (← pmDelchunks (pmClient x) client.chunkQ x)
  let pid ← pmPidof x (pmClient x)
  let x := call (call x (.stoptask pid)) (.deletetask pid)
  let client ← x.pm.record (pmClient x)
  let x := call x (.vfsDeletetask client.pid)
  let (x,_) ← forall_ pmRemovechild x.pm.zombieQ x
  let (x,_) ← forall_ pmMakechildorphan x.pm.waitQ x
  let (x,_) ← forall_ pmMakechildorphan x.pm.taskQ x
  some x

-- The second component is the new `*replyto`, where there is a reply.
def doExit (x : Tx) : Option (Tx × Option Pid) := do
  let x := look (← clearClient x)
  let client ← x.pm.record (pmClient x)
  if client.parent = 0 then some (← removeClient x,none)
  else
    let (x,pmTask) ← forall_ pmFindmyparent x.pm.waitQ x
    let x := look x
    if ← parentWaits x pmTask then
      let x := taskEnd (waitRemv x pmTask) pmTask
      let x := look (← saveExitcode x)
      let pid ← pmPidof x (pmClient x)
      let client ← x.pm.record (pmClient x)
      let x := answer x pid client.word
      let replyto ← pmPidof x pmTask
      some (← removeClient x,some replyto)
    else
      let x := look (← saveExitcode x)
      let gone := pmClient x
      some (zombieEnd (taskRemv x gone) gone,none)

def doWait (x : Tx) : Option (Tx × Bool) := do
  let x := look x
  let client ← x.pm.record (pmClient x)
  let x := store x (pmClient x) { client with word := x.msg.w0 }
  let (x,pmTask) ← forall_ pmFindzombie x.pm.zombieQ x
  if pmTask ≠ 0 then
    let t ← x.pm.record pmTask
    let x := answer x t.pid t.word
    some (kfree (zombieRemv (kfree x t.args) pmTask) pmTask,true)
  else
    let (x,child) ← forall_ pmHaschild x.pm.taskQ x
    let (x,child) ← if child ≠ 0 then some (x,child) else forall_ pmHaschild x.pm.waitQ x
    if child = 0 then some (answer x 0 0,true)
    else
      let x := look x
      let gone := pmClient x
      some (waitEnd (taskRemv x gone) gone,false)

def reply (x : Tx) (client : Pid) : Tx := call x (.send client x.msg)

/- One round of the loop of pm(). The sender's record, if task_q has one, goes to the
front: it is PM_CLIENT. -/
def received (s : Tables) (r : Request) (found : Addr) : Tx :=
  ⟨{ s with taskQ := qFront (qRemv s.taskQ found) found },r.msg,[],[]⟩

def dispatch (r : Request) (x : Tx) : Option Tx :=
  match r.msg.cmd with
  | .spawn => do some (reply (← doSpawn r x) r.client)
  | .exec => do
    let (x,answered) ← doExec r x
    some (if answered then reply x r.client else x)
  | .exit => do
    let (x,replyto) ← doExit x
    match replyto with
    | some client => some (reply x client)
    | none => some x
  | .wait => do
    let (x,answered) ← doWait x
    some (if answered then reply x r.client else x)
  | .malloc => do some (reply (← doPmalloc r x) r.client)
  | .free => do some (reply (← doPmfree x) r.client)
  | .other => some x

def serve (s : Tables) (r : Request) : Option Tx := do
  let found ← pmFindbypid s r.client s.taskQ
  dispatch r (received s r found)

def blank : Tables := ⟨[],[],[],fun _ => none⟩

-- pm() up to its loop; `args` holds the name and the arguments of the first process.
def pmStart (r : Request) (args : Addr) : Option Tx := do
  let x ← doSpawnexec r ⟨blank,{ r.msg with w1 := args },[],[]⟩
  some (kfree x args)

end Avros.Pm
