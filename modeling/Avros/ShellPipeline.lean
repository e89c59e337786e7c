import Avros.VfsDescriptors
import Avros.VfsDrivers

/-! `usr/sh.c`, the loop of sh(): how a command line is cut into jobs, and how the shell's
descriptors are moved about so that each job is spawned between the right two files. The
shell follows its script, one call of VFS at a time; any other requests come in between. -/
namespace Avros.Pipeline
open Vfs Run Slots

-- What stands behind a job: '|', '&', ';' or the end of the line.
inductive Sep where | pipe | amp | semi | eol
  deriving DecidableEq, Repr

structure Job where
  text : List Char
  sep : Sep
  deriving DecidableEq, Repr

def nul : Char := '\x00'
def cString (b : List Char) : List Char := b.takeWhile (· ≠ nul)

-- `memmove(p,p+1,strlen(p)+1)`
def moveLeft (b : List Char) : List Char :=
  (b.drop 1).take ((cString b).length + 1) ++ b.drop ((cString b).length + 1)

/- `while (*p)`: the bytes from p to the end of the buffer, and those from jobstart to p.
A backslash at the end of the line takes the loop past the terminator. -/
def split : Nat → List Char → List Char → Option (List Job)
  | 0,_,_ => none
  | _ + 1,_,[] => none
  | n + 1,text,c::rest =>
    if c = nul then some [⟨cString text,.eol⟩]
    else if c = '\\' then
      match moveLeft (c::rest) with
      | [] => none
      | next::rest => split n (text ++ [next]) rest
    else if c = '#' then some [⟨cString text,.eol⟩]
    else if c = '|' then (split n [] rest).map (⟨cString text,.pipe⟩::·)
    else if c = '&' then (split n [] rest).map (⟨cString text,.amp⟩::·)
    else if c = ';' then (split n [] rest).map (⟨cString text,.semi⟩::·)
    else split n (text ++ [c]) rest

def jobsOf (cmdline : List Char) : Option (List Job) := split (cmdline.length + 1) [] cmdline

inductive Arg where
  | fd (n : Nat)
  | nextin | pip0 | pip1
  deriving DecidableEq, Repr

/- What sh() does, call by call. `dup` may store its result in nextin. A job that is not
run directly is spawned in two steps: the shell's spawntask of launch_job, and launch_job's
own of exec_job, for which the shell waits. -/
inductive Op where
  | close (x : Arg)
  | dup (x : Arg) (keep : Bool)
  | pipe
  | open_
  | setNextin (x : Arg)
  | execute (job : Job)
  | relay (job : Job)
  deriving DecidableEq, Repr

def jobInit : List Op :=
  [.close (.fd 0),.dup (.fd 3) false,.close (.fd 1),.dup (.fd 4) false,.setNextin (.fd 3)]

def jobPipe : List Op :=
  [.close (.fd 0),.dup .nextin false,.close (.fd 5),.pipe,.close (.fd 1),.dup .pip1 false,.close .pip1,
    .setNextin .pip0]

def jobNopipe : List Op :=
  [.close (.fd 0),.dup .nextin false,.close (.fd 5),.close (.fd 1),.dup (.fd 4) false]

def direct (sep : Sep) : Bool := sep = .semi || sep = .eol

def runJob (job : Job) : List Op :=
  match job.sep with
  | .pipe => jobPipe ++ [.execute job,.relay job]
  | .amp => jobNopipe ++ [.execute job,.relay job] ++ jobInit
  | _ => jobNopipe ++ [.execute job] ++ jobInit

-- Up to `while (1)`, with or without an argument.
def start (argv1 : Bool) : List Op :=
  [.dup (.fd 0) true,.dup (.fd 1) false] ++ jobInit ++ [.dup (.fd 0) false] ++
    (if argv1 then [.open_] else []) ++ [.close (.fd 5)]

inductive File where
  | stdin | stdout | stderr | script
  | readEnd (n : Nat) | writeEnd (n : Nat)
  deriving DecidableEq, Repr

structure Held where
  fp : Int
  file : File
  deriving DecidableEq, Repr

/- The variables of sh(), what its descriptors are, the number of pipes it has made, and
the filp entries of the two ends of the one made for the current job. -/
structure Desk where
  nextin : Int
  pip : Int × Int
  fin : Int
  held : List (Option Held)
  pipes : Nat
  made : Option (Int × Int)
  deriving DecidableEq, Repr

def Desk.arg (d : Desk) : Arg → Int
  | .fd n => n
  | .nextin => d.nextin
  | .pip0 => d.pip.1
  | .pip1 => d.pip.2

def Desk.close (d : Desk) (i : Nat) : Desk := { d with held := d.held.set i none }

def Desk.dup (d : Desk) (i fd : Nat) (keep : Bool) : Desk :=
  { d with held := d.held.set fd (d.held.getD i none), nextin := if keep then fd else d.nextin }

def Desk.pipe (d : Desk) (i j : Nat) (r w : Int) : Desk :=
  { d with
    held := (d.held.set i (some ⟨r,.readEnd d.pipes⟩)).set j (some ⟨w,.writeEnd d.pipes⟩)
    pip := (i,j)
    pipes := d.pipes + 1
    made := some (r,w) }

def Desk.opened (d : Desk) (i : Nat) (f : Int) : Desk :=
  { d with held := d.held.set i (some ⟨f,.script⟩), fin := i }

def Desk.launched (d : Desk) : Desk := { d with made := none }

-- `launcher` is the launch_job task that has not yet spawned its exec_job.
structure Shell where
  pid : Pid
  script : List Op
  desk : Desk
  launcher : Option Pid

-- `jobs` lists the jobs of all command lines read. The shell is gone once it has exited.
structure Session (σ : Type) where
  sys : System σ
  shell : Option Shell
  jobs : List Job

/- A job of the shell: the pipe made for it, the descriptors its task starts with (none
for a builtin), and what the shell itself held then. -/
structure Launch where
  job : Job
  pipe : Option (Int × Int)
  child : Option (List Int)
  held : List (Option File)
  deriving DecidableEq, Repr

inductive Act where
  | getcmd (cmdline : List Char)
  | call (r : Request)
  | assign
  | cd
  | exit
  | other (r : Request)

def files (d : Desk) : List (Option File) := d.held.map (Option.map Held.file)
def tableOf (s : Tables) (pid : Pid) : Option (List Int) := (vfsFindbypid s pid).map (·.fd)
def slot (s : Tables) (pid : Pid) (i : Nat) : Int := ((tableOf s pid).getD []).getD i (-1)

section
variable {σ : Type} (D : Drivers σ)

def arrived (s : Session σ) (r : Request) : Tx σ := ⟨s.sys.vfs,s.sys.drv,r.msg,[]⟩

def launchOf (d : Desk) (r : Request) (x : Tx σ) (job : Job) : Launch :=
  ⟨job,d.made,tableOf x.vfs r.msg.w0.toNat,files d⟩

def piped (pid : Pid) (d : Desk) (x : Tx σ) : Desk :=
  d.pipe x.msg.w0.toNat x.msg.w1.toNat (slot x.vfs pid x.msg.w0.toNat) (slot x.vfs pid x.msg.w1.toNat)

def returned (sh : Shell) (op : Op) (rest : List Op) (r : Request) (x : Tx σ) : Option (Shell × List Launch) :=
  let d := sh.desk
  match op with
  | .close a => some ({ sh with script := rest, desk := d.close (d.arg a).toNat },[])
  | .dup a keep => some ({ sh with script := rest, desk := d.dup (d.arg a).toNat x.msg.w0.toNat keep },[])
  | .pipe => some ({ sh with script := rest, desk := piped sh.pid d x },[])
  | .open_ => some ({ sh with script := rest, desk := d.opened x.msg.w0.toNat (slot x.vfs sh.pid x.msg.w0.toNat) },[])
  | .execute job =>
    if direct job.sep then some ({ sh with script := rest, desk := d.launched },[launchOf d r x job])
    else some ({ sh with script := rest, launcher := some r.msg.w0.toNat },[])
  | .relay job => some ({ sh with script := rest, desk := d.launched, launcher := none },[launchOf d r x job])
  | .setNextin _ => none

def step : Step (Session σ) Act Launch := fun s act =>
  match act with
  | .getcmd cmdline => do
    let sh ← s.shell
    if sh.script = [] then
      let jobs ← jobsOf cmdline
      some ({ s with shell := some { sh with script := jobs.flatMap runJob }, jobs := s.jobs ++ jobs },[])
    else none
  | .call r => do
    let sh ← s.shell
    match sh.script with
    | [] => none
    | op::rest =>
      let x ← process D r (arrived s r)
      let (sh,out) ← returned sh op rest r x
      some ({ s with sys := ⟨x.vfs,x.drv⟩, shell := some sh },out)
  | .assign => do
    let sh ← s.shell
    match sh.script with
    | .setNextin a::rest =>
      some ({ s with shell := some { sh with script := rest, desk := { sh.desk with nextin := sh.desk.arg a } } },[])
    | _ => none
  | .cd => do
    let sh ← s.shell
    match sh.script with
    | .execute job::rest =>
      if direct job.sep then
        some ({ s with shell := some { sh with script := rest, desk := sh.desk.launched } },
          [⟨job,sh.desk.made,none,files sh.desk⟩])
      else none
    | _ => none
  | .exit => do
    let sh ← s.shell
    match sh.script with
    | [] => some ({ s with shell := none },[])
    | .execute job::_ => if direct job.sep then some ({ s with shell := none },[]) else none
    | _ => none
  | .other r => do
    let x ← process D r (arrived s r)
    some ({ s with sys := ⟨x.vfs,x.drv⟩ },[])

def Succeeds (s : Session σ) (r : Request) (good : Msg → Prop) : Prop :=
  ∀ x, process D r (arrived s r) = some x → good x.msg

/- PM's request for the task of a spawn: createtask gave an address no task has, and VFS
has room for its record. -/
structure Spawns (s : Session σ) (parent : Pid) (r : Request) : Prop where
  cmd : r.msg.cmd = .addtask
  real : r.msg.w0.toNat ≠ 0
  fresh : vfsFindbypid s.sys.vfs r.msg.w0.toNat = none
  parent : r.msg.w1 = parent
  kmalloc : r.kmalloc 0 = true

def Asks (s : Session σ) (sh : Shell) (r : Request) : Op → Prop
  | .close a => r.client = sh.pid ∧ r.msg.cmd = .close ∧ r.msg.w0 = sh.desk.arg a
  | .dup a _ => r.client = sh.pid ∧ r.msg.cmd = .dup ∧ r.msg.w0 = sh.desk.arg a ∧ Succeeds D s r (0 ≤ ·.w0)
  | .pipe => r.client = sh.pid ∧ r.msg.cmd = .pipe ∧ Succeeds D s r (·.w2 = 0)
  | .open_ => r.client = sh.pid ∧ r.msg.cmd = .open_ ∧ Succeeds D s r (0 ≤ ·.w0)
  | .execute _ => Spawns s sh.pid r
  | .relay _ => ∃ q, sh.launcher = some q ∧ Spawns s q r
  | .setNextin _ => True

/- Between its calls the shell reads and writes characters; nobody else uses its record,
or that of launch_job before its spawn. -/
def Allowed (s : Session σ) : Act → Prop
  | .call r => ∀ sh op rest, s.shell = some sh → sh.script = op::rest → Asks D s sh r op
  | .other r => ∀ sh, s.shell = some sh →
      (about r ≠ sh.pid ∨ r.msg.cmd = .readc ∨ r.msg.cmd = .writec) ∧
      ∀ q, sh.launcher = some q → about r ≠ q
  | _ => True

end

-- The shell is started with descriptors 0, 1 and 2 open.
def Opened {σ : Type} (pid : Pid) (a b e : Int) (s : Session σ) : Prop :=
  ∃ argv1 nextin pip t, 0 ≤ a ∧ 0 ≤ b ∧ 0 ≤ e ∧ pid ≠ 0 ∧
    vfsFindbypid s.sys.vfs pid = some t ∧ t.fd = [a,b,e,-1,-1,-1,-1,-1] ∧
    s.shell = some ⟨pid,start argv1,⟨nextin,pip,0,
      [some ⟨a,.stdin⟩,some ⟨b,.stdout⟩,some ⟨e,.stderr⟩,none,none,none,none,none],0,none⟩,none⟩ ∧
    s.jobs = []

/-! What is to be shown of each job, given the jobs before it. -/

-- The read end of the pipe made for the job before, or the shell's stdin.
def source (a : Int) (before : List Launch) : Int := ((before.getLast?.bind (·.pipe)).map (·.1)).getD a

-- The write end of the pipe made for the job itself, or the shell's stdout.
def target (b : Int) (made : Option (Int × Int)) : Int := (made.map (·.2)).getD b

structure Wired (a b : Int) (before : List Launch) (e : Launch) : Prop where
  piped : e.pipe.isSome ↔ e.job.sep = .pipe
  spawned : e.child = none → direct e.job.sep = true
  stdin : ∀ table, e.child = some table → table[0]? = some (source a before)
  stdout : ∀ table, e.child = some table → table[1]? = some (target b e.pipe)
  closed : e.job.sep = .eol → ∀ n, some (File.writeEnd n) ∉ e.held

/-! A script is safe on a desk when its calls find the descriptors they name, each of its
jobs starts between the right files, and what it leaves behind is as it should be. -/

section
variable {left left' : Desk → Prop} {a b e input : Int} {d : Desk} {rest : List Op} {job : Job}

structure Fitting (b input : Int) (d : Desk) (job : Job) : Prop where
  piped : d.made.isSome ↔ job.sep = .pipe
  stdin : ∃ file, d.held[0]? = some (some ⟨input,file⟩)
  stdout : ∃ file, d.held[1]? = some (some ⟨target b d.made,file⟩)
  closed : job.sep = .eol → ∀ n, some (File.writeEnd n) ∉ files d

def upcoming (a : Int) (d : Desk) : Int := (d.made.map (·.1)).getD a

def Safe (left : Desk → Prop) (a b : Int) : Int → Desk → List Op → Prop
  | input,d,[] => input = a ∧ left d
  | input,d,.close x::rest => ∃ i : Nat, d.arg x = i ∧ i < maxFd ∧ Safe left a b input (d.close i) rest
  | input,d,.dup x keep::rest => ∃ (i fd : Nat) (h : Held), d.arg x = i ∧ i < maxFd ∧
      d.held[i]? = some (some h) ∧ lowest d.held = some fd ∧ Safe left a b input (d.dup i fd keep) rest
  | input,d,.pipe::rest => ∃ i j : Nat, lowest d.held = some i ∧ (∀ h, lowest (d.held.set i (some h)) = some j) ∧
      ∀ r w : Int, Safe left a b input (d.pipe i j r w) rest
  | input,d,.open_::rest => ∃ i : Nat, lowest d.held = some i ∧
      ∀ f : Int, 0 ≤ f → Safe left a b input (d.opened i f) rest
  | input,d,.setNextin x::rest => Safe left a b input { d with nextin := d.arg x } rest
  | input,d,.execute job::rest =>
      if direct job.sep then Fitting b input d job ∧ Safe left a b (upcoming a d) d.launched rest
      else (∃ more, rest = .relay job::more) ∧ Safe left a b input d rest
  | input,d,.relay job::rest => Fitting b input d job ∧ Safe left a b (upcoming a d) d.launched rest

theorem Safe.weaken (weaker : ∀ d, left d → left' d) {script : List Op} (safe : Safe left a b input d script) :
    Safe left' a b input d script := by
  fun_induction Safe left a b input d script with
  | case1 => exact ⟨safe.1,weaker _ safe.2⟩
  | case2 input d x rest ih =>
    obtain ⟨i,named,inside,next⟩ := safe
    exact ⟨i,named,inside,ih i next⟩
  | case3 input d x keep rest ih =>
    obtain ⟨i,fd,h,named,inside,there,free,next⟩ := safe
    exact ⟨i,fd,h,named,inside,there,free,ih i fd next⟩
  | case4 input d rest ih =>
    obtain ⟨i,j,first,second,next⟩ := safe
    exact ⟨i,j,first,second,fun r w => ih i j r w (next r w)⟩
  | case5 input d rest ih =>
    obtain ⟨i,free,next⟩ := safe
    exact ⟨i,free,fun f real => ih i f (next f real)⟩
  | case6 input d x rest ih => exact ih safe
  | case7 input d job rest now ih =>
    rw [Safe,if_pos now]
    exact ⟨safe.1,ih safe.2⟩
  | case8 input d job rest later ih =>
    rw [Safe,if_neg later]
    exact ⟨safe.1,ih safe.2⟩
  | case9 input d job rest ih => exact ⟨safe.1,ih safe.2⟩

-- The shell between two lines; `f` is the script it reads.
structure Quiet (a b e : Int) (f : Option Int) (fin : Int) (d : Desk) : Prop where
  held : d.held = [some ⟨a,.stdin⟩,some ⟨b,.stdout⟩,some ⟨e,.stderr⟩,some ⟨a,.stdin⟩,some ⟨b,.stdout⟩,none,
    f.map (⟨·,.script⟩),none]
  nextin : d.nextin = 3
  made : d.made = none
  fin : d.fin = fin

-- It is interactive, or reads a script on descriptor 6.
def Rests (a b e : Int) (d : Desk) : Prop :=
  ∃ f fin, Quiet a b e f fin d ∧ (fin = 0 ∧ f = none ∨ fin = 6 ∧ ∃ x, f = some x ∧ 0 ≤ x)

-- The shell between two jobs of a line: descriptor 5 is the pipe from the job before.
structure Between (a b e : Int) (f : Option Int) (fin input : Int) (d : Desk) : Prop where
  held : ∃ first second pipe, d.held = [some first,some second,some ⟨e,.stderr⟩,some ⟨a,.stdin⟩,some ⟨b,.stdout⟩,
    pipe,f.map (⟨·,.script⟩),none] ∧
    (d.nextin = 3 ∧ pipe = none ∧ input = a ∨ d.nextin = 5 ∧ ∃ n, pipe = some ⟨input,.readEnd n⟩)
  made : d.made = none
  fin : d.fin = fin

variable {f : Option Int} {fin : Int}

theorem Quiet.between (quiet : Quiet a b e f fin d) : Between a b e f fin a d :=
  ⟨⟨_,_,_,quiet.held,.inl ⟨quiet.nextin,rfl,rfl⟩⟩,quiet.made,quiet.fin⟩

theorem jobInitSafe {first second : Option Held} (held : d.held = [first,second,some ⟨e,.stderr⟩,some ⟨a,.stdin⟩,
    some ⟨b,.stdout⟩,none,f.map (⟨·,.script⟩),none]) (made : d.made = none) (reads : d.fin = fin)
    (next : ∀ d', Quiet a b e f fin d' → Safe left a b input d' rest) : Safe left a b input d (jobInit ++ rest) := by
  obtain ⟨nextin,pip,fin',table,pipes,made'⟩ := d
  cases held
  cases made
  cases reads
  refine ⟨0,rfl,by decide,3,0,⟨a,.stdin⟩,rfl,by decide,rfl,rfl,1,rfl,by decide,4,1,⟨b,.stdout⟩,rfl,by decide,rfl,rfl,?_⟩
  exact next _ ⟨rfl,rfl,rfl,rfl⟩

-- JOB_NOPIPE: stdin comes from the pipe before, and stdout is the shell's.
theorem jobNopipeSafe (between : Between a b e f fin input d)
    (next : ∀ d' file, d'.held = [some ⟨input,file⟩,some ⟨b,.stdout⟩,some ⟨e,.stderr⟩,some ⟨a,.stdin⟩,
      some ⟨b,.stdout⟩,none,f.map (⟨·,.script⟩),none] → (∀ n, file ≠ .writeEnd n) → d'.made = none → d'.fin = fin →
      Safe left a b input d' rest) : Safe left a b input d (jobNopipe ++ rest) := by
  obtain ⟨nextin,pip,fin',table,pipes,made'⟩ := d
  obtain ⟨⟨first,second,pipe,held,reads⟩,made,fins⟩ := between
  cases held
  cases made
  cases fins
  rcases reads with ⟨stdin,none,rfl⟩ | ⟨stdin,n,some⟩
  · cases stdin
    cases none
    refine ⟨0,rfl,by decide,3,0,⟨input,.stdin⟩,rfl,by decide,rfl,rfl,5,rfl,by decide,1,rfl,by decide,4,1,
      ⟨b,.stdout⟩,rfl,by decide,rfl,rfl,?_⟩
    exact next _ .stdin rfl (by simp) rfl rfl
  · cases stdin
    cases some
    refine ⟨0,rfl,by decide,5,0,⟨input,.readEnd n⟩,rfl,by decide,rfl,rfl,5,rfl,by decide,1,rfl,by decide,4,1,
      ⟨b,.stdout⟩,rfl,by decide,rfl,rfl,?_⟩
    exact next _ (.readEnd n) rfl (by simp) rfl rfl

/- JOB_PIPE: the pipe's input gets descriptor 5, and its output the next free one, 6 or 7,
which becomes stdout and is closed. -/
theorem jobPipeSafe (between : Between a b e f fin input d)
    (next : ∀ d' file n r w, d'.held = [some ⟨input,file⟩,some ⟨w,.writeEnd n⟩,some ⟨e,.stderr⟩,some ⟨a,.stdin⟩,
      some ⟨b,.stdout⟩,some ⟨r,.readEnd n⟩,f.map (⟨·,.script⟩),none] → d'.nextin = 5 → d'.made = some (r,w) →
      d'.fin = fin → Safe left a b input d' rest) : Safe left a b input d (jobPipe ++ rest) := by
  obtain ⟨nextin,pip,fin',table,pipes,made'⟩ := d
  obtain ⟨⟨first,second,pipe,held,reads⟩,made,fins⟩ := between
  cases held
  cases made
  cases fins
  obtain ⟨i,file,inside,index,there⟩ : ∃ (i : Nat) (file : File), i < maxFd ∧ nextin = i ∧
      [none,some second,some ⟨e,.stderr⟩,some ⟨a,.stdin⟩,some ⟨b,.stdout⟩,pipe,f.map (⟨·,.script⟩),none][i]? =
        some (some ⟨input,file⟩) := by
    rcases reads with ⟨stdin,none,rfl⟩ | ⟨stdin,n,some⟩
    · exact ⟨3,.stdin,by decide,stdin,rfl⟩
    · exact ⟨5,.readEnd n,by decide,stdin,by rw [some]; rfl⟩
  cases index
  have copied := (List.getD_eq_getElem?_getD ..).trans (congrArg (·.getD none) there)
  refine ⟨0,rfl,by decide,i,0,⟨input,file⟩,rfl,inside,there,rfl,?_⟩
  rw [Desk.dup]
  dsimp only [Desk.close,List.set_cons_zero]
  rw [copied]
  cases f with
  | none =>
    refine ⟨5,rfl,by decide,5,6,rfl,fun _ => rfl,fun r w => ?_⟩
    refine ⟨1,rfl,by decide,6,1,⟨w,.writeEnd pipes⟩,rfl,by decide,rfl,rfl,6,rfl,by decide,?_⟩
    exact next _ file pipes r w rfl rfl rfl rfl
  | some x =>
    refine ⟨5,rfl,by decide,5,7,rfl,fun _ => rfl,fun r w => ?_⟩
    refine ⟨1,rfl,by decide,7,1,⟨w,.writeEnd pipes⟩,rfl,by decide,rfl,rfl,7,rfl,by decide,?_⟩
    exact next _ file pipes r w rfl rfl rfl rfl

theorem executeLater (later : direct job.sep = false) (safe : Safe left a b input d (.relay job::rest)) :
    Safe left a b input d (.execute job::.relay job::rest) := by
  rw [Safe,later]
  exact ⟨⟨rest,rfl⟩,safe⟩

theorem runJobSafe (between : Between a b e f fin input d)
    (last : job.sep ≠ .pipe → ∀ d', Quiet a b e f fin d' → Safe left a b a d' rest)
    (more : job.sep = .pipe → ∀ input d', Between a b e f fin input d' → Safe left a b input d' rest) :
    Safe left a b input d (runJob job ++ rest) := by
  have nopipe : job.sep ≠ .pipe → ∀ d' file, d'.held = [some ⟨input,file⟩,some ⟨b,.stdout⟩,some ⟨e,.stderr⟩,
      some ⟨a,.stdin⟩,some ⟨b,.stdout⟩,none,f.map (⟨·,.script⟩),none] → (∀ n, file ≠ .writeEnd n) → d'.made = none →
      d'.fin = fin → Fitting b input d' job ∧ Safe left a b (upcoming a d') d'.launched (jobInit ++ rest) := by
    intro other d' file held reading made reads
    refine ⟨⟨by simp [made,other],⟨file,by simp [held]⟩,⟨.stdout,by simp [held,made,target]⟩,?_⟩,?_⟩
    · intro _ n
      have away := reading n
      cases f <;> simp [files,held,Ne.symm away]
    · have same : upcoming a d' = a := by simp [upcoming,made]
      rw [same]
      exact jobInitSafe (d := d'.launched) held rfl reads (last other)
  unfold runJob
  split
  case h_1 sep =>
    rw [List.append_assoc]
    refine jobPipeSafe between (fun d' file n r w held nextin made reads => ?_)
    refine executeLater (by rw [sep]; rfl) ⟨⟨by simp [made,sep],⟨file,by simp [held]⟩,?_,by simp [sep]⟩,?_⟩
    · exact ⟨.writeEnd n,by simp [held,made,target]⟩
    · have fed : upcoming a d' = r := by simp [upcoming,made]
      rw [fed]
      exact more sep r d'.launched ⟨⟨_,_,_,held,.inr ⟨nextin,n,rfl⟩⟩,rfl,reads⟩
  case h_2 sep =>
    rw [List.append_assoc,List.append_assoc]
    refine jobNopipeSafe between (fun d' file held reading made reads => ?_)
    exact executeLater (by rw [sep]; rfl) (nopipe (by simp [sep]) d' file held reading made reads)
  case h_3 notPipe notAmp =>
    rw [List.append_assoc,List.append_assoc]
    refine jobNopipeSafe between (fun d' file held reading made reads => ?_)
    have now : direct job.sep = true := by
      cases sep : job.sep <;> simp_all [direct]
    exact (if_pos now).mpr (nopipe notPipe d' file held reading made reads)

theorem lineSafe {jobs : List Job} {text : List Char} (between : Between a b e f fin input d) :
    Safe (Quiet a b e f fin) a b input d ((jobs ++ [(⟨text,.eol⟩ : Job)]).flatMap runJob) := by
  induction jobs generalizing input d with
  | nil => exact runJobSafe between (fun _ d' quiet => ⟨rfl,quiet⟩) (fun sep => nomatch sep)
  | cons job rest ih => exact runJobSafe between (fun _ d' quiet => ih quiet.between) (fun _ input d' next => ih next)

theorem startSafe (argv1 : Bool) (held : d.held = [some ⟨a,.stdin⟩,some ⟨b,.stdout⟩,some ⟨e,.stderr⟩,
    none,none,none,none,none]) (made : d.made = none) (reads : d.fin = 0) :
    Safe (Rests a b e) a b a d (start argv1) := by
  obtain ⟨nextin,pip,fin',table,pipes,made'⟩ := d
  cases held
  cases made
  cases reads
  refine ⟨0,3,⟨a,.stdin⟩,rfl,by decide,rfl,rfl,1,4,⟨b,.stdout⟩,rfl,by decide,rfl,rfl,?_⟩
  have rest : ∀ d', Quiet a b e none 0 d' → Safe (Rests a b e) a b a d'
      (.dup (.fd 0) false::((if argv1 then [.open_] else []) ++ [.close (.fd 5)])) := by
    rintro ⟨nextin,pip,fin,table,pipes,made⟩ ⟨held,next,none,reads⟩
    cases held
    cases next
    cases none
    cases reads
    refine ⟨0,5,⟨a,.stdin⟩,rfl,by decide,rfl,rfl,?_⟩
    cases argv1 with
    | false => exact ⟨5,rfl,by decide,rfl,none,0,⟨rfl,rfl,rfl,rfl⟩,.inl ⟨rfl,rfl⟩⟩
    | true =>
      refine ⟨6,rfl,fun x real => ⟨5,rfl,by decide,rfl,some x,6,⟨rfl,rfl,rfl,rfl⟩,.inr ⟨rfl,x,rfl,real⟩⟩⟩
  exact jobInitSafe (f := none) rfl rfl rfl rest

def Ended (jobs : List Job) : Prop := ∃ front last, jobs = front ++ [⟨last,.eol⟩]

theorem Ended.cons {rest jobs : List Job} (ended : Ended rest) (grown : job::rest = jobs) : Ended jobs := by
  obtain ⟨front,last,rfl⟩ := ended
  exact ⟨job::front,last,grown.symm⟩

theorem splitEnds {n : Nat} {text b : List Char} {jobs : List Job} (ok : split n text b = some jobs) : Ended jobs := by
  fun_induction split n text b generalizing jobs with
  | case1 => contradiction
  | case2 => contradiction
  | case3 =>
    cases Option.some.inj ok
    exact ⟨[],_,rfl⟩
  | case4 => contradiction
  | case5 n text rest real next more moved ih => exact ih ok
  | case6 =>
    cases Option.some.inj ok
    exact ⟨[],_,rfl⟩
  | case7 n text rest _ _ _ ih =>
    obtain ⟨more,found,grown⟩ := Option.map_eq_some_iff.mp ok
    exact (ih found).cons grown
  | case8 n text rest _ _ _ _ ih =>
    obtain ⟨more,found,grown⟩ := Option.map_eq_some_iff.mp ok
    exact (ih found).cons grown
  | case9 n text rest _ _ _ _ _ ih =>
    obtain ⟨more,found,grown⟩ := Option.map_eq_some_iff.mp ok
    exact (ih found).cons grown
  | case10 n text c rest _ _ _ _ _ _ ih => exact ih ok

end

/-! The desk and VFS's record of the shell. -/

def encoded (d : Desk) : List Int := d.held.map (encode Held.fp)

structure Kept (s : Tables) (sh : Shell) : Prop where
  real : sh.pid ≠ 0
  width : sh.desk.held.length = maxFd
  files : ∀ h, some h ∈ sh.desk.held → 0 ≤ h.fp
  table : tableOf s sh.pid = some (encoded sh.desk)
  launcher : ∀ q, sh.launcher = some q →
    q ≠ 0 ∧ tableOf s q = some (encoded sh.desk) ∧ ∃ job rest, sh.script = .relay job::rest

section
variable {σ : Type} {D : Drivers σ} {s s' : Tables} {x y : Tx σ} {sh : Shell} {d : Desk} {pid : Pid}

theorem tableFound {table : List Int} (known : tableOf s pid = some table) :
    ∃ t, vfsFindbypid s pid = some t ∧ t.fd = table := Option.map_eq_some_iff.mp known

theorem foundTable {t : VfsTask} {table : List Int} (found : vfsFindbypid s pid = some t) (same : t.fd = table) :
    tableOf s pid = some table := by
  rw [tableOf,found,← same]
  rfl

theorem keepsTable (keeps : Keeps s s' pid) {table : List Int} (known : tableOf s pid = some table) :
    tableOf s' pid = some table := by
  obtain ⟨t,found,same⟩ := tableFound known
  exact foundTable (keeps t found) same

theorem encodedInherited (files : ∀ h, some h ∈ d.held → 0 ≤ h.fp) : (encoded d).map inheritedFd = encoded d := by
  refine (List.map_congr_left (g := id) fun v member => ?_).trans (List.map_id _)
  obtain ⟨slot,held,rfl⟩ := List.mem_map.mp member
  cases slot with
  | none => rfl
  | some h => simp [encode,inheritedFd,files h held]

theorem encodedWidth (width : d.held.length = maxFd) : (encoded d).length = maxFd := by
  rw [encoded,List.length_map,width]

theorem lowestFd (files : ∀ h, some h ∈ d.held → 0 ≤ h.fp) {t : VfsTask} (same : t.fd = encoded d) :
    findEmptyFd t = lowest d.held := by
  rw [findEmptyFd,same]
  exact lowestEncoded Held.fp files

theorem closeTable {i : Nat} (known : tableOf x.vfs pid = some (encoded d)) (named : x.msg.w0 = i) (inside : i < maxFd)
    (ok : doClose D pid x = some y) : tableOf y.vfs pid = some (encoded (d.close i)) := by
  obtain ⟨t,found,same⟩ := tableFound known
  obtain ⟨u,there,closed⟩ := doCloseOwn found named inside ok
  refine foundTable there ?_
  rw [closed,same]
  exact setEncoded Held.fp d.held i none

theorem dupTable {i fd : Nat} {h : Held} {keep : Bool} (known : tableOf x.vfs pid = some (encoded d))
    (width : d.held.length = maxFd) (files : ∀ h, some h ∈ d.held → 0 ≤ h.fp) (named : x.msg.w0 = i) (inside : i < maxFd)
    (there : d.held[i]? = some (some h)) (free : lowest d.held = some fd) (ok : doDup pid x = some y)
    (granted : 0 ≤ y.msg.w0) : y.msg.w0 = fd ∧ tableOf y.vfs pid = some (encoded (d.dup i fd keep)) := by
  obtain ⟨t,found,same⟩ := tableFound known
  have wide : t.fd.length = maxFd := by rw [same,encodedWidth width]
  obtain ⟨u,fd',fp,after,held,-,empty,answer,copied⟩ := doDupOwn found wide named inside ok granted
  rw [lowestFd files same,free] at empty
  cases empty
  have entry : t.fd[i]? = some h.fp := by
    rw [same]
    exact slotEncoded Held.fp there
  rw [entry] at held
  cases held
  refine ⟨answer,foundTable after ?_⟩
  have slot : d.held.getD i none = some h := by simp [there]
  rw [copied,same,encoded,Desk.dup,slot]
  exact setEncoded Held.fp d.held fd (some h)

theorem slotSet {s : Tables} {t : VfsTask} {table : List Int} {i : Nat} {v : Int} (found : vfsFindbypid s pid = some t)
    (same : t.fd = table.set i v) (inside : i < table.length) : slot s pid i = v := by
  rw [slot,foundTable found same]
  simp [List.getElem?_set_self inside]

theorem openTable {i : Nat} (known : tableOf x.vfs pid = some (encoded d)) (width : d.held.length = maxFd)
    (files : ∀ h, some h ∈ d.held → 0 ≤ h.fp) (free : lowest d.held = some i) (ok : doOpen D pid x = some y)
    (granted : 0 ≤ y.msg.w0) : y.msg.w0 = i ∧ 0 ≤ slot y.vfs pid i ∧
      tableOf y.vfs pid = some (encoded (d.opened i (slot y.vfs pid i))) := by
  obtain ⟨t,found,same⟩ := tableFound known
  have wide : t.fd.length = maxFd := by rw [same,encodedWidth width]
  obtain ⟨u,fd,fp,after,empty,answer,put⟩ := doOpenOwn found wide ok granted
  have room := (emptyFd empty wide).1
  rw [lowestFd files same,free] at empty
  cases empty
  have opened := slotSet after put (by omega)
  rw [opened]
  refine ⟨answer,Int.natCast_nonneg fp,foundTable after ?_⟩
  rw [put,same]
  exact setEncoded Held.fp d.held i (some ⟨fp,.script⟩)

theorem pipeTable {i j : Nat} (known : tableOf x.vfs pid = some (encoded d)) (width : d.held.length = maxFd)
    (files : ∀ h, some h ∈ d.held → 0 ≤ h.fp) (first : lowest d.held = some i)
    (second : ∀ h, lowest (d.held.set i (some h)) = some j) (ok : doPipe D pid x = some y) (granted : y.msg.w2 = 0) :
    ∃ r w : Nat, piped pid d y = d.pipe i j r w ∧ tableOf y.vfs pid = some (encoded (d.pipe i j r w)) := by
  obtain ⟨t,found,same⟩ := tableFound known
  have wide : t.fd.length = maxFd := by rw [same,encodedWidth width]
  obtain ⟨u,v,fdi,fdo,r,w,input,read,output,write,after,answeri,answero⟩ := doPipeOwn found wide ok granted
  have roomi := (emptyFd input wide).1
  rw [lowestFd files same,first] at input
  cases input
  have between : u.fd = encoded { d with held := d.held.set i (some ⟨r,.readEnd d.pipes⟩) } := by
    rw [read,same]
    exact setEncoded Held.fp d.held i (some ⟨r,.readEnd d.pipes⟩)
  have real : ∀ h, some h ∈ d.held.set i (some ⟨r,.readEnd d.pipes⟩) → 0 ≤ h.fp := by
    refine realSet Held.fp files ?_
    rintro h ⟨⟩
    exact Int.natCast_nonneg r
  have wideu : u.fd.length = maxFd := by rw [read,List.length_set,wide]
  obtain ⟨roomo,v',free,negative⟩ := emptyFd output wideu
  rw [lowestFd real between,second] at output
  cases output
  have apart : i ≠ j := by
    rintro rfl
    rw [read,List.getElem?_set_self (by omega)] at free
    cases free
    omega
  have ends : slot y.vfs pid i = r ∧ slot y.vfs pid j = w := by
    refine ⟨?_,slotSet after write (by omega)⟩
    rw [slot,foundTable after write,read]
    simp [List.getElem?_set_ne (Ne.symm apart),List.getElem?_set_self (show i < t.fd.length by omega)]
  refine ⟨r,w,?_,foundTable after ?_⟩
  · rw [piped,answeri,answero,Int.toNat_natCast,Int.toNat_natCast,ends.1,ends.2]
  · rw [write,between]
    exact setEncoded Held.fp _ j (some ⟨w,.writeEnd d.pipes⟩)

theorem spawnTable {t : Session σ} {r : Request} (files : ∀ h, some h ∈ d.held → 0 ≤ h.fp) (real : pid ≠ 0)
    (known : tableOf t.sys.vfs pid = some (encoded d)) (spawns : Spawns t pid r)
    (ok : process D r (arrived t r) = some y) :
    tableOf y.vfs r.msg.w0.toNat = some (encoded d) ∧ ∀ q, (tableOf t.sys.vfs q).isSome → Keeps t.sys.vfs y.vfs q := by
  obtain ⟨u,found,same⟩ := tableFound known
  have added : vfsAddnewtask D true (arrived t r) = some y := by
    simpa only [process,spawns.cmd,spawns.kmalloc] using ok
  constructor
  · obtain ⟨v,there,table⟩ := vfsAddnewtaskInherits (x := arrived t r) found real spawns.parent spawns.fresh added
    refine foundTable there ?_
    rw [table,same,encodedInherited files]
  · intro q known
    refine vfsAddnewtaskKeeps (x := arrived t r) ?_ added
    rintro rfl
    have unknown : tableOf t.sys.vfs r.msg.w0.toNat = none := by
      rw [tableOf,spawns.fresh]
      rfl
    rw [show (arrived t r).msg = r.msg from rfl,unknown] at known
    contradiction

end

def pending (script : List Op) : List Job :=
  script.filterMap fun
    | .execute job => if direct job.sep then some job else none
    | .relay job => some job
    | _ => none

section
variable {σ : Type} {D : Drivers σ} {left : Desk → Prop} {a b input : Int} {s : Session σ} {sh sh' : Shell} {op : Op}
  {rest : List Op} {r : Request} {x : Tx σ} {out : List Launch}

theorem Kept.idle {t : Tables} (kept : Kept t sh) (script : sh.script = op::rest) (other : ∀ job, op ≠ .relay job) :
    sh.launcher = none := by
  cases launcher : sh.launcher with
  | none => rfl
  | some q =>
    obtain ⟨-,-,job,more,relay⟩ := kept.launcher q launcher
    rw [script] at relay
    exact absurd (List.cons.inj relay).1 (other job)

theorem Kept.moved {t t' : Tables} {d : Desk} (kept : Kept t sh) (idle : sh.launcher = none)
    (width : d.held.length = maxFd) (files : ∀ h, some h ∈ d.held → 0 ≤ h.fp)
    (table : tableOf t' sh.pid = some (encoded d)) : Kept t' { sh with script := rest, desk := d } := by
  refine ⟨kept.real,width,files,table,fun q waits => ?_⟩
  change sh.launcher = some q at waits
  rw [idle] at waits
  contradiction

structure Right (left : Desk → Prop) (a b input : Int) (sh sh' : Shell) (out : List Launch) : Prop where
  pid : sh'.pid = sh.pid
  outcome : (out = [] ∧ Safe left a b input sh'.desk sh'.script) ∨
    ∃ job child, out = [⟨job,sh.desk.made,child,files sh.desk⟩] ∧ Fitting b input sh.desk job ∧
      (child = none ∧ direct job.sep = true ∨ child = some (encoded sh.desk)) ∧
      Safe left a b (upcoming a sh.desk) sh'.desk sh'.script
  jobs : pending sh.script = out.map (·.job) ++ pending sh'.script

theorem callRight (kept : Kept s.sys.vfs sh) (script : sh.script = op::rest)
    (safe : Safe left a b input sh.desk (op::rest)) (asks : Asks D s sh r op)
    (ok : process D r (arrived s r) = some x) (back : returned sh op rest r x = some (sh',out)) :
    Kept x.vfs sh' ∧ Right left a b input sh sh' out := by
  have turn : pending sh.script = pending (op::rest) := by rw [script]
  cases op with
  | close y =>
    obtain ⟨mine,cmd,named⟩ := asks
    obtain ⟨i,index,inside,next⟩ := safe
    obtain ⟨rfl,rfl⟩ := Prod.mk.inj (Option.some.inj back)
    rw [index,Int.toNat_natCast]
    have closed : doClose D sh.pid (arrived s r) = some x := by
      simpa only [process,cmd,mine] using ok
    refine ⟨kept.moved (kept.idle script (by simp)) (by simpa [Desk.close] using kept.width) ?_ ?_,rfl,.inl ⟨rfl,next⟩,turn⟩
    · exact realSet Held.fp kept.files (by simp)
    · exact closeTable (x := arrived s r) kept.table (named.trans index) inside closed
  | dup y keep =>
    obtain ⟨mine,cmd,named,granted⟩ := asks
    obtain ⟨i,fd,h,index,inside,there,free,next⟩ := safe
    obtain ⟨rfl,rfl⟩ := Prod.mk.inj (Option.some.inj back)
    have copied : doDup sh.pid (arrived s r) = some x := by
      simpa only [process,cmd,mine] using ok
    obtain ⟨answer,table⟩ := dupTable (x := arrived s r) kept.table kept.width kept.files (named.trans index) inside there
      free copied (granted x ok)
    rw [index,answer,Int.toNat_natCast,Int.toNat_natCast]
    refine ⟨kept.moved (kept.idle script (by simp)) (by simpa [Desk.dup] using kept.width) ?_ table,rfl,.inl ⟨rfl,next⟩,turn⟩
    refine realSet Held.fp kept.files (fun g same => kept.files g ?_)
    have slot : sh.desk.held.getD i none = some h := by simp [there]
    rw [← same,slot]
    exact List.mem_of_getElem? there
  | pipe =>
    obtain ⟨mine,cmd,granted⟩ := asks
    obtain ⟨i,j,first,second,next⟩ := safe
    obtain ⟨rfl,rfl⟩ := Prod.mk.inj (Option.some.inj back)
    have made : doPipe D sh.pid (arrived s r) = some x := by
      simpa only [process,cmd,mine] using ok
    obtain ⟨p,q,desk,table⟩ := pipeTable (x := arrived s r) kept.table kept.width kept.files first second made
      (granted x ok)
    rw [desk]
    refine ⟨kept.moved (kept.idle script (by simp)) (by simpa [Desk.pipe] using kept.width) ?_ table,
      rfl,.inl ⟨rfl,next p q⟩,turn⟩
    refine realSet Held.fp (realSet Held.fp kept.files ?_) ?_ <;> rintro h ⟨⟩
    · exact Int.natCast_nonneg p
    · exact Int.natCast_nonneg q
  | open_ =>
    obtain ⟨mine,cmd,granted⟩ := asks
    obtain ⟨i,free,next⟩ := safe
    obtain ⟨rfl,rfl⟩ := Prod.mk.inj (Option.some.inj back)
    have opened : doOpen D sh.pid (arrived s r) = some x := by
      simpa only [process,cmd,mine] using ok
    obtain ⟨answer,real,table⟩ := openTable (x := arrived s r) kept.table kept.width kept.files free opened (granted x ok)
    rw [answer,Int.toNat_natCast]
    refine ⟨kept.moved (kept.idle script (by simp)) (by simpa [Desk.opened] using kept.width) ?_ table,
      rfl,.inl ⟨rfl,next _ real⟩,turn⟩
    refine realSet Held.fp kept.files ?_
    rintro h ⟨⟩
    exact real
  | setNextin y => contradiction
  | execute job =>
    obtain ⟨child,keeps⟩ := spawnTable kept.files kept.real kept.table asks ok
    have table := keepsTable (keeps sh.pid (by simp [kept.table])) kept.table
    by_cases now : direct job.sep = true
    · simp only [returned,if_pos now] at back
      obtain ⟨rfl,rfl⟩ := Prod.mk.inj (Option.some.inj back)
      rw [Safe,if_pos now] at safe
      refine ⟨kept.moved (kept.idle script (by simp)) kept.width kept.files table,rfl,.inr ?_,turn.trans (by simp [pending,now,launchOf])⟩
      exact ⟨job,some (encoded sh.desk),by rw [launchOf,child],safe.1,.inr rfl,safe.2⟩
    · simp only [returned,if_neg now] at back
      obtain ⟨rfl,rfl⟩ := Prod.mk.inj (Option.some.inj back)
      rw [Safe,if_neg now] at safe
      refine ⟨⟨kept.real,kept.width,kept.files,table,?_⟩,rfl,.inl ⟨rfl,safe.2⟩,turn.trans (by simp [pending,now])⟩
      rintro q ⟨⟩
      exact ⟨asks.real,child,job,safe.1⟩
  | relay job =>
    obtain ⟨q,waits,spawns⟩ := asks
    obtain ⟨real,known,-⟩ := kept.launcher q waits
    obtain ⟨child,keeps⟩ := spawnTable kept.files real known spawns ok
    have table := keepsTable (keeps sh.pid (by simp [kept.table])) kept.table
    obtain ⟨rfl,rfl⟩ := Prod.mk.inj (Option.some.inj back)
    refine ⟨⟨kept.real,kept.width,kept.files,table,by rintro q ⟨⟩⟩,rfl,.inr ?_,turn.trans (by simp [pending,launchOf])⟩
    exact ⟨job,some (encoded sh.desk),by rw [launchOf,child],safe.1,.inr rfl,safe.2⟩

-- `earlier` are jobs that were read before the history begins.
structure Good (left : Desk → Prop) (pid : Pid) (a b : Int) (earlier : List Job) (s : Session σ)
    (history : List Launch) : Prop where
  wired : Always (Wired a b) history
  jobs : earlier ++ history.map (·.job) <+: s.jobs
  shell : ∀ sh, s.shell = some sh → sh.pid = pid ∧ Kept s.sys.vfs sh ∧
    Safe left a b (source a history) sh.desk sh.script ∧ earlier ++ history.map (·.job) ++ pending sh.script = s.jobs

theorem pendingLine (jobs : List Job) : pending (jobs.flatMap runJob) = jobs := by
  induction jobs with
  | nil => rfl
  | cons job rest ih =>
    have one : pending (runJob job) = [job] := by
      obtain ⟨text,sep⟩ := job
      cases sep <;> rfl
    rw [List.flatMap_cons,pending,List.filterMap_append]
    exact congrArg₂ (· ++ ·) one ih

theorem Fitting.wired {d : Desk} {job : Job} {child : Option (List Int)} {history : List Launch}
    (fits : Fitting b (source a history) d job)
    (spawned : child = none ∧ direct job.sep = true ∨ child = some (encoded d)) :
    Wired a b history ⟨job,d.made,child,files d⟩ := by
  have table : ∀ table, child = some table → table = encoded d := by
    intro table same
    rcases spawned with ⟨none,-⟩ | made
    · rw [none] at same
      contradiction
    · exact Option.some.inj (same.symm.trans made)
  obtain ⟨piped,⟨input,stdin⟩,⟨output,stdout⟩,closed⟩ := fits
  refine ⟨piped,fun none => ?_,fun t same => ?_,fun t same => ?_,closed⟩
  · rcases spawned with ⟨-,now⟩ | made
    · exact now
    · exact absurd (none.symm.trans made) (by simp)
  · rw [table t same]
    exact slotEncoded Held.fp stdin
  · rw [table t same]
    exact slotEncoded Held.fp stdout

theorem sourceNext (history : List Launch) (e : Launch) : source a (history ++ [e]) = (e.pipe.map (·.1)).getD a := by
  simp [source]

variable {pid : Pid} {earlier : List Job} {history : List Launch} {s' : Session σ}

theorem Good.next (good : Good left pid a b earlier s history) (sys : System σ) (shell : s.shell = some sh)
    (kept : Kept sys.vfs sh') (right : Right left a b (source a history) sh sh' out) :
    Good left pid a b earlier { s with sys := sys, shell := some sh' } (history ++ out) := by
  obtain ⟨mine,-,-,all⟩ := good.shell sh shell
  have accounted : earlier ++ (history ++ out).map (·.job) ++ pending sh'.script = s.jobs := by
    rw [← all,right.jobs]
    simp
  refine ⟨?_,⟨_,accounted⟩,fun sh'' now => ?_⟩
  · rcases right.outcome with ⟨rfl,-⟩ | ⟨job,child,rfl,fits,spawned,-⟩
    · rw [List.append_nil]
      exact good.wired
    · exact good.wired.snoc (fits.wired spawned)
  · cases Option.some.inj now
    refine ⟨right.pid.trans mine,kept,?_,accounted⟩
    rcases right.outcome with ⟨rfl,safe⟩ | ⟨job,child,rfl,-,-,safe⟩
    · rw [List.append_nil]
      exact safe
    · rw [sourceNext]
      exact safe

theorem stepGood (reads : ∀ d jobs, left d → Ended jobs → Safe left a b a d (jobs.flatMap runJob)) {act : Act}
    (good : Good left pid a b earlier s history) (allowed : Allowed D s act) (taken : step D s act = some (s',out)) :
    Good left pid a b earlier s' (history ++ out) := by
  cases act with
  | getcmd cmdline =>
    simp only [step,bind,Option.bind_eq_some_iff] at taken
    obtain ⟨sh,shell,taken⟩ := taken
    split at taken <;> try contradiction
    rename_i script
    obtain ⟨jobs,cut,last⟩ := Option.bind_eq_some_iff.mp taken
    cases Option.some.inj last
    obtain ⟨mine,kept,safe,all⟩ := good.shell sh shell
    rw [script] at safe all
    rw [List.append_nil]
    refine ⟨good.wired,good.jobs.trans (List.prefix_append _ _),fun sh' now => ?_⟩
    cases Option.some.inj now
    refine ⟨mine,⟨kept.real,kept.width,kept.files,kept.table,fun q waits => ?_⟩,?_,?_⟩
    · obtain ⟨-,-,job,rest,relay⟩ := kept.launcher q waits
      rw [script] at relay
      contradiction
    · rw [safe.1]
      exact reads sh.desk jobs safe.2 (splitEnds cut)
    · rw [pendingLine,← all]
      simp [pending]
  | call r =>
    simp only [step,bind,Option.bind_eq_some_iff] at taken
    obtain ⟨sh,shell,taken⟩ := taken
    split at taken <;> try contradiction
    rename_i op rest script
    simp only [Option.bind_eq_some_iff] at taken
    obtain ⟨x,served,⟨sh',out'⟩,back,last⟩ := taken
    obtain ⟨rfl,rfl⟩ := Prod.mk.inj (Option.some.inj last)
    obtain ⟨-,kept,safe,-⟩ := good.shell sh shell
    rw [script] at safe
    obtain ⟨next,right⟩ := callRight kept script safe (allowed sh op rest shell script) served back
    exact good.next ⟨x.vfs,x.drv⟩ shell next right
  | assign =>
    simp only [step,bind,Option.bind_eq_some_iff] at taken
    obtain ⟨sh,shell,taken⟩ := taken
    split at taken <;> try contradiction
    rename_i y rest script
    obtain ⟨rfl,rfl⟩ := Prod.mk.inj (Option.some.inj taken)
    obtain ⟨-,kept,safe,-⟩ := good.shell sh shell
    rw [script] at safe
    refine good.next s.sys shell (kept.moved (kept.idle script (by simp)) kept.width kept.files kept.table) ?_
    exact ⟨rfl,.inl ⟨rfl,safe⟩,by rw [script]; rfl⟩
  | cd =>
    simp only [step,bind,Option.bind_eq_some_iff] at taken
    obtain ⟨sh,shell,taken⟩ := taken
    split at taken <;> try contradiction
    rename_i job rest script
    split at taken <;> try contradiction
    rename_i now
    obtain ⟨rfl,rfl⟩ := Prod.mk.inj (Option.some.inj taken)
    obtain ⟨-,kept,safe,-⟩ := good.shell sh shell
    rw [script,Safe,if_pos now] at safe
    refine good.next s.sys shell (kept.moved (kept.idle script (by simp)) kept.width kept.files kept.table) ?_
    exact ⟨rfl,.inr ⟨job,none,rfl,safe.1,.inl ⟨rfl,now⟩,safe.2⟩,by rw [script]; simp [pending,now]⟩
  | exit =>
    simp only [step,bind,Option.bind_eq_some_iff] at taken
    obtain ⟨sh,shell,taken⟩ := taken
    have gone : s' = { s with shell := none } ∧ out = [] := by
      split at taken <;> try split at taken
      all_goals simp_all
    obtain ⟨rfl,rfl⟩ := gone
    rw [List.append_nil]
    exact ⟨good.wired,good.jobs,by simp⟩
  | other r =>
    simp only [step,bind,Option.bind_eq_some_iff] at taken
    obtain ⟨x,served,last⟩ := taken
    obtain ⟨rfl,rfl⟩ := Prod.mk.inj (Option.some.inj last)
    rw [List.append_nil]
    refine ⟨good.wired,good.jobs,fun sh shell => ?_⟩
    obtain ⟨mine,kept,safe,all⟩ := good.shell sh shell
    obtain ⟨own,launcher⟩ := allowed sh shell
    have record : Keeps s.sys.vfs x.vfs sh.pid := by
      rcases own with other | call
      · exact processKeeps (x := arrived s r) rfl other served
      · exact .same (rwTasks (x := arrived s r) call served)
    refine ⟨mine,⟨kept.real,kept.width,kept.files,keepsTable record kept.table,fun q waits => ?_⟩,safe,all⟩
    obtain ⟨real,known,relay⟩ := kept.launcher q waits
    exact ⟨real,keepsTable (processKeeps (x := arrived s r) rfl (launcher q waits) served) known,relay⟩

theorem openedGood {e : Int} (opened : Opened pid a b e s) : Good (Rests a b e) pid a b [] s [] := by
  obtain ⟨argv1,nextin,pip,t,reala,realb,reale,real,found,table,shell,none⟩ := opened
  refine ⟨alwaysNil _,by simp,fun sh same => ?_⟩
  cases Option.some.inj (shell.symm.trans same)
  refine ⟨rfl,⟨real,rfl,?_,foundTable found table,by simp⟩,startSafe argv1 rfl rfl rfl,?_⟩
  · intro h member
    simp only [List.mem_cons,Option.some.injEq,List.not_mem_nil,or_false,reduceCtorEq] at member
    rcases member with rfl | rfl | rfl
    · exact reala
    · exact realb
    · exact reale
  · rw [none]
    cases argv1 <;> rfl

theorem runGood (reads : ∀ d jobs, left d → Ended jobs → Safe left a b a d (jobs.flatMap runJob)) {init : Session σ → Prop}
    (base : ∀ s, init s → Good left pid a b earlier s []) (run : Reaches (step D) (Allowed D) init s history) :
    Good left pid a b earlier s history :=
  run.invariant base (fun _ _ _ _ _ good allowed taken => stepGood reads good allowed taken)

theorem Quiet.table {e : Int} {f : Option Int} {fin : Int} {d : Desk} (quiet : Quiet a b e f fin d) :
    encoded d = [a,b,e,a,b,-1,f.getD (-1),-1] := by
  rw [encoded,quiet.held]
  cases f <;> rfl

theorem pipelineWiring {e : Int} (run : Reaches (step D) (Allowed D) (Opened pid a b e) s history) :
    Always (Wired a b) history ∧ history.map (·.job) <+: s.jobs ∧
    ∀ sh, s.shell = some sh → sh.script = [] → history.map (·.job) = s.jobs ∧
      ∃ f, tableOf s.sys.vfs pid = some [a,b,e,a,b,-1,f,-1] ∧ (sh.desk.fin = 0 ∧ f = -1 ∨ sh.desk.fin = 6 ∧ 0 ≤ f) ∧
      ∀ s' more sh', Reaches (step D) (Allowed D) (· = s) s' more → s'.shell = some sh' → sh'.script = [] →
        tableOf s'.sys.vfs pid = tableOf s.sys.vfs pid := by
  have good : Good (Rests a b e) pid a b [] s history := by
    refine runGood ?_ (fun _ => openedGood) run
    rintro d jobs ⟨f,fin,quiet,mode⟩ ⟨front,last,rfl⟩
    exact (lineSafe quiet.between).weaken (fun d quiet => ⟨f,fin,quiet,mode⟩)
  refine ⟨good.wired,good.jobs,fun sh shell script => ?_⟩
  obtain ⟨mine,kept,safe,all⟩ := good.shell sh shell
  rw [script] at safe all
  obtain ⟨start,f,fin,quiet,mode⟩ := safe
  have table : tableOf s.sys.vfs pid = some [a,b,e,a,b,-1,f.getD (-1),-1] := by
    rw [← mine,kept.table,quiet.table]
  refine ⟨by simpa [pending] using all,f.getD (-1),table,?_,fun s' more sh' later shell' script' => ?_⟩
  · rcases mode with ⟨rfl,rfl⟩ | ⟨rfl,x,rfl,real⟩
    · exact .inl ⟨quiet.fin,rfl⟩
    · exact .inr ⟨quiet.fin,real⟩
  · have again : Good (Quiet a b e f fin) pid a b s.jobs s' more := by
      refine runGood ?_ ?_ later
      · rintro d jobs quiet ⟨front,last,rfl⟩
        exact lineSafe quiet.between
      · rintro _ rfl
        refine ⟨alwaysNil _,by simp,fun sh'' same => ?_⟩
        cases Option.some.inj (shell.symm.trans same)
        rw [script]
        exact ⟨mine,kept,⟨rfl,quiet⟩,by simp [pending]⟩
    obtain ⟨mine',kept',safe',-⟩ := again.shell sh' shell'
    rw [script'] at safe'
    rw [← mine',kept'.table,safe'.2.table,mine',table]

end

/-! An interactive shell reads `a|b`. -/

section
variable {σ : Type} {D : Drivers σ} {s : Session σ} {sh : Shell} {r : Request}

instance {good : Msg → Prop} [DecidablePred good] : Decidable (Succeeds D s r good) :=
  decidable_of_iff ((process D r (arrived s r)).all (fun x => decide (good x.msg))) (by simp [Succeeds,Option.all_eq_true])

instance {parent : Pid} : Decidable (Spawns s parent r) :=
  decidable_of_iff (r.msg.cmd = .addtask ∧ r.msg.w0.toNat ≠ 0 ∧ vfsFindbypid s.sys.vfs r.msg.w0.toNat = none ∧
    r.msg.w1 = parent ∧ r.kmalloc 0 = true) ⟨fun ⟨a,b,c,d,e⟩ => ⟨a,b,c,d,e⟩,fun ⟨a,b,c,d,e⟩ => ⟨a,b,c,d,e⟩⟩

instance {parent : Option Pid} : Decidable (∃ q, parent = some q ∧ Spawns s q r) :=
  decidable_of_iff (parent.any (fun q => decide (Spawns s q r))) (by simp [Option.any_eq_true])

instance : (op : Op) → Decidable (Asks D s sh r op)
  | .close _ => inferInstanceAs (Decidable (_ ∧ _ ∧ _))
  | .dup _ _ => inferInstanceAs (Decidable (_ ∧ _ ∧ _ ∧ Succeeds D s r (0 ≤ ·.w0)))
  | .pipe => inferInstanceAs (Decidable (_ ∧ _ ∧ Succeeds D s r (·.w2 = 0)))
  | .open_ => inferInstanceAs (Decidable (_ ∧ _ ∧ Succeeds D s r (0 ≤ ·.w0)))
  | .execute _ => inferInstanceAs (Decidable (Spawns s sh.pid r))
  | .relay _ => inferInstanceAs (Decidable (∃ q, sh.launcher = some q ∧ Spawns s q r))
  | .setNextin _ => inferInstanceAs (Decidable True)

def checked (D : Drivers σ) (s : Session σ) : Act → Bool
  | .call r =>
    match s.shell with
    | some sh =>
      match sh.script with
      | op::_ => decide (Asks D s sh r op)
      | [] => false
    | none => false
  | .other _ => false
  | _ => true

theorem checkedAllowed (s : Session σ) (act : Act) (ok : checked D s act = true) : Allowed D s act := by
  cases act with
  | call r =>
    intro sh op rest shell script
    simpa [checked,shell,script] using ok
  | other r => contradiction
  | _ => trivial

end

def demoVfs : Tables := ⟨[30,31,0,0,0,0],0,List.replicate 3 ⟨1,0,1,0⟩ ++ List.replicate 13 ⟨0,0,0,0⟩,
  [⟨50,[0,1,2,-1,-1,-1,-1,-1],1,0,1,0⟩],0⟩

def demoShell : Session Devices := ⟨⟨demoVfs,drivers.start (drivers.start noDevices 30 .pipedev) 31 .ttyUsart0⟩,
  some ⟨50,start false,⟨0,(0,0),0,[some ⟨0,.stdin⟩,some ⟨1,.stdout⟩,some ⟨2,.stderr⟩,none,none,none,none,none],0,none⟩,
    none⟩,[]⟩

def demoCall (cmd : Cmd) (w0 : Int) : Act := .call (demoRequest 50 (demoMsg cmd w0 0 0))
def demoTask (task parent : Int) : Act := .call (demoRequest 40 (demoMsg .addtask task parent 0))

def demoInit : List Act := [demoCall .close 0,demoCall .dup 3,demoCall .close 1,demoCall .dup 4,.assign]

def demoPipeline : List Act :=
  [demoCall .dup 0,demoCall .dup 1] ++ demoInit ++ [demoCall .dup 0,demoCall .close 5,.getcmd ['a','|','b',nul]] ++
  [demoCall .close 0,demoCall .dup 3,demoCall .close 5,demoCall .pipe 0,demoCall .close 1,demoCall .dup 6,
    demoCall .close 6,.assign,demoTask 60 50,demoTask 61 60] ++
  [demoCall .close 0,demoCall .dup 5,demoCall .close 5,demoCall .close 1,demoCall .dup 4,demoTask 62 50] ++ demoInit

def demoLaunches : List Launch :=
  [⟨⟨['a'],.pipe⟩,some (3,4),some [0,4,2,0,1,3,-1,-1],
    [some .stdin,some (.writeEnd 0),some .stderr,some .stdin,some .stdout,some (.readEnd 0),none,none]⟩,
   ⟨⟨['b'],.eol⟩,none,some [3,1,2,0,1,-1,-1,-1],
    [some (.readEnd 0),some .stdout,some .stderr,some .stdin,some .stdout,none,none,none]⟩]

theorem pipelineWiringOfTwo : ∃ s, Reaches (step drivers) (Allowed drivers) (Opened 50 0 1 2) s demoLaunches ∧
    Always (Wired 0 1) demoLaunches ∧ ∃ f, tableOf s.sys.vfs 50 = some [0,1,2,0,1,-1,f,-1] := by
  have opened : Opened 50 0 1 2 demoShell :=
    ⟨false,0,(0,0),_,by decide,by decide,by decide,by decide,rfl,rfl,rfl,rfl⟩
  have start : Reaches (step drivers) (Allowed drivers) (Opened 50 0 1 2) demoShell [] := .start opened
  have followed : (follow (step drivers) (checked drivers) demoShell demoPipeline).map
      (fun x => (x.2,x.1.shell.map (·.script))) = some (demoLaunches,some []) := by rfl
  obtain ⟨⟨s,out⟩,ran,same⟩ := Option.map_eq_some_iff.mp followed
  obtain ⟨rfl,idle⟩ := Prod.mk.inj same
  obtain ⟨sh,shell,script⟩ := Option.map_eq_some_iff.mp idle
  have run := start.follows checkedAllowed demoPipeline ran
  obtain ⟨wired,-,between⟩ := pipelineWiring run
  obtain ⟨-,f,table,-⟩ := between sh shell script
  exact ⟨s,run,wired,f,table⟩

end Avros.Pipeline
