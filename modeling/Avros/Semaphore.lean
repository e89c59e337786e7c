import Mathlib.Algebra.GroupWithZero.Nat
import Avros.Run
import Avros.Queue

/-! `servers/sema.c`: counting semaphores kept by a server. A client that calls waitsema gets
its answer when it may enter, at once or at a later signal of somebody else. -/
namespace Avros.Semaphore
open Run

abbrev Pid := Nat

-- sema_t, less its links.
structure Sema where
  value : Nat
  clientQ : List Nat
  deriving DecidableEq, Repr

-- Semaphores and waiting clients are kept by the address of their structure.
structure Server where
  semaQ : List Nat
  sema : Nat → Sema
  client : Nat → Pid

inductive Cmd where
  | error
  | create
  | delete
  | wait
  | signal
  | get
  deriving DecidableEq, Repr

structure Msg where
  sema : Nat
  cmd : Cmd
  val : Nat
  deriving DecidableEq, Repr

section
variable (s : Server) (x : Nat)

def setSema (sema : Sema) : Server := { s with sema := fun y => if y = x then sema else s.sema y }

def newsema (val kmalloc : Nat) : Server × Nat :=
  if kmalloc ≠ 0 then (setSema s kmalloc ⟨val,[]⟩,kmalloc) else (s,kmalloc)

def decreasesema : Server × Nat :=
  if x = 0 then (s,0)
  else
    let val := (s.sema x).value
    if (s.sema x).value ≠ 0 then (setSema s x { s.sema x with value := (s.sema x).value - 1 },val) else (s,val)

-- An unsigned int has 16 bits.
def increasesema : Server :=
  if x ≠ 0 then setSema s x { s.sema x with value := ((s.sema x).value + 1) % 2 ^ 16 } else s

def addclient (pid : Pid) (kmalloc : Nat) : Server :=
  if x = 0 ∨ pid = 0 then s
  else if kmalloc = 0 then s
  else
    let s := { s with client := fun a => if a = kmalloc then pid else s.client a }
    setSema s x { s.sema x with clientQ := Queue.qEnd (s.sema x).clientQ kmalloc }

def firstclient : Nat := if x ≠ 0 then (s.sema x).clientQ.headD 0 else 0

def removeclient (pid : Pid) : Server :=
  if pid = 0 then s
  else
    let cli := firstclient s x
    if cli = 0 then s
    else if s.client cli ≠ pid then s
    else setSema s x { s.sema x with clientQ := Queue.qRemv (s.sema x).clientQ cli }

def waiter : Pid :=
  let cli := firstclient s x
  if cli = 0 then 0 else s.client cli

def getvalue : Nat := if x = 0 then 0 else (s.sema x).value

end

-- One turn of the loop: what is received, and to whom the message is sent on or back.
def semasrv (s : Server) (client : Pid) (msg : Msg) (kmalloc : Nat) : Server × Option (Pid × Msg) :=
  match msg.cmd with
  | .create =>
    let (s,new) := newsema s msg.val kmalloc
    ({ s with semaQ := Queue.qFront s.semaQ new },some (client,{ msg with sema := new }))
  | .delete =>
    if waiter s msg.sema ≠ 0 then (s,none) /- Sorry.. -/
    else ({ s with semaQ := Queue.qRemv s.semaQ msg.sema },some (client,msg))
  | .wait =>
    let (s,val) := decreasesema s msg.sema
    if val ≠ 0 then (s,some (client,msg)) else (addclient s msg.sema client kmalloc,none)
  | .signal =>
    let client := waiter s msg.sema
    if client ≠ 0 then (removeclient s msg.sema client,some (client,msg)) else (increasesema s msg.sema,none)
  | .get => (s,some (client,{ msg with val := getvalue s msg.sema }))
  | .error => (s,none)

structure Input where
  client : Pid
  msg : Msg
  kmalloc : Nat
  deriving DecidableEq, Repr

inductive Event where
  | received (client : Pid) (msg : Msg)
  | sent (client : Pid) (msg : Msg)
  deriving DecidableEq, Repr

def step : Step Server Input Event := fun s i =>
  let (s,reply) := semasrv s i.client i.msg i.kmalloc
  some (s,.received i.client i.msg::reply.toList.map (fun r => .sent r.1 r.2))

/-! A counting semaphore by itself: `value` entries are left, the clients in `waiting` stand
in line for one. -/

structure Balanced {α : Type} (v value : Nat) (waiting waits grants : List α) (signals : Nat) : Prop where
  conserved : v + signals = value + grants.length
  order : waits = grants ++ waiting
  idle : 0 < value → waiting = []

section
variable {α : Type} {v value signals : Nat} {waiting waits grants : List α} {c : α}

theorem Balanced.fresh (v : Nat) : Balanced v v ([] : List α) [] [] 0 := ⟨rfl,rfl,fun _ => rfl⟩

theorem Balanced.enter (held : Balanced v value waiting waits grants signals) (free : value ≠ 0) :
    Balanced v (value - 1) waiting (waits ++ [c]) (grants ++ [c]) signals := by
  have nobody := held.idle (Nat.pos_of_ne_zero free)
  have before := held.conserved
  refine ⟨?_,?_,fun _ => nobody⟩
  · rw [List.length_append,List.length_singleton]
    omega
  · rw [held.order,nobody]
    simp

theorem Balanced.line (held : Balanced v 0 waiting waits grants signals) :
    Balanced v 0 (waiting ++ [c]) (waits ++ [c]) grants signals :=
  ⟨held.conserved,by rw [held.order,List.append_assoc],fun free => absurd free (Nat.lt_irrefl 0)⟩

theorem Balanced.hand (held : Balanced v value (c::waiting) waits grants signals) :
    Balanced v value waiting waits (grants ++ [c]) (signals + 1) := by
  have before := held.conserved
  refine ⟨?_,?_,?_⟩
  · rw [List.length_append,List.length_singleton]
    omega
  · rw [held.order]
    simp
  · intro free
    have none := held.idle free
    contradiction

theorem Balanced.raise (held : Balanced v value [] waits grants signals) :
    Balanced v (value + 1) [] waits grants (signals + 1) := by
  have before := held.conserved
  exact ⟨by omega,held.order,fun _ => rfl⟩

end

def view (s : Server) (x : Nat) : Nat × List Pid := ((s.sema x).value,(s.sema x).clientQ.map s.client)

structure Sound (s : Server) : Prop where
  once : s.semaQ.Nodup
  real : ∀ x ∈ s.semaQ, x ≠ 0
  clients : ∀ x ∈ s.semaQ, ∀ a ∈ (s.sema x).clientQ, a ≠ 0 ∧ s.client a ≠ 0

structure Fresh (s : Server) (a : Nat) : Prop where
  sema : a ∉ s.semaQ
  client : ∀ x ∈ s.semaQ, a ∉ (s.sema x).clientQ

-- A message of createsema, deletesema, waitsema, signalsema or getsema about a semaphore that exists.
structure Proper (s : Server) (i : Input) : Prop where
  client : i.client ≠ 0
  known : i.msg.cmd ≠ .create → i.msg.sema ∈ s.semaQ
  kmalloc : i.kmalloc ≠ 0 → Fresh s i.kmalloc
  call : i.msg.cmd ≠ .error

structure Edit (s s' : Server) (x value : Nat) (line : List Pid) : Prop where
  semas : s'.semaQ = s.semaQ
  own : view s' x = (value,line)
  others : ∀ y ∈ s.semaQ, y ≠ x → view s' y = view s y

inductive Turn (s : Server) (i : Input) : Server → Option (Pid × Msg) → Prop where
  | create {s'} (cmd : i.msg.cmd = .create) (real : i.kmalloc ≠ 0) (fresh : i.kmalloc ∉ s.semaQ)
      (semas : s'.semaQ = i.kmalloc::s.semaQ) (own : view s' i.kmalloc = (i.msg.val,[]))
      (others : ∀ y ∈ s.semaQ, view s' y = view s y) :
      Turn s i s' (some (i.client,{ i.msg with sema := i.kmalloc }))
  | full (cmd : i.msg.cmd = .create) : Turn s i s (some (i.client,{ i.msg with sema := 0 }))
  | refuse (cmd : i.msg.cmd = .delete) (busy : (view s i.msg.sema).2 ≠ []) : Turn s i s none
  | delete {s'} (cmd : i.msg.cmd = .delete) (free : (view s i.msg.sema).2 = [])
      (semas : s'.semaQ = s.semaQ.erase i.msg.sema) (others : ∀ y, view s' y = view s y) :
      Turn s i s' (some (i.client,i.msg))
  | enter {s'} (cmd : i.msg.cmd = .wait) (free : (view s i.msg.sema).1 ≠ 0)
      (edit : Edit s s' i.msg.sema ((view s i.msg.sema).1 - 1) (view s i.msg.sema).2) :
      Turn s i s' (some (i.client,i.msg))
  | line {s'} (cmd : i.msg.cmd = .wait) (busy : (view s i.msg.sema).1 = 0) (room : i.kmalloc ≠ 0)
      (edit : Edit s s' i.msg.sema 0 ((view s i.msg.sema).2 ++ [i.client])) : Turn s i s' none
  | lost (cmd : i.msg.cmd = .wait) (busy : (view s i.msg.sema).1 = 0) (full : i.kmalloc = 0) : Turn s i s none
  | hand {s' c rest} (cmd : i.msg.cmd = .signal) (first : (view s i.msg.sema).2 = c::rest)
      (edit : Edit s s' i.msg.sema (view s i.msg.sema).1 rest) : Turn s i s' (some (c,i.msg))
  | raise {s'} (cmd : i.msg.cmd = .signal) (nobody : (view s i.msg.sema).2 = [])
      (edit : Edit s s' i.msg.sema (((view s i.msg.sema).1 + 1) % 2 ^ 16) []) : Turn s i s' none
  | get (cmd : i.msg.cmd = .get) : Turn s i s (some (i.client,{ i.msg with val := getvalue s i.msg.sema }))

section
variable {s s' : Server} {x : Nat} {i : Input}

theorem setSemaEdit (s : Server) (x : Nat) (sema : Sema) :
    Edit s (setSema s x sema) x sema.value (sema.clientQ.map s.client) := by
  refine ⟨rfl,?_,?_⟩
  · simp [view,setSema]
  · intro y _ other
    simp [view,setSema,other]

theorem Sound.setSema {sema : Sema} (sound : Sound s) (clients : ∀ a ∈ sema.clientQ, a ≠ 0 ∧ s.client a ≠ 0) :
    Sound (setSema s x sema) := by
  refine ⟨sound.once,sound.real,fun y member a queued => ?_⟩
  by_cases same : y = x
  · exact clients a (by simpa [Semaphore.setSema,same] using queued)
  · exact sound.clients y member a (by simpa [Semaphore.setSema,same] using queued)

theorem nameKept {k : Nat} {pid : Pid} (real : pid ≠ 0) (fresh : Fresh s k) :
    (∀ y ∈ s.semaQ, view { s with client := fun a => if a = k then pid else s.client a } y = view s y) ∧
    (Sound s → Sound { s with client := fun a => if a = k then pid else s.client a }) := by
  constructor
  · intro y known
    have same : (s.sema y).clientQ.map (fun a => if a = k then pid else s.client a) =
        (s.sema y).clientQ.map s.client := by
      refine List.map_congr_left (fun a queued => if_neg ?_)
      rintro rfl
      exact fresh.client y known queued
    exact congrArg (Prod.mk _) same
  · intro sound
    refine ⟨sound.once,sound.real,fun y known a queued => ?_⟩
    obtain ⟨own,named⟩ := sound.clients y known a queued
    refine ⟨own,?_⟩
    change (if a = k then pid else s.client a) ≠ 0
    split
    · exact real
    · exact named

theorem waiterFirst (sound : Sound s) (member : x ∈ s.semaQ) :
    (waiter s x = 0 ∧ (s.sema x).clientQ = []) ∨
    ∃ a rest, (s.sema x).clientQ = a::rest ∧ firstclient s x = a ∧ waiter s x = s.client a ∧ a ≠ 0 ∧ s.client a ≠ 0 := by
  have real := sound.real x member
  cases line : (s.sema x).clientQ with
  | nil => exact .inl ⟨by simp [waiter,firstclient,line],rfl⟩
  | cons a rest =>
    obtain ⟨own,named⟩ := sound.clients x member a (by simp [line])
    have first : firstclient s x = a := by simp [firstclient,real,line]
    refine .inr ⟨a,rest,rfl,first,?_,own,named⟩
    simp [waiter,first,own]

theorem turnDelete (sound : Sound s) (proper : Proper s i) (cmd : i.msg.cmd = .delete) :
    Turn s i (semasrv s i.client i.msg i.kmalloc).1 (semasrv s i.client i.msg i.kmalloc).2 ∧
      Sound (semasrv s i.client i.msg i.kmalloc).1 := by
  have member := proper.known (by rw [cmd]; decide)
  have real := sound.real _ member
  simp only [semasrv,cmd]
  rcases waiterFirst sound member with ⟨nobody,line⟩ | ⟨a,rest,line,-,who,-,named⟩
  · rw [if_neg (not_not.mpr nobody)]
    refine ⟨.delete cmd (by simp [view,line]) ?_ (fun y => rfl),?_⟩
    · simp [Queue.qRemv,real]
    · have fewer : ∀ y, y ∈ Queue.qRemv s.semaQ i.msg.sema → y ∈ s.semaQ := fun y => Queue.memRemv
      refine ⟨?_,fun y old => sound.real y (fewer y old),fun y old => sound.clients y (fewer y old)⟩
      rw [Queue.qRemv,if_neg real]
      exact sound.once.erase _
  · rw [if_pos (by rw [who]; exact named)]
    exact ⟨.refuse cmd (by simp [view,line]),sound⟩

theorem turnWait (sound : Sound s) (proper : Proper s i) (cmd : i.msg.cmd = .wait) :
    Turn s i (semasrv s i.client i.msg i.kmalloc).1 (semasrv s i.client i.msg i.kmalloc).2 ∧
      Sound (semasrv s i.client i.msg i.kmalloc).1 := by
  have member := proper.known (by rw [cmd]; decide)
  have real := sound.real _ member
  by_cases free : (s.sema i.msg.sema).value = 0
  · have turn : semasrv s i.client i.msg i.kmalloc = (addclient s i.msg.sema i.client i.kmalloc,none) := by
      simp [semasrv,cmd,decreasesema,real,free]
    rw [turn]
    unfold addclient
    rw [if_neg (by simp [real,proper.client])]
    by_cases full : i.kmalloc = 0
    · rw [if_pos full]
      exact ⟨.lost cmd free full,sound⟩
    · rw [if_neg full]
      have fresh := proper.kmalloc full
      have named := nameKept (s := s) proper.client fresh
      have edit := setSemaEdit { s with client := fun a => if a = i.kmalloc then i.client else s.client a } i.msg.sema
        { s.sema i.msg.sema with clientQ := Queue.qEnd (s.sema i.msg.sema).clientQ i.kmalloc }
      refine ⟨.line cmd free full ⟨edit.semas,?_,?_⟩,(named.2 sound).setSema ?_⟩
      · rw [edit.own,← named.1 _ member]
        simp [view,Queue.qEnd,full,free]
      · intro y known other
        rw [edit.others y known other,named.1 y known]
      · intro a queued
        rcases Queue.memEnd queued with rfl | old
        · exact ⟨full,by simpa using proper.client⟩
        · exact (named.2 sound).clients _ member a old
  · have turn : semasrv s i.client i.msg i.kmalloc =
        (setSema s i.msg.sema { s.sema i.msg.sema with value := (s.sema i.msg.sema).value - 1 },some (i.client,i.msg)) := by
      simp [semasrv,cmd,decreasesema,real,free]
    rw [turn]
    exact ⟨.enter cmd free (setSemaEdit s _ _),sound.setSema (sound.clients _ member)⟩

theorem turnSignal (sound : Sound s) (proper : Proper s i) (cmd : i.msg.cmd = .signal) :
    Turn s i (semasrv s i.client i.msg i.kmalloc).1 (semasrv s i.client i.msg i.kmalloc).2 ∧
      Sound (semasrv s i.client i.msg i.kmalloc).1 := by
  have member := proper.known (by rw [cmd]; decide)
  have real := sound.real _ member
  simp only [semasrv,cmd]
  rcases waiterFirst sound member with ⟨nobody,line⟩ | ⟨a,rest,line,first,who,own,named⟩
  · rw [if_neg (not_not.mpr nobody)]
    unfold increasesema
    rw [if_pos real]
    have edit := setSemaEdit s i.msg.sema
      { s.sema i.msg.sema with value := ((s.sema i.msg.sema).value + 1) % 2 ^ 16 }
    refine ⟨.raise cmd (by simp [view,line]) ⟨edit.semas,?_,edit.others⟩,sound.setSema (sound.clients _ member)⟩
    rw [edit.own]
    simp [view,line]
  · have some_ : waiter s i.msg.sema ≠ 0 := by
      rw [who]
      exact named
    have gone : Queue.qRemv (s.sema i.msg.sema).clientQ a = rest := by
      simp [Queue.qRemv,own,line]
    have turn : removeclient s i.msg.sema (waiter s i.msg.sema) =
        setSema s i.msg.sema { s.sema i.msg.sema with clientQ := rest } := by
      unfold removeclient
      rw [if_neg some_,first,if_neg own,if_neg (not_not.mpr who.symm),gone]
    rw [if_pos some_,turn,who]
    refine ⟨.hand cmd (by simp [view,line]) (setSemaEdit s _ _),sound.setSema (fun b queued => ?_)⟩
    exact sound.clients _ member b (by rw [line]; exact List.mem_cons_of_mem a queued)

theorem turnCreate (sound : Sound s) (proper : Proper s i) (cmd : i.msg.cmd = .create) :
    Turn s i (semasrv s i.client i.msg i.kmalloc).1 (semasrv s i.client i.msg i.kmalloc).2 ∧
      Sound (semasrv s i.client i.msg i.kmalloc).1 := by
  by_cases full : i.kmalloc = 0
  · have turn : semasrv s i.client i.msg i.kmalloc = (s,some (i.client,{ i.msg with sema := 0 })) := by
      simp [semasrv,cmd,newsema,full,Queue.qFront]
    rw [turn]
    exact ⟨.full cmd,sound⟩
  · have turn : semasrv s i.client i.msg i.kmalloc = ({ setSema s i.kmalloc ⟨i.msg.val,[]⟩ with
        semaQ := i.kmalloc::s.semaQ },some (i.client,{ i.msg with sema := i.kmalloc })) := by
      simp [semasrv,cmd,newsema,full,Queue.qFront,setSema]
    rw [turn]
    have fresh := proper.kmalloc full
    have edit := setSemaEdit s i.kmalloc ⟨i.msg.val,[]⟩
    have sound' : Sound (setSema s i.kmalloc ⟨i.msg.val,[]⟩) := sound.setSema (by simp)
    have others : ∀ y ∈ s.semaQ, y ≠ i.kmalloc := fun y known same => fresh.sema (same ▸ known)
    refine ⟨.create cmd full fresh.sema rfl edit.own (fun y known => edit.others y known (others y known)),
      List.nodup_cons.mpr ⟨fresh.sema,sound.once⟩,?_,?_⟩
    · exact List.forall_mem_cons.mpr ⟨full,sound.real⟩
    · exact List.forall_mem_cons.mpr ⟨by simp [setSema],sound'.clients⟩

theorem turn (sound : Sound s) (proper : Proper s i) :
    Turn s i (semasrv s i.client i.msg i.kmalloc).1 (semasrv s i.client i.msg i.kmalloc).2 ∧
      Sound (semasrv s i.client i.msg i.kmalloc).1 := by
  cases cmd : i.msg.cmd with
  | error => exact absurd cmd proper.call
  | create => exact turnCreate sound proper cmd
  | delete => exact turnDelete sound proper cmd
  | wait => exact turnWait sound proper cmd
  | signal => exact turnSignal sound proper cmd
  | get =>
    simp only [semasrv,cmd]
    exact ⟨cmd ▸ .get cmd,sound⟩

end

/-! The account of one semaphore -/

def waitsOf (x : Nat) (events : List Event) : List Pid := events.filterMap (fun e =>
  match e with
  | .received client msg => if msg.cmd = .wait ∧ msg.sema = x then some client else none
  | .sent _ _ => none)

def grantsOf (x : Nat) (events : List Event) : List Pid := events.filterMap (fun e =>
  match e with
  | .received _ _ => none
  | .sent client msg => if (msg.cmd = .wait ∨ msg.cmd = .signal) ∧ msg.sema = x then some client else none)

def signalsOf (x : Nat) (events : List Event) : Nat := events.countP (fun e =>
  match e with
  | .received _ msg => msg.cmd = .signal ∧ msg.sema = x
  | .sent _ _ => false)

-- The value a semaphore was created with and all events since.
def lives (x : Nat) (life : Option (Nat × List Event)) (e : Event) : Option (Nat × List Event) :=
  match e with
  | .received _ _ => life.map (fun u => (u.1,u.2 ++ [e]))
  | .sent _ msg =>
    if msg.sema = x ∧ msg.cmd = .create then some (msg.val,[])
    else if msg.sema = x ∧ msg.cmd = .delete then none
    else life.map (fun u => (u.1,u.2 ++ [e]))

def life (x : Nat) (history : List Event) : Option (Nat × List Event) := history.foldl (lives x) none

def Accounted (s : Server) (x : Nat) : Option (Nat × List Event) → Prop
  | none => x ∉ s.semaQ
  | some u => x ∈ s.semaQ ∧
      Balanced u.1 (view s x).1 (view s x).2 (waitsOf x u.2) (grantsOf x u.2) (signalsOf x u.2)

structure Legal (s : Server) (i : Input) : Prop extends Proper s i where
  room : i.msg.cmd = .wait → i.kmalloc ≠ 0
  small : i.msg.cmd = .signal → (s.sema i.msg.sema).value + 1 < 2 ^ 16

section
variable {s s' : Server} {x : Nat} {i : Input} {history out : List Event} {l : Option (Nat × List Event)}

def Plain (x : Nat) : Event → Prop
  | .received _ _ => True
  | .sent _ msg => msg.sema = x → msg.cmd ≠ .create ∧ msg.cmd ≠ .delete

theorem livesPlain {e : Event} (plain : Plain x e) : lives x l e = l.map (fun u => (u.1,u.2 ++ [e])) := by
  cases e with
  | received client msg => rfl
  | sent client msg =>
    unfold lives
    simp only
    rw [if_neg (fun both => (plain both.1).1 both.2),if_neg (fun both => (plain both.1).2 both.2)]

theorem livesAll (plain : ∀ e ∈ out, Plain x e) :
    out.foldl (lives x) l = l.map (fun u => (u.1,u.2 ++ out)) := by
  induction out generalizing l with
  | nil => simp
  | cons e rest ih =>
    obtain ⟨first,later⟩ := List.forall_mem_cons.mp plain
    rw [List.foldl_cons,livesPlain first,ih later,Option.map_map]
    congr 1
    funext u
    simp

theorem Accounted.next (held : Accounted s x l) (plain : ∀ e ∈ out, Plain x e) (same : x ∈ s'.semaQ ↔ x ∈ s.semaQ)
    (balance : x ∈ s.semaQ → ∀ v waits grants signals, Balanced v (view s x).1 (view s x).2 waits grants signals →
      Balanced v (view s' x).1 (view s' x).2 (waits ++ waitsOf x out) (grants ++ grantsOf x out)
        (signals + signalsOf x out)) : Accounted s' x (out.foldl (lives x) l) := by
  rw [livesAll plain]
  cases l with
  | none => exact fun member => held (same.mp member)
  | some u =>
    obtain ⟨member,balanced⟩ := held
    refine ⟨same.mpr member,?_⟩
    have next := balance member _ _ _ _ balanced
    rwa [waitsOf,grantsOf,signalsOf,List.filterMap_append,List.filterMap_append,List.countP_append]

theorem Accounted.quiet (held : Accounted s x l) (plain : ∀ e ∈ out, Plain x e) (same : x ∈ s'.semaQ ↔ x ∈ s.semaQ)
    (views : x ∈ s.semaQ → view s' x = view s x) (waits : waitsOf x out = []) (grants : grantsOf x out = [])
    (signals : signalsOf x out = 0) : Accounted s' x (out.foldl (lives x) l) := by
  refine held.next plain same (fun member v ws gs n balanced => ?_)
  rw [views member,waits,grants,signals,List.append_nil,List.append_nil]
  exact balanced

def noted (i : Input) (reply : Option (Pid × Msg)) : List Event :=
  .received i.client i.msg::reply.toList.map (fun r => .sent r.1 r.2)

theorem plainNone : ∀ e ∈ noted i none, Plain x e := by simp [noted,Plain]

theorem plainSome {c : Pid} {msg : Msg} (other : msg.sema = x → msg.cmd ≠ .create ∧ msg.cmd ≠ .delete) :
    ∀ e ∈ noted i (some (c,msg)), Plain x e := by
  simpa [noted,Plain] using other

theorem Accounted.elsewhere {value : Nat} {line : List Pid} {reply : Option (Pid × Msg)} (held : Accounted s x l)
    (edit : Edit s s' i.msg.sema value line) (other : x ≠ i.msg.sema) (plain : ∀ e ∈ noted i reply, Plain x e)
    (sema : ∀ c msg, reply = some (c,msg) → msg.sema = i.msg.sema) :
    Accounted s' x ((noted i reply).foldl (lives x) l) := by
  have differs : i.msg.sema ≠ x := other.symm
  refine held.quiet plain (by rw [edit.semas]) (fun member => edit.others x member other) ?_ ?_ ?_
  · cases reply <;> simp [noted,waitsOf,differs]
  · cases reply with
    | none => simp [noted,grantsOf]
    | some r => simp [noted,grantsOf,sema r.1 r.2 rfl,differs]
  · cases reply <;> simp [noted,signalsOf,differs]

theorem Accounted.turn {reply : Option (Pid × Msg)} (held : Accounted s x l) (sound : Sound s) (legal : Legal s i)
    (turned : Turn s i s' reply) (real : x ≠ 0) : Accounted s' x ((noted i reply).foldl (lives x) l) := by
  cases turned with
  | create cmd own fresh semas new others =>
    by_cases same : x = i.kmalloc
    · have begins : (noted i (some (i.client,{ i.msg with sema := i.kmalloc }))).foldl (lives x) l =
          some (i.msg.val,[]) := by
        simp [noted,lives,same,cmd]
      rw [begins]
      refine ⟨by simp [semas,same],?_⟩
      rw [same,new]
      exact .fresh _
    · have differs : i.kmalloc ≠ x := fun h => same h.symm
      refine held.quiet (plainSome (fun h => absurd h differs)) ?_ (others x) ?_ ?_ ?_
      · simp [semas,same]
      · simp [noted,waitsOf,cmd]
      · simp [noted,grantsOf,differs]
      · simp [noted,signalsOf,cmd]
  | full cmd =>
    refine held.quiet (plainSome (fun h => absurd h.symm real)) Iff.rfl (fun _ => rfl) ?_ ?_ ?_
    · simp [noted,waitsOf,cmd]
    · simp [noted,grantsOf,cmd]
    · simp [noted,signalsOf,cmd]
  | refuse cmd busy =>
    refine held.quiet plainNone Iff.rfl (fun _ => rfl) ?_ ?_ ?_
    · simp [noted,waitsOf,cmd]
    · simp [noted,grantsOf]
    · simp [noted,signalsOf,cmd]
  | delete cmd free semas others =>
    by_cases same : x = i.msg.sema
    · have ends : (noted i (some (i.client,i.msg))).foldl (lives x) l = none := by
        simp [noted,lives,same,cmd]
      rw [ends]
      intro member
      rw [semas,same] at member
      exact sound.once.not_mem_erase member
    · refine held.quiet (plainSome (fun h => absurd h.symm same)) ?_ (fun _ => others x) ?_ ?_ ?_
      · rw [semas,List.mem_erase_of_ne same]
      · simp [noted,waitsOf,cmd]
      · simp [noted,grantsOf,cmd]
      · simp [noted,signalsOf,cmd]
  | enter cmd free edit =>
    have plain : ∀ e ∈ noted i (some (i.client,i.msg)), Plain x e := plainSome (fun _ => by simp [cmd])
    by_cases same : x = i.msg.sema
    · refine held.next plain (by rw [edit.semas]) (fun _ v waits grants signals balanced => ?_)
      rw [same] at balanced ⊢
      rw [edit.own]
      simpa [noted,waitsOf,grantsOf,signalsOf,cmd] using balanced.enter free
    · exact held.elsewhere edit same plain (by simp)
  | line cmd busy room edit =>
    by_cases same : x = i.msg.sema
    · refine held.next plainNone (by rw [edit.semas]) (fun _ v waits grants signals balanced => ?_)
      rw [same] at balanced ⊢
      rw [busy] at balanced
      rw [edit.own]
      simpa [noted,waitsOf,grantsOf,signalsOf,cmd] using balanced.line
    · exact held.elsewhere edit same plainNone (by simp)
  | lost cmd busy full => exact absurd full (legal.room cmd)
  | @hand _ c rest cmd first edit =>
    have plain : ∀ e ∈ noted i (some (c,i.msg)), Plain x e := plainSome (fun _ => by simp [cmd])
    by_cases same : x = i.msg.sema
    · refine held.next plain (by rw [edit.semas]) (fun _ v waits grants signals balanced => ?_)
      rw [same] at balanced ⊢
      rw [first] at balanced
      rw [edit.own]
      simpa [noted,waitsOf,grantsOf,signalsOf,cmd] using balanced.hand
    · exact held.elsewhere edit same plain (by simp)
  | raise cmd nobody edit =>
    by_cases same : x = i.msg.sema
    · refine held.next plainNone (by rw [edit.semas]) (fun _ v waits grants signals balanced => ?_)
      have small : ((view s i.msg.sema).1 + 1) % 2 ^ 16 = (view s i.msg.sema).1 + 1 :=
        Nat.mod_eq_of_lt (legal.small cmd)
      rw [same] at balanced ⊢
      rw [nobody] at balanced
      rw [edit.own,small]
      simpa [noted,waitsOf,grantsOf,signalsOf,cmd] using balanced.raise
    · exact held.elsewhere edit same plainNone (by simp)
  | get cmd =>
    refine held.quiet (plainSome (fun _ => by simp [cmd])) Iff.rfl (fun _ => rfl) ?_ ?_ ?_
    · simp [noted,waitsOf,cmd]
    · simp [noted,grantsOf,cmd]
    · simp [noted,signalsOf,cmd]

def Started (s : Server) : Prop := s.semaQ = []

theorem accountsRun (run : Reaches step Legal Started s history) :
    Sound s ∧ ∀ x, x ≠ 0 → Accounted s x (life x history) := by
  refine run.invariant (P := fun s history => Sound s ∧ ∀ x, x ≠ 0 → Accounted s x (life x history)) ?_ ?_
  · intro s empty
    have none : ∀ x, x ∉ s.semaQ := by
      rw [empty]
      simp
    exact ⟨⟨by simp [show s.semaQ = [] from empty],fun x member => absurd member (none x),
      fun x member => absurd member (none x)⟩,fun x _ => none x⟩
  · rintro s history i s' out ⟨sound,held⟩ legal taken
    obtain ⟨turned,sound'⟩ := Semaphore.turn sound legal.toProper
    cases taken
    refine ⟨sound',fun x real => ?_⟩
    rw [life,List.foldl_append]
    exact (held x real).turn sound legal turned real

/-- What was put into a semaphore is left in it or was handed out, and it is handed out in the
order of asking: the clients that asked are those that were let in, followed by those that
wait. -/
theorem semaphoreConserved (run : Reaches step Legal Started s history) (exists_ : x ∈ s.semaQ) :
    ∃ v since, life x history = some (v,since) ∧
      v + signalsOf x since = (s.sema x).value + (grantsOf x since).length ∧
      (0 < (s.sema x).value → (s.sema x).clientQ = []) ∧
      waitsOf x since = grantsOf x since ++ (s.sema x).clientQ.map s.client := by
  obtain ⟨sound,held⟩ := accountsRun run
  have account := held x (sound.real x exists_)
  cases lived : life x history with
  | none =>
    rw [lived] at account
    exact absurd exists_ account
  | some u =>
    rw [lived] at account
    obtain ⟨-,balanced⟩ := account
    exact ⟨u.1,u.2,rfl,balanced.conserved,fun free => List.map_eq_nil_iff.mp (balanced.idle free),balanced.order⟩

end

/-! A mutex that three clients want: the first gets it, and gives it to the second. -/

def permits (s : Server) (i : Input) : Bool :=
  i.client ≠ 0 && (i.msg.cmd = .create || s.semaQ.contains i.msg.sema) &&
  (i.kmalloc = 0 || (!s.semaQ.contains i.kmalloc && s.semaQ.all (fun x => !(s.sema x).clientQ.contains i.kmalloc))) &&
  i.msg.cmd ≠ .error

theorem permitsSound {s : Server} {i : Input} (ok : permits s i = true) : Proper s i := by
  simp only [permits,Bool.and_eq_true,Bool.or_eq_true,decide_eq_true_eq,List.contains_eq_mem,Bool.not_eq_true',
    decide_eq_false_iff_not,List.all_eq_true] at ok
  obtain ⟨⟨⟨client,known⟩,kmalloc⟩,call⟩ := ok
  exact ⟨client,fun other => known.resolve_left other,fun real => ⟨(kmalloc.resolve_left real).1,
    (kmalloc.resolve_left real).2⟩,call⟩

def permitsRoom (s : Server) (i : Input) : Bool :=
  permits s i && (i.msg.cmd ≠ .wait || i.kmalloc ≠ 0) &&
  (i.msg.cmd ≠ .signal || (s.sema i.msg.sema).value + 1 < 2 ^ 16)

theorem permitsRoomSound (s : Server) (i : Input) (ok : permitsRoom s i = true) : Legal s i := by
  simp only [permitsRoom,Bool.and_eq_true,Bool.or_eq_true,decide_eq_true_eq] at ok
  obtain ⟨⟨proper,room⟩,small⟩ := ok
  exact ⟨permitsSound proper,fun cmd => room.resolve_left (not_not.mpr cmd),
    fun cmd => small.resolve_left (not_not.mpr cmd)⟩

def noSemas : Server := ⟨[],fun _ => ⟨0,[]⟩,fun _ => 0⟩

def mutexCalls : List Input :=
  [⟨4,⟨0,.create,1⟩,100⟩,⟨5,⟨100,.wait,0⟩,200⟩,⟨6,⟨100,.wait,0⟩,300⟩,⟨7,⟨100,.wait,0⟩,400⟩,⟨5,⟨100,.signal,0⟩,0⟩]

structure Seen where
  semaQ : List Nat
  sema : Sema
  history : List Event
  deriving DecidableEq

def mutexHistory : List Event :=
  [.received 4 ⟨0,.create,1⟩,.sent 4 ⟨100,.create,1⟩,.received 5 ⟨100,.wait,0⟩,.sent 5 ⟨100,.wait,0⟩,
    .received 6 ⟨100,.wait,0⟩,.received 7 ⟨100,.wait,0⟩,.received 5 ⟨100,.signal,0⟩,.sent 6 ⟨100,.signal,0⟩]

theorem mutexSeen : (follow step permitsRoom noSemas mutexCalls).map (fun x => (⟨x.1.semaQ,x.1.sema 100,x.2⟩ : Seen)) =
    some ⟨[100],⟨0,[400]⟩,mutexHistory⟩ := by
  decide +kernel

theorem semaphoreConservedMutex : ∃ s : Server, s.semaQ = [100] ∧ (s.sema 100).clientQ = [400] ∧
    ∃ v since, life 100 mutexHistory = some (v,since) ∧
      v + signalsOf 100 since = (s.sema 100).value + (grantsOf 100 since).length ∧
      (0 < (s.sema 100).value → (s.sema 100).clientQ = []) ∧
      waitsOf 100 since = grantsOf 100 since ++ (s.sema 100).clientQ.map s.client := by
  obtain ⟨⟨s,out⟩,followed,same⟩ := Option.map_eq_some_iff.mp mutexSeen
  obtain ⟨semas,sema,history⟩ := Seen.mk.inj same
  have run := Reaches.follows permitsRoomSound mutexCalls (.start (show Started noSemas from rfl)) followed
  rw [List.nil_append,show out = mutexHistory from history] at run
  have exists_ : 100 ∈ s.semaQ := by
    rw [show s.semaQ = [100] from semas]
    exact List.mem_singleton_self 100
  exact ⟨s,semas,by rw [show s.sema 100 = ⟨0,[400]⟩ from sema],semaphoreConserved run exists_⟩

end Avros.Semaphore
