import Avros.MemFile
import Avros.QueueLinks

/-! `servers/ts.c`: the time server keeps its delayed clients in a queue that it walks at
every tick, taking out and freeing the items it stands on. -/
namespace Avros.TimeServer
open Run Links QueueLinks
open Vfs (toInt16)

abbrev Pid := Nat

-- time_t, in chars.
structure Time where
  sec : Nat
  min : Nat
  hour : Nat
  deriving DecidableEq, Repr

-- tswait_t, less its links.
structure Wait where
  client : Pid
  delay : Int
  deriving DecidableEq, Repr

structure Ts where
  mem : Mem
  wait : Nat → Wait
  uptime : Time
  globtime : Time
  ticks : Nat

-- The address of ts_wait_q.
def tsWaitQ : Nat := 1

theorem tsWaitQReal : tsWaitQ ≠ 0 := by decide

-- What the server reads of a message: the union is read as the command has it.
inductive Request where
  | delay (ticks : Int)
  | tick
  | getUptime
  | setGlobtime (time : Time)
  | getGlobtime
  | other
  deriving DecidableEq, Repr

inductive Event where
  | asked (client : Pid) (ticks : Int)
  | ticked
  | woke (client : Pid)
  | replied (client : Pid) (time : Option Time)
  deriving DecidableEq, Repr

/- A received message, what kmalloc answers and what is found in items that were given to
kfree. -/
structure Input where
  client : Pid
  request : Request
  kmalloc : Nat
  freed : Nat → Item

def addtswait (s : Ts) (client : Pid) (delay : Int) (t : Nat) : Ts :=
  if t = 0 then s
  else { s with
    wait := fun x => if x = t then ⟨client,delay⟩ else s.wait x
    mem := (qEnd s.mem tsWaitQ t).1 }

def kfree (freed : Nat → Item) (mem : Mem) (w : Nat) : Mem :=
  { mem with item := fun x => if x = w then freed x else mem.item x }

-- The callback of the walk, with the clients it has sent a message to. An int has two bytes.
def tsManagedelay (freed : Nat → Item) (s : Ts × List Pid) (w : Nat) : (Ts × List Pid) × Nat :=
  let delay := toInt16 ((s.1.wait w).delay - 1)
  let ts := { s.1 with wait := fun x => if x = w then { s.1.wait x with delay := delay } else s.1.wait x }
  if delay ≠ 0 then ((ts,s.2),0)
  else (({ ts with mem := kfree freed (qRemv ts.mem tsWaitQ w).1 w },s.2 ++ [(ts.wait w).client]),0)

def stepTimer (time : Time) : Time :=
  if (time.sec + 1) % 256 ≠ 60 then { time with sec := (time.sec + 1) % 256 }
  else if (time.min + 1) % 256 ≠ 60 then { time with sec := 0, min := (time.min + 1) % 256 }
  else if (time.hour + 1) % 256 ≠ 24 then ⟨0,0,(time.hour + 1) % 256⟩
  else ⟨0,0,0⟩

-- "maintain uptime counter"
def countTick (s : Ts) : Ts :=
  if (s.ticks + 1) % 256 = 30 then
    { s with ticks := 0, uptime := stepTimer s.uptime, globtime := stepTimer s.globtime }
  else { s with ticks := (s.ticks + 1) % 256 }

-- One turn of the server's loop. Pointers have 16 bits.
def step : Step Ts Input Event := fun s i =>
  match i.request with
  | .delay ticks =>
    if ticks ≠ 0 then some (addtswait s i.client ticks i.kmalloc,[.asked i.client ticks])
    else some (s,[.replied i.client none])
  | .tick => do
    let ((s,sent),_) ← qForall (fun s => s.1.mem) (tsManagedelay i.freed) (2 ^ 16) (countTick s,[]) tsWaitQ
    some (s,.ticked::sent.map .woke ++ [.replied i.client none])
  | .getUptime => some (s,[.replied i.client (some s.uptime)])
  | .setGlobtime time => some ({ s with globtime := time },[.replied i.client (some time)])
  | .getGlobtime => some (s,[.replied i.client (some s.globtime)])
  | .other => some (s,[.replied i.client none])

-- Memory that kmalloc gives out is not in use.
def Legal (s : Ts) (i : Input) : Prop :=
  ∀ ticks, i.request = .delay ticks →
    0 ≤ ticks ∧ ticks ≤ 32767 ∧ i.kmalloc ≠ 0 ∧ i.kmalloc < 2 ^ 16 ∧ ¬ Holds s.mem tsWaitQ i.kmalloc

def Started (s : Ts) : Prop := ∃ mem wait, s = ⟨qInit mem tsWaitQ,wait,⟨0,0,0⟩,⟨0,0,0⟩,0⟩

def ticksIn (history : List Event) : Nat := history.count .ticked

def pending : List Event → List Wait
  | [] => []
  | .asked client ticks::after =>
    if ticksIn after < ticks then ⟨client,ticks - ticksIn after⟩::pending after else pending after
  | _::after => pending after

def due : List Event → List Pid
  | [] => []
  | .asked client ticks::after => if ticksIn after + 1 = ticks then client::due after else due after
  | _::after => due after

def expired (client : Pid) : List Event → Nat
  | [] => 0
  | .asked other ticks::after => expired client after + if other = client ∧ ticks ≤ ticksIn after then 1 else 0
  | _::after => expired client after

section
variable {s s' : Ts} {i : Input} {history out : List Event} {items : List Nat}

def again (w : Wait) : Wait := { w with delay := w.delay - 1 }

def lowered (w : Wait) : Wait := { w with delay := toInt16 (w.delay - 1) }

def IsInt (v : Int) : Prop := -32768 ≤ v ∧ v ≤ 32767

theorem lastOne {v : Int} (int : IsInt v) : toInt16 (v - 1) = 0 ↔ v = 1 := by
  obtain ⟨low,high⟩ := int
  unfold toInt16
  omega

structure Walking (wait : Nat → Wait) (done rest : List Nat) (s : Ts × List Pid) : Prop where
  formed : WellFormed s.1.mem tsWaitQ (done.filter (fun a => (wait a).delay ≠ 1) ++ rest)
  once : (done ++ rest).Nodup
  passed : ∀ a ∈ done, (wait a).delay ≠ 1 → s.1.wait a = lowered (wait a)
  ahead : ∀ a ∈ rest, s.1.wait a = wait a
  ints : ∀ a ∈ rest, IsInt (wait a).delay
  sent : s.2 = ((done.map wait).filter (fun w => w.delay = 1)).map Wait.client

theorem kfreeFormed {mem : Mem} {freed : Nat → Item} {w : Nat} (formed : WellFormed mem tsWaitQ items)
    (gone : w ∉ items) : WellFormed (kfree freed mem w) tsWaitQ items := by
  refine formed.frame rfl (fun a member => ?_)
  have other : a ≠ w := fun same => gone (same ▸ member)
  exact if_neg other

theorem Walking.visit {wait : Nat → Wait} {done rest : List Nat} {a : Nat} {t : Ts × List Pid} (freed : Nat → Item)
    (held : Walking wait done (a::rest) t) :
    (tsManagedelay freed t a).2 = 0 ∧ Walking wait (done ++ [a]) rest (tsManagedelay freed t a).1 := by
  obtain ⟨formed,once,passed,ahead,ints,sent⟩ := held
  obtain ⟨int,ints⟩ := List.forall_mem_cons.mp ints
  have fresh : a ∉ done ∧ a ∉ rest := by
    obtain ⟨gone,-⟩ := List.nodup_cons.mp (List.nodup_middle.mp once)
    exact ⟨fun old => gone (List.mem_append_left _ old),fun old => gone (List.mem_append_right _ old)⟩
  have own : t.1.wait a = wait a := ahead a List.mem_cons_self
  have whole : (done ++ [a] ++ rest).Nodup := by simpa using once
  unfold tsManagedelay
  by_cases last : (wait a).delay = 1
  · -- The item runs out: it leaves the queue and is freed.
    have zero : toInt16 ((t.1.wait a).delay - 1) = 0 := by
      rw [own,last]
      rfl
    rw [if_neg (not_not.mpr zero)]
    have listed : a ∈ done.filter (fun a => (wait a).delay ≠ 1) ++ a::rest := by simp
    have removed := (remvLocal tsWaitQReal formed listed).formed
    have erased : (done.filter (fun a => (wait a).delay ≠ 1) ++ a::rest).erase a =
        (done ++ [a]).filter (fun a => (wait a).delay ≠ 1) ++ rest := by
      rw [List.erase_append_right _ (fun old => fresh.1 (List.mem_filter.mp old).1),List.erase_cons_head]
      simp [last]
    rw [erased] at removed
    refine ⟨rfl,kfreeFormed removed ?_,whole,?_,?_,ints,?_⟩
    · simp [last,fresh.1,fresh.2]
    · intro b member stays
      have other : b ≠ a := by
        rintro rfl
        exact stays last
      have old : b ∈ done := by simpa [other] using member
      simp [other,passed b old stays]
    · intro b member
      have other : b ≠ a := fun same => fresh.2 (same ▸ member)
      simp [other,ahead b (List.mem_cons_of_mem a member)]
    · simp [sent,last,own]
  · have more : toInt16 ((t.1.wait a).delay - 1) ≠ 0 := by
      rw [own]
      exact fun zero => last ((lastOne int).mp zero)
    rw [if_pos more]
    refine ⟨rfl,?_,whole,?_,?_,ints,?_⟩
    · simpa [last] using formed
    · intro b member stays
      by_cases same : b = a
      · simp [same,own,lowered]
      · have old : b ∈ done := by simpa [same] using member
        simp [same,passed b old stays]
    · intro b member
      have other : b ≠ a := fun same => fresh.2 (same ▸ member)
      simp [other,ahead b (List.mem_cons_of_mem a member)]
    · simp [sent,last]

theorem itemsShort (once : items.Nodup) (real : 0 ∉ items) (small : ∀ a ∈ items, a < 2 ^ 16) :
    items.length < 2 ^ 16 := by
  have inside : 0::items ⊆ List.range (2 ^ 16) := by
    intro a member
    rcases List.mem_cons.mp member with rfl | member
    · exact List.mem_range.mpr (by decide)
    · exact List.mem_range.mpr (small a member)
  have bound := (List.subperm_of_subset (List.nodup_cons.mpr ⟨real,once⟩) inside).length_le
  rwa [List.length_cons,List.length_range] at bound

theorem walkAll (formed : WellFormed s.mem tsWaitQ items) (small : ∀ a ∈ items, a < 2 ^ 16)
    (ints : ∀ a ∈ items, IsInt (s.wait a).delay) (freed : Nat → Item) :
    ∃ t, qForall (fun s => s.1.mem) (tsManagedelay freed) (2 ^ 16) (s,[]) tsWaitQ = some (t,0) ∧
      Walking s.wait items [] t := by
  have short := itemsShort formed.once (pathReal formed.forward) small
  have first : Walking s.wait [] items (s,[]) := ⟨formed,formed.once,by simp,fun _ _ => rfl,ints,rfl⟩
  have head : (s.mem.que tsWaitQ).head = items.headD 0 := pathHead formed.forward
  have ahead : ∀ done rest (t : Ts × List Pid), Walking s.wait done rest t →
      ∃ m, Path 0 (fun a => (t.1.mem.item a).next) m rest 0 := by
    intro done rest t held
    obtain ⟨m,-,path⟩ := pathAppend.mp held.formed.forward
    exact ⟨m,path⟩
  obtain ⟨t,walk,last⟩ := forallVisits ahead (fun done a rest t held => held.visit freed) short first
  refine ⟨t,?_,last⟩
  rw [qForall,if_neg tsWaitQReal]
  change qForallFrom _ _ _ _ (s.mem.que tsWaitQ).head = _
  rw [head]
  exact walk

structure Queued (s : Ts) (items : List Nat) : Prop where
  formed : WellFormed s.mem tsWaitQ items
  small : ∀ a ∈ items, a < 2 ^ 16
  ints : ∀ a ∈ items, IsInt (s.wait a).delay

theorem Queued.add {ticks : Int} {t : Nat} (queued : Queued s items) (client : Pid) (int : IsInt ticks) (real : t ≠ 0)
    (small : t < 2 ^ 16) (fresh : ¬ Holds s.mem tsWaitQ t) :
    t ∉ items ∧ Queued (addtswait s client ticks t) (items ++ [t]) := by
  have away : t ∉ items := fun member => fresh ⟨items,queued.formed.forward,member⟩
  unfold addtswait
  rw [if_neg real]
  refine ⟨away,(endLocal real tsWaitQReal queued.formed away).formed,?_,?_⟩
  · intro a member
    rcases List.mem_append.mp member with old | new
    · exact queued.small a old
    · rw [List.mem_singleton.mp new]
      exact small
  · intro a member
    by_cases same : a = t
    · simpa [same] using int
    · have old : a ∈ items := by simpa [same] using member
      simpa [same] using queued.ints a old

theorem Queued.tick (queued : Queued s items) (client : Pid) (t : Nat) (freed : Nat → Item) :
    ∃ s', step s ⟨client,.tick,t,freed⟩ = some (s',.ticked::(((items.map s.wait).filter (fun w => w.delay = 1)).map
        Wait.client).map .woke ++ [.replied client none]) ∧
      Queued s' (items.filter (fun a => (s.wait a).delay ≠ 1)) ∧
      ∀ a ∈ items.filter (fun a => (s.wait a).delay ≠ 1), s'.wait a = lowered (s.wait a) := by
  have mem : (countTick s).mem = s.mem := by
    unfold countTick
    split <;> rfl
  have wait : (countTick s).wait = s.wait := by
    unfold countTick
    split <;> rfl
  have formed : WellFormed (countTick s).mem tsWaitQ items := by
    rw [mem]
    exact queued.formed
  obtain ⟨⟨s',sent⟩,walk,last⟩ := walkAll formed queued.small (by rw [wait]; exact queued.ints) freed
  rw [wait] at last
  have passed : ∀ a ∈ items.filter (fun a => (s.wait a).delay ≠ 1), s'.wait a = lowered (s.wait a) := by
    intro a member
    obtain ⟨old,stays⟩ := List.mem_filter.mp member
    exact last.passed a old (of_decide_eq_true stays)
  refine ⟨s',?_,⟨by simpa using last.formed,?_,?_⟩,passed⟩
  · change (qForall (fun s => s.1.mem) (tsManagedelay freed) (2 ^ 16) (countTick s,[]) tsWaitQ).bind _ = _
    rw [walk,← last.sent]
    rfl
  · intro a member
    exact queued.small a (List.mem_filter.mp member).1
  · intro a member
    rw [passed a member]
    change IsInt (toInt16 _)
    unfold IsInt toInt16
    omega

theorem ticksInAppend (left right : List Event) : ticksIn (left ++ right) = ticksIn left + ticksIn right :=
  List.count_append

theorem pendingAppend (history : List Event) {more : List Event} (quiet : ticksIn more = 0) :
    pending (history ++ more) = pending history ++ pending more := by
  induction history with
  | nil => rfl
  | cons e after ih =>
    cases e with
    | asked client ticks =>
      rw [List.cons_append,pending,pending,ticksInAppend,quiet,ih,Nat.add_zero]
      split <;> rfl
    | _ => exact ih

theorem pendingTick (history : List Event) :
    pending (history ++ [.ticked]) = ((pending history).filter (fun w => w.delay ≠ 1)).map again := by
  induction history with
  | nil => rfl
  | cons e after ih =>
    cases e with
    | asked client ticks =>
      have one : ticksIn [.ticked] = 1 := rfl
      rw [List.cons_append,pending,pending,ticksInAppend,one,ih]
      by_cases due : ticks ≤ ticksIn after
      · rw [if_neg (by omega),if_neg (by omega)]
      · by_cases last : ticks = ticksIn after + 1
        · rw [if_neg (by omega),if_pos (by omega),List.filter_cons_of_neg]
          simp only [decide_eq_true_eq]
          omega
        · have stays : decide (ticks - (ticksIn after : Int) ≠ 1) = true := decide_eq_true (by omega)
          rw [if_pos (by omega),if_pos (by omega),
            List.filter_cons_of_pos (p := fun w : Wait => decide (w.delay ≠ 1)) stays,List.map_cons]
          have left : again ⟨client,ticks - ticksIn after⟩ = ⟨client,ticks - ((ticksIn after + 1 : Nat) : Int)⟩ := by
            simp only [again,Wait.mk.injEq,true_and]
            omega
          rw [left]
    | _ => exact ih

theorem dueLast (history : List Event) :
    due history = ((pending history).filter (fun w => w.delay = 1)).map Wait.client := by
  induction history with
  | nil => rfl
  | cons e after ih =>
    cases e with
    | asked client ticks =>
      rw [due,pending,ih]
      by_cases last : (ticksIn after : Int) + 1 = ticks
      · have one : decide (ticks - (ticksIn after : Int) = 1) = true := decide_eq_true (by omega)
        rw [if_pos last,if_pos (by omega),
          List.filter_cons_of_pos (p := fun w : Wait => decide (w.delay = 1)) one,List.map_cons]
      · rw [if_neg last]
        split
        · have other : ¬ decide (ticks - (ticksIn after : Int) = 1) = true := by
            rw [decide_eq_true_eq]
            omega
          rw [List.filter_cons_of_neg (p := fun w : Wait => decide (w.delay = 1)) other]
        · rfl
    | _ => exact ih

theorem expiredAppend (client : Pid) (history : List Event) {more : List Event} (quiet : ticksIn more = 0) :
    expired client (history ++ more) = expired client history + expired client more := by
  induction history with
  | nil => exact (Nat.zero_add _).symm
  | cons e after ih =>
    cases e with
    | asked other ticks =>
      rw [List.cons_append,expired,expired,ticksInAppend,quiet,ih,Nat.add_zero]
      omega
    | _ => exact ih

theorem expiredTick (client : Pid) (history : List Event) :
    expired client (history ++ [.ticked]) = expired client history + (due history).count client := by
  induction history with
  | nil => rfl
  | cons e after ih =>
    cases e with
    | asked other ticks =>
      have one : ticksIn [.ticked] = 1 := rfl
      rw [List.cons_append,expired,expired,due,ticksInAppend,one,ih]
      by_cases last : (ticksIn after : Int) + 1 = ticks
      · rw [if_pos last,List.count_cons]
        by_cases same : other = client
        · rw [if_pos ⟨same,by omega⟩,if_neg (by omega),if_pos (by simp [same])]
          omega
        · rw [if_neg (by simp [same]),if_neg (by simp [same]),if_neg (by simp [same])]
          omega
      · rw [if_neg last]
        have same : (ticks ≤ ((ticksIn after + 1 : Nat) : Int)) ↔ ticks ≤ ticksIn after := by omega
        simp only [same]
        omega
    | _ => exact ih

theorem tailQuiet (client : Pid) (clients : List Pid) :
    ticksIn (clients.map .woke ++ [.replied client none]) = 0 ∧
    pending (clients.map .woke ++ [.replied client none]) = [] ∧
    ∀ other, expired other (clients.map .woke ++ [.replied client none]) = 0 := by
  induction clients with
  | nil => exact ⟨rfl,rfl,fun _ => rfl⟩
  | cons c rest ih =>
    obtain ⟨quiet,nothing,none⟩ := ih
    refine ⟨?_,nothing,none⟩
    simpa [ticksIn] using quiet

theorem tickOne (c : Pid) (clients : List Pid) : ticksIn (.ticked::clients.map .woke ++ [.replied c none]) = 1 := by
  change List.count _ (_::_) = 1
  rw [List.count_cons_self]
  exact congrArg (· + 1) (tailQuiet c clients).1

structure Kept (s : Ts) (history : List Event) (items : List Nat) : Prop where
  formed : WellFormed s.mem tsWaitQ items
  small : ∀ a ∈ items, a < 2 ^ 16
  range : ∀ a ∈ items, 0 < (s.wait a).delay ∧ (s.wait a).delay ≤ 32767
  queue : items.map s.wait = pending history
  told : ∀ client, history.count (.woke client) = expired client history

theorem Started.kept (started : Started s) : Kept s [] [] := by
  obtain ⟨mem,wait,rfl⟩ := started
  exact ⟨initFormed mem tsWaitQReal,by simp,by simp,rfl,fun _ => rfl⟩

theorem Kept.quiet (kept : Kept s history items) (s' : Ts) (mem : s'.mem = s.mem) (wait : s'.wait = s.wait)
    (client : Pid) (time : Option Time) : Kept s' (history ++ [.replied client time]) items := by
  refine ⟨by rw [mem]; exact kept.formed,kept.small,by rw [wait]; exact kept.range,?_,fun other => ?_⟩
  · rw [wait,pendingAppend history rfl,kept.queue]
    simp [pending]
  · rw [expiredAppend other history rfl,List.count_append,kept.told other]
    rfl

theorem Kept.queued (kept : Kept s history items) : Queued s items := by
  refine ⟨kept.formed,kept.small,fun a member => ?_⟩
  obtain ⟨low,high⟩ := kept.range a member
  exact ⟨by omega,high⟩

theorem Kept.add {client : Pid} {ticks : Int} {t : Nat} (kept : Kept s history items) (positive : 0 < ticks)
    (high : ticks ≤ 32767) (real : t ≠ 0) (small : t < 2 ^ 16) (fresh : ¬ Holds s.mem tsWaitQ t) :
    Kept (addtswait s client ticks t) (history ++ [.asked client ticks]) (items ++ [t]) := by
  obtain ⟨away,added⟩ := kept.queued.add client ⟨by omega,high⟩ real small fresh
  have wait : (addtswait s client ticks t).wait = fun x => if x = t then ⟨client,ticks⟩ else s.wait x := by
    rw [addtswait,if_neg real]
  refine ⟨added.formed,added.small,?_,?_,fun other => ?_⟩
  · intro a member
    rw [wait]
    by_cases same : a = t
    · simp [same,positive,high]
    · have old : a ∈ items := by simpa [same] using member
      simpa [same] using kept.range a old
  · have same : items.map (fun x => if x = t then ⟨client,ticks⟩ else s.wait x) = items.map s.wait := by
      refine List.map_congr_left (fun a member => if_neg ?_)
      rintro rfl
      exact away member
    have last : pending [.asked client ticks] = [⟨client,ticks⟩] := by
      simp [pending,ticksIn,positive]
    rw [wait,List.map_append,same,kept.queue,pendingAppend history rfl,last,List.map_singleton]
    simp
  · have none : expired other [.asked client ticks] = 0 := by
      have later : ¬ (client = other ∧ ticks ≤ 0) := by omega
      simp [expired,ticksIn,later]
    rw [expiredAppend other history rfl,List.count_append,kept.told other,none]
    rfl

theorem Kept.tick (kept : Kept s history items) (client : Pid) (t : Nat) (freed : Nat → Item) :
    ∃ s' items', step s ⟨client,.tick,t,freed⟩ =
        some (s',.ticked::(due history).map .woke ++ [.replied client none]) ∧
      Kept s' (history ++ (.ticked::(due history).map .woke ++ [.replied client none])) items' := by
  obtain ⟨s',taken,left,passed⟩ := kept.queued.tick client t freed
  rw [kept.queue,← dueLast] at taken
  -- A positive delay does not wrap.
  have less : ∀ a ∈ items.filter (fun a => (s.wait a).delay ≠ 1),
      0 < (s.wait a).delay - 1 ∧ (s.wait a).delay - 1 ≤ 32767 ∧ s'.wait a = again (s.wait a) := by
    intro a member
    obtain ⟨old,stays⟩ := List.mem_filter.mp member
    obtain ⟨low,high⟩ := kept.range a old
    have more := of_decide_eq_true stays
    have same : toInt16 ((s.wait a).delay - 1) = (s.wait a).delay - 1 := by
      unfold toInt16
      omega
    rw [passed a member,again,lowered,same]
    exact ⟨by omega,by omega,rfl⟩
  refine ⟨s',items.filter (fun a => (s.wait a).delay ≠ 1),taken,left.formed,left.small,?_,?_,fun other => ?_⟩
  · intro a member
    obtain ⟨low,high,same⟩ := less a member
    rw [same]
    exact ⟨low,high⟩
  · obtain ⟨quiet,nothing,-⟩ := tailQuiet client (due history)
    rw [List.cons_append,List.append_cons,pendingAppend _ quiet,nothing,List.append_nil,pendingTick,← kept.queue,
      List.filter_map,List.map_map]
    exact List.map_congr_left fun a member => (less a member).2.2
  · obtain ⟨quiet,-,nothing⟩ := tailQuiet client (due history)
    have counted : ((due history).map Event.woke).count (.woke other) = (due history).count other :=
      List.count_map_of_injective _ _ (fun a b same => Event.woke.inj same) other
    rw [List.cons_append,List.append_cons,expiredAppend other _ quiet,nothing other,expiredTick,List.count_append,
      List.count_append,kept.told other,List.count_append,counted]
    simp

theorem Kept.step (kept : Kept s history items) (legal : Legal s i) :
    ∃ s' out items', TimeServer.step s i = some (s',out) ∧ Kept s' (history ++ out) items' ∧
      if i.request = .tick then out = .ticked::(due history).map .woke ++ [.replied i.client none]
      else ∀ client, .woke client ∉ out := by
  obtain ⟨client,request,t,freed⟩ := i
  cases request with
  | delay ticks =>
    obtain ⟨low,high,real,small,fresh⟩ := legal ticks rfl
    by_cases zero : ticks = 0
    · refine ⟨s,[.replied client none],items,?_,kept.quiet s rfl rfl client none,?_⟩
      · simp [TimeServer.step,zero]
      · rw [if_neg (by simp)]
        simp
    · refine ⟨_,[.asked client ticks],_,?_,kept.add (by omega) high real small fresh,?_⟩
      · simp [TimeServer.step,zero]
      · rw [if_neg (by simp)]
        simp
  | tick =>
    obtain ⟨s',items',taken,next⟩ := kept.tick client t freed
    exact ⟨s',_,items',taken,next,by rw [if_pos rfl]⟩
  | getUptime => exact ⟨s,_,items,rfl,kept.quiet s rfl rfl client _,by rw [if_neg (by simp)]; simp⟩
  | setGlobtime time =>
    exact ⟨_,_,items,rfl,kept.quiet { s with globtime := time } rfl rfl client _,by rw [if_neg (by simp)]; simp⟩
  | getGlobtime => exact ⟨s,_,items,rfl,kept.quiet s rfl rfl client _,by rw [if_neg (by simp)]; simp⟩
  | other => exact ⟨s,_,items,rfl,kept.quiet s rfl rfl client _,by rw [if_neg (by simp)]; simp⟩

theorem keptRun (run : Reaches step Legal Started s history) : ∃ items, Kept s history items := by
  refine run.invariant (P := fun s history => ∃ items, Kept s history items) ?_ ?_
  · intro s started
    exact ⟨[],started.kept⟩
  · rintro s history i s' out ⟨items,kept⟩ legal taken
    obtain ⟨t,out',items',taken',next,-⟩ := kept.step legal
    cases taken.symm.trans taken'
    exact ⟨items',next⟩

/-- The queue holds the delays that have not run out, each with what is left of it; a tick
wakes the clients for whom it is the last one, in the order they asked, and nothing else
wakes anybody. -/
theorem delaysExact (run : Reaches step Legal Started s history) :
    (∃ items, WellFormed s.mem tsWaitQ items ∧ items.map s.wait = pending history) ∧
    (∀ client, history.count (.woke client) = expired client history) ∧
    ∀ i, Legal s i → ∃ s' out, step s i = some (s',out) ∧
      if i.request = .tick then out = .ticked::(due history).map .woke ++ [.replied i.client none]
      else ∀ client, .woke client ∉ out := by
  obtain ⟨items,kept⟩ := keptRun run
  refine ⟨⟨items,kept.formed,kept.queue⟩,kept.told,fun i legal => ?_⟩
  obtain ⟨s',out,items',taken,-,sends⟩ := kept.step legal
  exact ⟨s',out,taken,sends⟩

end

/-! A client waits for one tick and another for two. -/

def blank : Nat → Item := fun _ => ⟨0,0⟩

def idle : Ts := ⟨qInit ⟨blank,fun _ => ⟨0,0⟩⟩ tsWaitQ,fun _ => ⟨0,0⟩,⟨0,0,0⟩,⟨0,0,0⟩,0⟩

theorem idleQueued : Queued idle [] := ⟨initFormed _ tsWaitQReal,by simp,by simp⟩

def twoWaiting : Ts := addtswait (addtswait idle 7 1 100) 8 2 200

theorem notHeld {mem : Mem} {que t : Nat} (items : List Nat)
    (path : Path 0 (fun a => (mem.item a).next) (mem.que que).head items 0) (fresh : t ∉ items) : ¬ Holds mem que t := by
  rintro ⟨items',path',member⟩
  rw [pathUnique path' path] at member
  exact fresh member

theorem twoReached : Reaches step Legal Started twoWaiting [.asked 7 1,.asked 8 2] := by
  have first : Reaches step Legal Started (addtswait idle 7 1 100) ([] ++ [.asked 7 1]) := by
    refine .next (i := ⟨7,.delay 1,100,blank⟩) (.start ⟨_,_,rfl⟩) ?_ rfl
    intro ticks same
    cases same
    exact ⟨by decide,by decide,by decide,by decide,notHeld [] rfl (by simp)⟩
  refine .next (i := ⟨8,.delay 2,200,blank⟩) first ?_ rfl
  intro ticks same
  cases same
  exact ⟨by decide,by decide,by decide,by decide,notHeld [100] ⟨rfl,by decide,rfl⟩ (by decide)⟩

theorem delaysExactForTwo : ∃ s', step twoWaiting ⟨3,.tick,0,blank⟩ = some (s',[.ticked,.woke 7,.replied 3 none]) := by
  obtain ⟨s',out,taken,sends⟩ := (delaysExact twoReached).2.2 ⟨3,.tick,0,blank⟩ (fun ticks same => by cases same)
  rw [if_pos rfl] at sends
  exact ⟨s',by rw [taken,sends]; rfl⟩

end Avros.TimeServer
