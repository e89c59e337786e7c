import Avros.OpenName
import Avros.TimeServer

/-! `usr/apps.c`, sleep(): the ticks that are asked for, and when the time server wakes who
asked. A client that waits is blocked in sendrec(). -/
namespace Avros.Usr.Sleep
open Run Links TimeServer
open QueueLinks hiding step
open Vfs (toInt16)
open Vfs.OpenName (atoi decimal Digits atoiDigits decimalNonneg)

-- `delay(atoi(argv[1]) * 30)`; without an argument there is only a complaint.
def sleep (argv : List (List Char)) : Option Request :=
  if argv.length < 2 then none else some (.delay (toInt16 (atoi (argv.getD 1 []) * 30)))

/- A delay is any int, memory that kmalloc gives out is not in use, and who waits sends
nothing. -/
structure Allowed (s : Ts) (i : Input) : Prop where
  int : ∀ ticks, i.request = .delay ticks → IsInt ticks
  fresh : i.kmalloc ≠ 0 → i.kmalloc < 2 ^ 16 ∧ ¬ Holds s.mem tsWaitQ i.kmalloc
  blocked : ∀ a, Holds s.mem tsWaitQ a → (s.wait a).client ≠ i.client

def Silent (client : Pid) (s : Ts) (i : Input) : Prop := Allowed s i ∧ i.client ≠ client

def Released (client : Pid) (events : List Event) : Prop := .woke client ∈ events ∨ ∃ time, .replied client time ∈ events

-- Whoever runs the program is released no earlier than after thirty ticks a second.
def SleepsEnough (argv : List (List Char)) (seconds : Int) : Prop :=
  ∀ request, sleep argv = some request → ∀ s history, Reaches step Allowed Started s history →
    ∀ i, Allowed s i → i.request = request → ∀ s1 out, step s i = some (s1,out) →
      ∀ s2 later, Reaches step (Silent i.client) (· = s1) s2 later →
        Released i.client (out ++ later) → 30 * seconds ≤ ticksIn (out ++ later)

section
variable {s s' : Ts} {i : Input} {client : Pid} {d : Int} {t : Nat} {items : List Nat} {history later out : List Event}

theorem queuedHolds (queued : Queued s items) {a : Nat} : Holds s.mem tsWaitQ a ↔ a ∈ items := by
  constructor
  · rintro ⟨items',path,member⟩
    rw [pathUnique path queued.formed.forward] at member
    exact member
  · exact fun member => ⟨items,queued.formed.forward,member⟩

theorem queuedSame (queued : Queued s items) (mem : s'.mem = s.mem) (wait : s'.wait = s.wait) : Queued s' items :=
  ⟨by rw [mem]; exact queued.formed,queued.small,by rw [wait]; exact queued.ints⟩

def last (s : Ts) (items : List Nat) : List Pid := ((items.map s.wait).filter (fun w => w.delay = 1)).map Wait.client

/- One turn of the server, as the queue sees it: a tick, a new delay, or neither. -/
inductive Turn (s : Ts) (items : List Nat) (i : Input) : Ts → List Event → List Nat → Prop where
  | tick {s' : Ts} (wait : ∀ a ∈ items.filter (fun a => (s.wait a).delay ≠ 1), s'.wait a = lowered (s.wait a)) :
      Turn s items i s' (.ticked::(last s items).map .woke ++ [.replied i.client none])
        (items.filter (fun a => (s.wait a).delay ≠ 1))
  | delay {ticks : Int} (real : i.kmalloc ≠ 0) (away : i.kmalloc ∉ items) :
      Turn s items i (addtswait s i.client ticks i.kmalloc) [.asked i.client ticks] (items ++ [i.kmalloc])
  | full {ticks : Int} : Turn s items i s [.asked i.client ticks] items
  | other {s' : Ts} {time : Option Time} (wait : s'.wait = s.wait) : Turn s items i s' [.replied i.client time] items

theorem queuedTurn (queued : Queued s items) (allowed : Allowed s i) (taken : step s i = some (s',out)) :
    ∃ items', Queued s' items' ∧ Turn s items i s' out items' := by
  obtain ⟨c,request,m,freed⟩ := i
  cases request with
  | delay ticks =>
    by_cases zero : ticks = 0
    · cases (show step s ⟨c,.delay ticks,m,freed⟩ = some (s,[.replied c none]) by simp [step,zero]).symm.trans taken
      exact ⟨items,queued,.other rfl⟩
    · cases (show step s ⟨c,.delay ticks,m,freed⟩ = some (addtswait s c ticks m,[.asked c ticks]) by
        simp [step,zero]).symm.trans taken
      by_cases real : m = 0
      · have same : addtswait s c ticks m = s := by rw [addtswait,if_pos real]
        rw [same]
        exact ⟨items,queued,.full⟩
      · obtain ⟨small,fresh⟩ := allowed.fresh real
        obtain ⟨away,added⟩ := queued.add c (allowed.int ticks rfl) real small fresh
        exact ⟨_,added,.delay real away⟩
  | tick =>
    obtain ⟨s1,ran,left,passed⟩ := queued.tick c m freed
    cases ran.symm.trans taken
    exact ⟨_,left,.tick passed⟩
  | setGlobtime time =>
    cases taken
    exact ⟨items,queuedSame queued rfl rfl,.other rfl⟩
  | getUptime | getGlobtime | other =>
    cases taken
    exact ⟨items,queued,.other rfl⟩

theorem queuedRun (run : Reaches step Allowed Started s history) : ∃ items, Queued s items := by
  refine run.invariant (P := fun s _ => ∃ items, Queued s items) ?_ ?_
  · rintro s ⟨mem,wait,rfl⟩
    exact ⟨[],initFormed mem tsWaitQReal,by simp,by simp⟩
  · rintro s history i s' out ⟨items,queued⟩ allowed taken
    obtain ⟨items',queued',-⟩ := queuedTurn queued allowed taken
    exact ⟨items',queued'⟩

def span (d : Int) : Nat := (d % 65536).toNat

/- Not released yet: its delay stands in the item `t`, unless there was no memory for it, and
has not run out. -/
structure Sleeping (client : Pid) (d : Int) (t : Nat) (s : Ts) (later : List Event) (items : List Nat) : Prop where
  queued : Queued s items
  mine : t ≠ 0 → t ∈ items ∧ s.wait t = ⟨client,toInt16 (d - ticksIn later)⟩ ∧ ticksIn later < span d
  others : ∀ a ∈ items, a ≠ t → (s.wait a).client ≠ client
  quiet : ¬ Released client later

theorem releasedAppend : Released client (later ++ out) ↔ Released client later ∨ Released client out := by
  unfold Released
  simp only [List.mem_append]
  constructor
  · rintro ((old | new) | ⟨time,old | new⟩)
    · exact .inl (.inl old)
    · exact .inr (.inl new)
    · exact .inl (.inr ⟨time,old⟩)
    · exact .inr (.inr ⟨time,new⟩)
  · rintro ((old | ⟨time,old⟩) | (new | ⟨time,new⟩))
    · exact .inl (.inl old)
    · exact .inr ⟨time,.inl old⟩
    · exact .inl (.inr new)
    · exact .inr ⟨time,.inr new⟩

theorem tickReleases (s : Ts) (items : List Nat) (other : i.client ≠ client) :
    Released client (.ticked::(last s items).map .woke ++ [.replied i.client none]) ↔
      ∃ a ∈ items, (s.wait a).delay = 1 ∧ (s.wait a).client = client := by
  unfold Released last
  simp [Ne.symm other,and_assoc]

theorem spanWraps {k : Nat} (short : k < span d) : toInt16 (d - k) = 1 ↔ k + 1 = span d := by
  unfold span at *
  unfold toInt16
  omega

theorem Sleeping.turn {items' : List Nat} (sleeping : Sleeping client d t s later items) (other : i.client ≠ client)
    (queued : Queued s' items') (turn : Turn s items i s' out items') :
    Sleeping client d t s' (later ++ out) items' ∨ ticksIn (later ++ out) = span d ∧ Released client (later ++ out) := by
  obtain ⟨held,mine,others,quiet⟩ := sleeping
  cases turn with
  | tick passed =>
    have one := tickOne i.client (last s items)
    by_cases runsOut : t ≠ 0 ∧ (s.wait t).delay = 1
    · obtain ⟨real,ends⟩ := runsOut
      obtain ⟨member,wait,early⟩ := mine real
      have woken := (tickReleases s items other).mpr ⟨t,member,ends,by rw [wait]⟩
      rw [wait] at ends
      exact .inr ⟨by rw [ticksInAppend,one]; exact (spanWraps early).mp ends,releasedAppend.mpr (.inr woken)⟩
    · refine .inl ⟨queued,fun real => ?_,fun a member apart => ?_,?_⟩
      · obtain ⟨member,wait,early⟩ := mine real
        have stays : (s.wait t).delay ≠ 1 := fun ends => runsOut ⟨real,ends⟩
        have left : t ∈ items.filter (fun a => (s.wait a).delay ≠ 1) := List.mem_filter.mpr ⟨member,decide_eq_true stays⟩
        rw [wait] at stays
        have more := mt (spanWraps early).mpr stays
        refine ⟨left,?_,?_⟩
        · rw [passed t left,wait,lowered,ticksInAppend,one]
          simp only [Wait.mk.injEq,true_and]
          unfold toInt16
          omega
        · rw [ticksInAppend,one]
          omega
      · rw [passed a member]
        exact others a (List.mem_filter.mp member).1 apart
      · rw [releasedAppend,not_or]
        refine ⟨quiet,?_⟩
        rw [tickReleases s items other]
        rintro ⟨a,member,ends,same⟩
        by_cases own : a = t
        · subst own
          have real : a ≠ 0 := fun zero => pathReal held.formed.forward (zero ▸ member)
          exact runsOut ⟨real,ends⟩
        · exact others a member own same
  | @delay ticks real away =>
    refine .inl ⟨queued,fun own => ?_,fun a member apart => ?_,?_⟩
    · obtain ⟨member,wait,early⟩ := mine own
      have old : t ≠ i.kmalloc := fun same => away (same ▸ member)
      refine ⟨List.mem_append_left _ member,?_,?_⟩
      · rw [addtswait,if_neg real,ticksInAppend]
        exact (if_neg old).trans wait
      · rw [ticksInAppend]
        exact early
    · rw [addtswait,if_neg real]
      change (if a = i.kmalloc then _ else _ : Wait).client ≠ client
      by_cases new : a = i.kmalloc
      · rw [if_pos new]
        exact other
      · rw [if_neg new]
        have old : a ∈ items := by simpa [new] using member
        exact others a old apart
    · simpa [Released] using quiet
  | full =>
    exact .inl ⟨queued,by rw [ticksInAppend]; exact mine,others,by simpa [Released] using quiet⟩
  | other wait =>
    refine .inl ⟨queued,by rw [ticksInAppend,wait]; exact mine,by rw [wait]; exact others,?_⟩
    simpa [Released,Ne.symm other] using quiet

theorem sleepingRun {s1 : Ts} {before : List Event} (start : Sleeping client d t s1 before items)
    (run : Reaches step (Silent client) (· = s1) s later) : (∃ items', Sleeping client d t s (before ++ later) items') ∨
      span d ≤ ticksIn (before ++ later) ∧ Released client (before ++ later) := by
  refine run.invariant (P := fun s later => (∃ items', Sleeping client d t s (before ++ later) items') ∨
    span d ≤ ticksIn (before ++ later) ∧ Released client (before ++ later)) ?_ ?_
  · rintro s rfl
    rw [List.append_nil]
    exact .inl ⟨items,start⟩
  · rintro s later i s' out held ⟨allowed,other⟩ taken
    rw [← List.append_assoc]
    rcases held with ⟨items',sleeping⟩ | ⟨gone,released⟩
    · obtain ⟨items'',queued,turn⟩ := queuedTurn sleeping.queued allowed taken
      rcases sleeping.turn other queued turn with on | ⟨ended,released⟩
      · exact .inl ⟨items'',on⟩
      · exact .inr ⟨Nat.le_of_eq ended.symm,released⟩
    · exact .inr ⟨by rw [ticksInAppend]; omega,releasedAppend.mpr (.inl released)⟩

theorem asksSleeping (queued : Queued s items) (allowed : Allowed s i) (asks : i.request = .delay d) (real : d ≠ 0)
    (taken : step s i = some (s',out)) : ∃ items', Sleeping i.client d i.kmalloc s' out items' := by
  have int := allowed.int d asks
  have asked : step s i = some (addtswait s i.client d i.kmalloc,[.asked i.client d]) := by
    rw [step,asks]
    exact if_pos real
  cases asked.symm.trans taken
  have silent : ∀ a ∈ items, (s.wait a).client ≠ i.client := fun a member =>
    allowed.blocked a ((queuedHolds queued).mpr member)
  have quiet : ¬ Released i.client [.asked i.client d] := by simp [Released]
  by_cases memory : i.kmalloc = 0
  · have same : addtswait s i.client d i.kmalloc = s := by rw [addtswait,if_pos memory]
    rw [same]
    exact ⟨items,queued,fun given => absurd memory given,fun a member _ => silent a member,quiet⟩
  · obtain ⟨small,fresh⟩ := allowed.fresh memory
    obtain ⟨away,added⟩ := queued.add i.client int memory small fresh
    refine ⟨_,added,fun _ => ⟨List.mem_append_right _ List.mem_cons_self,?_,?_⟩,fun a member apart => ?_,quiet⟩
    · rw [addtswait,if_neg memory]
      refine (if_pos rfl).trans ?_
      have whole : toInt16 (d - (ticksIn [.asked i.client d] : Int)) = d := by
        have none_ : ticksIn [.asked i.client d] = 0 := rfl
        obtain ⟨low,high⟩ := int
        rw [none_]
        unfold toInt16
        omega
      rw [whole]
    · change 0 < span d
      obtain ⟨low,high⟩ := int
      unfold span
      omega
    · rw [addtswait,if_neg memory]
      change (if a = i.kmalloc then _ else _ : Wait).client ≠ i.client
      have old : a ∈ items := by simpa [apart] using member
      rw [if_neg apart]
      exact silent a old

theorem sleepAsks {arg : List Char} (digits : Digits arg) (fits : decimal arg ≤ 32767) (name : List Char)
    (more : List (List Char)) : sleep (name::arg::more) = some (.delay (toInt16 (decimal arg * 30))) := by
  have value : atoi arg = decimal arg := by
    have low := decimalNonneg arg
    rw [atoiDigits digits]
    unfold toInt16
    omega
  rw [sleep,if_neg (by simp),← value]
  rfl

theorem ticking {c : Pid} (queued : Queued s items) (away : ∀ a ∈ items, (s.wait a).client ≠ c) (other : c ≠ client)
    (k : Nat) : ∃ s' later, Reaches step (Silent client) (· = s) s' later ∧ ticksIn later = k := by
  have all : ∃ s' later items', Reaches step (Silent client) (· = s) s' later ∧ ticksIn later = k ∧ Queued s' items' ∧
      ∀ a ∈ items', (s'.wait a).client ≠ c := by
    induction k with
    | zero => exact ⟨s,[],items,.start rfl,rfl,queued,away⟩
    | succ k ih =>
      obtain ⟨s1,later,items1,run,counted,queued1,away1⟩ := ih
      obtain ⟨s2,taken,queued2,passed⟩ := queued1.tick c 0 blank
      have allowed : Allowed s1 ⟨c,.tick,0,blank⟩ :=
        ⟨fun ticks same => Request.noConfusion same,fun real => absurd rfl real,
          fun a held => away1 a ((queuedHolds queued1).mp held)⟩
      refine ⟨s2,_,_,.next run ⟨allowed,other⟩ taken,?_,queued2,fun a member => ?_⟩
      · rw [ticksInAppend,counted]
        exact congrArg (k + ·) (tickOne c (last s1 items1))
      · rw [passed a member]
        exact away1 a (List.mem_filter.mp member).1
  obtain ⟨s',later,-,run,counted,-⟩ := all
  exact ⟨s',later,run,counted⟩

theorem wokenAfter {argv : List (List Char)} {seconds : Int} (asks : sleep argv = some (.delay d)) (int : IsInt d)
    (real : d ≠ 0) (sleeps : SleepsEnough argv seconds) : 30 * seconds ≤ span d := by
  have nobody : ∀ a, ¬ Holds idle.mem tsWaitQ a := fun a held => List.not_mem_nil ((queuedHolds idleQueued).mp held)
  have allowed : Allowed idle ⟨7,.delay d,100,blank⟩ :=
    ⟨fun ticks same => Request.delay.inj same ▸ int,fun _ => ⟨show 100 < 2 ^ 16 by decide,nobody 100⟩,
      fun a held => absurd held (nobody a)⟩
  have taken : step idle ⟨7,.delay d,100,blank⟩ = some (addtswait idle 7 d 100,[.asked 7 d]) := if_pos real
  obtain ⟨items,start⟩ := asksSleeping idleQueued allowed rfl real taken
  obtain ⟨-,added⟩ := idleQueued.add 7 int (show 100 ≠ 0 by decide) (show 100 < 2 ^ 16 by decide) (nobody 100)
  have others : ∀ a ∈ [] ++ [100], ((addtswait idle 7 d 100).wait a).client ≠ 3 := by
    intro a member
    rw [List.mem_singleton.mp member]
    exact show 7 ≠ 3 by decide
  obtain ⟨s2,later,run,counted⟩ := ticking added others (show 3 ≠ 7 by decide) (span d)
  have none_ : ticksIn [.asked 7 d] = 0 := rfl
  have released : Released 7 ([.asked 7 d] ++ later) := by
    rcases sleepingRun start run with ⟨items',sleeping⟩ | ⟨-,released⟩
    · obtain ⟨-,-,early⟩ := sleeping.mine (show 100 ≠ 0 by decide)
      rw [ticksInAppend,none_,counted] at early
      omega
    · exact released
  have enough := sleeps _ asks idle [] (.start ⟨_,_,rfl⟩) _ allowed rfl _ _ taken s2 later run released
  rw [ticksInAppend,none_,counted] at enough
  omega

/-- `sleep n` sleeps at least n seconds exactly for n up to 2184: then 30 * n ticks fit in two bytes. -/
theorem sleepsEnough {name arg : List Char} {more : List (List Char)} (digits : Digits arg) (fits : decimal arg ≤ 32767) :
    SleepsEnough (name::arg::more) (decimal arg) ↔ decimal arg ≤ 2184 := by
  have low := decimalNonneg arg
  have asks := sleepAsks digits fits name more
  constructor
  · intro sleeps
    by_contra long
    have int : IsInt (toInt16 (decimal arg * 30)) := by
      unfold IsInt toInt16
      omega
    have real : toInt16 (decimal arg * 30) ≠ 0 := by
      unfold toInt16
      omega
    have enough := wokenAfter asks int real sleeps
    unfold span at enough
    omega
  · intro short request own s history run i allowed asked s1 out taken s2 later on released
    cases asks.symm.trans own
    obtain ⟨items,queued⟩ := queuedRun run
    by_cases zero : toInt16 (decimal arg * 30) = 0
    · unfold toInt16 at zero
      omega
    · obtain ⟨items',start⟩ := asksSleeping queued allowed asked zero taken
      rcases sleepingRun start on with ⟨items'',sleeping⟩ | ⟨enough,-⟩
      · exact absurd released sleeping.quiet
      · unfold span toInt16 at enough
        omega

end

-- `sleep 10`
theorem sleepsEnoughTen : SleepsEnough [['s','l','e','e','p'],['1','0']] 10 :=
  (@sleepsEnough ['s','l','e','e','p'] ['1','0'] [] (by simp [Digits]) (by decide)).mpr (by decide)

-- `sleep 2185` asks for 14 ticks.
theorem sleepsShort : ¬ SleepsEnough [['s','l','e','e','p'],['2','1','8','5']] 2185 := by
  intro sleeps
  have asks : sleep [['s','l','e','e','p'],['2','1','8','5']] = some (.delay 14) := by decide
  have early := wokenAfter asks ⟨by decide,by decide⟩ (by decide) sleeps
  exact absurd early (by decide)

end Avros.Usr.Sleep
