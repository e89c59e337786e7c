import Avros.TimeServer

/-! The clocks of `servers/ts.c`. One counter of ticks steps both of them every thirty
ticks; a message may set the global one at any time, which does not touch the counter. -/
namespace Avros.TimeServer
open Run QueueLinks

structure Time.Valid (time : Time) : Prop where
  sec : time.sec < 60
  min : time.min < 60
  hour : time.hour < 24

def Time.seconds (time : Time) : Nat := 3600 * time.hour + 60 * time.min + time.sec

structure Time.Shows (time : Time) (n : Nat) : Prop where
  valid : time.Valid
  seconds : time.seconds = n % 86400

section
variable {s s' : Ts} {i : Input} {history out : List Event} {time : Time}

theorem Time.Valid.shows (valid : time.Valid) : time.Shows time.seconds := by
  obtain ⟨sec,min,hour⟩ := valid
  refine ⟨⟨sec,min,hour⟩,(Nat.mod_eq_of_lt ?_).symm⟩
  unfold Time.seconds
  omega

theorem zeroShows : Time.Shows ⟨0,0,0⟩ 0 := ⟨⟨by decide,by decide,by decide⟩,rfl⟩

/- One step of a clock is one second, through all three carries. -/
theorem stepTimerShows {n : Nat} (shows_ : time.Shows n) : (stepTimer time).Shows (n + 1) := by
  obtain ⟨⟨sec,min,hour⟩,seconds⟩ := shows_
  unfold Time.seconds at seconds
  unfold stepTimer
  by_cases more : (time.sec + 1) % 256 ≠ 60
  · rw [if_pos more]
    have next : (time.sec + 1) % 256 = time.sec + 1 := by omega
    rw [next] at more ⊢
    refine ⟨⟨by change time.sec + 1 < 60; omega,min,hour⟩,?_⟩
    simp only [Time.seconds]
    omega
  rw [if_neg more]
  by_cases minutes : (time.min + 1) % 256 ≠ 60
  · rw [if_pos minutes]
    have next : (time.min + 1) % 256 = time.min + 1 := by omega
    rw [next] at minutes ⊢
    refine ⟨⟨Nat.succ_pos 59,by change time.min + 1 < 60; omega,hour⟩,?_⟩
    simp only [Time.seconds]
    omega
  rw [if_neg minutes]
  by_cases hours : (time.hour + 1) % 256 ≠ 24
  · rw [if_pos hours]
    have next : (time.hour + 1) % 256 = time.hour + 1 := by omega
    rw [next] at hours ⊢
    refine ⟨⟨Nat.succ_pos 59,Nat.succ_pos 59,by change time.hour + 1 < 24; omega⟩,?_⟩
    simp only [Time.seconds]
    omega
  · rw [if_neg hours]
    refine ⟨⟨by decide,by decide,by decide⟩,?_⟩
    simp only [Time.seconds]
    omega

/-! What a turn of the server does to its clocks -/

structure SameClocks (s s' : Ts) : Prop where
  ticks : s'.ticks = s.ticks
  uptime : s'.uptime = s.uptime
  globtime : s'.globtime = s.globtime

-- A clock after one more tick, the `n`-th being the last before.
def stepped (n : Nat) (time : Time) : Time := if (n + 1) % 30 = 0 then stepTimer time else time

theorem Time.Shows.stepped {x : Nat} (shows_ : time.Shows x) (n : Nat) :
    (stepped n time).Shows (x + ((n + 1) / 30 - n / 30)) := by
  unfold TimeServer.stepped
  by_cases full : (n + 1) % 30 = 0
  · have one : (n + 1) / 30 - n / 30 = 1 := by omega
    rw [if_pos full,one]
    exact stepTimerShows shows_
  · have none_ : (n + 1) / 30 - n / 30 = 0 := by omega
    rw [if_neg full,none_]
    exact shows_

theorem countTickClocks {n : Nat} (ticks : s.ticks = n % 30) : (countTick s).ticks = (n + 1) % 30 ∧
    (countTick s).uptime = stepped n s.uptime ∧ (countTick s).globtime = stepped n s.globtime := by
  unfold countTick stepped
  rw [ticks]
  by_cases full : (n + 1) % 30 = 0
  · rw [if_pos (by omega),if_pos full,if_pos full]
    exact ⟨full.symm,rfl,rfl⟩
  · rw [if_neg (by omega),if_neg full,if_neg full]
    refine ⟨?_,rfl,rfl⟩
    change (n % 30 + 1) % 256 = (n + 1) % 30
    omega

theorem managedelayClocks (freed : Nat → Item) (t : Ts × List Pid) (w : Nat) (same : SameClocks s t.1) :
    SameClocks s (tsManagedelay freed t w).1.1 := by
  unfold tsManagedelay
  by_cases more : Vfs.toInt16 ((t.1.wait w).delay - 1) ≠ 0
  · rw [if_pos more]
    exact ⟨same.ticks,same.uptime,same.globtime⟩
  · rw [if_neg more]
    exact ⟨same.ticks,same.uptime,same.globtime⟩

/- A tick steps the counter and, when thirty are full, both clocks; any other message leaves
them alone, but that one sets the global clock. -/
theorem stepClocks (taken : step s i = some (s',out)) :
    i.request = .tick ∧ ticksIn out = 1 ∧ SameClocks (countTick s) s' ∨
    i.request ≠ .tick ∧ ticksIn out = 0 ∧ s'.ticks = s.ticks ∧ s'.uptime = s.uptime ∧
      (s'.globtime = s.globtime ∨ ∃ time, i.request = .setGlobtime time) := by
  unfold step at taken
  cases call : i.request with
  | tick =>
    simp only [call,bind,Option.bind_eq_some_iff] at taken
    obtain ⟨⟨⟨t,sent⟩,r⟩,walk,last⟩ := taken
    obtain ⟨rfl,rfl⟩ := Prod.mk.inj (Option.some.inj last)
    refine .inl ⟨rfl,tickOne i.client sent,?_⟩
    exact forallKeeps (P := fun t : Ts × List Pid => SameClocks (countTick s) t.1)
      (fun t w same => managedelayClocks i.freed t w same) ⟨rfl,rfl,rfl⟩ walk
  | delay ticks =>
    simp only [call] at taken
    split at taken
    · obtain ⟨rfl,rfl⟩ := Prod.mk.inj (Option.some.inj taken)
      unfold addtswait
      split
      · exact .inr ⟨by simp,rfl,rfl,rfl,.inl rfl⟩
      · exact .inr ⟨by simp,rfl,rfl,rfl,.inl rfl⟩
    · obtain ⟨rfl,rfl⟩ := Prod.mk.inj (Option.some.inj taken)
      exact .inr ⟨by simp,rfl,rfl,rfl,.inl rfl⟩
  | setGlobtime time =>
    simp only [call] at taken
    obtain ⟨rfl,rfl⟩ := Prod.mk.inj (Option.some.inj taken)
    exact .inr ⟨by simp,rfl,rfl,rfl,.inr ⟨time,rfl⟩⟩
  | getUptime | getGlobtime | other =>
    simp only [call] at taken
    obtain ⟨rfl,rfl⟩ := Prod.mk.inj (Option.some.inj taken)
    exact .inr ⟨by simp,rfl,rfl,rfl,.inl rfl⟩

-- Any delay is asked for, whatever kmalloc answers.
def Any (_ : Ts) (_ : Input) : Prop := True

theorem uptimeRun (run : Reaches step Any Started s history) :
    s.ticks = ticksIn history % 30 ∧ s.uptime.Shows (ticksIn history / 30) := by
  refine run.invariant (P := fun s history => s.ticks = ticksIn history % 30 ∧ s.uptime.Shows (ticksIn history / 30)) ?_ ?_
  · rintro s ⟨mem,wait,rfl⟩
    exact ⟨rfl,zeroShows⟩
  · rintro s history i s' out ⟨ticks,shows_⟩ - taken
    rw [ticksInAppend]
    rcases stepClocks taken with ⟨-,one,same⟩ | ⟨-,none_,ticks',uptime,-⟩
    · obtain ⟨counted,up,-⟩ := countTickClocks ticks
      have next : ticksIn history / 30 + ((ticksIn history + 1) / 30 - ticksIn history / 30) =
          (ticksIn history + 1) / 30 := by omega
      rw [one,same.ticks,same.uptime,counted,up,← next]
      exact ⟨rfl,shows_.stepped _⟩
    · rw [none_,ticks',uptime]
      exact ⟨ticks,shows_⟩

def Unset (_ : Ts) (i : Input) : Prop := ∀ time, i.request ≠ .setGlobtime time

theorem globtimeRun {start : Ts} {m t : Nat} {later : List Event} (ticks : start.ticks = m % 30)
    (shows_ : start.globtime.Shows t) (run : Reaches step Unset (· = start) s later) :
    s.ticks = (m + ticksIn later) % 30 ∧ s.globtime.Shows (t + (m + ticksIn later) / 30 - m / 30) := by
  refine run.invariant (P := fun s later => s.ticks = (m + ticksIn later) % 30 ∧
    s.globtime.Shows (t + (m + ticksIn later) / 30 - m / 30)) ?_ ?_
  · rintro s rfl
    have same : t + (m + ticksIn []) / 30 - m / 30 = t := Nat.add_sub_cancel t (m / 30)
    rw [same]
    exact ⟨ticks,shows_⟩
  · rintro s later i s' out ⟨ticks,shows_⟩ unset taken
    rw [ticksInAppend]
    rcases stepClocks taken with ⟨-,one,same⟩ | ⟨-,none_,ticks',-,globtime | ⟨time,set_⟩⟩
    · obtain ⟨counted,-,glob⟩ := countTickClocks ticks
      have next : t + (m + ticksIn later) / 30 - m / 30 + ((m + ticksIn later + 1) / 30 - (m + ticksIn later) / 30) =
          t + (m + ticksIn later + 1) / 30 - m / 30 := by omega
      rw [one,← Nat.add_assoc,same.ticks,same.globtime,counted,glob,← next]
      exact ⟨rfl,shows_.stepped _⟩
    · rw [none_,ticks',globtime]
      exact ⟨ticks,shows_⟩
    · exact absurd set_ (unset time)

theorem ticksOnward {items : List Nat} (queued : Queued s items) (n : Nat) : ∃ s' later items',
    Reaches step Unset (· = s) s' later ∧ ticksIn later = n ∧ Queued s' items' := by
  induction n with
  | zero => exact ⟨s,[],items,.start rfl,rfl,queued⟩
  | succ n ih =>
    obtain ⟨s1,later,items1,run,counted,queued1⟩ := ih
    obtain ⟨s2,taken,queued2,-⟩ := queued1.tick 0 0 blank
    refine ⟨s2,_,_,run.next (fun time same => Request.noConfusion same) taken,?_,queued2⟩
    rw [ticksInAppend,counted,tickOne]

/-- The uptime is the seconds since the start, and the global time goes on from what it was
last set to, thirty ticks to the second counted from the start. -/
theorem clocksRight (run : Reaches step Any Started s history) :
    s.uptime.Shows (ticksIn history / 30) ∧
    (∀ i, i.request = .getUptime → step s i = some (s,[.replied i.client (some s.uptime)])) ∧
    ∀ i time, i.request = .setGlobtime time → time.Valid →
      ∃ s1 out, step s i = some (s1,out) ∧ ticksIn out = 0 ∧
        ∀ s' later, Reaches step Unset (· = s1) s' later →
          s'.globtime.Shows (time.seconds + (ticksIn history + ticksIn later) / 30 - ticksIn history / 30) ∧
          ∀ i, i.request = .getGlobtime → step s' i = some (s',[.replied i.client (some s'.globtime)]) := by
  obtain ⟨ticks,uptime⟩ := uptimeRun run
  refine ⟨uptime,fun i call => by rw [step,call],fun i time call valid => ?_⟩
  refine ⟨{ s with globtime := time },[.replied i.client (some time)],by rw [step,call],rfl,fun s' later after => ?_⟩
  exact ⟨(@globtimeRun s' { s with globtime := time } _ _ later ticks valid.shows after).2,fun i call => by rw [step,call]⟩

end

/- At the 29th tick the clock is set to the last second of a day; the next tick ends the day, and
sixty more are two seconds. -/
theorem clocksRightAtMidnight : ∃ s history s1 s' later, Reaches step Any Started s history ∧ ticksIn history = 29 ∧
    step s ⟨3,.setGlobtime ⟨59,59,23⟩,0,blank⟩ = some (s1,[.replied 3 (some ⟨59,59,23⟩)]) ∧
    Reaches step Unset (· = s1) s' later ∧ ticksIn later = 61 ∧ s.uptime.Shows 0 ∧ s'.globtime.Shows 86402 := by
  obtain ⟨s,history,items,run,counted,queued⟩ := ticksOnward idleQueued 29
  have reached : Reaches step Any Started s history :=
    run.weaken (fun _ _ _ => trivial) (fun s same => by rw [same]; exact ⟨_,_,rfl⟩)
  obtain ⟨uptime,-,set_⟩ := clocksRight reached
  obtain ⟨s1,out,taken,-,follows⟩ := set_ ⟨3,.setGlobtime ⟨59,59,23⟩,0,blank⟩ _ rfl ⟨by decide,by decide,by decide⟩
  cases taken
  have same : Queued { s with globtime := ⟨59,59,23⟩ } items := ⟨queued.formed,queued.small,queued.ints⟩
  obtain ⟨s',later,-,onward,ticked,-⟩ := ticksOnward same 61
  obtain ⟨shown,-⟩ := follows s' later onward
  rw [counted,ticked] at shown
  rw [counted] at uptime
  exact ⟨s,history,_,s',later,reached,counted,rfl,onward,ticked,uptime,shown⟩

end Avros.TimeServer
