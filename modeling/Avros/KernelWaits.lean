import Avros.KernelRounds
import Avros.Ranks

/-! Whom the sleepers wait for. Where the calls go up in some order of the tasks, but for the
answers to those who wait for one, nobody waits in a circle. -/
namespace Avros.Kernel
open Queue

-- The one task that a caller cannot go on without.
def awaits (c : Ctxt) : Option Pid :=
  match c.kcall with
  | .send => some c.p0
  | .sendrec => some c.p0
  | .receive => if c.p0 = taskAny then none else some c.p0
  | _ => none

def WaitsFor (s : State) (p q : Pid) : Prop := p ∈ s.blocked ∧ ∃ c, trapFrame s p = some c ∧ awaits c = some q

def Sleeps (c : Ctxt) : Prop := c.kcall = .send ∨ c.kcall = .sendrec ∨ c.kcall = .receive ∨ c.kcall = .waitevent

def Upward (rank : Pid → Nat) (s : State) (cur : Pid) (c : Ctxt) : Prop :=
  ∀ q, awaits c = some q → rank cur < rank q ∨
    c.kcall = .send ∧ (PendingReceive s q cur ∨ PendingReceive s q taskAny) ∨ c.kcall = .receive ∧ PendingSend s q cur

structure Ranked (rank : Pid → Nat) (s : State) (i : Input) : Prop where
  legal : Legal s i
  upward : i.eventcode = eventNone → ∀ cur, (scheduler s).current.head? = some cur → Upward rank s cur i.ctxt

def Sleepers (ok : Pid → Ctxt → Prop) (s : State) : Prop := ∀ p ∈ s.blocked, ∀ c, trapFrame s p = some c → ok p c

def AllAsleep (idle : Pid) (s : State) : Prop := ∀ p, (s.task p).isSome → p = idle ∨ p ∈ s.blocked

/- A task that waits for no other: it is not there or not started, it waits for an event, or
for a message from anybody while there is none for it. -/
def Outside (idle : Pid) (s : State) (r : Pid) : Prop :=
  s.task r = none ∨ r = idle ∨ r ∈ s.blocked ∧ (trapFrame s r = none ∨
    ∃ c, trapFrame s r = some c ∧ (c.kcall = .waitevent ∨ c.kcall = .receive ∧ c.p0 = taskAny ∧ ∀ p, ¬ PendingSend s p r))

section
variable {ok : Pid → Ctxt → Prop} {i : Input} {s s' : State} {cur w : Pid}

theorem Sleepers.fewer (held : Sleepers ok s)
    (kept : ∀ p ∈ s'.blocked, ∀ c, trapFrame s' p = some c → p ∈ s.blocked ∧ trapFrame s p = some c) : Sleepers ok s' :=
  fun p member c there => held p (kept p member c there).1 c (kept p member c there).2

theorem Sleepers.joined (held : Sleepers ok s) {d : Ctxt}
    (kept : ∀ p ∈ s'.blocked, p ≠ w → ∀ c, trapFrame s' p = some c → p ∈ s.blocked ∧ trapFrame s p = some c)
    (frame : ∀ c, trapFrame s' w = some c → c = d) (own : ok w d) : Sleepers ok s' := by
  intro p member c there
  by_cases new : p = w
  · subst new
    rw [frame c there]
    exact own
  · exact held p (kept p member new c there).1 c (kept p member new c there).2

theorem Sleepers.woken (placed : Placed s) (held : Sleepers ok s) (asleep : w ∈ s.blocked)
    (blocked : s'.blocked = qRemv s.blocked w) (frames : ∀ p ∈ s.blocked, p ≠ w → trapFrame s' p = trapFrame s p) :
    Sleepers ok s' := by
  refine held.fewer fun p member c there => ?_
  rw [blocked] at member
  have other : p ≠ w := fun h => placed.blockedOnce asleep (h ▸ member)
  exact ⟨memRemv member,frames p (memRemv member) other ▸ there⟩

theorem Sleepers.slept (held : Sleepers ok s) (frame : trapFrame s cur = some i.ctxt) (tasks : s'.task = s.task)
    (lines : ∀ p ∈ s'.blocked, p = cur ∨ p ∈ s.blocked) (own : ok cur i.ctxt) : Sleepers ok s' := by
  have frames : ∀ p, trapFrame s' p = trapFrame s p := fun p => by simp only [trapFrame,tasks]
  refine held.joined (w := cur) (d := i.ctxt) (fun p member other c there => ?_) (fun c there => ?_) own
  · exact ⟨(lines p member).resolve_left other,frames p ▸ there⟩
  · rw [frames,frame] at there
    exact (Option.some.inj there).symm

theorem handleKcallKept (awake : Awake s) (running : cur ∈ s.current) (fresh : i.newtask ≠ 0 → s.task i.newtask = none)
    (plain : ¬ Sleeps i.ctxt) : ∀ p ∈ (handleKcall i s cur).1.blocked, ∀ c, trapFrame (handleKcall i s cur).1 p = some c →
      p ∈ s.blocked ∧ trapFrame s p = some c := by
  have awakeCur := awake.placed.currentNotBlocked running
  have live := (awake.placed.live (occursSomewhere (Or.inl running))).1
  have notCur : ∀ p ∈ s.blocked, p ≠ cur := fun p member h => awakeCur (h ▸ member)
  have returned : ∀ t : State, t.blocked = s.blocked →
      (∀ p ∈ s.blocked, ∀ c, trapFrame t p = some c → trapFrame s p = some c) →
      ∀ v, ∀ p ∈ (setP0 t cur v).blocked, ∀ c, trapFrame (setP0 t cur v) p = some c →
        p ∈ s.blocked ∧ trapFrame s p = some c := by
    intro t lines frames v p member c there
    have old : p ∈ s.blocked := by rw [← lines]; exact member
    rw [setP0,trapFrameOther _ (notCur p old)] at there
    exact ⟨old,frames p old c there⟩
  have rewritten : ∀ w f, (∀ t c, (f t).sp = .frame .trap c → t.sp = .frame .trap c) →
      ∀ p ∈ (setTask s w f).blocked, ∀ c, trapFrame (setTask s w f) p = some c → p ∈ s.blocked ∧ trapFrame s p = some c :=
    fun w f keeps p member c there => ⟨member,trapFrameSource (fun t => keeps t c) there⟩
  unfold handleKcall
  split
  case h_1 =>
    intro p member c there
    rcases createdBlocked member with old | ⟨real,new⟩
    · exact ⟨old,(createdFrame (notCur p old) there).1⟩
    · have other : p ≠ cur := by
        rintro rfl
        rw [new,fresh real] at live
        contradiction
      rcases (createdFrame other there).2 with null | older
      · exact absurd null real
      · exact absurd new older
  case h_2 => exact returned _ (allocatedBlocked _ _ _ _) (fun p _ c there => allocatedSource there) _
  case h_3 => exact fun p member c there => ⟨member,setupSource there⟩
  case h_4 => exact fun p member c there => ⟨memRemv member,there⟩
  case h_5 => exact fun p member c there => ⟨member,stoppedSource there⟩
  case h_6 =>
    intro p member c there
    rw [freeTaskBlocked] at member
    exact ⟨memRemv member,freeTaskFrame (s := outOfBlocked s i.ctxt.p0) there⟩
  case h_7 =>
    intro p member c there
    rw [freeTaskBlocked] at member
    exact ⟨member,freeTaskFrame (s := outOfCurrent s cur) there⟩
  case h_8 => exact rewritten _ _ (fun _ _ top => top)
  case h_9 => exact rewritten _ _ (fun _ _ top => top)
  case h_10 call => exact absurd (.inr (.inr (.inr call))) plain
  case h_11 => exact returned s rfl (fun _ _ _ there => there) _
  case h_13 => exact returned s rfl (fun _ _ _ there => there) _
  case h_14 call => exact absurd (.inl call) plain
  case h_15 call => exact absurd (.inr (.inl call)) plain
  case h_16 call => exact absurd (.inr (.inr (.inl call))) plain
  all_goals exact fun p member c there => ⟨member,there⟩

section
variable (awake : Awake s) (running : cur ∈ s.current) (frame : trapFrame s cur = some i.ctxt) (held : Sleepers ok s)
include awake running frame held

theorem kcallSendSleepers (own : cur ∈ (kcallSend i s cur).1.blocked → ok cur i.ctxt) :
    Sleepers ok (kcallSend i s cur).1 := by
  have real := awake.placed.currentReal running
  unfold kcallSend at own ⊢
  split at own
  · exact held.slept frame rfl (fun p member => memFront member) (own (by simp [toBlockedFront,qFront,real]))
  · rename_i w s' found
    obtain ⟨asleep,-,rfl⟩ := sendScanSome found
    exact held.woken awake.placed asleep rfl (fun p _ other => deliveredFrame other)

theorem kcallSendrecSleepers (own : ok cur i.ctxt) (again : ok cur { i.ctxt with kcall := .receive }) :
    Sleepers ok (kcallSendrec i s cur).1 := by
  have awakeCur := awake.placed.currentNotBlocked running
  unfold kcallSendrec
  split
  · exact held.slept frame rfl (fun p member => memFront member) own
  · rename_i w s' found
    obtain ⟨asleep,-,rfl⟩ := sendScanSome found
    have distinct : cur ≠ w := fun h => awakeCur (h ▸ asleep)
    refine held.joined (w := cur) (fun p member other c there => ?_) (fun c there => ?_) again
    · have rest := (memFront member).resolve_left other
      have notW : p ≠ w := fun h => awake.placed.blockedOnce asleep (h ▸ rest)
      refine ⟨memRemv rest,?_⟩
      have same : trapFrame (setKcallcode (delivered i s w cur) cur .receive) p = some c := there
      rwa [setKcallcode,trapFrameOther _ other,deliveredFrame notW] at same
    · have mine : trapFrame (setKcallcode (delivered i s w cur) cur .receive) cur = some { i.ctxt with kcall := .receive } :=
        trapFrameOnCtxt _ (by rw [deliveredFrame distinct]; exact frame)
      exact (Option.some.inj (mine.symm.trans there)).symm

theorem kcallReceiveSleepers (own : cur ∈ (kcallReceive i s cur).1.blocked → ok cur i.ctxt)
    (closed : ∀ p c, ok p c → c.kcall = .sendrec → ok p { c with kcall := .receive }) :
    Sleepers ok (kcallReceive i s cur).1 := by
  have real := awake.placed.currentReal running
  have awakeCur := awake.placed.currentNotBlocked running
  have notCur : ∀ p ∈ s.blocked, p ≠ cur := fun p member h => awakeCur (h ▸ member)
  unfold kcallReceive at own ⊢
  split at own
  · exact held.slept frame rfl (fun p member => memFront member) (own (by simp [toBlockedFront,qFront,real]))
  · rename_i w s' found
    obtain ⟨asleep,-,rfl⟩ := receiveScanSome found
    have distinct : w ≠ cur := notCur w asleep
    by_cases sendrec : (getCtxt i (delivered i s cur w) w).kcall = .sendrec
    · simp only [if_pos sendrec]
      intro p member c there
      by_cases his : p = w
      · subst his
        obtain ⟨d,old,rfl⟩ := trapFrameOnCtxtSource there
        have call : d.kcall = .sendrec := by
          rw [trapFrameCtxt i old] at sendrec
          exact sendrec
        rw [deliveredFrame distinct] at old
        exact closed p d (held p asleep d old) call
      · rw [setKcallcode,trapFrameOther _ his,deliveredFrame (notCur p member)] at there
        exact held p member c there
    · simp only [if_neg sendrec]
      exact held.woken awake.placed asleep rfl (fun p member _ => deliveredFrame (notCur p member))

end

theorem handleKcallSleepers (awake : Awake s) (running : cur ∈ s.current) (frame : trapFrame s cur = some i.ctxt)
    (fresh : i.newtask ≠ 0 → s.task i.newtask = none) (held : Sleepers ok s)
    (closed : ∀ p c, ok p c → c.kcall = .sendrec → ok p { c with kcall := .receive })
    (own : Sleeps i.ctxt → cur ∈ (handleKcall i s cur).1.blocked → ok cur i.ctxt) : Sleepers ok (handleKcall i s cur).1 := by
  by_cases plain : ¬ Sleeps i.ctxt
  · exact held.fewer (handleKcallKept awake running fresh plain)
  · have sleeps := not_not.mp plain
    have asks := own sleeps
    unfold handleKcall at asks ⊢
    rcases sleeps with call | call | call | call
    · rw [call] at asks ⊢
      exact kcallSendSleepers awake running frame held asks
    · rw [call] at asks ⊢
      have asleep : cur ∈ (kcallSendrec i s cur).1.blocked := by
        have real := awake.placed.currentReal running
        unfold kcallSendrec
        split <;> simp [toBlockedFront,qFront,real]
      exact kcallSendrecSleepers awake running frame held (asks asleep) (closed cur i.ctxt (asks asleep) call)
    · rw [call] at asks ⊢
      exact kcallReceiveSleepers awake running frame held asks closed
    · rw [call] at asks ⊢
      have real := awake.placed.currentReal running
      exact held.slept frame rfl (fun p member => memEnd member) (asks (by simp [toBlockedEnd,qEnd,real]))

theorem handleEventSleepers (placed : Placed s) (held : Sleepers ok s) : Sleepers ok (handleEvent i s cur).1 := by
  rcases handleEventCases i s cur with ⟨same,-⟩ | ⟨w,signalled,-⟩
  · rwa [same]
  · refine held.woken placed signalled.waited.1 signalled.blocked fun p _ other => ?_
    simp only [trapFrame,signalled.task p other]

theorem kernelSleepers {out : List Event} (awake : Awake s) (legal : Legal s i) (taken : kernel s i = some (s',out))
    (held : Sleepers ok s) (closed : ∀ p c, ok p c → c.kcall = .sendrec → ok p { c with kcall := .receive })
    (own : ∀ cur, (scheduler s).current.head? = some cur → i.eventcode = eventNone → Sleeps i.ctxt → cur ∈ s'.blocked →
      ok cur i.ctxt) : Sleepers ok s' := by
  obtain ⟨cur,rest,line,rfl,-⟩ := kernelRound taken
  have ready := schedulerAwake awake
  have running : cur ∈ (scheduler s).current := by simp [line]
  have entered := enterAwake (i := i) ready running
  have live := (ready.placed.live (occursSomewhere (Or.inl running))).1
  have waiting : Sleepers ok (enter i (scheduler s) cur) := by
    refine held.fewer fun p member c there => ?_
    have asleep : p ∈ (scheduler s).blocked := member
    have other : p ≠ cur := fun h => ready.placed.currentNotBlocked running (h ▸ asleep)
    rw [enter,trapFrameOther _ other] at there
    rw [schedulerBlocked] at asleep
    exact ⟨asleep,by simpa only [trapFrame,schedulerTask] using there⟩
  have own' := own cur (by simp [line])
  unfold handle at own' ⊢
  by_cases event : i.eventcode ≠ eventNone
  · rw [if_pos event]
    exact handleEventSleepers entered.placed waiting
  · rw [if_neg event] at own' ⊢
    have call : i.eventcode = eventNone := not_not.mp event
    refine handleKcallSleepers entered running (trapFrameEntered call live) (fun real => ?_) waiting closed (own' call)
    have absent := setTaskSome { scheduler s with mem := i.mem } cur i.newtask (fun t =>
      { t with sp := .frame (if i.eventcode = eventNone then .trap else .interrupt) i.ctxt })
    have none_ : (scheduler s).task i.newtask = none := by rw [schedulerTask]; exact (legal.fresh real).1
    rw [none_] at absent
    exact Option.not_isSome_iff_eq_none.mp (by rw [enter,absent]; decide)

theorem kcallSendMet (awakeCur : cur ∉ s.blocked) (member : w ∈ s.blocked) (meets : Rendezvous i s w cur) :
    cur ∉ (kcallSend i s cur).1.blocked := by
  unfold kcallSend
  split
  · rename_i missed
    exact absurd meets (sendScanNone missed w member)
  · rename_i v s' found
    obtain ⟨-,-,rfl⟩ := sendScanSome found
    exact fun asleep => awakeCur (memRemv asleep)

theorem kcallReceiveMet (awakeCur : cur ∉ s.blocked) (member : w ∈ s.blocked) (meets : Rendezvous i s cur w) :
    cur ∉ (kcallReceive i s cur).1.blocked := by
  unfold kcallReceive
  split
  · rename_i missed
    exact absurd meets (receiveScanNone missed w member)
  · rename_i v s' found
    obtain ⟨-,-,rfl⟩ := receiveScanSome found
    split
    · exact awakeCur
    · exact fun asleep => awakeCur (memRemv asleep)

def Uphill (rank : Pid → Nat) (p : Pid) (c : Ctxt) : Prop := Sleeps c ∧ ∀ q, awaits c = some q → rank p < rank q

theorem uphillClosed {rank : Pid → Nat} (p : Pid) (c : Ctxt) (uphill : Uphill rank p c) (call : c.kcall = .sendrec) :
    Uphill rank p { c with kcall := .receive } := by
  refine ⟨.inr (.inr (.inl rfl)),fun q waits => uphill.2 q ?_⟩
  simp only [awaits] at waits
  split at waits
  · contradiction
  · simp only [awaits,call]
    exact waits

variable {rank : Pid → Nat} {idle p q r : Pid} {out history : List Event}

theorem enteredSleeper {c : Ctxt} (awake : Awake s) (running : cur ∈ (scheduler s).current) (asleep : p ∈ s.blocked)
    (frame : trapFrame s p = some c) :
    p ∈ (enter i (scheduler s) cur).blocked ∧ getCtxt i (enter i (scheduler s) cur) p = c := by
  have member : p ∈ (scheduler s).blocked := by rwa [schedulerBlocked]
  have other : p ≠ cur := fun h => (schedulerAwake awake).placed.currentNotBlocked running (h ▸ member)
  refine ⟨member,trapFrameCtxt i ?_⟩
  rw [enter,trapFrameOther _ other]
  simpa only [trapFrame,schedulerTask] using frame

theorem rankedSleepers (awake : Awake s) (ranked : Ranked rank s i) (taken : kernel s i = some (s',out))
    (held : Sleepers (Uphill rank) s) : Sleepers (Uphill rank) s' := by
  refine kernelSleepers awake ranked.legal taken held uphillClosed fun cur head call sleeps asleep => ?_
  refine ⟨sleeps,fun q waits => ?_⟩
  obtain ⟨cur',rest,line,rfl,-⟩ := kernelRound taken
  have same : cur' = cur := by simpa [line] using head
  subst same
  have running : cur' ∈ (scheduler s).current := by simp [line]
  have ready := schedulerAwake awake
  have live := (ready.placed.live (occursSomewhere (Or.inl running))).1
  have own : getCtxt i (enter i (scheduler s) cur') cur' = i.ctxt := trapFrameCtxt i (trapFrameEntered call live)
  have awakeCur : cur' ∉ (enter i (scheduler s) cur').blocked := ready.placed.currentNotBlocked running
  unfold handle at asleep
  rw [if_neg (not_not.mpr call)] at asleep
  have sent : ∀ src, src = cur' ∨ src = taskAny → i.ctxt.kcall = .send → ¬ PendingReceive s q src := by
    rintro src accepts code ⟨member,d,frame,receives,from_⟩
    obtain ⟨member',his⟩ := enteredSleeper (i := i) awake running member frame
    have named : i.ctxt.p0 = q := by simpa [awaits,code] using waits
    have meets : Rendezvous i (enter i (scheduler s) cur') q cur' := by
      refine ⟨.inl (own ▸ code),his ▸ receives,own ▸ named,?_⟩
      rw [his,from_]
      exact accepts
    refine kcallSendMet awakeCur member' meets ?_
    rw [handleKcall,code] at asleep
    exact asleep
  rcases ranked.upward call cur' head q waits with up | ⟨code,his | anybody⟩ | ⟨code,member,d,frame,sends,named⟩
  · exact up
  · exact absurd his (sent cur' (.inl rfl) code)
  · exact absurd anybody (sent taskAny (.inr rfl) code)
  · obtain ⟨member',his⟩ := enteredSleeper (i := i) awake running member frame
    have from_ : i.ctxt.p0 = q := by
      simp only [awaits,code] at waits
      split at waits
      · contradiction
      · exact Option.some.inj waits
    have meets : Rendezvous i (enter i (scheduler s) cur') cur' q :=
      ⟨his ▸ sends,own ▸ code,his ▸ named,.inl (own ▸ from_)⟩
    rw [handleKcall,code] at asleep
    exact absurd asleep (kcallReceiveMet awakeCur member' meets)

/-- In a run whose calls go up in rank, nobody waits in a circle; and when nobody but the idle
task is awake, each wait leads on to a task that waits for no other. -/
theorem waitsEndOutside {b : Boot} (run : Run.Reaches kernel (Ranked rank) (Booted b) s history) :
    (∀ p, ¬ Relation.TransGen (WaitsFor s) p p) ∧
    (AllAsleep b.idle s → ∀ p q, WaitsFor s p q → ∃ r, Relation.ReflTransGen (WaitsFor s) q r ∧ Outside b.idle s r) := by
  obtain ⟨awake,held⟩ : Awake s ∧ Sleepers (Uphill rank) s := by
    refine run.stateInvariant (P := fun s => Awake s ∧ Sleepers (Uphill rank) s) (fun s booted => ⟨bootAwake booted,?_⟩) ?_
    · intro p member
      have empty : s.blocked = [] := by rw [bootedState booted]; rfl
      simp [empty] at member
    · rintro s i s' out ⟨awake,held⟩ ranked taken
      exact ⟨kernelAwake awake ranked.legal taken,rankedSleepers awake ranked taken held⟩
  have up : ∀ p q, WaitsFor s p q → rank p < rank q := by
    rintro p q ⟨member,c,frame,waits⟩
    exact (held p member c frame).2 q waits
  refine ⟨Ranks.noCycle up,fun quiet p q waits => ?_⟩
  obtain ⟨r,walk,last⟩ := Ranks.walkEnds up s.blocked (fun p q waits => waits.1) q
  refine ⟨r,walk,?_⟩
  by_cases there : (s.task r).isSome
  · rcases quiet r there with same | member
    · exact .inr (.inl same)
    · refine .inr (.inr ⟨member,?_⟩)
      cases frame : trapFrame s r with
      | none => exact .inl rfl
      | some c =>
        refine .inr ⟨c,rfl,?_⟩
        have ends : ∀ q, awaits c ≠ some q := fun q waits => last q ⟨member,c,frame,waits⟩
        rcases (held r member c frame).1 with code | code | code | code
        · exact absurd (by simp [awaits,code]) (ends c.p0)
        · exact absurd (by simp [awaits,code]) (ends c.p0)
        · have anybody : c.p0 = taskAny := by
            by_contra one
            exact ends c.p0 (by simp [awaits,code,one])
          exact .inr ⟨code,anybody,fun x sends => awake.noMissed x r ⟨sends,.inr ⟨member,c,frame,code,anybody⟩⟩⟩
        · exact .inl code
  · exact .inl (Option.not_isSome_iff_eq_none.mp there)

end

def askCreate : Input := demoCall ⟨.createtask,2,0,0,0⟩ 0x600
def askSend : Input := demoCall ⟨.send,0x600,0,0,0⟩ 0
def askMade : State := (handle askCreate (enter askCreate (scheduler (boot demoBoot)) 0x400) 0x400).1
def askSent : State := (handle askSend (enter askSend (scheduler askMade) 0x400) 0x400).1

theorem waitsEndOutsideUnstarted : (∃ history, Run.Reaches kernel (Ranked id) (Booted demoBoot) askSent history) ∧
    WaitsFor askSent 0x400 0x600 ∧ AllAsleep demoBoot.idle askSent ∧
    ∃ r, Relation.ReflTransGen (WaitsFor askSent) 0x600 r ∧ Outside demoBoot.idle askSent r := by
  have start : Run.Reaches kernel (Ranked id) (Booted demoBoot) (boot demoBoot) [] := .start demoBooted
  have created : Ranked id (boot demoBoot) askCreate :=
    ⟨⟨fun _ => ⟨rfl,by decide⟩,by decide⟩,fun _ _ _ q waits => nomatch waits⟩
  have made : Run.Reaches kernel (Ranked id) (Booted demoBoot) askMade _ := start.next created rfl
  have sends : Ranked id askMade askSend := by
    refine ⟨⟨by decide,by decide⟩,fun _ cur head q waits => .inl ?_⟩
    have first : (scheduler askMade).current.head? = some 0x400 := by decide
    cases first.symm.trans head
    cases waits
    decide
  have run : Run.Reaches kernel (Ranked id) (Booted demoBoot) askSent _ := made.next sends rfl
  have waits : WaitsFor askSent 0x400 0x600 := ⟨by decide,_,rfl,rfl⟩
  have quiet : AllAsleep demoBoot.idle askSent := by
    intro p live
    by_cases idle : p = demoBoot.idle
    · exact .inl idle
    · have entered : ∀ (i : Input) (s : State), ((enter i (scheduler s) 0x400).task p).isSome → (s.task p).isSome := by
        intro i s live
        rwa [enter,setTaskSome,schedulerTask] at live
      have first : p = 0x400 ∨ p = 0x600 := by
        have sender : ((handleKcall askSend (enter askSend (scheduler askMade) 0x400) 0x400).1.task p).isSome := live
        rcases handleKcallLive sender with old | ⟨real,-⟩
        · have maker : ((handleKcall askCreate (enter askCreate (scheduler (boot demoBoot)) 0x400)
              0x400).1.task p).isSome := entered askSend askMade old
          rcases handleKcallLive maker with older | ⟨-,new⟩
          · have there := entered askCreate (boot demoBoot) older
            rw [bootedState demoBooted] at there
            have first : p = demoBoot.first := by
              simpa [toQueueEnd,addTask,Function.update_apply,initTaskQueues,idle] using there
            exact .inl first
          · exact .inr new
        · contradiction
      refine .inr ?_
      rcases first with rfl | rfl <;> decide
  exact ⟨⟨_,run⟩,waits,quiet,(waitsEndOutside run).2 quiet _ _ waits⟩

end Avros.Kernel
