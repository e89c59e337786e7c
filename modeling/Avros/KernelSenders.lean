import Avros.KernelRounds
import Avros.KernelDelivery

/-! The order in which blocked senders are served. A sender that finds no receiver is put at
the front of `blocked_q`, and a receiver searches that queue from the front: the newest sender
is served first. -/
namespace Avros.Kernel
open Queue

-- Asleep in a SEND or SENDREC whose message is not delivered yet.
def sends (s : State) (p : Pid) : Bool :=
  match trapFrame s p with
  | some c => c.kcall = .send || c.kcall = .sendrec
  | none => false

def senders (s : State) : List Pid := s.blocked.filter (sends s)

def blocksSending (i : Input) (s : State) (cur : Pid) : Bool :=
  i.eventcode = eventNone && (i.ctxt.kcall = .send || i.ctxt.kcall = .sendrec) &&
  (qForall s.blocked (sendmsg i s cur)).isNone

-- The kernel with a clock that counts its rounds, and for each task when it last fell asleep sending.
structure Timed where
  state : State
  since : Pid → Nat
  clock : Nat

def timed : Run.Step Timed Input Event := fun t i => do
  let (s',out) ← kernel t.state i
  let cur := (scheduler t.state).current.headD 0
  let since := if blocksSending i (enter i (scheduler t.state) cur) cur then Function.update t.since cur t.clock
    else t.since
  some (⟨s',since,t.clock + 1⟩,out)

structure Stacked (t : Timed) : Prop where
  placed : Placed t.state
  newest : (senders t.state).Pairwise (fun p q => t.since q < t.since p)
  past : ∀ p ∈ senders t.state, t.since p < t.clock

section
variable {i : Input} {s s' : State} {cur p w : Pid}

theorem pendingSends {dest : Pid} (pending : PendingSend s p dest) : p ∈ senders s := by
  obtain ⟨asleep,c,frame,call,-⟩ := pending
  refine List.mem_filter.mpr ⟨asleep,?_⟩
  simp [sends,frame,call]

theorem sendsKept (kept : ∀ c, trapFrame s' p = some c → trapFrame s p = some c) (sending : sends s' p = true) :
    sends s p = true := by
  unfold sends at sending
  cases frame : trapFrame s' p with
  | none =>
    rw [frame] at sending
    contradiction
  | some c =>
    rw [frame] at sending
    simpa [sends,kept c frame] using sending

theorem filterSublist {l l' : List Pid} {f f' : Pid → Bool} (line : l'.Sublist l)
    (kept : ∀ p ∈ l', f' p = true → f p = true) : (l'.filter f').Sublist (l.filter f) := by
  induction line with
  | slnil => exact .slnil
  | @cons l₁ l₂ a line ih =>
    refine (ih kept).trans ?_
    exact (List.sublist_cons_self a l₂).filter f
  | @cons_cons l₁ l₂ a line ih =>
    have later := ih (fun p member => kept p (List.mem_cons_of_mem a member))
    by_cases first : f' a = true
    · rw [List.filter_cons_of_pos first,List.filter_cons_of_pos (kept a List.mem_cons_self first)]
      exact later.cons_cons a
    · rw [List.filter_cons_of_neg first]
      exact later.trans ((List.sublist_cons_self a l₂).filter f)

theorem qRemvSublist (line : List Pid) (w : Pid) : (qRemv line w).Sublist line := by
  unfold qRemv
  split
  · exact .refl _
  · exact List.erase_sublist

theorem sendersFewer (line : s'.blocked.Sublist s.blocked)
    (frames : ∀ p ∈ s'.blocked, ∀ c, trapFrame s' p = some c → trapFrame s p = some c) :
    (senders s').Sublist (senders s) :=
  filterSublist line (fun p member => sendsKept (frames p member))

theorem filterFront {line : List Pid} {f : Pid → Bool} (silent : f w = false) : (qFront line w).filter f = line.filter f := by
  unfold qFront
  split
  · rfl
  · exact List.filter_cons_of_neg (by simp [silent])

theorem filterEnd {line : List Pid} {f : Pid → Bool} (silent : f w = false) : (qEnd line w).filter f = line.filter f := by
  unfold qEnd
  split
  · rfl
  · simp [silent]

theorem sendsOther {c : Ctxt} (frame : trapFrame s p = some c) (call : c.kcall ≠ .send ∧ c.kcall ≠ .sendrec) :
    sends s p = false := by
  simp [sends,frame,call.1,call.2]

theorem handleEventSenders (placed : Placed s) : (senders (handleEvent i s cur).1).Sublist (senders s) := by
  unfold handleEvent
  split
  · exact .refl _
  rename_i w found
  obtain ⟨asleep,-,-⟩ := eventScanSome found
  have blocked : ∀ t : State, t.blocked = s.blocked → t.task = s.task → (senders (setP0
      { outOfBlocked t w with current := qFront (outOfBlocked t w).current w } w i.eventcode)).Sublist (senders s) := by
    intro t lines tasks
    refine sendersFewer ?_ ?_
    · change (qRemv t.blocked w).Sublist s.blocked
      rw [lines]
      exact qRemvSublist _ w
    · intro p member c frame
      change p ∈ qRemv t.blocked w at member
      rw [lines] at member
      have other : p ≠ w := fun h => placed.blockedOnce asleep (h ▸ member)
      rw [setP0,trapFrameOther _ other] at frame
      simpa only [trapFrame,outOfBlocked,tasks] using frame
  dsimp only
  split
  · exact blocked (toQueueEnd (outOfCurrent s cur) cur) rfl rfl
  · exact blocked (toQueueFront (outOfCurrent s cur) cur) rfl rfl

theorem sleepSenders (frame : trapFrame s cur = some i.ctxt) (call : i.ctxt.kcall = .send ∨ i.ctxt.kcall = .sendrec)
    (real : cur ≠ 0) : senders (toBlockedFront (outOfCurrent s cur) cur) = cur::senders s := by
  have line : (toBlockedFront (outOfCurrent s cur) cur).blocked = cur::s.blocked := if_neg real
  have own : sends s cur = true := by simp [sends,frame,call]
  rw [senders,line]
  exact List.filter_cons_of_pos own

theorem wokenSenders {t : State} (placed : Placed s) (asleep : w ∈ s.blocked) (blocked : t.blocked = qRemv s.blocked w)
    (frames : ∀ p ∈ s.blocked, p ≠ w → trapFrame t p = trapFrame s p) : (senders t).Sublist (senders s) := by
  refine sendersFewer ?_ ?_
  · rw [blocked]
    exact qRemvSublist _ w
  · intro p member c frame
    rw [blocked] at member
    have other : p ≠ w := fun h => placed.blockedOnce asleep (h ▸ member)
    exact frames p (memRemv member) other ▸ frame

theorem kcallSendrecSenders (placed : Placed s) (running : cur ∈ s.current) (frame : trapFrame s cur = some i.ctxt)
    {x : Pid × State} (found : qForall s.blocked (sendmsg i s cur) = some x) :
    (senders (kcallSendrec i s cur).1).Sublist (senders s) := by
  obtain ⟨w,t⟩ := x
  unfold kcallSendrec
  simp only [found]
  obtain ⟨asleep,-,rfl⟩ := sendScanSome found
  have distinct : cur ≠ w := fun h => placed.currentNotBlocked running (h ▸ asleep)
  have mine : trapFrame (setKcallcode (delivered i s w cur) cur .receive) cur =
      some { i.ctxt with kcall := .receive } :=
    trapFrameOnCtxt _ (by rw [deliveredFrame distinct]; exact frame)
  have silent : sends (setKcallcode (delivered i s w cur) cur .receive) cur = false :=
    sendsOther mine ⟨by simp,by simp⟩
  change ((qFront (qRemv s.blocked w) cur).filter (sends (setKcallcode (delivered i s w cur) cur .receive))).Sublist _
  rw [filterFront silent]
  refine filterSublist (qRemvSublist _ w) (fun p member => sendsKept (fun c there => ?_))
  have notW : p ≠ w := fun h => placed.blockedOnce asleep (h ▸ member)
  have notCur : p ≠ cur := fun h => placed.currentNotBlocked running (h ▸ memRemv member)
  rwa [setKcallcode,trapFrameOther _ notCur,deliveredFrame notW] at there

theorem kcallReceiveSenders (placed : Placed s) (running : cur ∈ s.current) (frame : trapFrame s cur = some i.ctxt)
    (call : i.ctxt.kcall = .receive) : (senders (kcallReceive i s cur).1).Sublist (senders s) := by
  have awake : ∀ p ∈ s.blocked, p ≠ cur := fun p member h => placed.currentNotBlocked running (h ▸ member)
  unfold kcallReceive
  split
  · have silent : sends s cur = false := sendsOther frame ⟨by simp [call],by simp [call]⟩
    change ((qFront s.blocked cur).filter (sends s)).Sublist (senders s)
    rw [filterFront silent]
    exact .refl _
  · rename_i w t found
    obtain ⟨asleep,-,rfl⟩ := receiveScanSome found
    have others : ∀ p ∈ s.blocked, p ≠ w → trapFrame (delivered i s cur w) p = trapFrame s p :=
      fun p member _ => deliveredFrame (awake p member)
    split
    · refine filterSublist (.refl _) (fun p member sending => ?_)
      by_cases same : p = w
      · subst same
        unfold sends at sending
        cases there : trapFrame (setKcallcode (delivered i s cur p) p .receive) p with
        | none =>
          rw [there] at sending
          contradiction
        | some c =>
          obtain ⟨d,-,rfl⟩ := trapFrameOnCtxtSource there
          rw [there] at sending
          simp at sending
      · refine sendsKept (fun c there => ?_) sending
        rwa [setKcallcode,trapFrameOther _ same,others p member same] at there
    · exact wokenSenders placed asleep rfl others

theorem createdSenders (placed : Placed s) (running : cur ∈ s.current)
    (fresh : i.newtask ≠ 0 → s.task i.newtask = none) : (senders (kcallCreatetask i s cur)).Sublist (senders s) := by
  have live := (placed.live (occursSomewhere (Or.inl running))).1
  have notCur : ∀ p ∈ s.blocked, p ≠ cur := fun p member h => placed.currentNotBlocked running (h ▸ member)
  have kept : (s.blocked.filter (sends (kcallCreatetask i s cur))).Sublist (senders s) :=
    filterSublist (.refl _) (fun p member => sendsKept (fun c there => (createdFrame (notCur p member) there).1))
  have line : (kcallCreatetask i s cur).blocked = if i.newtask = 0 then s.blocked else qFront s.blocked i.newtask := by
    unfold kcallCreatetask
    dsimp only [setP0,setTaskBlocked]
    split <;> rfl
  rw [senders,line]
  by_cases none : i.newtask = 0
  · rw [if_pos none]
    exact kept
  · have other : i.newtask ≠ cur := by
      intro same
      rw [← same,fresh none] at live
      contradiction
    have silent : sends (kcallCreatetask i s cur) i.newtask = false := by
      cases there : trapFrame (kcallCreatetask i s cur) i.newtask with
      | none => simp [sends,there]
      | some c => exact absurd rfl ((createdFrame other there).2.resolve_left none)
    rw [if_neg none,filterFront silent]
    exact kept

theorem handleKcallSenders (placed : Placed s) (running : cur ∈ s.current) (frame : trapFrame s cur = some i.ctxt)
    (call : i.eventcode = eventNone) (fresh : i.newtask ≠ 0 → s.task i.newtask = none) :
    if blocksSending i s cur then senders (handleKcall i s cur).1 = cur::senders s
    else (senders (handleKcall i s cur).1).Sublist (senders s) := by
  have real := placed.currentReal running
  have notCur : ∀ p ∈ s.blocked, p ≠ cur := fun p member h => placed.currentNotBlocked running (h ▸ member)
  have quiet : i.ctxt.kcall ≠ .send → i.ctxt.kcall ≠ .sendrec → ∀ t : State, (senders t).Sublist (senders s) →
      if blocksSending i s cur then senders t = cur::senders s else (senders t).Sublist (senders s) := by
    intro plain plain' t fewer
    rw [if_neg (by simp [blocksSending,plain,plain'])]
    exact fewer
  -- Calls that only rewrite one task structure cannot make a trap context.
  have rewritten : ∀ w f, (∀ t c, (f t).sp = .frame .trap c → t.sp = .frame .trap c) →
      (senders (setTask s w f)).Sublist (senders s) := by
    intro w f keeps
    exact sendersFewer (.refl _) (fun p _ c there => trapFrameSource (fun t => keeps t c) there)
  have returned : ∀ t : State, t.blocked = s.blocked →
      (∀ p ∈ s.blocked, ∀ c, trapFrame t p = some c → trapFrame s p = some c) →
      ∀ v, (senders (setP0 t cur v)).Sublist (senders s) := by
    intro t lines frames v
    refine sendersFewer ?_ ?_
    · rw [setP0,setTaskBlocked,lines]
    · intro p member c there
      have old : p ∈ s.blocked := by rw [← lines]; exact member
      rw [setP0,trapFrameOther _ (notCur p old)] at there
      exact frames p old c there
  unfold handleKcall
  cases code : i.ctxt.kcall with
  | send =>
    unfold kcallSend
    cases found : qForall s.blocked (sendmsg i s cur) with
    | none =>
      rw [if_pos (by simp [blocksSending,call,code,found])]
      exact sleepSenders frame (Or.inl code) real
    | some x =>
      obtain ⟨w,t⟩ := x
      obtain ⟨asleep,-,rfl⟩ := sendScanSome found
      rw [if_neg (by simp [blocksSending,found])]
      exact wokenSenders placed asleep rfl (fun p _ other => deliveredFrame other)
  | sendrec =>
    cases found : qForall s.blocked (sendmsg i s cur) with
    | none =>
      rw [if_pos (by simp [blocksSending,call,code,found])]
      simp only [kcallSendrec,found]
      exact sleepSenders frame (Or.inr code) real
    | some x =>
      rw [if_neg (by simp [blocksSending,found])]
      exact kcallSendrecSenders placed running frame found
  | receive =>
    rw [if_neg (by simp [blocksSending,code])]
    exact kcallReceiveSenders placed running frame code
  | createtask =>
    exact quiet (by simp [code]) (by simp [code]) _ (createdSenders placed running fresh)
  | allocatestack =>
    exact quiet (by simp [code]) (by simp [code]) _
      (returned _ (allocatedBlocked _ _ _ _) (fun p _ c there => allocatedSource there) _)
  | setuptask =>
    exact quiet (by simp [code]) (by simp [code]) _ (sendersFewer (.refl _) (fun p _ c there => setupSource there))
  | starttask =>
    exact quiet (by simp [code]) (by simp [code]) _ (sendersFewer (qRemvSublist _ _) (fun p _ c there => there))
  | stoptask =>
    exact quiet (by simp [code]) (by simp [code]) _ (sendersFewer (.refl _) (fun p _ c there => stoppedSource there))
  | deletetask =>
    refine quiet (by simp [code]) (by simp [code]) _ (sendersFewer ?_ ?_)
    · rw [freeTaskBlocked]
      exact qRemvSublist _ _
    · intro p _ c there
      exact freeTaskFrame (s := outOfBlocked s i.ctxt.p0) there
  | exittask =>
    refine quiet (by simp [code]) (by simp [code]) _ (sendersFewer ?_ ?_)
    · rw [freeTaskBlocked]
      exact .refl _
    · intro p _ c there
      exact freeTaskFrame (s := outOfCurrent s cur) there
  | irqen => exact quiet (by simp [code]) (by simp [code]) _ (rewritten _ _ (fun _ _ top => top))
  | irqdis => exact quiet (by simp [code]) (by simp [code]) _ (rewritten _ _ (fun _ _ top => top))
  | waitevent =>
    refine quiet (by simp [code]) (by simp [code]) _ ?_
    have silent : sends s cur = false := sendsOther frame ⟨by simp [code],by simp [code]⟩
    change ((qEnd s.blocked cur).filter (sends s)).Sublist (senders s)
    rw [filterEnd silent]
    exact .refl _
  | malloc => exact quiet (by simp [code]) (by simp [code]) _ (returned s rfl (fun _ _ _ there => there) _)
  | getpid => exact quiet (by simp [code]) (by simp [code]) _ (returned s rfl (fun _ _ _ there => there) _)
  | free => exact quiet (by simp [code]) (by simp [code]) _ (.refl _)
  | yield => exact quiet (by simp [code]) (by simp [code]) _ (.refl _)
  | other => exact quiet (by simp [code]) (by simp [code]) _ (.refl _)

theorem enterSleeper (placed : Placed s) (running : cur ∈ (scheduler s).current) (asleep : p ∈ s.blocked) :
    p ∈ (enter i (scheduler s) cur).blocked ∧ trapFrame (enter i (scheduler s) cur) p = trapFrame s p := by
  have member : p ∈ (scheduler s).blocked := by
    rw [schedulerBlocked]
    exact asleep
  have other : p ≠ cur := fun h => (schedulerPlaced placed).currentNotBlocked running (h ▸ member)
  refine ⟨member,?_⟩
  rw [enter,trapFrameOther _ other]
  simp only [trapFrame,schedulerTask]

theorem enterSenders (placed : Placed s) (running : cur ∈ (scheduler s).current) :
    senders (enter i (scheduler s) cur) = senders s := by
  have line : (enter i (scheduler s) cur).blocked = s.blocked := schedulerBlocked s
  rw [senders,line]
  refine List.filter_congr (fun p asleep => ?_)
  simp only [sends,(enterSleeper placed running asleep).2]

theorem handleSenders (placed : Placed s) (running : cur ∈ (scheduler s).current) (legal : Legal s i) :
    if blocksSending i (enter i (scheduler s) cur) cur then
      senders (handle i (enter i (scheduler s) cur) cur).1 = cur::senders s
    else (senders (handle i (enter i (scheduler s) cur) cur).1).Sublist (senders s) := by
  have ready := enterPlaced (schedulerPlaced placed) i cur
  rw [← enterSenders (i := i) placed running]
  unfold handle
  by_cases event : i.eventcode ≠ eventNone
  · rw [if_pos event,if_neg (by simp [blocksSending,event])]
    exact handleEventSenders ready
  · have call : i.eventcode = eventNone := not_not.mp event
    have live := ((schedulerPlaced placed).live (occursSomewhere (Or.inl running))).1
    rw [if_neg event]
    refine handleKcallSenders ready running (trapFrameEntered call live) call (fun real => ?_)
    have absent : ((enter i (scheduler s) cur).task i.newtask).isSome = false := by
      rw [enter,setTaskSome,schedulerTask,(legal.fresh real).1]
      rfl
    simpa using absent

theorem Stacked.step {t t' : Timed} {out : List Event} (stacked : Stacked t) (legal : Legal t.state i)
    (taken : timed t i = some (t',out)) : Stacked t' := by
  obtain ⟨⟨s',events⟩,round,same⟩ := Option.bind_eq_some_iff.mp taken
  cases same
  have placed := kernelPlaced stacked.placed legal round
  obtain ⟨cur,rest,line,rfl,-⟩ := kernelRound round
  have running : cur ∈ (scheduler t.state).current := by simp [line]
  have round := handleSenders stacked.placed running legal
  rw [line,List.headD_cons]
  by_cases blocks : blocksSending i (enter i (scheduler t.state) cur) cur = true
  · rw [if_pos blocks] at round ⊢
    have fresh : ∀ p ∈ senders t.state, p ≠ cur := by
      intro p member same
      refine (schedulerPlaced stacked.placed).currentNotBlocked running ?_
      rw [schedulerBlocked,← same]
      exact (List.mem_filter.mp member).1
    have older : ∀ p ∈ senders t.state, Function.update t.since cur t.clock p = t.since p :=
      fun p member => Function.update_of_ne (fresh p member) _ _
    refine ⟨placed,?_,?_⟩
    · change (senders (handle i (enter i (scheduler t.state) cur) cur).1).Pairwise _
      rw [round]
      refine List.pairwise_cons.mpr ⟨fun p member => ?_,?_⟩
      · change Function.update t.since cur t.clock p < Function.update t.since cur t.clock cur
        rw [older p member,Function.update_self]
        exact stacked.past p member
      · refine stacked.newest.imp_of_mem (fun left right less => ?_)
        change Function.update t.since cur t.clock _ < Function.update t.since cur t.clock _
        rwa [older _ left,older _ right]
    · intro p member
      change Function.update t.since cur t.clock p < t.clock + 1
      change p ∈ senders (handle i (enter i (scheduler t.state) cur) cur).1 at member
      rw [round] at member
      rcases List.mem_cons.mp member with rfl | old
      · rw [Function.update_self]
        exact Nat.lt_succ_self _
      · rw [older p old]
        exact Nat.lt_succ_of_lt (stacked.past p old)
  · rw [if_neg blocks] at round ⊢
    exact ⟨placed,stacked.newest.sublist round,fun p member => Nat.lt_succ_of_lt (stacked.past p (round.subset member))⟩

theorem bootStacked {b : Boot} {t : Timed} (booted : Booted b t.state) : Stacked t := by
  have empty : t.state.blocked = [] := by rw [bootedState booted]; rfl
  have none : senders t.state = [] := by rw [senders,empty]; rfl
  exact ⟨bootPlaced booted,by simp [none],by simp [none]⟩

theorem pendingMeets {c : Ctxt} (mine : trapFrame s cur = some c) (asks : c.kcall = .receive) (any : c.p0 = taskAny)
    (pending : PendingSend s p cur) : Rendezvous i s cur p := by
  obtain ⟨-,d,frame,call,dest⟩ := pending
  have theirs := trapFrameCtxt i frame
  have own := trapFrameCtxt i mine
  refine ⟨?_,?_,?_,Or.inr ?_⟩
  · rw [theirs]
    exact call
  · rw [own]
    exact asks
  · rw [theirs]
    exact dest
  · rw [own]
    exact any

theorem receiveScanFirst {t : State} (found : qForall s.blocked (receivemsg i s cur) = some (w,t)) :
    ∃ front back, s.blocked = front ++ w::back ∧ ∀ p ∈ front, ¬ Rendezvous i s cur p := by
  obtain ⟨front,a,back,line,here,missed⟩ := List.findSome?_eq_some_iff.mp found
  obtain ⟨t',-,same⟩ := Option.map_eq_some_iff.mp here
  obtain ⟨rfl,-⟩ := Prod.mk.inj same
  exact ⟨front,back,line,fun p member => delivermsgNone (Option.map_eq_none_iff.mp (missed p member))⟩

theorem receiveNewest {t : State} {since : Pid → Nat} (newest : (senders s).Pairwise (fun p q => since q < since p))
    (mine : trapFrame s cur = some i.ctxt) (asks : i.ctxt.kcall = .receive) (any : i.ctxt.p0 = taskAny)
    (found : qForall s.blocked (receivemsg i s cur) = some (w,t)) (first : PendingSend s w cur)
    (pending : PendingSend s p cur) (other : p ≠ w) : since p < since w := by
  obtain ⟨front,back,line,missed⟩ := receiveScanFirst found
  have passed : p ∉ front := fun member => missed p member (pendingMeets mine asks any pending)
  have behind : p ∈ back := by
    have asleep := pending.1
    rw [line] at asleep
    simpa [passed,other] using asleep
  have sending : sends s w = true := (List.mem_filter.mp (pendingSends first)).2
  rw [senders,line,List.filter_append,List.filter_cons_of_pos sending] at newest
  have below := (List.pairwise_cons.mp (List.pairwise_append.mp newest).2.1).1
  exact below p (List.mem_filter.mpr ⟨behind,(List.mem_filter.mp (pendingSends pending)).2⟩)

theorem receiveRound {r : Pid} {out : List Event} (round : kernel s i = some (s',out))
    (asks : i.ctxt.kcall = .receive) (trapped : .trap r i.ctxt ∈ out) :
    i.eventcode = eventNone ∧ r ∈ (scheduler s).current ∧
    ∀ w source target size, .copy w r source target size ∈ out ↔
      .copy w r source target size ∈ (kcallReceive i (enter i (scheduler s) r) r).2 := by
  obtain ⟨cur,rest,line,-,rfl⟩ := kernelRound round
  have call : i.eventcode = eventNone := by
    by_contra event
    have quiet : ∀ e ∈ (handleEvent i (enter i (scheduler s) cur) cur).2, e ≠ .trap r i.ctxt := by
      intro e member
      unfold handleEvent at member
      split at member
      · simp at member
      · simp only [List.mem_singleton] at member
        simp [member]
    simp only [entry,handle,event,if_false,if_true,ne_eq,not_false_eq_true,List.mem_cons,reduceCtorEq,false_or] at trapped
    exact quiet _ trapped rfl
  have plain : handle i (enter i (scheduler s) cur) cur = kcallReceive i (enter i (scheduler s) cur) cur := by
    simp only [handle,call,ne_eq,not_true,if_false,handleKcall,asks]
  have silent : .trap r i.ctxt ∉ (kcallReceive i (enter i (scheduler s) cur) cur).2 := by
    unfold kcallReceive
    split
    · simp
    · split <;> simp [copied]
  have same : r = cur := by
    simpa [plain,entry,call,silent] using trapped
  subst same
  refine ⟨call,by simp [line],fun w source target size => ?_⟩
  simp [plain,entry,call]

theorem newestSenderFirst {b : Boot} {t t' : Timed} {history out : List Event} {r : Pid}
    (run : Run.Reaches timed (fun t i => Legal t.state i) (fun t => Booted b t.state) t history)
    (round : timed t i = some (t',out)) (trapped : .trap r i.ctxt ∈ out)
    (asks : i.ctxt.kcall = .receive) (any : i.ctxt.p0 = taskAny) :
    ((∃ q, PendingSend t.state q r) → ∃ w source target size, .copy w r source target size ∈ out) ∧
    ∀ w source target size, .copy w r source target size ∈ out → PendingSend t.state w r →
      ∀ q, PendingSend t.state q r → q ≠ w → t.since q < t.since w := by
  have stacked : Stacked t := run.stateInvariant (fun _ booted => bootStacked booted)
    (fun _ _ _ _ held legal taken => held.step legal taken)
  obtain ⟨⟨s',events⟩,taken,same⟩ := Option.bind_eq_some_iff.mp round
  cases same
  obtain ⟨call,running,copies⟩ := receiveRound taken asks trapped
  simp only [copies]
  have live := ((schedulerPlaced stacked.placed).live (occursSomewhere (Or.inl running))).1
  have mine : trapFrame (enter i (scheduler t.state) r) r = some i.ctxt := trapFrameEntered call live
  have entered : ∀ {q}, PendingSend t.state q r → PendingSend (enter i (scheduler t.state) r) q r := by
    rintro q ⟨asleep,c,frame,pending⟩
    obtain ⟨member,kept⟩ := enterSleeper (i := i) stacked.placed running asleep
    exact ⟨member,c,kept.trans frame,pending⟩
  have newest := stacked.newest
  rw [← enterSenders (i := i) stacked.placed running] at newest
  unfold kcallReceive
  cases found : qForall (enter i (scheduler t.state) r).blocked (receivemsg i (enter i (scheduler t.state) r) r) with
  | none =>
    refine ⟨?_,by simp⟩
    rintro ⟨q,pending⟩
    have pending := entered pending
    exact absurd (pendingMeets mine asks any pending) (receiveScanNone found q pending.1)
  | some x =>
    obtain ⟨w,s''⟩ := x
    have one : (if (getCtxt i s'' w).kcall = .sendrec then (setKcallcode s'' w .receive,
        [copied i (enter i (scheduler t.state) r) r w]) else (toQueueEnd (outOfBlocked s'' w) w,
        [copied i (enter i (scheduler t.state) r) r w])).2 = [copied i (enter i (scheduler t.state) r) r w] := by
      split <;> rfl
    dsimp only
    rw [one]
    refine ⟨fun _ => ⟨w,_,_,_,List.mem_singleton.mpr rfl⟩,?_⟩
    intro w' source target size copy first q pending other
    obtain ⟨rfl,-⟩ := Event.copy.inj (List.mem_singleton.mp copy)
    exact receiveNewest newest mine asks any found (entered first) (entered pending) other

end

/-! The first task makes two others and yields. Both send to it, one after the other, and only
then does it receive. -/

def demoMakes (task stack : Addr) : List Input :=
  [demoCall ⟨.createtask,2,0,0,0⟩ task,{ demoCall ⟨.allocatestack,task,160,0,0⟩ 0 with block := stack },
    demoCall ⟨.setuptask,task,0x900,0,0⟩ 0,demoCall ⟨.starttask,task,0,0,0⟩ 0]

def demoContending : List Input := demoMakes 0x600 0x700 ++ demoMakes 0x800 0xA00 ++
  [demoCall ⟨.yield,0,0,0,0⟩ 0,demoCall demoSend 0,demoCall demoSend 0]

def allowed (t : Timed) (i : Input) : Bool :=
  (i.newtask = 0 || ((t.state.task i.newtask).isNone && i.newtask != taskAny)) &&
  (i.eventcode != eventNone || (i.ctxt.kcall != .starttask && i.ctxt.kcall != .deletetask) ||
    i.ctxt.p0 = 0 || t.state.blocked.contains i.ctxt.p0)

theorem allowedLegal (t : Timed) (i : Input) (ok : allowed t i = true) : Legal t.state i := by
  obtain ⟨made,moved⟩ := Bool.and_eq_true_iff.mp ok
  refine ⟨fun real => ?_,fun call named => ?_⟩
  · simpa [real] using made
  · rcases named with code | code <;> simpa [call,code] using moved

structure Contended where
  blocked : List Pid
  first : Option Ctxt
  second : Option Ctxt
  since : Nat × Nat
  served : Option (List Event)
  deriving DecidableEq

def contended (t : Timed) : Contended where
  blocked := t.state.blocked
  first := trapFrame t.state 0x600
  second := trapFrame t.state 0x800
  since := (t.since 0x600,t.since 0x800)
  served := (timed t (demoCall demoReceive 0)).map Prod.snd

def demoServed : List Event :=
  [.dispatch 0x400 ⟨.yield,0,0,0,0⟩,.trap 0x400 demoReceive,.copy 0x800 0x400 0x800 0x700 8]

theorem contendingRun : ∃ t t' history,
    Run.Reaches timed (fun t i => Legal t.state i) (fun t => Booted demoBoot t.state) t history ∧
    timed t (demoCall demoReceive 0) = some (t',demoServed) ∧
    PendingSend t.state 0x600 0x400 ∧ PendingSend t.state 0x800 0x400 ∧ t.since 0x600 < t.since 0x800 := by
  have start : Run.Reaches timed (fun t i => Legal t.state i) (fun t => Booted demoBoot t.state)
      ⟨boot demoBoot,fun _ => 0,0⟩ [] := .start demoBooted
  have followed : (Run.follow timed allowed ⟨boot demoBoot,fun _ => 0,0⟩ demoContending).map (fun x => contended x.1) =
      some ⟨[0x800,0x600],some demoSend,some demoSend,(9,10),some demoServed⟩ := by decide +kernel
  obtain ⟨⟨t,out⟩,ran,same⟩ := Option.map_eq_some_iff.mp followed
  obtain ⟨line,first,second,times,served⟩ := Contended.mk.inj same
  obtain ⟨⟨t',events⟩,round,rfl⟩ := Option.map_eq_some_iff.mp served
  obtain ⟨early,late⟩ := Prod.mk.inj times
  refine ⟨t,t',_,start.follows allowedLegal demoContending ran,round,?_,?_,?_⟩
  · exact ⟨by rw [line]; decide,demoSend,first,Or.inl rfl,rfl⟩
  · exact ⟨by rw [line]; decide,demoSend,second,Or.inl rfl,rfl⟩
  · rw [early,late]
    decide

theorem newestSenderFirstOfTwo : ∃ t t' history,
    Run.Reaches timed (fun t i => Legal t.state i) (fun t => Booted demoBoot t.state) t history ∧
    timed t (demoCall demoReceive 0) = some (t',demoServed) ∧ PendingSend t.state 0x600 0x400 ∧
    ∀ q, PendingSend t.state q 0x400 → q ≠ 0x800 → t.since q < t.since 0x800 := by
  obtain ⟨t,t',history,run,round,first,second,-⟩ := contendingRun
  have newest := (newestSenderFirst run round (r := 0x400) (by decide) rfl rfl).2
  exact ⟨t,t',history,run,round,first,newest 0x800 0x800 0x700 8 (by decide) second⟩

-- The second sender is served although the first has waited longer.
theorem laterSenderServed : ¬ ∀ b t t' history i out r,
    Run.Reaches timed (fun t i => Legal t.state i) (fun t => Booted b t.state) t history →
    timed t i = some (t',out) → .trap r i.ctxt ∈ out → i.ctxt.kcall = .receive → i.ctxt.p0 = taskAny →
    ∀ w source target size, .copy w r source target size ∈ out → PendingSend t.state w r →
      ∀ q, PendingSend t.state q r → q ≠ w → t.since w < t.since q := by
  intro oldest
  obtain ⟨t,t',history,run,round,first,second,earlier⟩ := contendingRun
  have overtaken := oldest demoBoot t t' history _ _ 0x400 run round (by decide) rfl rfl
    0x800 0x800 0x700 8 (by decide) second 0x600 first (by decide)
  omega

end Avros.Kernel
