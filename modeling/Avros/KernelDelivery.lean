import Avros.KernelRendezvous

/-! Every rendezvous call that returns was served exactly once. The history of a run is
read once for each task: a trap opens a call, the copies the task takes part in are
collected, and the task's next dispatch is the return of that call. A task that is
stopped, set up, started, deleted or gone has no open call. A task is its pid. -/
namespace Avros.Kernel
open Queue

structure Call where
  ctxt : Ctxt
  copies : List Event
  deriving DecidableEq, Repr

def observe (p : Pid) (open_ : Option Call) : Event → Option Call
  | .trap q c => if q = p then some ⟨c,[]⟩ else open_
  | .dispatch q _ => if q = p then none else open_
  | .reset q => if q = p then none else open_
  | .copy sndr rcvr source target size =>
    if sndr = p ∨ rcvr = p then
      open_.map (fun call => { call with copies := call.copies ++ [.copy sndr rcvr source target size] })
    else open_
  | .interrupt _ _ => open_
  | .signal _ _ => open_

def openCall (p : Pid) (history : List Event) : Option Call := history.foldl (observe p) none

/- What a returning call has seen, `result` being the P0 it returns with. -/
def Served (p : Pid) (call : Call) (result : Nat) : Prop :=
  match call.ctxt.kcall with
  | .send => ∃ a b n, call.copies = [.copy p call.ctxt.p0 a b n]
  | .receive => ∃ sndr a b n, call.copies = [.copy sndr p a b n] ∧ result = sndr ∧
      (call.ctxt.p0 = sndr ∨ call.ctxt.p0 = taskAny)
  | .sendrec => ∃ a b n a' b' n', call.copies =
      [.copy p call.ctxt.p0 a b n,.copy call.ctxt.p0 p a' b' n'] ∧ result = call.ctxt.p0
  | _ => True

def Sending (history : List Event) (sndr rcvr source : Nat) : Prop :=
  ∃ c, openCall sndr history = some ⟨c,[]⟩ ∧ (c.kcall = .send ∨ c.kcall = .sendrec) ∧
    c.p0 = rcvr ∧ c.p1 = source

/- A buffer is filled once: by a RECEIVE that has seen nothing yet, or by the second
half of a SENDREC, after its own message went to the task that now answers. -/
def Receiving (history : List Event) (rcvr sndr target size : Nat) : Prop :=
  ∃ call, openCall rcvr history = some call ∧ call.ctxt.p1 = target ∧ call.ctxt.p2 = size ∧
    ((call.ctxt.kcall = .receive ∧ call.copies = [] ∧ (call.ctxt.p0 = sndr ∨ call.ctxt.p0 = taskAny)) ∨
     (call.ctxt.kcall = .sendrec ∧ call.ctxt.p0 = sndr ∧
      ∃ a b n, call.copies = [.copy rcvr sndr a b n]))

def ExactlyOnce (history : List Event) : Event → Prop
  | .dispatch p c => ∀ call, openCall p history = some call → Served p call c.p0
  | .copy sndr rcvr source target size =>
    Sending history sndr rcvr source ∧ Receiving history rcvr sndr target size
  | _ => True

def isCopy : Event → Bool
  | .copy _ _ _ _ _ => true
  | _ => false

def copiesIn (out : List Event) : List Event := out.filter isCopy

/- What a round does to the memory: the bytes of one message go from the sender's buffer to
the receiver's and all others stay, or there is no copy and nothing changes. -/
def Moved (mem mem' : Addr → Nat) (out : List Event) : Prop :=
  (copiesIn out = [] ∧ mem' = mem) ∨
  ∃ sndr rcvr source target size, copiesIn out = [.copy sndr rcvr source target size] ∧
    (∀ k < size, mem' (target + k) = mem (source + k)) ∧
    ∀ a, (∀ k < size, a ≠ target + k) → mem' a = mem a

-- Tasks in `blocked_q` without a call of their own do not look like senders or receivers.
structure Quiet (s : State) (i : Input) : Prop where
  legal : Legal s i
  unstarted : ∀ p ∈ s.blocked, trapFrame s p = none → (getCtxt i s p).kcall ≠ .send ∧
    (getCtxt i s p).kcall ≠ .sendrec ∧ (getCtxt i s p).kcall ≠ .receive

theorem openCallAppend (p : Pid) (history : List Event) (e : Event) :
    openCall p (history ++ [e]) = observe p (openCall p history) e := by
  simp [openCall]

/- The open call of a sleeper: nothing has happened yet, or it is a SENDREC whose
message is gone and whose context now reads RECEIVE. -/
def Asleep (p : Pid) (c : Ctxt) (open_ : Option Call) : Prop :=
  open_ = some ⟨c,[]⟩ ∨ ∃ call a b n, open_ = some ⟨call,[.copy p call.p0 a b n]⟩ ∧
    call.kcall = .sendrec ∧ call.p0 ≠ taskAny ∧ c = { call with kcall := .receive }

structure Books (s : State) (history : List Event) (p : Pid) : Prop where
  asleep : p ∈ s.blocked → ∀ c, trapFrame s p = some c → Asleep p c (openCall p history)
  idle : p ∈ s.blocked → trapFrame s p = none → openCall p history = none
  ready : p ∉ s.blocked → ∀ call, openCall p history = some call →
    ∃ c, trapFrame s p = some c ∧ Served p call c.p0

theorem Books.kept {s s' : State} {history history' : List Event} {p : Pid} (books : Books s history p)
    (lines : p ∈ s'.blocked ↔ p ∈ s.blocked) (frame : trapFrame s' p = trapFrame s p)
    (same : openCall p history' = openCall p history) : Books s' history' p where
  asleep member := by rw [frame,same]; exact books.asleep (lines.mp member)
  idle member := by rw [frame,same]; exact books.idle (lines.mp member)
  ready member := by rw [frame,same]; exact books.ready (fun h => member (lines.mpr h))

theorem Books.closed {s : State} {history : List Event} {p : Pid} (none : openCall p history = none)
    (frame : p ∈ s.blocked → trapFrame s p = Option.none) : Books s history p where
  asleep member c there := by rw [frame member] at there; contradiction
  idle _ _ := none
  ready _ call there := by rw [none] at there; contradiction

theorem Books.returning {s : State} {history : List Event} {p : Pid} {c : Ctxt} {call : Call}
    (awake : p ∉ s.blocked) (frame : trapFrame s p = some c) (opened : openCall p history = some call)
    (served : Served p call c.p0) : Books s history p where
  asleep member := absurd member awake
  idle member := absurd member awake
  ready _ other there := by
    rw [opened] at there
    cases Option.some.inj there
    exact ⟨c,frame,served⟩

theorem Books.sleeping {s : State} {history : List Event} {p : Pid} {c : Ctxt}
    (member : p ∈ s.blocked) (frame : trapFrame s p = some c) (opened : Asleep p c (openCall p history)) :
    Books s history p where
  asleep _ d there := by
    rw [frame] at there
    cases Option.some.inj there
    exact opened
  idle _ there := by rw [frame] at there; contradiction
  ready awake := absurd member awake

theorem servedOther {p : Pid} {call : Call} {result : Nat} (send : call.ctxt.kcall ≠ .send)
    (sendrec : call.ctxt.kcall ≠ .sendrec) (receive : call.ctxt.kcall ≠ .receive) :
    Served p call result := by
  unfold Served
  split <;> first | contradiction | trivial

theorem memRemvOther {que : List Nat} {item p : Nat} (other : p ≠ item) :
    p ∈ qRemv que item ↔ p ∈ que := by
  unfold qRemv
  split
  · rfl
  · exact List.mem_erase_of_ne other

theorem memFrontOther {que : List Nat} {item p : Nat} (other : p ≠ item) :
    p ∈ qFront que item ↔ p ∈ que := by
  unfold qFront
  split
  · rfl
  · simp [other]

theorem memEndOther {que : List Nat} {item p : Nat} (other : p ≠ item) :
    p ∈ qEnd que item ↔ p ∈ que := by
  unfold qEnd
  split
  · rfl
  · simp [other]

/- The kernel right after SAVE_CONTEXT of a kernel call. -/
structure Called (i : Input) (s : State) (cur : Pid) (history : List Event) : Prop where
  awake : Awake s
  running : cur ∈ s.current
  frame : trapFrame s cur = some i.ctxt
  opened : openCall cur history = some ⟨i.ctxt,[]⟩
  others : ∀ p, p ≠ cur → Books s history p
  quiet : ∀ p ∈ s.blocked, trapFrame s p = none → (getCtxt i s p).kcall ≠ .send ∧
    (getCtxt i s p).kcall ≠ .sendrec ∧ (getCtxt i s p).kcall ≠ .receive

theorem Called.notBlocked {i s cur history} (called : Called i s cur history) : cur ∉ s.blocked :=
  called.awake.placed.currentNotBlocked called.running

theorem Called.context {i s cur history} (called : Called i s cur history) : getCtxt i s cur = i.ctxt :=
  trapFrameCtxt i called.frame

theorem Called.notAny {i s cur history} (called : Called i s cur history) : cur ≠ taskAny := by
  rintro rfl
  have live := (called.awake.placed.live (occursSomewhere (Or.inl called.running))).1
  rw [called.awake.anyDead] at live
  contradiction

theorem Called.sleeper {i s cur history w} (called : Called i s cur history) (asleep : w ∈ s.blocked)
    (pending : (getCtxt i s w).kcall = .send ∨ (getCtxt i s w).kcall = .sendrec ∨
      (getCtxt i s w).kcall = .receive) :
    w ≠ cur ∧ w ≠ taskAny ∧ trapFrame s w = some (getCtxt i s w) ∧
      Asleep w (getCtxt i s w) (openCall w history) := by
  have other : w ≠ cur := fun h => called.notBlocked (h ▸ asleep)
  have named : w ≠ taskAny := by
    rintro rfl
    have live := (called.awake.placed.live (occursSomewhere (Or.inr (Or.inl asleep)))).1
    rw [called.awake.anyDead] at live
    contradiction
  cases frame : trapFrame s w with
  | none =>
    obtain ⟨send,sendrec,receive⟩ := called.quiet w asleep frame
    rcases pending with h | h | h
    · exact absurd h send
    · exact absurd h sendrec
    · exact absurd h receive
  | some c =>
    rw [trapFrameCtxt i frame]
    exact ⟨other,named,rfl,(called.others w other).asleep asleep c frame⟩

theorem copiedTakesPart {i s rcvr sndr p history c copies} (one : sndr = p ∨ rcvr = p)
    (opened : openCall p history = some ⟨c,copies⟩) :
    openCall p (history ++ [copied i s rcvr sndr]) = some ⟨c,copies ++ [copied i s rcvr sndr]⟩ := by
  rw [openCallAppend,opened]
  simp only [copied,observe,if_pos one,Option.map_some]

theorem copiedReceiver {i s rcvr sndr history} (meets : Rendezvous i s rcvr sndr)
    (asleep : Asleep rcvr (getCtxt i s rcvr) (openCall rcvr history)) :
    Receiving history rcvr sndr (getCtxt i s rcvr).p1 (getCtxt i s rcvr).p2 ∧
    ∃ call, openCall rcvr (history ++ [copied i s rcvr sndr]) = some call ∧ Served rcvr call sndr := by
  obtain ⟨-,receives,-,accepts⟩ := meets
  rcases asleep with first | ⟨call,a,b,n,half,code,named,same⟩
  · refine ⟨⟨_,first,rfl,rfl,Or.inl ⟨receives,rfl,accepts⟩⟩,_,copiedTakesPart (Or.inr rfl) first,?_⟩
    simp only [Served,receives,List.nil_append]
    exact ⟨sndr,_,_,_,rfl,rfl,accepts⟩
  · have answers : call.p0 = sndr := by
      rw [same] at accepts
      rcases accepts with h | h
      · exact h
      · exact absurd h named
    refine ⟨⟨_,half,?_,?_,Or.inr ⟨code,answers,a,b,n,?_⟩⟩,_,copiedTakesPart (Or.inr rfl) half,?_⟩
    · rw [same]
    · rw [same]
    · rw [answers]
    · simp only [Served,code,answers]
      exact ⟨a,b,n,_,_,_,rfl,trivial⟩

theorem copiedSender {i s rcvr sndr history} (meets : Rendezvous i s rcvr sndr)
    (asleep : Asleep sndr (getCtxt i s sndr) (openCall sndr history)) :
    Sending history sndr rcvr (getCtxt i s sndr).p1 ∧
    openCall sndr (history ++ [copied i s rcvr sndr]) = some ⟨getCtxt i s sndr,[copied i s rcvr sndr]⟩ := by
  obtain ⟨sends,-,named,-⟩ := meets
  rcases asleep with first | ⟨call,a,b,n,half,code,-,same⟩
  · exact ⟨⟨_,first,sends,named,rfl⟩,copiedTakesPart (Or.inl rfl) first⟩
  · rw [same] at sends
    rcases sends with h | h <;> contradiction

theorem copiedHalf {i s rcvr sndr history c} (opened : openCall sndr history = some ⟨c,[copied i s rcvr sndr]⟩)
    (code : c.kcall = .sendrec) (dest : c.p0 = rcvr) (named : rcvr ≠ taskAny) :
    Asleep sndr { c with kcall := .receive } (openCall sndr history) := by
  subst dest
  exact Or.inr ⟨c,_,_,_,opened,code,named,rfl⟩

theorem copiedOther {i s rcvr sndr p} (history : List Event) (notSender : p ≠ sndr) (notReceiver : p ≠ rcvr) :
    openCall p (history ++ [copied i s rcvr sndr]) = openCall p history := by
  rw [openCallAppend]
  have apart : ¬ (sndr = p ∨ rcvr = p) := by
    rintro (rfl | rfl)
    · exact notSender rfl
    · exact notReceiver rfl
  simp only [copied,observe,if_neg apart]

structure Recorded (history : List Event) (out : State × List Event) : Prop where
  books : ∀ p, Books out.1 (history ++ out.2) p
  lawful : Run.Always ExactlyOnce history → Run.Always ExactlyOnce (history ++ out.2)

theorem Called.sleeps {i s cur history} (called : Called i s cur history) {s' : State}
    (tasks : s'.task = s.task) (member : cur ∈ s'.blocked)
    (lines : ∀ p, p ≠ cur → (p ∈ s'.blocked ↔ p ∈ s.blocked)) : Recorded history (s',[]) where
  books p := by
    rw [List.append_nil]
    have frame : trapFrame s' p = trapFrame s p := by simp only [trapFrame,tasks]
    by_cases own : p = cur
    · subst own
      exact .sleeping member (frame.trans called.frame) (Or.inl called.opened)
    · exact (called.others p own).kept (lines p own) frame rfl
  lawful held := by simpa using held

theorem Called.exchanged {i s cur history} (called : Called i s cur history) {rcvr sndr : Pid} {s' : State}
    (meets : Rendezvous i s rcvr sndr) (ends : rcvr = cur ∧ sndr ∈ s.blocked ∨ sndr = cur ∧ rcvr ∈ s.blocked)
    (receiver : rcvr ∉ s'.blocked ∧ ∃ c, trapFrame s' rcvr = some c ∧ c.p0 = sndr)
    (sender : openCall sndr (history ++ [copied i s rcvr sndr]) =
        some ⟨getCtxt i s sndr,[copied i s rcvr sndr]⟩ →
      Books s' (history ++ [copied i s rcvr sndr]) sndr)
    (rest : ∀ p, p ≠ sndr → p ≠ rcvr →
      (p ∈ s'.blocked ↔ p ∈ s.blocked) ∧ trapFrame s' p = trapFrame s p) :
    Recorded history (s',[copied i s rcvr sndr]) := by
  have asleep : ∀ p, p = rcvr ∨ p = sndr → Asleep p (getCtxt i s p) (openCall p history) := by
    intro p one
    by_cases own : p = cur
    · subst own
      rw [called.context]
      exact Or.inl called.opened
    · have blocked : p ∈ s.blocked := by
        rcases one with rfl | rfl <;> rcases ends with ⟨h,member⟩ | ⟨h,member⟩ <;>
          first | exact absurd h own | exact member
      refine (called.sleeper blocked ?_).2.2.2
      rcases one with rfl | rfl
      · exact Or.inr (Or.inr meets.2.1)
      · exact meets.1.elim Or.inl (fun h => Or.inr (Or.inl h))
  obtain ⟨receiving,call,opened,served⟩ := copiedReceiver meets (asleep rcvr (Or.inl rfl))
  obtain ⟨sending,left⟩ := copiedSender meets (asleep sndr (Or.inr rfl))
  refine ⟨?_,fun held => held.snoc ⟨sending,receiving⟩⟩
  intro p
  by_cases first : p = sndr
  · subst first
    exact sender left
  by_cases second : p = rcvr
  · subst second
    obtain ⟨awake,c,frame,result⟩ := receiver
    exact .returning awake frame opened (result ▸ served)
  have other : p ≠ cur := by
    rintro rfl
    rcases ends with ⟨h,-⟩ | ⟨h,-⟩
    · exact second h.symm
    · exact first h.symm
  exact (called.others p other).kept (rest p first second).1 (rest p first second).2
    (copiedOther history first second)

theorem deliveredReceiver {i s rcvr c} (sndr : Pid) (frame : trapFrame s rcvr = some c) :
    ∃ d, trapFrame (delivered i s rcvr sndr) rcvr = some d ∧ d.p0 = sndr :=
  ⟨{ c with p0 := sndr },trapFrameOnCtxt _ frame,rfl⟩

theorem kcallSendRecorded {i s cur history} (called : Called i s cur history)
    (call : i.ctxt.kcall = .send) : Recorded history (kcallSend i s cur) := by
  have real := called.awake.placed.currentReal called.running
  unfold kcallSend
  split
  · exact called.sleeps rfl (by simp [toBlockedFront,qFront,real]) (fun p other => memFrontOther other)
  rename_i w s' found
  obtain ⟨asleep,meets,rfl⟩ := sendScanSome found
  obtain ⟨other,-,frame,-⟩ := called.sleeper asleep (Or.inr (Or.inr meets.2.1))
  refine called.exchanged meets (Or.inr ⟨rfl,asleep⟩)
    ⟨called.awake.placed.blockedOnce asleep,deliveredReceiver cur frame⟩ ?_ ?_
  · intro opened
    refine .returning (fun member => called.notBlocked (memRemv member))
      ((deliveredFrame other.symm).trans called.frame) opened ?_
    have dest : i.ctxt.p0 = w := called.context ▸ meets.2.2.1
    simp only [Served,called.context,call,dest]
    exact ⟨_,_,_,rfl⟩
  · intro p _ notReceiver
    exact ⟨memRemvOther notReceiver,deliveredFrame notReceiver⟩

theorem kcallSendrecRecorded {i s cur history} (called : Called i s cur history)
    (call : i.ctxt.kcall = .sendrec) : Recorded history (kcallSendrec i s cur) := by
  have real := called.awake.placed.currentReal called.running
  unfold kcallSendrec
  split
  · exact called.sleeps rfl (by simp [toBlockedFront,qFront,real]) (fun p other => memFrontOther other)
  rename_i w s' found
  obtain ⟨asleep,meets,rfl⟩ := sendScanSome found
  obtain ⟨other,named,frame,-⟩ := called.sleeper asleep (Or.inr (Or.inr meets.2.1))
  have dest : i.ctxt.p0 = w := called.context ▸ meets.2.2.1
  have frames : ∀ p, p ≠ cur → trapFrame (setKcallcode (delivered i s w cur) cur .receive) p =
      trapFrame (delivered i s w cur) p := fun p notCur => trapFrameOther _ notCur
  refine called.exchanged meets (Or.inr ⟨rfl,asleep⟩) ⟨?_,?_⟩ ?_ ?_
  · intro member
    exact called.awake.placed.blockedOnce asleep ((memFront member).resolve_left other)
  · obtain ⟨d,top,result⟩ := deliveredReceiver (i := i) cur frame
    exact ⟨d,(frames w other).trans top,result⟩
  · intro opened
    refine .sleeping (c := { i.ctxt with kcall := .receive }) ?_ ?_ ?_
    · simp [toBlockedFront,qFront,real]
    · exact trapFrameOnCtxt _ ((deliveredFrame other.symm).trans called.frame)
    · rw [called.context] at opened
      exact copiedHalf opened call dest named
  · intro p notCur notReceiver
    refine ⟨?_,(frames p notCur).trans (deliveredFrame notReceiver)⟩
    exact (memFrontOther notCur).trans (memRemvOther notReceiver)

theorem kcallReceiveRecorded {i s cur history} (called : Called i s cur history) :
    Recorded history (kcallReceive i s cur) := by
  have real := called.awake.placed.currentReal called.running
  unfold kcallReceive
  split
  · exact called.sleeps rfl (by simp [toBlockedFront,qFront,real]) (fun p other => memFrontOther other)
  rename_i w s' found
  obtain ⟨asleep,meets,rfl⟩ := receiveScanSome found
  obtain ⟨other,-,frame,-⟩ :=
    called.sleeper asleep (meets.1.elim Or.inl (fun h => Or.inr (Or.inl h)))
  obtain ⟨d,top,result⟩ := deliveredReceiver (i := i) w called.frame
  have context : getCtxt i (delivered i s cur w) w = getCtxt i s w :=
    trapFrameCtxt i ((deliveredFrame other).trans frame)
  rw [context]
  split
  · rename_i code
    refine called.exchanged meets (Or.inl ⟨rfl,asleep⟩)
      ⟨called.notBlocked,d,(trapFrameOther _ other.symm).trans top,result⟩ ?_ ?_
    · intro opened
      refine .sleeping (c := { getCtxt i s w with kcall := .receive }) asleep ?_ ?_
      · exact trapFrameOnCtxt _ ((deliveredFrame other).trans frame)
      · exact copiedHalf opened code meets.2.2.1 called.notAny
    · intro p notSender notReceiver
      exact ⟨Iff.rfl,(trapFrameOther _ notSender).trans (deliveredFrame notReceiver)⟩
  · rename_i code
    refine called.exchanged meets (Or.inl ⟨rfl,asleep⟩)
      ⟨fun member => called.notBlocked (memRemv member),d,top,result⟩ ?_ ?_
    · intro opened
      refine .returning (called.awake.placed.blockedOnce asleep)
        ((deliveredFrame other).trans frame) opened ?_
      have sends := meets.1.resolve_right code
      simp only [Served,sends,meets.2.2.1]
      exact ⟨_,_,_,rfl⟩
    · intro p notSender notReceiver
      exact ⟨memRemvOther notSender,deliveredFrame notReceiver⟩

/- The calls that are no rendezvous. The caller goes on with whatever P0 says. -/
structure Plain (c : Ctxt) : Prop where
  send : c.kcall ≠ .send
  sendrec : c.kcall ≠ .sendrec
  receive : c.kcall ≠ .receive

theorem plainCall {c : Ctxt} {code : Kcall} (call : c.kcall = code)
    (other : code ≠ .send ∧ code ≠ .sendrec ∧ code ≠ .receive) : Plain c := by
  subst call
  exact ⟨other.1,other.2.1,other.2.2⟩

theorem Called.returns {i s cur history} (called : Called i s cur history) (plain : Plain i.ctxt)
    {s' : State} (own : cur ∉ s'.blocked ∧ ∃ c, trapFrame s' cur = some c)
    (rest : ∀ p, p ≠ cur → Books s' history p) : Recorded history (s',[]) where
  books p := by
    rw [List.append_nil]
    by_cases same : p = cur
    · subst same
      obtain ⟨awake,c,frame⟩ := own
      exact .returning awake frame called.opened (servedOther plain.send plain.sendrec plain.receive)
    · exact rest p same
  lawful held := by simpa using held

theorem Called.resets {i s cur history} (called : Called i s cur history) (plain : Plain i.ctxt)
    {s' : State} {w : Pid} (target : w ∈ s'.blocked → trapFrame s' w = none)
    (own : cur ≠ w → cur ∉ s'.blocked ∧ ∃ c, trapFrame s' cur = some c)
    (rest : ∀ p, p ≠ cur → p ≠ w → (p ∈ s'.blocked ↔ p ∈ s.blocked) ∧ trapFrame s' p = trapFrame s p) :
    Recorded history (s',[.reset w]) where
  books p := by
    have after := openCallAppend p history (.reset w)
    by_cases same : p = w
    · subst same
      exact .closed (after.trans (by simp [observe])) target
    have kept : openCall p (history ++ [.reset w]) = openCall p history :=
      after.trans (if_neg (fun h => same h.symm))
    by_cases running : p = cur
    · subst running
      obtain ⟨awake,c,frame⟩ := own same
      exact .returning awake frame (kept.trans called.opened)
        (servedOther plain.send plain.sendrec plain.receive)
    · exact (called.others p running).kept (rest p running same).1 (rest p running same).2 kept
  lawful held := held.snoc trivial

theorem Called.rewrites {i s cur history} (called : Called i s cur history) (plain : Plain i.ctxt)
    {w : Pid} {f : Task → Task} (target : ∀ t, (f t).sp = t.sp ∨ ∀ c, (f t).sp ≠ .frame .trap c)
    {s' : State} (lines : s'.blocked = s.blocked)
    (frames : ∀ p, p ≠ cur → trapFrame s' p = trapFrame (setTask s w f) p)
    (own : ∀ c, trapFrame (setTask s w f) cur = some c → ∃ d, trapFrame s' cur = some d) :
    Recorded history (s',dropped s (setTask s w f) w) := by
  have awake : cur ∉ s'.blocked := by rw [lines]; exact called.notBlocked
  have others : ∀ p, p ≠ w → trapFrame (setTask s w f) p = trapFrame s p :=
    fun p other => trapFrameOther f other
  unfold dropped
  split
  · rename_i same
    have all : ∀ p, trapFrame (setTask s w f) p = trapFrame s p := by
      intro p
      by_cases here : p = w
      · subst here
        simp only [trapFrame,same]
      · exact others p here
    refine called.returns plain ⟨awake,own i.ctxt ((all cur).trans called.frame)⟩ ?_
    intro p other
    exact (called.others p other).kept (by rw [lines]) ((frames p other).trans (all p)) rfl
  · rename_i changed
    refine called.resets plain ?_ ?_ ?_
    · intro member
      have other : w ≠ cur := fun h => awake (h ▸ member)
      rw [frames w other]
      cases found : s.task w with
      | none => simp [trapFrame,setTask,found]
      | some t =>
        have new : ((setTask s w f).task w).map Task.sp = some (f t).sp := by simp [setTask,found]
        rcases target t with same | never
        · exact absurd (by rw [new,same,found]; rfl) changed
        · unfold trapFrame
          rw [new]
          split
          · rename_i c top
            exact absurd (Option.some.inj top) (never c)
          · rfl
    · intro apart
      exact ⟨awake,own i.ctxt ((others cur apart).trans called.frame)⟩
    · intro p other apart
      exact ⟨by rw [lines],(frames p other).trans (others p apart)⟩

theorem setP0Frames (s : State) (cur : Pid) (v : Nat) :
    (∀ p, p ≠ cur → trapFrame (setP0 s cur v) p = trapFrame s p) ∧
    ∀ c, trapFrame s cur = some c → ∃ d, trapFrame (setP0 s cur v) cur = some d :=
  ⟨fun _ other => trapFrameOther _ other,fun _ frame => ⟨_,trapFrameOnCtxt _ frame⟩⟩

theorem createdRecorded {i s cur history} (called : Called i s cur history) (plain : Plain i.ctxt)
    (fresh : i.newtask ≠ 0 → s.task i.newtask = none) : Recorded history (kcallCreatetask i s cur,[]) := by
  unfold kcallCreatetask
  dsimp only
  split
  · obtain ⟨frames,own⟩ := setP0Frames s cur i.newtask
    refine called.returns plain ⟨called.notBlocked,own _ called.frame⟩ ?_
    intro p other
    exact (called.others p other).kept Iff.rfl (frames p other) rfl
  rename_i real
  have absent := fresh real
  have other : i.newtask ≠ cur := by
    rintro same
    have live := (called.awake.placed.live (occursSomewhere (Or.inl called.running))).1
    rw [← same,absent] at live
    contradiction
  have notAsleep : i.newtask ∉ s.blocked := by
    intro member
    have live := (called.awake.placed.live (occursSomewhere (Or.inr (Or.inl member)))).1
    rw [absent] at live
    contradiction
  obtain ⟨frames,own⟩ := setP0Frames { s with
    task := Function.update s.task i.newtask (some (newtask (i.ctxt.p0 % 256) (i.ctxt.p1 % 256)))
    blocked := qFront s.blocked i.newtask } cur i.newtask
  have elsewhere : ∀ p, p ≠ i.newtask → trapFrame { s with
      task := Function.update s.task i.newtask (some (newtask (i.ctxt.p0 % 256) (i.ctxt.p1 % 256)))
      blocked := qFront s.blocked i.newtask } p = trapFrame s p := by
    intro p apart
    simp only [trapFrame,Function.update_of_ne apart]
  refine called.returns plain ⟨?_,own _ ((elsewhere cur other.symm).trans called.frame)⟩ ?_
  · intro member
    exact called.notBlocked ((memFrontOther other.symm).mp member)
  intro p notCur
  by_cases new : p = i.newtask
  · subst new
    refine .closed ?_ (fun _ => (frames _ notCur).trans (by simp [trapFrame,newtask]))
    -- A dead task has no context, so it has no open call either.
    refine Option.eq_none_iff_forall_ne_some.mpr ?_
    intro call opened
    obtain ⟨c,frame,-⟩ := (called.others _ notCur).ready notAsleep call opened
    simp [trapFrame,absent] at frame
  · exact (called.others p notCur).kept (memFrontOther new) ((frames p notCur).trans (elsewhere p new)) rfl

theorem handleKcallRecorded {i s cur history} (called : Called i s cur history)
    (fresh : i.newtask ≠ 0 → s.task i.newtask = none)
    (named : i.ctxt.kcall = .starttask ∨ i.ctxt.kcall = .deletetask →
      i.ctxt.p0 = 0 ∨ i.ctxt.p0 ∈ s.blocked) : Recorded history (handleKcall i s cur) := by
  have same : ∀ s' : State, s'.blocked = s.blocked → (∀ p, trapFrame s' p = trapFrame s p) →
      Plain i.ctxt → Recorded history (s',[]) := by
    intro s' lines frames plain
    refine called.returns plain ⟨by rw [lines]; exact called.notBlocked,_,(frames cur).trans called.frame⟩ ?_
    intro p other
    exact (called.others p other).kept (by rw [lines]) (frames p) rfl
  have answered : ∀ v, Plain i.ctxt → Recorded history (setP0 s cur v,[]) := by
    intro v plain
    obtain ⟨frames,own⟩ := setP0Frames s cur v
    refine called.returns plain ⟨called.notBlocked,own _ called.frame⟩ ?_
    intro p other
    exact (called.others p other).kept Iff.rfl (frames p other) rfl
  -- STARTTASK and DELETETASK: the task they name is not asleep afterwards.
  have gone : i.ctxt.kcall = .starttask ∨ i.ctxt.kcall = .deletetask → i.ctxt.p0 ∉ qRemv s.blocked i.ctxt.p0 ∧
      cur ∉ qRemv s.blocked i.ctxt.p0 := by
    intro code
    refine ⟨?_,fun member => called.notBlocked (memRemv member)⟩
    rcases named code with null | asleep
    · intro member
      exact called.awake.placed.blockedReal (memRemv member) null
    · exact called.awake.placed.blockedOnce asleep
  have flags : ∀ f : Task → Task, (∀ t, (f t).sp = t.sp) → Plain i.ctxt →
      Recorded history (setTask s cur f,[]) := by
    intro f keeps plain
    refine same _ rfl ?_ plain
    intro p
    by_cases here : p = cur
    · subst here
      cases found : s.task p with
      | none => simp [trapFrame,setTask,found]
      | some t => simp [trapFrame,setTask,found,keeps]
    · exact trapFrameOther f here
  unfold handleKcall
  split
  case h_1 call => exact createdRecorded called (plainCall call (by decide)) fresh
  case h_2 call =>
    have plain := plainCall call (by decide)
    unfold kcallAllocatestack doAllocatestack
    split
    · simpa [dropped] using answered 0 plain
    · obtain ⟨frames,own⟩ := setP0Frames (setTask s i.ctxt.p0 (fun t =>
        if i.block = 0 then { t with sb := 0 } else { t with sb := i.block, sp := .bare })) cur i.block
      refine called.rewrites plain ?_ rfl frames own
      intro t
      split
      · exact Or.inl rfl
      · exact Or.inr (fun _ => Sp.noConfusion)
  case h_3 call =>
    refine called.rewrites (plainCall call (by decide)) ?_ rfl (fun _ _ => rfl)
      (fun c frame => ⟨c,frame⟩)
    intro t
    split
    · exact Or.inl rfl
    · exact Or.inr (by simp)
  case h_4 call =>
    obtain ⟨target,own⟩ := gone (Or.inl call)
    exact called.resets (plainCall call (by decide)) (fun member => absurd member target)
      (fun _ => ⟨own,_,called.frame⟩) (fun p _ apart => ⟨memRemvOther apart,rfl⟩)
  case h_5 call =>
    refine called.rewrites (plainCall call (by decide)) ?_ rfl (fun _ _ => rfl)
      (fun c frame => ⟨c,frame⟩)
    intro t
    split
    · exact Or.inl rfl
    · exact Or.inr (fun _ => Sp.noConfusion)
  case h_6 call =>
    obtain ⟨target,own⟩ := gone (Or.inr call)
    have kept : ∀ p, p ≠ i.ctxt.p0 →
        trapFrame (freeTask (outOfBlocked s i.ctxt.p0) i.ctxt.p0) p = trapFrame s p := by
      intro p apart
      unfold freeTask
      split
      · rfl
      · simp only [trapFrame,outOfBlocked,Function.update_of_ne apart]
    refine called.resets (plainCall call (by decide)) ?_ ?_ ?_
    · intro member
      rw [freeTaskBlocked] at member
      exact absurd member target
    · intro apart
      rw [freeTaskBlocked]
      exact ⟨own,_,(kept cur apart).trans called.frame⟩
    · intro p _ apart
      rw [freeTaskBlocked]
      exact ⟨memRemvOther apart,kept p apart⟩
  case h_7 call =>
    have real := called.awake.placed.currentReal called.running
    refine called.resets (plainCall call (by decide)) ?_ (fun apart => absurd rfl apart) ?_
    · intro member
      rw [freeTaskBlocked] at member
      exact absurd member called.notBlocked
    · intro p _ apart
      rw [freeTaskBlocked]
      refine ⟨Iff.rfl,?_⟩
      simp only [freeTask,if_neg real,trapFrame,outOfCurrent,Function.update_of_ne apart]
  case h_8 call => exact flags _ (fun _ => rfl) (plainCall call (by decide))
  case h_9 call => exact flags _ (fun _ => rfl) (plainCall call (by decide))
  case h_10 =>
    have real := called.awake.placed.currentReal called.running
    exact called.sleeps rfl (by simp [toBlockedEnd,qEnd,real]) (fun p other => memEndOther other)
  case h_11 call => exact answered _ (plainCall call (by decide))
  case h_12 call => exact same s rfl (fun _ => rfl) (plainCall call (by decide))
  case h_13 call => exact answered _ (plainCall call (by decide))
  case h_14 call => exact kcallSendRecorded called call
  case h_15 call => exact kcallSendrecRecorded called call
  case h_16 => exact kcallReceiveRecorded called
  case h_17 call => exact same _ rfl (fun _ => rfl) (plainCall call (by decide))
  case h_18 call => exact same s rfl (fun _ => rfl) (plainCall call (by decide))

theorem handleEventRecorded {i s cur history} (awake : Awake s) (running : cur ∈ s.current)
    (closed : openCall cur history = none) (others : ∀ p, p ≠ cur → Books s history p) :
    Recorded history (handleEvent i s cur) := by
  have notBlocked := awake.placed.currentNotBlocked running
  have books : ∀ p, Books s history p := by
    intro p
    by_cases own : p = cur
    · subst own
      exact .closed closed (fun member => absurd member notBlocked)
    · exact others p own
  unfold handleEvent
  split
  · exact ⟨by simpa using books,fun held => by simpa using held⟩
  rename_i w found
  obtain ⟨asleep,waits,-⟩ := eventScanSome found
  have woken : ∀ kept : State, kept.blocked = s.blocked → kept.task = s.task →
      Recorded history (setP0 { outOfBlocked kept w with current := qFront (outOfBlocked kept w).current w }
        w i.eventcode,[.signal w i.eventcode]) := by
    intro kept lines tasks
    have unread : ∀ p, openCall p (history ++ [.signal w i.eventcode]) = openCall p history :=
      fun p => openCallAppend p history _
    have frames : ∀ p, trapFrame { outOfBlocked kept w with current := qFront (outOfBlocked kept w).current w }
        p = trapFrame s p := by
      intro p
      simp only [trapFrame,outOfBlocked,tasks]
    refine ⟨?_,fun held => held.snoc trivial⟩
    intro p
    by_cases here : p = w
    · subst here
      have left : p ∉ qRemv kept.blocked p := by rw [lines]; exact awake.placed.blockedOnce asleep
      cases frame : trapFrame s p with
      | none =>
        refine .closed ((unread p).trans ((books p).idle asleep frame)) (fun member => absurd member left)
      | some c =>
        have code : c.kcall = .waitevent := trapFrameCtxt i frame ▸ waits
        rcases (books p).asleep asleep c frame with opened | ⟨call,a,b,n,-,-,-,rfl⟩
        · exact .returning left (trapFrameOnCtxt _ ((frames p).trans frame)) ((unread p).trans opened)
            (servedOther (by simp [code]) (by simp [code]) (by simp [code]))
        · contradiction
    · refine (books p).kept ?_ ((trapFrameOther _ here).trans (frames p)) (unread p)
      change p ∈ qRemv kept.blocked w ↔ p ∈ s.blocked
      rw [lines]
      exact memRemvOther here
  dsimp only
  split
  · exact woken (toQueueEnd (outOfCurrent s cur) cur) rfl rfl
  · exact woken (toQueueFront (outOfCurrent s cur) cur) rfl rfl

structure Ledger (s : State) (history : List Event) : Prop where
  awake : Awake s
  books : ∀ p, Books s history p
  lawful : Run.Always ExactlyOnce history

theorem dispatchLawful {i s cur history} (ledger : Ledger s history) (running : cur ∈ s.current) :
    ExactlyOnce history (.dispatch cur (getCtxt i s cur)) := by
  intro call opened
  obtain ⟨c,frame,served⟩ :=
    (ledger.books cur).ready (ledger.awake.placed.currentNotBlocked running) call opened
  rw [trapFrameCtxt i frame]
  exact served

theorem schedulerLedger {s history} (ledger : Ledger s history) : Ledger (scheduler s) history where
  awake := schedulerAwake ledger.awake
  books p := by
    refine (ledger.books p).kept (by rw [schedulerBlocked]) ?_ rfl
    simp only [trapFrame,schedulerTask]
  lawful := ledger.lawful

theorem openCallOther {p cur : Pid} (i : Input) (history : List Event) (c : Ctxt) (other : p ≠ cur) :
    openCall p (history ++ [.dispatch cur c] ++ [entry i cur]) = openCall p history := by
  have apart : ¬ cur = p := fun h => other h.symm
  rw [openCallAppend,openCallAppend]
  unfold entry
  split <;> simp only [observe,if_neg apart]

theorem kernelLedger {s i s' out history} (ledger : Ledger s history) (quiet : Quiet s i)
    (taken : kernel s i = some (s',out)) : Ledger s' (history ++ out) := by
  have after := kernelAwake ledger.awake quiet.legal taken
  obtain ⟨cur,rest,line,rfl,rfl⟩ := kernelRound taken
  have ready := schedulerLedger ledger
  have running : cur ∈ (scheduler s).current := by simp [line]
  have entered := enterAwake (i := i) ready.awake running
  have live := (ready.awake.placed.live (occursSomewhere (Or.inl running))).1
  have others : ∀ p, p ≠ cur → Books (enter i (scheduler s) cur)
      (history ++ [.dispatch cur (getCtxt i (scheduler s) cur)] ++ [entry i cur]) p := fun p other =>
    (ready.books p).kept Iff.rfl (trapFrameOther _ other) (openCallOther i history _ other)
  have lawful : Run.Always ExactlyOnce
      (history ++ [.dispatch cur (getCtxt i (scheduler s) cur)] ++ [entry i cur]) := by
    refine (ready.lawful.snoc (dispatchLawful ready running)).snoc ?_
    unfold entry
    split <;> trivial
  have recorded : Recorded (history ++ [.dispatch cur (getCtxt i (scheduler s) cur)] ++ [entry i cur])
      (handle i (enter i (scheduler s) cur) cur) := by
    unfold handle
    split
    · rename_i event
      refine handleEventRecorded entered running ?_ others
      rw [openCallAppend,openCallAppend]
      simp [entry,event,observe]
    · rename_i call
      have none : i.eventcode = eventNone := by simpa using call
      refine handleKcallRecorded ⟨entered,running,trapFrameEntered none live,?_,others,?_⟩ ?_ ?_
      · rw [openCallAppend]
        simp [entry,none,observe]
      · intro p member frame
        change p ∈ (scheduler s).blocked at member
        have other : p ≠ cur := fun h => ready.awake.placed.currentNotBlocked running (h ▸ member)
        have context : getCtxt i (enter i (scheduler s) cur) p = getCtxt i s p := by
          simp only [getCtxt,enter,setTask,Function.update_of_ne other,schedulerTask]
        rw [schedulerBlocked] at member
        rw [enter,trapFrameOther _ other] at frame
        rw [context]
        exact quiet.unstarted p member (by simpa only [trapFrame,schedulerTask] using frame)
      · intro real
        have absent := setTaskSome { scheduler s with mem := i.mem } cur i.newtask (fun t =>
          { t with sp := .frame (if i.eventcode = eventNone then .trap else .interrupt) i.ctxt })
        rw [schedulerTask,(quiet.legal.fresh real).1] at absent
        exact Option.not_isSome_iff_eq_none.mp (by rw [enter,absent]; decide)
      · intro code
        change i.ctxt.p0 = 0 ∨ i.ctxt.p0 ∈ (scheduler s).blocked
        rw [schedulerBlocked]
        exact quiet.legal.named none code
  have joined : history ++ .dispatch cur (getCtxt i (scheduler s) cur) :: entry i cur ::
      (handle i (enter i (scheduler s) cur) cur).2 =
      (history ++ [.dispatch cur (getCtxt i (scheduler s) cur)] ++ [entry i cur]) ++
        (handle i (enter i (scheduler s) cur) cur).2 := by simp
  rw [joined]
  exact ⟨after,recorded.books,recorded.lawful lawful⟩

theorem bootLedger {b : Boot} {s : State} (booted : Booted b s) : Ledger s [] := by
  refine ⟨bootAwake booted,?_,Run.alwaysNil _⟩
  intro p
  refine .closed rfl ?_
  have empty : s.blocked = [] := by rw [bootedState booted]; rfl
  simp [empty]

/-! The copies in the history are the writes the kernel makes to the tasks' memory. -/

theorem Moved.still {mem : Addr → Nat} {out : List Event} (none : copiesIn out = []) : Moved mem mem out := .inl ⟨none,rfl⟩

theorem memcpyInside (mem : Addr → Nat) {target source size k : Nat} (inside : k < size) :
    memcpy mem target source size (target + k) = mem (source + k) := by
  rw [memcpy,if_pos ⟨Nat.le_add_right _ _,Nat.add_lt_add_left inside _⟩,Nat.add_sub_cancel_left]

theorem memcpyOutside (mem : Addr → Nat) {target source size : Nat} {a : Addr} (outside : ∀ k < size, a ≠ target + k) :
    memcpy mem target source size a = mem a := by
  refine if_neg ?_
  rintro ⟨low,high⟩
  exact outside (a - target) (Nat.sub_lt_left_of_lt_add low high) (Nat.add_sub_cancel' low).symm

theorem deliveredMoved (i : Input) (s : State) (rcvr sndr : Pid) :
    Moved s.mem (delivered i s rcvr sndr).mem [copied i s rcvr sndr] :=
  .inr ⟨sndr,rcvr,_,_,_,rfl,fun _ inside => memcpyInside s.mem inside,fun _ outside => memcpyOutside s.mem outside⟩

theorem droppedCopies (s s' : State) (w : Pid) : copiesIn (dropped s s' w) = [] := by
  unfold dropped
  split <;> rfl

theorem freeTaskMem (s : State) (w : Pid) : (freeTask s w).mem = s.mem := by
  unfold freeTask
  split <;> rfl

theorem doAllocatestackMem (s : State) (p : Pid) (size : Nat) (block : Addr) :
    (doAllocatestack s p size block).1.mem = s.mem := by
  unfold doAllocatestack
  split <;> rfl

theorem handleEventMoved (i : Input) (s : State) (cur : Pid) :
    Moved s.mem (handleEvent i s cur).1.mem (handleEvent i s cur).2 := by
  unfold handleEvent
  split
  · exact .still rfl
  · dsimp only
    split <;> exact .still rfl

theorem handleKcallMoved (i : Input) (s : State) (cur : Pid) :
    Moved s.mem (handleKcall i s cur).1.mem (handleKcall i s cur).2 := by
  unfold handleKcall
  split
  case h_1 =>
    unfold kcallCreatetask
    dsimp only
    split <;> exact .still rfl
  case h_2 => exact .inl ⟨droppedCopies _ _ _,doAllocatestackMem _ _ _ _⟩
  case h_3 => exact .still (droppedCopies _ _ _)
  case h_5 => exact .still (droppedCopies _ _ _)
  case h_6 => exact .inl ⟨rfl,freeTaskMem _ _⟩
  case h_7 => exact .inl ⟨rfl,freeTaskMem _ _⟩
  case h_14 =>
    unfold kcallSend
    split
    · exact .still rfl
    · rename_i w s' found
      obtain ⟨-,-,rfl⟩ := sendScanSome found
      exact deliveredMoved i s w cur
  case h_15 =>
    unfold kcallSendrec
    split
    · exact .still rfl
    · rename_i w s' found
      obtain ⟨-,-,rfl⟩ := sendScanSome found
      exact deliveredMoved i s w cur
  case h_16 =>
    unfold kcallReceive
    split
    · exact .still rfl
    · rename_i w s' found
      obtain ⟨-,-,rfl⟩ := receiveScanSome found
      split <;> exact deliveredMoved i s cur w
  all_goals exact .still rfl

theorem kernelMoved {s i s' out} (taken : kernel s i = some (s',out)) : Moved i.mem s'.mem out := by
  obtain ⟨cur,rest,-,rfl,rfl⟩ := kernelRound taken
  have handled : Moved i.mem (handle i (enter i (scheduler s) cur) cur).1.mem
      (handle i (enter i (scheduler s) cur) cur).2 := by
    unfold handle
    split
    · exact handleEventMoved i (enter i (scheduler s) cur) cur
    · exact handleKcallMoved i (enter i (scheduler s) cur) cur
  have entering : isCopy (entry i cur) = false := by
    unfold entry
    split <;> rfl
  have same : copiesIn (.dispatch cur (getCtxt i (scheduler s) cur) :: entry i cur ::
      (handle i (enter i (scheduler s) cur) cur).2) = copiesIn (handle i (enter i (scheduler s) cur) cur).2 := by
    rw [copiesIn,List.filter_cons_of_neg (by simp [isCopy]),List.filter_cons_of_neg (by simp [entering])]
    rfl
  unfold Moved at handled ⊢
  rw [same]
  exact handled

theorem exactlyOnceDelivery {b : Boot} {s : State} {history : List Event}
    (run : Run.Reaches kernel Quiet (Booted b) s history) :
    Run.Always ExactlyOnce history ∧ ∀ i s' out, kernel s i = some (s',out) → Moved i.mem s'.mem out := by
  have ledger : Ledger s history := run.invariant (P := Ledger) (fun _ booted => bootLedger booted)
    (fun _ _ _ _ _ ledger quiet taken => kernelLedger ledger quiet taken)
  exact ⟨ledger.lawful,fun _ _ _ taken => kernelMoved taken⟩

def demoReceive : Ctxt := ⟨.receive,taskAny,0x700,8,0⟩
def demoSend : Ctxt := ⟨.send,0x400,0x800,0,0⟩
def demoAsked : List Event :=
  [.dispatch 0x400 demoCtxt,.trap 0x400 demoReceive,.dispatch 0x200 demoCtxt,.trap 0x200 demoSend]

/- The first task receives from anyone and the other one sends to it: the message is
copied once, the SEND returns, then the RECEIVE returns with the sender's pid. -/
theorem exactlyOnceDeliveryOfOneMessage : ∃ s, Run.Reaches kernel Quiet (Booted demoBoot) s
      (demoAsked ++ .copy 0x200 0x400 0x800 0x700 8 :: [.dispatch 0x200 demoSend,.trap 0x200 demoCtxt,
        .dispatch 0x400 { demoReceive with p0 := 0x200 },.trap 0x400 demoCtxt]) ∧
    Sending demoAsked 0x200 0x400 0x800 ∧ Receiving demoAsked 0x400 0x200 0x700 8 := by
  have quietly : ∀ s i, Legal s i → (∀ p ∈ s.blocked, (trapFrame s p).isSome) → Quiet s i := by
    intro s i legal called
    refine ⟨legal,?_⟩
    intro p member none
    have some := called p member
    rw [none] at some
    contradiction
  have start : Run.Reaches kernel Quiet (Booted demoBoot) (boot demoBoot) [] := .start demoBooted
  have receives := start.next (i := demoCall demoReceive 0)
    (quietly _ _ ⟨by decide,by decide⟩ (by decide)) rfl
  have sends := receives.next (i := demoCall demoSend 0)
    (quietly _ _ ⟨by decide,by decide⟩ (by decide)) rfl
  have yields := sends.next (i := demoCall demoCtxt 0)
    (quietly _ _ ⟨by decide,by decide⟩ (by decide)) rfl
  have returns := yields.next (i := demoCall demoCtxt 0)
    (quietly _ _ ⟨by decide,by decide⟩ (by decide)) rfl
  refine ⟨_,returns,?_⟩
  exact (exactlyOnceDelivery returns).1 demoAsked (.copy 0x200 0x400 0x800 0x700 8) _ rfl

end Avros.Kernel
