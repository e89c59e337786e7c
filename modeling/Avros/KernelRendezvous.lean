import Avros.KernelQueues

/-! No sender and receiver that could meet are both left asleep. A task asleep by its
own kernel call has a trap context on its stack; the kernel rewrites the call code of
a SENDREC whose message is delivered, so the code in that context is the call it is
still pending in. Created, stopped and set-up tasks have no trap context, whatever
the memory they are searched in happens to hold. -/
namespace Avros.Kernel
open Queue

def trapFrame (s : State) (p : Pid) : Option Ctxt :=
  match (s.task p).map Task.sp with
  | some (.frame .trap c) => some c
  | _ => none

def PendingSend (s : State) (p dest : Pid) : Prop :=
  p ∈ s.blocked ∧ ∃ c, trapFrame s p = some c ∧ (c.kcall = .send ∨ c.kcall = .sendrec) ∧ c.p0 = dest

def PendingReceive (s : State) (p src : Pid) : Prop :=
  p ∈ s.blocked ∧ ∃ c, trapFrame s p = some c ∧ c.kcall = .receive ∧ c.p0 = src

def Matched (s : State) (sndr rcvr : Pid) : Prop :=
  PendingSend s sndr rcvr ∧ (PendingReceive s rcvr sndr ∨ PendingReceive s rcvr taskAny)

def NoMissed (s : State) : Prop := ∀ sndr rcvr, ¬ Matched s sndr rcvr

theorem trapFrameTask {s : State} {p : Pid} {c : Ctxt} (h : trapFrame s p = some c) :
    ∃ t, s.task p = some t ∧ t.sp = .frame .trap c := by
  unfold trapFrame at h
  split at h <;> try contradiction
  rename_i found
  cases Option.some.inj h
  exact Option.map_eq_some_iff.mp found

theorem trapFrameCtxt {s : State} {p : Pid} {c : Ctxt} (i : Input) (h : trapFrame s p = some c) :
    getCtxt i s p = c := by
  obtain ⟨t,ht,hs⟩ := trapFrameTask h
  obtain ⟨sp,sb,prio,irqdis,page⟩ := t
  subst hs
  simp [getCtxt,contextOf,ht]

theorem trapFrameOther {s : State} {p q : Pid} (f : Task → Task) (other : q ≠ p) :
    trapFrame (setTask s p f) q = trapFrame s q := by
  simp only [trapFrame,setTask,Function.update_of_ne other]

theorem trapFrameEntered {i : Input} {s : State} {cur : Pid} (call : i.eventcode = eventNone)
    (live : (s.task cur).isSome) : trapFrame (enter i s cur) cur = some i.ctxt := by
  obtain ⟨t,found⟩ := Option.isSome_iff_exists.mp live
  simp [trapFrame,enter,setTask,found,call]

theorem trapFrameOnCtxt {s : State} {p : Pid} {c : Ctxt} (f : Ctxt → Ctxt) (h : trapFrame s p = some c) :
    trapFrame (setTask s p (Task.onCtxt f)) p = some (f c) := by
  obtain ⟨t,ht,hs⟩ := trapFrameTask h
  simp [trapFrame,setTask,ht,Task.onCtxt,hs]

theorem trapFrameSource {s : State} {p q : Pid} {c : Ctxt} {f : Task → Task}
    (keeps : ∀ t, (f t).sp = .frame .trap c → t.sp = .frame .trap c)
    (h : trapFrame (setTask s p f) q = some c) : trapFrame s q = some c := by
  by_cases same : q = p
  · subst same
    obtain ⟨t',found,frame⟩ := trapFrameTask h
    cases this : s.task q with
    | none => simp [setTask,this] at found
    | some t =>
      have changed : f t = t' := by simpa [setTask,this] using found
      have top := keeps t (changed ▸ frame)
      simp [trapFrame,this,top]
  · rwa [trapFrameOther f same] at h

theorem allocatedSource {s : State} {w p : Pid} {size : Nat} {block : Addr} {c : Ctxt}
    (there : trapFrame (doAllocatestack s w size block).1 p = some c) : trapFrame s p = some c := by
  unfold doAllocatestack at there
  split at there
  · exact there
  · refine trapFrameSource ?_ there
    intro t top
    split at top
    · exact top
    · contradiction

theorem setupSource {s : State} {w p : Pid} {args : Nat} {noise c : Ctxt}
    (there : trapFrame (doSetuptask s w args noise) p = some c) : trapFrame s p = some c := by
  refine trapFrameSource ?_ there
  intro t top
  split at top
  · exact top
  · simp at top

theorem stoppedSource {s : State} {w p : Pid} {c : Ctxt}
    (there : trapFrame (kcallStoptask s w) p = some c) : trapFrame s p = some c := by
  refine trapFrameSource ?_ there
  intro t top
  split at top
  · exact top
  · contradiction

theorem allocatedBlocked (s : State) (w : Pid) (size : Nat) (block : Addr) :
    (doAllocatestack s w size block).1.blocked = s.blocked := by
  unfold doAllocatestack
  split <;> rfl

theorem trapFrameOnCtxtSource {s : State} {p : Pid} {d : Ctxt} {f : Ctxt → Ctxt}
    (h : trapFrame (setTask s p (Task.onCtxt f)) p = some d) : ∃ c, trapFrame s p = some c ∧ d = f c := by
  cases found : s.task p with
  | none => simp [trapFrame,setTask,found] at h
  | some t =>
    obtain ⟨sp,sb,prio,irqdis,page⟩ := t
    cases sp with
    | unset => simp [trapFrame,setTask,found,Task.onCtxt] at h
    | bare => simp [trapFrame,setTask,found,Task.onCtxt] at h
    | frame origin c =>
      cases origin with
      | trap => exact ⟨c,by simp [trapFrame,found],by simpa [trapFrame,setTask,found,Task.onCtxt] using h.symm⟩
      | setup => simp [trapFrame,setTask,found,Task.onCtxt] at h
      | interrupt => simp [trapFrame,setTask,found,Task.onCtxt] at h

theorem NoMissed.fewer {s s' : State} (held : NoMissed s)
    (kept : ∀ p ∈ s'.blocked, ∀ c, trapFrame s' p = some c → p ∈ s.blocked ∧ trapFrame s p = some c) :
    NoMissed s' := by
  rintro sndr rcvr ⟨⟨asleep,c,frame,call⟩,receives⟩
  have sends : PendingSend s sndr rcvr :=
    ⟨(kept sndr asleep c frame).1,c,(kept sndr asleep c frame).2,call⟩
  have old : ∀ src, PendingReceive s' rcvr src → PendingReceive s rcvr src := by
    rintro src ⟨there,d,frame,call⟩
    exact ⟨(kept rcvr there d frame).1,d,(kept rcvr there d frame).2,call⟩
  exact held sndr rcvr ⟨sends,receives.imp (old _) (old _)⟩

theorem NoMissed.joined {s s' : State} (held : NoMissed s) {w : Pid}
    (kept : ∀ p ∈ s'.blocked, p ≠ w → ∀ c, trapFrame s' p = some c →
      p ∈ s.blocked ∧ trapFrame s p = some c)
    (sender : ∀ rcvr, ¬ Matched s' w rcvr) (receiver : ∀ sndr, ¬ Matched s' sndr w) : NoMissed s' := by
  rintro sndr rcvr pair
  by_cases first : sndr = w
  · subst first
    exact sender rcvr pair
  by_cases second : rcvr = w
  · subst second
    exact receiver sndr pair
  obtain ⟨⟨asleep,c,frame,call⟩,receives⟩ := pair
  have sends : PendingSend s sndr rcvr :=
    ⟨(kept sndr asleep first c frame).1,c,(kept sndr asleep first c frame).2,call⟩
  have old : ∀ src, PendingReceive s' rcvr src → PendingReceive s rcvr src := by
    rintro src ⟨there,d,frame,call⟩
    exact ⟨(kept rcvr there second d frame).1,d,(kept rcvr there second d frame).2,call⟩
  exact held sndr rcvr ⟨sends,receives.imp (old _) (old _)⟩

structure Awake (s : State) : Prop where
  placed : Placed s
  anyDead : s.task taskAny = none
  noMissed : NoMissed s

theorem Placed.blockedOnce {s : State} (placed : Placed s) {w : Pid} (member : w ∈ s.blocked) :
    w ∉ qRemv s.blocked w := by
  intro twice
  have real := placed.blockedReal member
  have once := (placed.live (occursSomewhere (Or.inr (Or.inl member)))).2
  have counts := countRemv real member w
  have again := List.count_pos_iff.mpr twice
  unfold occurrences at once
  simp only [if_true] at counts
  omega

theorem handleEventNoMissed {i : Input} {s : State} {cur : Pid} (placed : Placed s) (held : NoMissed s) :
    NoMissed (handleEvent i s cur).1 := by
  unfold handleEvent
  split
  · exact held
  rename_i w found
  obtain ⟨asleep,-,-⟩ := eventScanSome found
  have blocked : ∀ t : State, t.blocked = s.blocked → t.task = s.task → NoMissed
      (setP0 { outOfBlocked t w with current := qFront (outOfBlocked t w).current w } w i.eventcode) := by
    intro t lines tasks
    refine held.fewer ?_
    intro p member c frame
    change p ∈ qRemv t.blocked w at member
    rw [lines] at member
    have other : p ≠ w := fun h => placed.blockedOnce asleep (h ▸ member)
    rw [setP0,trapFrameOther _ other] at frame
    refine ⟨memRemv member,?_⟩
    simpa only [trapFrame,outOfBlocked,tasks] using frame
  dsimp only
  split
  · exact blocked (toQueueEnd (outOfCurrent s cur) cur) rfl rfl
  · exact blocked (toQueueFront (outOfCurrent s cur) cur) rfl rfl

theorem deliveredFrame {i : Input} {s : State} {rcvr sndr p : Pid} (other : p ≠ rcvr) :
    trapFrame (delivered i s rcvr sndr) p = trapFrame s p := trapFrameOther _ other

theorem sleepNoMissed {i : Input} {s : State} {cur : Pid} (held : NoMissed s)
    (frame : trapFrame s cur = some i.ctxt)
    (sender : i.ctxt.kcall = .send ∨ i.ctxt.kcall = .sendrec → ∀ p ∈ s.blocked, ¬ Rendezvous i s p cur)
    (receiver : i.ctxt.kcall = .receive → ∀ p ∈ s.blocked, ¬ Rendezvous i s cur p)
    {s' : State} (tasks : s'.task = s.task) (lines : ∀ p ∈ s'.blocked, p = cur ∨ p ∈ s.blocked) :
    NoMissed s' := by
  have frames : ∀ p, trapFrame s' p = trapFrame s p := by
    intro p; simp only [trapFrame,tasks]
  have own : getCtxt i s cur = i.ctxt := trapFrameCtxt i frame
  refine held.joined (w := cur) ?_ ?_ ?_
  · intro p member other c there
    exact ⟨(lines p member).resolve_left other,frames p ▸ there⟩
  · rintro rcvr ⟨⟨-,c,mine,call,named⟩,receives⟩
    rw [frames,frame] at mine
    cases Option.some.inj mine
    have meets : ∀ src, src = cur ∨ src = taskAny → ¬ PendingReceive s' rcvr src := by
      rintro src accepts ⟨there,d,theirs,receiving,from_⟩
      rw [frames] at theirs
      rcases lines rcvr there with rfl | asleep
      · rw [frame] at theirs
        cases Option.some.inj theirs
        rcases call with h | h <;> simp [h] at receiving
      · refine sender call rcvr asleep ⟨?_,?_,?_,?_⟩
        · rw [own]; exact call
        · rw [trapFrameCtxt i theirs]; exact receiving
        · rw [own]; exact named
        · rw [trapFrameCtxt i theirs,from_]; exact accepts
    rcases receives with h | h
    · exact meets cur (Or.inl rfl) h
    · exact meets taskAny (Or.inr rfl) h
  · rintro sndr ⟨⟨there,c,theirs,call,named⟩,receives⟩
    have meets : ∀ src, src = sndr ∨ src = taskAny → ¬ PendingReceive s' cur src := by
      rintro src accepts ⟨-,d,mine,receiving,from_⟩
      rw [frames,frame] at mine
      cases Option.some.inj mine
      rw [frames] at theirs
      rcases lines sndr there with rfl | asleep
      · rw [frame] at theirs
        cases Option.some.inj theirs
        rcases call with h | h <;> simp [h] at receiving
      · refine receiver receiving sndr asleep ⟨?_,?_,?_,?_⟩
        · rw [trapFrameCtxt i theirs]; exact call
        · rw [own]; exact receiving
        · rw [trapFrameCtxt i theirs]; exact named
        · rw [own,from_]; exact accepts
    rcases receives with h | h
    · exact meets sndr (Or.inl rfl) h
    · exact meets taskAny (Or.inr rfl) h

theorem wokenNoMissed {s : State} (placed : Placed s) (held : NoMissed s) {w : Pid}
    (asleep : w ∈ s.blocked) {s' : State} (blocked : s'.blocked = qRemv s.blocked w)
    (frames : ∀ p ∈ s.blocked, p ≠ w → trapFrame s' p = trapFrame s p) : NoMissed s' := by
  refine held.fewer ?_
  intro p member c frame
  rw [blocked] at member
  have other : p ≠ w := fun h => placed.blockedOnce asleep (h ▸ member)
  exact ⟨memRemv member,frames p (memRemv member) other ▸ frame⟩

theorem kcallSendNoMissed {i : Input} {s : State} {cur : Pid} (awake : Awake s)
    (frame : trapFrame s cur = some i.ctxt) (call : i.ctxt.kcall = .send) :
    NoMissed (kcallSend i s cur).1 := by
  unfold kcallSend
  split
  · rename_i missed
    exact sleepNoMissed awake.noMissed frame (fun _ => sendScanNone missed) (by simp [call]) rfl
      (fun p member => memFront member)
  · rename_i w s' found
    obtain ⟨asleep,-,rfl⟩ := sendScanSome found
    exact wokenNoMissed awake.placed awake.noMissed asleep rfl (fun p _ other => deliveredFrame other)

theorem kcallSendrecNoMissed {i : Input} {s : State} {cur : Pid} (awake : Awake s)
    (running : cur ∈ s.current) (frame : trapFrame s cur = some i.ctxt) (call : i.ctxt.kcall = .sendrec) :
    NoMissed (kcallSendrec i s cur).1 := by
  unfold kcallSendrec
  split
  · rename_i missed
    exact sleepNoMissed awake.noMissed frame (fun _ => sendScanNone missed) (by simp [call]) rfl
      (fun p member => memFront member)
  rename_i w s' found
  obtain ⟨asleep,meets,rfl⟩ := sendScanSome found
  have awakeCur := awake.placed.currentNotBlocked running
  have distinct : cur ≠ w := fun h => awakeCur (h ▸ asleep)
  have dest : i.ctxt.p0 = w := by rw [← trapFrameCtxt i frame]; exact meets.2.2.1
  have others : ∀ p, p ≠ cur → p ≠ w →
      trapFrame (setKcallcode (delivered i s w cur) cur .receive) p = trapFrame s p := by
    intro p notCur notW
    rw [setKcallcode,trapFrameOther _ notCur,deliveredFrame notW]
  have mine : trapFrame (setKcallcode (delivered i s w cur) cur .receive) cur =
      some { i.ctxt with kcall := .receive } :=
    trapFrameOnCtxt _ (by rw [deliveredFrame distinct]; exact frame)
  have lines : ∀ p ∈ qFront (qRemv s.blocked w) cur, p ≠ cur → p ≠ w ∧ p ∈ s.blocked := by
    intro p member other
    have rest := (memFront member).resolve_left other
    exact ⟨fun h => awake.placed.blockedOnce asleep (h ▸ rest),memRemv rest⟩
  refine awake.noMissed.joined (w := cur) ?_ ?_ ?_
  · intro p member other c there
    obtain ⟨notW,old⟩ := lines p member other
    exact ⟨old,others p other notW ▸ there⟩
  · rintro rcvr ⟨⟨-,c,theirs,sends,-⟩,-⟩
    have same : some c = some { i.ctxt with kcall := Kcall.receive } := theirs.symm.trans mine
    cases Option.some.inj same
    rcases sends with h | h <;> contradiction
  -- The caller now waits for the very task it woke, so nobody asleep can be its sender.
  · rintro sndr ⟨⟨there,-⟩,receives⟩
    have fromW : ∀ src, PendingReceive (toBlockedFront (outOfCurrent (toQueueEnd (outOfBlocked
        (setKcallcode (delivered i s w cur) cur .receive) w) w) cur) cur) cur src → src = w := by
      rintro src ⟨-,c,theirs,-,from_⟩
      have same : some c = some { i.ctxt with kcall := Kcall.receive } := theirs.symm.trans mine
      cases Option.some.inj same
      rw [← from_]
      exact dest
    rcases receives with h | h
    · have same := fromW sndr h
      subst same
      exact (lines sndr there (fun h => distinct h.symm)).1 rfl
    · have live := (awake.placed.live (occursSomewhere (Or.inr (Or.inl asleep)))).1
      rw [← fromW taskAny h,awake.anyDead] at live
      contradiction

theorem kcallReceiveNoMissed {i : Input} {s : State} {cur : Pid} (awake : Awake s)
    (running : cur ∈ s.current) (frame : trapFrame s cur = some i.ctxt) (call : i.ctxt.kcall = .receive) :
    NoMissed (kcallReceive i s cur).1 := by
  have awakeCur := awake.placed.currentNotBlocked running
  unfold kcallReceive
  split
  · rename_i missed
    exact sleepNoMissed awake.noMissed frame (by simp [call]) (fun _ => receiveScanNone missed) rfl
      (fun p member => memFront member)
  rename_i w s' found
  obtain ⟨asleep,meets,rfl⟩ := receiveScanSome found
  have distinct : w ≠ cur := fun h => awakeCur (h ▸ asleep)
  split
  · have others : ∀ p ∈ s.blocked, p ≠ w →
        trapFrame (setKcallcode (delivered i s cur w) w .receive) p = trapFrame s p := by
      intro p member notW
      have notCur : p ≠ cur := fun h => awakeCur (h ▸ member)
      rw [setKcallcode,trapFrameOther _ notW,deliveredFrame notCur]
    have mine : ∀ c, trapFrame (setKcallcode (delivered i s cur w) w .receive) w = some c →
        c.kcall = .receive ∧ c.p0 = cur := by
      intro c there
      obtain ⟨d,old,rfl⟩ := trapFrameOnCtxtSource there
      rw [deliveredFrame distinct] at old
      refine ⟨rfl,?_⟩
      rw [← trapFrameCtxt i old]
      exact meets.2.2.1
    refine awake.noMissed.joined (w := w) ?_ ?_ ?_
    · intro p member other c there
      exact ⟨member,others p member other ▸ there⟩
    · rintro rcvr ⟨⟨-,c,theirs,sends,-⟩,-⟩
      have code := (mine c theirs).1
      rcases sends with h | h <;> simp [h] at code
    -- A delivered SENDREC waits for the task that is running now.
    · rintro sndr ⟨⟨there,-⟩,receives⟩
      rcases receives with ⟨-,c,theirs,-,from_⟩ | ⟨-,c,theirs,-,from_⟩
      · have same : cur = sndr := (mine c theirs).2.symm.trans from_
        exact awakeCur (same ▸ there)
      · have same : cur = taskAny := (mine c theirs).2.symm.trans from_
        have live := (awake.placed.live (occursSomewhere (Or.inl running))).1
        rw [same,awake.anyDead] at live
        contradiction
  · refine wokenNoMissed awake.placed awake.noMissed asleep rfl ?_
    intro p member _
    have notCur : p ≠ cur := fun h => awakeCur (h ▸ member)
    exact deliveredFrame notCur

theorem freeTaskFrame {s : State} {w p : Pid} {c : Ctxt} (h : trapFrame (freeTask s w) p = some c) :
    trapFrame s p = some c := by
  unfold freeTask at h
  split at h
  · exact h
  · by_cases same : p = w
    · subst same
      simp [trapFrame] at h
    · simpa only [trapFrame,Function.update_of_ne same] using h

theorem freeTaskBlocked (s : State) (w : Pid) : (freeTask s w).blocked = s.blocked := by
  unfold freeTask
  split <;> rfl

theorem createdFrame {i : Input} {s : State} {cur p : Pid} {c : Ctxt} (notCur : p ≠ cur)
    (h : trapFrame (kcallCreatetask i s cur) p = some c) :
    trapFrame s p = some c ∧ (i.newtask = 0 ∨ p ≠ i.newtask) := by
  unfold kcallCreatetask at h
  dsimp only at h
  rw [setP0,trapFrameOther _ notCur] at h
  split at h
  · rename_i null
    exact ⟨h,Or.inl null⟩
  · by_cases same : p = i.newtask
    · subst same
      simp [trapFrame,newtask] at h
    · exact ⟨by simpa only [trapFrame,Function.update_of_ne same] using h,Or.inr same⟩

theorem createdBlocked {i : Input} {s : State} {cur p : Pid}
    (member : p ∈ (kcallCreatetask i s cur).blocked) : p ∈ s.blocked ∨ (i.newtask ≠ 0 ∧ p = i.newtask) := by
  unfold kcallCreatetask at member
  dsimp only [setP0,setTaskBlocked] at member
  split at member
  · exact Or.inl member
  · rename_i real
    rcases memFront member with new | old
    · exact Or.inr ⟨real,new⟩
    · exact Or.inl old

theorem handleKcallNoMissed {i : Input} {s : State} {cur : Pid} (awake : Awake s)
    (running : cur ∈ s.current) (frame : trapFrame s cur = some i.ctxt)
    (fresh : i.newtask ≠ 0 → s.task i.newtask = none) : NoMissed (handleKcall i s cur).1 := by
  have awakeCur := awake.placed.currentNotBlocked running
  have live := (awake.placed.live (occursSomewhere (Or.inl running))).1
  have notCur : ∀ p ∈ s.blocked, p ≠ cur := fun p member h => awakeCur (h ▸ member)
  -- Calls that only rewrite one task structure cannot make a trap context.
  have rewritten : ∀ w f, (∀ t c, (f t).sp = .frame .trap c → t.sp = .frame .trap c) →
      NoMissed (setTask s w f) := by
    intro w f keeps
    exact awake.noMissed.fewer (fun p member c there =>
      ⟨member,trapFrameSource (fun t => keeps t c) there⟩)
  have returned : ∀ t : State, t.blocked = s.blocked →
      (∀ p ∈ s.blocked, ∀ c, trapFrame t p = some c → trapFrame s p = some c) →
      ∀ v, NoMissed (setP0 t cur v) := by
    intro t lines frames v
    refine awake.noMissed.fewer ?_
    intro p member c there
    have old : p ∈ s.blocked := by rw [← lines]; exact member
    rw [setP0,trapFrameOther _ (notCur p old)] at there
    exact ⟨old,frames p old c there⟩
  unfold handleKcall
  split
  case h_1 =>
    refine awake.noMissed.fewer ?_
    intro p member c there
    rcases createdBlocked member with old | ⟨real,new⟩
    · exact ⟨old,(createdFrame (notCur p old) there).1⟩
    · have other : p ≠ cur := by
        rintro rfl
        rw [new,fresh real] at live
        contradiction
      rcases (createdFrame other there).2 with null | older
      · exact absurd null real
      · exact absurd new older
  case h_2 => exact returned _ (allocatedBlocked _ _ _ _) (fun p _ c there => allocatedSource there) _
  case h_3 => exact awake.noMissed.fewer (fun p member c there => ⟨member,setupSource there⟩)
  case h_4 => exact awake.noMissed.fewer (fun p member c there => ⟨memRemv member,there⟩)
  case h_5 => exact awake.noMissed.fewer (fun p member c there => ⟨member,stoppedSource there⟩)
  case h_6 =>
    refine awake.noMissed.fewer ?_
    intro p member c there
    rw [freeTaskBlocked] at member
    exact ⟨memRemv member,freeTaskFrame (s := outOfBlocked s i.ctxt.p0) there⟩
  case h_7 =>
    refine awake.noMissed.fewer ?_
    intro p member c there
    rw [freeTaskBlocked] at member
    exact ⟨member,freeTaskFrame (s := outOfCurrent s cur) there⟩
  case h_8 => exact rewritten _ _ (fun _ _ top => top)
  case h_9 => exact rewritten _ _ (fun _ _ top => top)
  case h_10 call =>
    exact sleepNoMissed awake.noMissed frame (by simp [call]) (by simp [call]) rfl
      (fun p member => memEnd member)
  case h_11 => exact returned s rfl (fun _ _ _ there => there) _
  case h_12 => exact awake.noMissed
  case h_13 => exact returned s rfl (fun _ _ _ there => there) _
  case h_14 call => exact kcallSendNoMissed awake frame call
  case h_15 call => exact kcallSendrecNoMissed awake running frame call
  case h_16 call => exact kcallReceiveNoMissed awake running frame call
  case h_17 => exact awake.noMissed.fewer (fun p member c there => ⟨member,there⟩)
  case h_18 => exact awake.noMissed

/-! Where task structures come from: newtask() alone. -/

theorem handleEventLive (i : Input) (s : State) (cur p : Pid) :
    ((handleEvent i s cur).1.task p).isSome = (s.task p).isSome := by
  unfold handleEvent
  split
  · rfl
  · dsimp only
    rw [setP0,setTaskSome]
    split <;> rfl

theorem freeTaskLive {s : State} {w p : Pid} (h : ((freeTask s w).task p).isSome) : (s.task p).isSome := by
  unfold freeTask at h
  split at h
  · exact h
  · by_cases same : p = w
    · subst same
      simp at h
    · simpa only [Function.update_of_ne same] using h

theorem deliveredLive (i : Input) (s : State) (rcvr sndr p : Pid) :
    ((delivered i s rcvr sndr).task p).isSome = (s.task p).isSome := setTaskSome _ _ _ _

theorem handleKcallLive {i : Input} {s : State} {cur p : Pid}
    (h : ((handleKcall i s cur).1.task p).isSome) :
    (s.task p).isSome ∨ (i.newtask ≠ 0 ∧ p = i.newtask) := by
  unfold handleKcall at h
  split at h
  case h_1 =>
    unfold kcallCreatetask at h
    dsimp only at h
    rw [setP0,setTaskSome] at h
    split at h
    · exact Or.inl h
    · rename_i real
      by_cases same : p = i.newtask
      · exact Or.inr ⟨real,same⟩
      · left
        simpa only [Function.update_of_ne same] using h
  case h_2 =>
    unfold kcallAllocatestack doAllocatestack at h
    rw [setP0,setTaskSome] at h
    split at h
    · exact Or.inl h
    · rw [setTaskSome] at h
      exact Or.inl h
  case h_3 => exact Or.inl (by rwa [doSetuptask,setTaskSome] at h)
  case h_5 => exact Or.inl (by rwa [kcallStoptask,setTaskSome] at h)
  case h_6 => exact Or.inl (freeTaskLive (s := outOfBlocked s i.ctxt.p0) h)
  case h_7 => exact Or.inl (freeTaskLive (s := outOfCurrent s cur) h)
  case h_8 => exact Or.inl (by rwa [setTaskSome] at h)
  case h_9 => exact Or.inl (by rwa [setTaskSome] at h)
  case h_11 => exact Or.inl (by rwa [setP0,setTaskSome] at h)
  case h_13 => exact Or.inl (by rwa [setP0,setTaskSome] at h)
  case h_14 =>
    unfold kcallSend at h
    split at h
    · exact Or.inl h
    · rename_i w s' found
      obtain ⟨-,-,rfl⟩ := sendScanSome found
      exact Or.inl (deliveredLive i s w cur p ▸ h)
  case h_15 =>
    unfold kcallSendrec at h
    split at h
    · exact Or.inl h
    · rename_i w s' found
      obtain ⟨-,-,rfl⟩ := sendScanSome found
      change ((setKcallcode (delivered i s w cur) cur .receive).task p).isSome at h
      rw [setKcallcode,setTaskSome,deliveredLive] at h
      exact Or.inl h
  case h_16 =>
    unfold kcallReceive at h
    split at h
    · exact Or.inl h
    · rename_i w s' found
      obtain ⟨-,-,rfl⟩ := receiveScanSome found
      split at h
      · rw [setKcallcode,setTaskSome,deliveredLive] at h
        exact Or.inl h
      · exact Or.inl (deliveredLive i s cur w p ▸ h)
  all_goals exact Or.inl h

theorem enterAwake {i : Input} {s : State} {cur : Pid} (awake : Awake s) (running : cur ∈ s.current) :
    Awake (enter i s cur) where
  placed := enterPlaced awake.placed i cur
  anyDead := by
    have absent := setTaskSome { s with mem := i.mem } cur taskAny (fun t =>
      { t with sp := .frame (if i.eventcode = eventNone then .trap else .interrupt) i.ctxt })
    rw [awake.anyDead] at absent
    exact Option.not_isSome_iff_eq_none.mp (by rw [enter,absent]; decide)
  noMissed := by
    refine awake.noMissed.fewer ?_
    intro p member c there
    have other : p ≠ cur := fun h => awake.placed.currentNotBlocked running (h ▸ member)
    rw [enter,trapFrameOther _ other] at there
    exact ⟨member,there⟩

theorem schedulerAwake {s : State} (awake : Awake s) : Awake (scheduler s) where
  placed := schedulerPlaced awake.placed
  anyDead := by rw [schedulerTask]; exact awake.anyDead
  noMissed := by
    refine awake.noMissed.fewer ?_
    intro p member c there
    rw [schedulerBlocked] at member
    exact ⟨member,by simpa only [trapFrame,schedulerTask] using there⟩

theorem kernelAwake {s i s' out} (awake : Awake s) (legal : Legal s i)
    (taken : kernel s i = some (s',out)) : Awake s' := by
  have placed := kernelPlaced awake.placed legal taken
  obtain ⟨cur,rest,line,rfl,-⟩ := kernelRound taken
  have ready := schedulerAwake awake
  have running : cur ∈ (scheduler s).current := by simp [line]
  have entered := enterAwake (i := i) ready running
  have live := (ready.placed.live (occursSomewhere (Or.inl running))).1
  have dead : ∀ q, s.task q = none → ((enter i (scheduler s) cur).task q).isSome = false := by
    intro q none
    rw [enter,setTaskSome,schedulerTask,none]
    rfl
  unfold handle at placed ⊢
  split at placed
  · rename_i event
    rw [if_pos event]
    refine ⟨placed,?_,handleEventNoMissed entered.placed entered.noMissed⟩
    have absent := handleEventLive i (enter i (scheduler s) cur) cur taskAny
    rw [dead _ awake.anyDead] at absent
    simpa using absent
  · rename_i call
    rw [if_neg call]
    have none : i.eventcode = eventNone := by simpa using call
    refine ⟨placed,?_,handleKcallNoMissed entered running (trapFrameEntered none live) ?_⟩
    · refine Option.not_isSome_iff_eq_none.mp ?_
      intro some
      rcases handleKcallLive some with old | ⟨real,new⟩
      · rw [dead _ awake.anyDead] at old
        contradiction
      · exact (legal.fresh real).2 new.symm
    · intro real
      simpa using dead _ (legal.fresh real).1

theorem bootAwake {b : Boot} {s : State} (booted : Booted b s) : Awake s := by
  refine ⟨bootPlaced booted,?_,?_⟩
  · have notIdle : taskAny ≠ b.idle := fun h => booted.idle.2.1 h.symm
    have notFirst : taskAny ≠ b.first := fun h => booted.first.2.1 h.symm
    rw [bootedState booted]
    simp [toQueueEnd,addTask,Function.update_of_ne notIdle,Function.update_of_ne notFirst,initTaskQueues]
  · rintro sndr rcvr ⟨⟨asleep,-⟩,-⟩
    have empty : s.blocked = [] := by rw [bootedState booted]; rfl
    simp [empty] at asleep

theorem noMissedRendezvous {b : Boot} {s : State} {history : List Event}
    (run : Run.Reaches kernel Legal (Booted b) s history) (sndr rcvr : Pid) :
    ¬ (PendingSend (scheduler s) sndr rcvr ∧
      (PendingReceive (scheduler s) rcvr sndr ∨ PendingReceive (scheduler s) rcvr taskAny)) := by
  have awake : Awake s := run.stateInvariant (P := Awake) (fun _ booted => bootAwake booted)
    (fun _ _ _ _ awake legal taken => kernelAwake awake legal taken)
  exact (schedulerAwake awake).noMissed sndr rcvr

-- The first task waits for a message from anyone, and nobody asleep has one for it.
theorem noMissedRendezvousAfterReceive : ∃ s history,
    Run.Reaches kernel Legal (Booted demoBoot) s history ∧ PendingReceive s demoBoot.first taskAny ∧
    ∀ sndr, ¬ (PendingSend (scheduler s) sndr demoBoot.first ∧
      (PendingReceive (scheduler s) demoBoot.first sndr ∨
        PendingReceive (scheduler s) demoBoot.first taskAny)) := by
  have receives : Legal (boot demoBoot) (demoCall ⟨.receive,taskAny,0x700,8,0⟩ 0) :=
    ⟨by decide,by decide⟩
  have start : Run.Reaches kernel Legal (Booted demoBoot) (boot demoBoot) [] := .start demoBooted
  have run := start.next receives rfl
  refine ⟨_,_,run,⟨by decide,⟨.receive,taskAny,0x700,8,0⟩,rfl,rfl,rfl⟩,?_⟩
  intro sndr
  exact noMissedRendezvous run sndr demoBoot.first

end Avros.Kernel
