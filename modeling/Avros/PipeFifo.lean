import Avros.Pairing
import Avros.VfsDrivers

/-! While a pipe has both ends, it hands the k-th byte written to the k-th reader. The
history of node `n` lists the requests that reach it and the answers the driver gives:
one for the request at hand, unless it is held, and one, by VFS_REPEAT, for the request
that waited longest. -/
namespace Avros.Vfs

inductive PipeEvent where
  | arrived (m : Msg)
  | answered (request : Cmd) (client : Pid) (data : Int)
  deriving DecidableEq, Repr

def IsRw (n : Nat) (m : Msg) : Prop := (m.cmd = .readc ∨ m.cmd = .writec) ∧ m.w0 = n

instance (n : Nat) (m : Msg) : Decidable (IsRw n m) := inferInstanceAs (Decidable (_ ∧ _))

-- Which kind of request waits in node `n`: the driver asks its first container.
def waitingKind (nodes : PdNodes) (n : Nat) : Cmd :=
  match nodes[n]? with
  | some (some ⟨_,_,container::_⟩) => container.cmd
  | _ => .hold

def answerOf (waiting own : Cmd) (m : Msg) : Option PipeEvent :=
  if m.cmd = .hold then none
  else some (.answered (if m.cmd = .repeat_ then waiting else own) m.client m.w2)

def pipeTurn (n : Nat) : Run.Step PdNodes Msg PipeEvent := fun nodes m => do
  let (after,replies) ← pipedev nodes m
  some (after,if IsRw n m then
    .arrived m::replies.filterMap (answerOf (waitingKind nodes n) m.cmd) else [])

def arrivals (kind : Cmd) (history : List PipeEvent) : List Msg :=
  history.filterMap (fun e => match e with
    | .arrived m => if m.cmd = kind then some m else none
    | .answered _ _ _ => none)

def answers (kind : Cmd) (history : List PipeEvent) : List (Pid × Int) :=
  history.filterMap (fun e => match e with
    | .arrived _ => none
    | .answered request client data => if request = kind then some (client,data) else none)

def TwoEnds (n : Nat) (nodes : PdNodes) : Prop :=
  ∃ node : PdNode, nodes[n]? = some (some node) ∧ 2 ≤ node.refcnt

-- Whatever else the driver is asked, node `n` keeps a reference count of at least two.
def StaysOpen (n : Nat) (nodes : PdNodes) (m : Msg) : Prop :=
  ∀ after replies, pipedev nodes m = some (after,replies) → TwoEnds n after

def EmptyPipe (n : Nat) (nodes : PdNodes) : Prop :=
  ∃ node : PdNode, nodes[n]? = some (some node) ∧ 2 ≤ node.refcnt ∧ node.msgs = []

def otherEnd (kind : Cmd) : Cmd := if kind = .readc then .writec else .readc

-- The byte that changes hands is the writer's; `m` is of the kind.
def carried (kind : Cmd) (m c : Msg) : Int := if kind = .writec then m.w2 else c.w2

/- The requests of one kind and of the other share a queue; each pair that has met has its
answers. -/
structure Paired (kind : Cmd) (msgs : List Msg) (history : List PipeEvent) : Prop where
  line : Pairing.Shared Msg.cmd kind (otherEnd kind) msgs (arrivals kind history) (arrivals (otherEnd kind) history)
  own : answers kind history = List.zipWith (fun m c => (m.client,carried kind m c))
    (arrivals kind history) (arrivals (otherEnd kind) history)
  others : answers (otherEnd kind) history = List.zipWith (fun m c => (c.client,carried kind m c))
    (arrivals kind history) (arrivals (otherEnd kind) history)

theorem Paired.flip {kind : Cmd} {msgs : List Msg} {history : List PipeEvent} (held : Paired kind msgs history)
    (rw_ : kind = .readc ∨ kind = .writec) : Paired (otherEnd kind) msgs history := by
  obtain ⟨line,own,others⟩ := held
  rcases rw_ with rfl | rfl
  · exact ⟨line.flip,others.trans List.zipWith_comm,own.trans List.zipWith_comm⟩
  · exact ⟨line.flip,others.trans List.zipWith_comm,own.trans List.zipWith_comm⟩

def meeting (m : Msg) : Option Msg → List PipeEvent
  | none => []
  | some c => [.answered c.cmd c.client (carried m.cmd m c),.answered m.cmd m.client (carried m.cmd m c)]

theorem Paired.turn {msgs : List Msg} {history : List PipeEvent} {m : Msg} (held : Paired m.cmd msgs history)
    (rw_ : m.cmd = .readc ∨ m.cmd = .writec) :
    Paired m.cmd (Pairing.meet Msg.cmd (otherEnd m.cmd) msgs m).1
      (history ++ .arrived m::meeting m (Pairing.meet Msg.cmd (otherEnd m.cmd) msgs m).2) := by
  have apart : m.cmd ≠ otherEnd m.cmd := by rcases rw_ with call | call <;> rw [call] <;> decide
  obtain ⟨line,own⟩ := held.line.left apart rfl (fun n c => (n.client,carried m.cmd n c))
  obtain ⟨-,others⟩ := held.line.left apart rfl (fun n c => (c.client,carried m.cmd n c))
  have arrived : ∀ more, arrivals m.cmd (history ++ .arrived m::meeting m more) = arrivals m.cmd history ++ [m] ∧
      arrivals (otherEnd m.cmd) (history ++ .arrived m::meeting m more) = arrivals (otherEnd m.cmd) history := by
    intro more
    cases more <;> simp [arrivals,meeting,apart]
  cases met : (Pairing.meet Msg.cmd (otherEnd m.cmd) msgs m).2 with
  | none =>
    rw [met] at own others
    refine ⟨?_,?_,?_⟩
    · rwa [(arrived none).1,(arrived none).2]
    · rw [(arrived none).1,(arrived none).2,own,← held.own]
      simp [answers,meeting]
    · rw [(arrived none).1,(arrived none).2,others,← held.others]
      simp [answers,meeting]
  | some c =>
    have other : c.cmd = otherEnd m.cmd := held.line.rights c (held.line.flip.partner (Ne.symm apart) met)
    rw [met] at own others
    refine ⟨?_,?_,?_⟩
    · rwa [(arrived (some c)).1,(arrived (some c)).2]
    · rw [(arrived (some c)).1,(arrived (some c)).2,own,← held.own]
      simp [answers,meeting,other,Ne.symm apart]
    · rw [(arrived (some c)).1,(arrived (some c)).2,others,← held.others]
      simp [answers,meeting,other,apart]

def Fifo (n : Nat) (nodes : PdNodes) (history : List PipeEvent) : Prop :=
  ∃ node : PdNode, nodes[n]? = some (some node) ∧ 2 ≤ node.refcnt ∧ Paired .readc node.msgs history

theorem turnKeepsQueue {n : Nat} {nodes after : PdNodes} {m : Msg} {replies : List Msg} {node : PdNode}
    (there : nodes[n]? = some (some node)) (other : ¬ IsRw n m) (stays : TwoEnds n after)
    (turn : PdTurn nodes m after replies) :
    ∃ node' : PdNode, after[n]? = some (some node') ∧ 2 ≤ node'.refcnt ∧ node'.msgs = node.msgs := by
  obtain ⟨node',new,two⟩ := stays
  refine ⟨node',new,two,?_⟩
  have set : ∀ (i : Nat) (entry : Option PdNode) (old : PdNode), nodes[i]? = some (some old) →
      (nodes.set i entry)[n]? = some (some node') → (∀ k : PdNode, entry = some k → k.msgs = old.msgs ∨ k.refcnt = 1) →
      node'.msgs = node.msgs := by
    intro i entry old held found keeps
    by_cases same : i = n
    · subst same
      rw [List.getElem?_set_self (List.getElem?_eq_some_iff.mp held).1] at found
      rw [held] at there
      cases Option.some.inj (Option.some.inj there)
      rcases keeps node' (Option.some.inj found) with kept | gone
      · exact kept
      · omega
    · rw [List.getElem?_set_ne same,there] at found
      cases Option.some.inj (Option.some.inj found)
      rfl
  cases turn with
  | @made i call first empty =>
    have apart : i ≠ n := by
      rintro rfl
      rw [there] at empty
      cases Option.some.inj empty
    rw [List.getElem?_set_ne apart,there] at new
    cases Option.some.inj (Option.some.inj new)
    rfl
  | missingLink call absent => rw [there] at new; cases Option.some.inj (Option.some.inj new); rfl
  | missing call absent => rw [there] at new; cases Option.some.inj (Option.some.inj new); rfl
  | ignored call => rw [there] at new; cases Option.some.inj (Option.some.inj new); rfl
  | linked call index held => exact set _ _ _ held new (fun k same => by cases Option.some.inj same; exact Or.inl rfl)
  | grabbed call index held => exact set _ _ _ held new (fun k same => by cases Option.some.inj same; exact Or.inl rfl)
  | unlinked call index held =>
    refine set _ _ _ held new ?_
    intro k same
    unfold pdUnlink at same
    dsimp only at same
    split at same
    · cases Option.some.inj same; exact Or.inl rfl
    · contradiction
  | released call index held =>
    refine set _ _ _ held new ?_
    intro k same
    unfold pdRelease at same
    dsimp only at same
    split at same
    · rename_i last
      cases Option.some.inj same
      exact Or.inr last
    split at same
    · cases Option.some.inj same; exact Or.inl rfl
    split at same
    · cases Option.some.inj same; exact Or.inl rfl
    · contradiction
  | @passed i old call index held =>
    have apart : i ≠ n := by
      rintro rfl
      exact other ⟨call,index⟩
    rw [List.getElem?_set_ne apart,there] at new
    cases Option.some.inj (Option.some.inj new)
    rfl

theorem pdRwMeets {n : Nat} {nodes : PdNodes} {node : PdNode} {m : Msg} (there : nodes[n]? = some (some node))
    (two : 2 ≤ node.refcnt) (line : ∀ c ∈ node.msgs, c.cmd = .readc ∨ c.cmd = .writec)
    (rw_ : m.cmd = .readc ∨ m.cmd = .writec) :
    (pdRw node m).1 = { node with msgs := (Pairing.meet Msg.cmd (otherEnd m.cmd) node.msgs m).1 } ∧
    (pdRw node m).2.filterMap (answerOf (waitingKind nodes n) m.cmd) =
      meeting m (Pairing.meet Msg.cmd (otherEnd m.cmd) node.msgs m).2 := by
  obtain ⟨refcnt,links,msgs⟩ := node
  cases msgs with
  | nil =>
    have open_ : ¬ (refcnt ≤ 1 ∧ links = 0) := by
      change 2 ≤ refcnt at two
      omega
    simp [pdRw,open_,pdSave,Pairing.meet,meeting,answerOf]
  | cons c rest =>
    have kind : waitingKind nodes n = c.cmd := by simp [waitingKind,there]
    rw [kind]
    rcases rw_ with call | call <;> rcases line c List.mem_cons_self with first | first <;>
      simp [pdRw,pdSave,Pairing.meet,meeting,answerOf,otherEnd,carried,call,first]

theorem rwFifo {n : Nat} {nodes : PdNodes} {history : List PipeEvent} {node : PdNode} {m : Msg}
    (two : 2 ≤ node.refcnt) (held : Paired .readc node.msgs history)
    (there : nodes[n]? = some (some node)) (rw_ : m.cmd = .readc ∨ m.cmd = .writec) :
    Fifo n (nodes.set n (some (pdRw node m).1))
      (history ++ .arrived m::(pdRw node m).2.filterMap (answerOf (waitingKind nodes n) m.cmd)) := by
  have inside := (List.getElem?_eq_some_iff.mp there).1
  have kinds : ∀ c ∈ node.msgs, c.cmd = .readc ∨ c.cmd = .writec := by
    rcases held.line.oneKind with all | all
    · exact fun c member => .inl (all c member)
    · exact fun c member => .inr (all c member)
  obtain ⟨left,sent⟩ := pdRwMeets there two kinds rw_
  refine ⟨(pdRw node m).1,List.getElem?_set_self inside,by rw [left]; exact two,?_⟩
  rw [sent,left]
  have turn : Paired m.cmd node.msgs history → Paired m.cmd _ _ := fun mine => mine.turn rw_
  rcases rw_ with read | write
  · rw [read] at turn ⊢
    exact turn held
  · rw [write] at turn ⊢
    exact (turn (held.flip (.inl rfl))).flip (.inr rfl)

theorem pipeTurnFifo {n : Nat} {nodes after : PdNodes} {history out : List PipeEvent} {m : Msg}
    (held : Fifo n nodes history) (stays : StaysOpen n nodes m)
    (taken : pipeTurn n nodes m = some (after,out)) : Fifo n after (history ++ out) := by
  obtain ⟨node,there,two,paired⟩ := held
  simp only [pipeTurn,bind,Option.bind_eq_some_iff] at taken
  obtain ⟨⟨new,replies⟩,ok,last⟩ := taken
  obtain ⟨rfl,rfl⟩ := Prod.mk.inj (Option.some.inj last)
  have turn := pipedevTurn ok
  by_cases own : IsRw n m
  · rw [if_pos own]
    obtain ⟨call,index⟩ := own
    have result : pipedev nodes m = some (nodes.set n (some (pdRw node m).1),(pdRw node m).2) := by
      rcases call with call | call <;>
        simp only [pipedev,call,index,nodeAtNat,there,bind,Option.bind_some,Int.toNat_natCast]
    rw [result] at ok
    cases Option.some.inj ok
    exact rwFifo two paired there call
  · rw [if_neg own,List.append_nil]
    obtain ⟨node',new,two',same⟩ := turnKeepsQueue there own (stays _ _ ok) turn
    exact ⟨node',new,two',same ▸ paired⟩

theorem pipeIsFifo {n : Nat} {nodes : PdNodes} {history : List PipeEvent}
    (run : Run.Reaches (pipeTurn n) (StaysOpen n) (EmptyPipe n) nodes history) :
    answers .readc history = List.zipWith (fun r w => (r.client,w.w2))
      (arrivals .readc history) (arrivals .writec history) ∧
    answers .writec history = List.zipWith (fun _ w => (w.client,w.w2))
      (arrivals .readc history) (arrivals .writec history) ∧
    ∃ node : PdNode, nodes[n]? = some (some node) ∧
      node.msgs = (arrivals .readc history).drop (arrivals .writec history).length ++
        (arrivals .writec history).drop (arrivals .readc history).length ∧
      ((∀ m ∈ node.msgs, m.cmd = .readc) ∨ ∀ m ∈ node.msgs, m.cmd = .writec) ∧
      node.msgs.length =
        (((arrivals .readc history).length : Int) - (arrivals .writec history).length).natAbs ∧
      ∀ m, IsRw n m → (pipeTurn n nodes m).isSome := by
  have held : Fifo n nodes history := run.invariant (P := Fifo n)
    (by
      rintro nodes ⟨node,there,two,empty⟩
      exact ⟨node,there,two,empty ▸ Pairing.sharedNil,rfl,rfl⟩)
    (fun _ _ _ _ _ held stays taken => pipeTurnFifo held stays taken)
  obtain ⟨node,there,two,paired⟩ := held
  have line : node.msgs = (arrivals .readc history).drop (arrivals .writec history).length ++
    (arrivals .writec history).drop (arrivals .readc history).length := paired.line.line
  refine ⟨paired.own,paired.others,node,there,line,paired.line.oneKind,?_,?_⟩
  · rw [line,List.length_append,List.length_drop,List.length_drop]
    omega
  · rintro m ⟨call,index⟩
    rcases call with call | call <;>
      simp [pipeTurn,pipedev,call,index,nodeAtNat,there]

-- Two readers wait, two writers come: each reader gets the byte of its turn and the writers go on.
theorem pipeIsFifoForTwoBytes : ∃ nodes history,
    Run.Reaches (pipeTurn 0) (StaysOpen 0) (EmptyPipe 0) nodes history ∧
    arrivals .readc history = [⟨.readc,0x11,0,0,0,none,.pipedev⟩,⟨.readc,0x12,0,0,0,none,.pipedev⟩] ∧
    arrivals .writec history = [⟨.writec,0x21,0,0,65,none,.pipedev⟩,⟨.writec,0x20,0,0,66,none,.pipedev⟩] ∧
    answers .readc history = [(0x11,65),(0x12,66)] ∧ answers .writec history = [(0x21,65),(0x20,66)] := by
  have start : Run.Reaches (pipeTurn 0) (StaysOpen 0) (EmptyPipe 0)
      ((List.replicate pdMaxNodes none).set 0 (some ⟨2,0,[]⟩)) [] := .start ⟨⟨2,0,[]⟩,rfl,by decide,rfl⟩
  have asked := start.next (i := ⟨.readc,0x11,0,0,0,none,.pipedev⟩)
    (by intro after replies ok; cases Option.some.inj ok; exact ⟨_,rfl,by decide⟩) rfl
  have waiting := asked.next (i := ⟨.readc,0x12,0,0,0,none,.pipedev⟩)
    (by intro after replies ok; cases Option.some.inj ok; exact ⟨_,rfl,by decide⟩) rfl
  have given := waiting.next (i := ⟨.writec,0x21,0,0,65,none,.pipedev⟩)
    (by intro after replies ok; cases Option.some.inj ok; exact ⟨_,rfl,by decide⟩) rfl
  have last := given.next (i := ⟨.writec,0x20,0,0,66,none,.pipedev⟩)
    (by intro after replies ok; cases Option.some.inj ok; exact ⟨_,rfl,by decide⟩) rfl
  obtain ⟨readers,writers,-⟩ := pipeIsFifo last
  exact ⟨_,_,last,rfl,rfl,readers.trans rfl,writers.trans rfl⟩

/-! How VFS carries requests to the node and answers back. -/

def sends {σ : Type} (history : List (Event σ)) : List (Pid × Int) :=
  history.filterMap (fun e => match e with
    | .sent client m => some (client,m.w2)
    | .asked _ _ _ => none)

def heard (m : Msg) : Option (Pid × Int) := if m.cmd = .hold ∨ m.client = 0 then none else some (m.client,m.w2)

theorem sendsUnblocked {σ : Type} {front : List Msg} (repeats : ∀ m ∈ front, m.cmd = .repeat_) :
    sends (unblocked (σ := σ) front) = front.filterMap heard := by
  induction front with
  | nil => rfl
  | cons m rest ih =>
    have first := repeats m List.mem_cons_self
    have others := ih (fun k member => repeats k (List.mem_cons_of_mem _ member))
    unfold sends unblocked at others ⊢
    by_cases null : m.client = 0
    · simpa [first,null,heard] using others
    · simpa [first,null,heard] using others

theorem pdRwLast {node : PdNode} {m last : Msg} {front : List Msg} (split : (pdRw node m).2 = front ++ [last]) :
    last.client = m.client := by
  have final : (pdRw node m).2.getLast? = some last := by rw [split]; simp
  unfold pdRw at final
  split at final
  · split at final <;> (cases Option.some.inj final; rfl)
  · split at final
    · cases Option.some.inj final; rfl
    · rw [List.getLast?_cons_cons,List.getLast?_singleton] at final
      have same := Option.some.inj final
      rw [← same]
      dsimp only
      split <;> rfl

/- What a read or a write through a descriptor does, whatever device is behind it. -/
theorem deviceThroughVfs {s s' : System Devices} {r : Request} {out : List (Event Devices)} {t : VfsTask}
    {fp : Int} {f : Filp} {pid : Pid} {dv : Device} (call : r.msg.cmd = .readc ∨ r.msg.cmd = .writec)
    (real : r.client ≠ 0) (given : 0 ≤ r.msg.w0) (found : vfsFindbypid s.vfs r.client = some t)
    (at_ : descriptor t r.msg.w0.toNat = some fp) (index : 0 ≤ fp) (entry : s.vfs.filp[fp.toNat]? = some f)
    (there : device s.vfs f.dev = some pid) (running : s.drv.task pid = some dv)
    (taken : vfs drivers s r = some (s',out)) :
    ∃ dv' front last, askDevice s.drv.rx { r.msg with client := r.client, w0 := f.ino, w1 := f.pos } dv =
        some (dv',front ++ [last]) ∧ s'.drv.task pid = some dv' ∧
      (last.client = r.client → sends out = (front ++ [last]).filterMap heard) := by
  simp only [vfs,bind,Option.bind_eq_some_iff] at taken
  obtain ⟨y,processed,last⟩ := taken
  obtain ⟨rfl,rfl⟩ := Prod.mk.inj (Option.some.inj last)
  have rounds : doRw drivers r.client ⟨s.vfs,s.drv,{ r.msg with client := r.client },[]⟩ = some y := by
    rcases call with call | call <;> simpa only [process,call] using processed
  have request : r.msg.cmd ≠ .rdInterrupt ∧ r.msg.cmd ≠ .wrInterrupt := by
    rcases call with call | call <;> simp [call]
  simp only [doRw,if_neg (Int.not_lt.mpr given),found,at_,if_neg (Int.not_lt.mpr index),entry,there,
    bind,Option.bind_some,Option.bind_eq_some_iff] at rounds
  obtain ⟨z,asked,last⟩ := rounds
  obtain ⟨drv,front,final,ok,repeats,stop,rfl⟩ := sendrecRepeatSource asked
  cases Option.some.inj last
  obtain ⟨d,d',held,turn,rfl⟩ := askSource ok
  rw [running] at held
  cases Option.some.inj held
  refine ⟨d',front,final,turn,by simp [withVfs,putDevice],?_⟩
  intro own
  rw [List.filterMap_append,← sendsUnblocked (σ := Devices) repeats]
  unfold finish
  rw [answeredClient request]
  by_cases hold : final.cmd = .hold
  · simp [withVfs,hold,heard,sends]
  · simp [withVfs,hold,heard,sends,real,own]

theorem rwThroughVfs {s s' : System Devices} {r : Request} {out : List (Event Devices)} {t : VfsTask}
    {fp : Int} {f : Filp} {pid : Pid} {nodes : PdNodes} (call : r.msg.cmd = .readc ∨ r.msg.cmd = .writec)
    (real : r.client ≠ 0) (given : 0 ≤ r.msg.w0) (found : vfsFindbypid s.vfs r.client = some t)
    (at_ : descriptor t r.msg.w0.toNat = some fp) (index : 0 ≤ fp) (entry : s.vfs.filp[fp.toNat]? = some f)
    (there : device s.vfs f.dev = some pid) (running : s.drv.task pid = some (.pipedev nodes))
    (taken : vfs drivers s r = some (s',out)) :
    ∃ after replies, pipedev nodes { r.msg with client := r.client, w0 := f.ino, w1 := f.pos } =
        some (after,replies) ∧
      s'.drv.task pid = some (.pipedev after) ∧ sends out = replies.filterMap heard := by
  obtain ⟨dv',front,last,turn,after,sent⟩ :=
    deviceThroughVfs call real given found at_ index entry there running taken
  obtain ⟨nodes',rfl,served⟩ := deviceTurn turn
  obtain ⟨i,node,-,-,-,split⟩ := pipedevRw served call
  exact ⟨nodes',_,served,after,sent (pdRwLast split.symm)⟩

end Avros.Vfs
