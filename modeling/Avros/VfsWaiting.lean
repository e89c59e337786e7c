import Avros.VfsInodes

/-! Who waits in a driver. Each exchange with VFS conserves the waiting clients: a read or
a write adds its client, a REPEAT or the last message of the exchange takes one out. -/
namespace Avros.Vfs

def Rw (cmd : Cmd) : Prop := cmd = .readc ∨ cmd = .writec

instance (cmd : Cmd) : Decidable (Rw cmd) := inferInstanceAs (Decidable (_ ∨ _))

def waits (p : Pid) (m : Msg) : Nat := if Rw m.cmd ∧ m.client = p then 1 else 0

-- How many of the stored reads and writes are client `p`'s; interrupt tokens do not count.
def waiting (p : Pid) (q : List Msg) : Nat := (q.map (waits p)).sum

def nodeWaiting (p : Pid) : Option PdNode → Nat
  | none => 0
  | some node => waiting p node.msgs

def deviceWaiting (p : Pid) : Device → Nat
  | .pipedev nodes => (nodes.map (nodeWaiting p)).sum
  | .memfile _ => 0
  | .ttyUsart0 t => waiting p t.rdQ + waiting p t.wrQ

-- Pipes store reads and writes only.
def RwOnly : Device → Prop
  | .pipedev nodes => ∀ (i : Nat) (node : PdNode), nodes[i]? = some (some node) → ∀ m ∈ node.msgs, Rw m.cmd
  | _ => True

def addressed (p : Pid) (m : Msg) : Nat := if m.client = p then 1 else 0

def sentTo (p : Pid) : Event Devices → Nat
  | .asked _ _ _ => 0
  | .sent q _ => if q = p then 1 else 0

def sentCount (p : Pid) (log : List (Event Devices)) : Nat := (log.map (sentTo p)).sum

theorem waitingCons (p : Pid) (m : Msg) (q : List Msg) : waiting p (m::q) = waits p m + waiting p q := by
  simp [waiting]

theorem waitingSnoc (p : Pid) (m : Msg) (q : List Msg) : waiting p (q ++ [m]) = waiting p q + waits p m := by
  simp [waiting]

theorem waitsRw (p : Pid) {m : Msg} (rw_ : Rw m.cmd) : waits p m = addressed p m := by
  unfold waits addressed
  simp [rw_]

theorem waitsOther (p : Pid) {m : Msg} (other : ¬ Rw m.cmd) : waits p m = 0 := if_neg (fun h => other h.1)

theorem sentCountAppend (p : Pid) (a b : List (Event Devices)) : sentCount p (a ++ b) = sentCount p a + sentCount p b := by
  simp [sentCount]

theorem sentCountCons (p : Pid) (e : Event Devices) (log : List (Event Devices)) :
    sentCount p (e::log) = sentTo p e + sentCount p log := by
  simp [sentCount]

theorem sentCountUnblocked {p : Pid} (real : p ≠ 0) {front : List Msg} (again : ∀ m ∈ front, m.cmd = .repeat_) :
    sentCount p (unblocked front) = (front.map (addressed p)).sum := by
  induction front with
  | nil => rfl
  | cons m rest ih =>
    have later := ih (fun n member => again n (List.mem_cons_of_mem _ member))
    have first := again m List.mem_cons_self
    rw [List.map_cons,List.sum_cons,← later]
    by_cases null : m.client = 0
    · have nobody : addressed p m = 0 := if_neg (by rw [null]; exact fun h => real h.symm)
      simp [unblocked,null,nobody]
    · simp [unblocked,first,null,sentCountCons,sentTo,addressed]

theorem lastOfOne {front : List Msg} {last m : Msg} (same : [m] = front ++ [last]) : front = [] ∧ last = m := by
  cases front with
  | nil => exact ⟨rfl,(List.cons.inj same).1.symm⟩
  | cons a rest => simp at same

theorem lastOfTwo {front : List Msg} {last m n : Msg} (same : [m,n] = front ++ [last]) :
    front = [m] ∧ last = n := by
  obtain ⟨rfl,last⟩ := List.append_inj' (show [m] ++ [n] = front ++ [last] from same) rfl
  exact ⟨rfl,(List.cons.inj last).1.symm⟩

theorem nodesWaiting {nodes : PdNodes} {i : Nat} {old : Option PdNode} (there : nodes[i]? = some old)
    (p : Pid) (new : Option PdNode) :
    deviceWaiting p (.pipedev (nodes.set i new)) + nodeWaiting p old =
      deviceWaiting p (.pipedev nodes) + nodeWaiting p new :=
  sumSet (nodeWaiting p) there new

theorem rwOnlySet {nodes : PdNodes} (held : RwOnly (.pipedev nodes)) {i : Nat} {old entry : Option PdNode}
    (there : nodes[i]? = some old) (new : ∀ node, entry = some node → ∀ m ∈ node.msgs, Rw m.cmd) :
    RwOnly (.pipedev (nodes.set i entry)) := by
  intro j node found
  rcases setNode there found with ⟨-,same⟩ | ⟨-,kept⟩
  · exact new node same
  · exact held j node kept

theorem flushedWaiting (p : Pid) {msgs : List Msg} (only : ∀ m ∈ msgs, Rw m.cmd) :
    ((msgs.map pdFlushed).map (addressed p)).sum = waiting p msgs := by
  induction msgs with
  | nil => rfl
  | cons m rest ih =>
    rw [waitingCons,waitsRw p (only m List.mem_cons_self),List.map_cons,List.map_cons,List.sum_cons,
      ih (fun n member => only n (List.mem_cons_of_mem _ member))]
    rfl

section
variable {p : Pid} {rx : Int} {msg last : Msg} {dv dv' : Device} {front : List Msg} {Z F : Int → Prop}

theorem pdReleaseWaiting {n : Int} {node : PdNode} (calm : Calm Z F n node) (used : 0 < node.refcnt)
    (only : ∀ m ∈ node.msgs, Rw m.cmd) (same : (pdRelease node msg).2 = front ++ [last]) :
    nodeWaiting p (pdRelease node msg).1 + (front.map (addressed p)).sum = waiting p node.msgs ∧
    ∀ left, (pdRelease node msg).1 = some left → ∀ m ∈ left.msgs, Rw m.cmd := by
  have count : node.refcnt = ((node.refcnt.toNat - 1 + 1 : Nat) : Int) := by omega
  have freed := calm.released count msg
  unfold pdRelease at same freed ⊢
  dsimp only at same freed ⊢
  split
  · rename_i one
    rw [if_pos one] at same
    obtain ⟨rfl,-⟩ := List.append_inj' same rfl
    refine ⟨?_,fun left h => by cases Option.some.inj h; simp⟩
    rw [flushedWaiting p only]
    exact Nat.zero_add _
  rename_i notOne
  rw [if_neg notOne] at same freed
  split
  · rename_i several
    rw [if_pos several] at same
    obtain ⟨rfl,-⟩ := lastOfOne same
    exact ⟨rfl,fun left h => by cases Option.some.inj h; exact only⟩
  rename_i zero
  rw [if_neg zero] at same freed
  split
  · rename_i named
    rw [if_pos named] at same
    obtain ⟨rfl,-⟩ := lastOfOne same
    exact ⟨rfl,fun left h => by cases Option.some.inj h; exact only⟩
  · rename_i plain
    rw [if_neg plain] at same freed
    obtain ⟨rfl,-⟩ := lastOfOne same
    rcases freed with ⟨left,kept,-⟩ | ⟨-,-,empty⟩
    · contradiction
    · refine ⟨by rw [empty]; rfl,fun left h => by contradiction⟩

theorem serviceWaiting (real : p ≠ 0) (service : Service msg.cmd) (calm : CalmPipes Z F dv)
    (held : msg.cmd = .inodeRelease → Held msg.w0 dv) (only : RwOnly dv)
    (ok : askDevice rx msg dv = some (dv',front ++ [last])) (again : ∀ m ∈ front, m.cmd = .repeat_) :
    deviceWaiting p dv' + sentCount p (unblocked front) = deviceWaiting p dv ∧ RwOnly dv' := by
  have notRw : ¬ (msg.cmd = .readc ∨ msg.cmd = .writec) := by
    unfold Service at service
    rintro (h | h) <;> simp [h] at service
  have notUnlink : msg.cmd ≠ .unlink := by
    unfold Service at service
    intro h
    simp [h] at service
  rw [sentCountUnblocked real again]
  cases dv with
  | pipedev nodes =>
    obtain ⟨after,rfl,turn⟩ := deviceTurn ok
    generalize replies : front ++ [last] = out at turn
    -- A turn that answers once and leaves the queue of its node alone.
    have quiet : ∀ {i : Nat} {old new : Option PdNode} {m : Msg}, nodes[i]? = some old →
        nodeWaiting p new = nodeWaiting p old → (∀ node, new = some node → ∀ m ∈ node.msgs, Rw m.cmd) →
        front ++ [last] = [m] → deviceWaiting p (.pipedev (nodes.set i new)) + (front.map (addressed p)).sum =
          deviceWaiting p (.pipedev nodes) ∧ RwOnly (.pipedev (nodes.set i new)) := by
      intro i old new m there unmoved rw_ single
      obtain ⟨rfl,-⟩ := lastOfOne single.symm
      have moved := nodesWaiting there p new
      rw [unmoved] at moved
      exact ⟨by simpa using moved,rwOnlySet only there rw_⟩
    have still : ∀ {m : Msg}, front ++ [last] = [m] → deviceWaiting p (.pipedev nodes) +
        (front.map (addressed p)).sum = deviceWaiting p (.pipedev nodes) ∧ RwOnly (.pipedev nodes) := by
      intro m single
      obtain ⟨rfl,-⟩ := lastOfOne single.symm
      exact ⟨rfl,only⟩
    cases pipedevTurn turn with
    | made call first empty => exact quiet empty rfl (fun node h => by cases Option.some.inj h; simp) replies
    | missingLink call absent => exact still replies
    | @linked i node call index there =>
      exact quiet there rfl (fun new h => by cases Option.some.inj h; exact only i node there) replies
    | unlinked call => exact absurd call notUnlink
    | missing call absent => exact still replies
    | @grabbed i node call index there =>
      exact quiet there rfl (fun new h => by cases Option.some.inj h; exact only i node there) replies
    | passed call => exact absurd call notRw
    | ignored call => exact still replies
    | @released i node call index there =>
      have found : nodeAt nodes i = some (some node) := by rw [nodeAtNat]; exact there
      obtain ⟨node',found',used⟩ := held call
      rw [index,found] at found'
      cases Option.some.inj (Option.some.inj found')
      have answers : (pdRelease node msg).2 = front ++ [last] := replies.symm
      obtain ⟨flushed,left⟩ := pdReleaseWaiting (p := p) (calm i node found) used (only i node there) answers
      have moved := nodesWaiting there p (pdRelease node msg).1
      have old : nodeWaiting p (some node) = waiting p node.msgs := rfl
      exact ⟨by omega,rwOnlySet only there left⟩
  | memfile nodes =>
    obtain ⟨after,rfl,turn⟩ := deviceTurn ok
    generalize replies : front ++ [last] = out at turn
    have single : ∃ m, out = [m] := by cases memfileTurn turn <;> exact ⟨_,rfl⟩
    obtain ⟨m,rfl⟩ := single
    obtain ⟨rfl,-⟩ := lastOfOne replies.symm
    exact ⟨rfl,trivial⟩
  | ttyUsart0 t =>
    have ignored : ttyUsart0 rx t msg = some (t,[msg]) := by
      unfold ttyUsart0
      unfold Service at service
      rcases service with h | h | h | h | h <;> rw [h]
    simp only [askDevice,ignored,Option.map_some,Option.some.injEq,Prod.mk.injEq] at ok
    obtain ⟨rfl,single⟩ := ok
    obtain ⟨rfl,-⟩ := lastOfOne single
    exact ⟨rfl,trivial⟩

-- What the client of a read or a write gets from the last message, and what it leaves.
def finalTo (p : Pid) (client : Pid) (last : Msg) : Nat := if last.cmd ≠ .hold ∧ client = p then 1 else 0

theorem pdRwWaiting {node : PdNode} (call : Rw msg.cmd) (only : ∀ m ∈ node.msgs, Rw m.cmd)
    (same : (pdRw node msg).2 = front ++ [last]) :
    waiting p (pdRw node msg).1.msgs + (front.map (addressed p)).sum + finalTo p msg.client last =
      waiting p node.msgs + addressed p msg ∧ ∀ m ∈ (pdRw node msg).1.msgs, Rw m.cmd := by
  have notHold : ∀ m : Msg, m.cmd = msg.cmd → finalTo p msg.client m = addressed p msg := by
    intro m same
    have other : m.cmd ≠ .hold := by
      rw [same]
      rcases call with h | h <;> simp [h]
    unfold finalTo addressed
    simp [other]
  have saved : (pdSave node msg).2 = front ++ [last] →
      waiting p (pdSave node msg).1.msgs + (front.map (addressed p)).sum + finalTo p msg.client last =
        waiting p node.msgs + addressed p msg ∧ ∀ m ∈ (pdSave node msg).1.msgs, Rw m.cmd := by
    intro same
    obtain ⟨rfl,rfl⟩ := lastOfOne same
    refine ⟨?_,?_⟩
    · have held : finalTo p msg.client { msg with cmd := .hold, w1 := 0 } = 0 := if_neg (by simp)
      rw [held]
      simp only [pdSave,waitingSnoc,waitsRw p call,List.map_nil,List.sum_nil]
      omega
    · intro m member
      rcases List.mem_append.mp member with old | new
      · exact only m old
      · rw [List.mem_singleton.mp new]
        exact call
  unfold pdRw at same ⊢
  split
  · rename_i none
    rw [none] at same
    dsimp only at same
    split
    · rename_i few
      rw [if_pos few] at same
      obtain ⟨rfl,rfl⟩ := lastOfOne same
      rw [notHold { msg with w2 := eof, w1 := 0 } rfl]
      exact ⟨rfl,only⟩
    · rename_i several
      rw [if_neg several] at same
      exact saved same
  · rename_i container rest line
    rw [line] at same
    dsimp only at same
    split
    · rename_i kind
      rw [if_pos kind] at same
      exact saved same
    · rename_i kind
      rw [if_neg kind] at same
      obtain ⟨rfl,rfl⟩ := lastOfTwo same
      have kept : ∀ m ∈ rest, Rw m.cmd := fun m member => only m (by rw [line]; exact List.mem_cons_of_mem _ member)
      refine ⟨?_,kept⟩
      rw [notHold _ (by dsimp only; split <;> rfl)]
      simp only [line,waitingCons,waitsRw p (only container (by rw [line]; exact List.mem_cons_self)),List.map_cons,
        List.map_nil,List.sum_cons,List.sum_nil]
      have client : addressed p { (if container.cmd = .readc then { container with w2 := msg.w2 } else container) with
          cmd := .repeat_, w1 := 0 } = addressed p container := by
        unfold addressed
        split <;> rfl
      rw [client]
      omega

-- A container of the kind wanted is met, or the message joins the queue.
inductive Served (interrupt wanted : Cmd) (msg : Msg) (queue : List Msg) : List Msg → Msg → Prop where
  | saved {answer} (hold : answer.cmd = .hold) : Served interrupt wanted msg queue (queue ++ [msg]) answer
  | met {container rest answer} (line : queue = container::rest) (kind : container.cmd = wanted)
      (final : answer.cmd = .final)
      (client : answer.client = if msg.cmd = interrupt then container.client else msg.client) :
      Served interrupt wanted msg queue rest answer

theorem usartServeReadServed (t : Tty) (msg : Msg) (wanted : Cmd) :
    Served .rdInterrupt wanted msg t.rdQ (usartServeRead t msg wanted).1.rdQ (usartServeRead t msg wanted).2 ∧
    (usartServeRead t msg wanted).1.wrQ = t.wrQ := by
  unfold usartServeRead
  split
  · rename_i container rest line
    split
    · rename_i kind
      exact ⟨.met line kind rfl rfl,rfl⟩
    · exact ⟨.saved rfl,rfl⟩
  · exact ⟨.saved rfl,rfl⟩

theorem usart0ServeWriteServed (t : Tty) (msg : Msg) (wanted : Cmd) :
    Served .wrInterrupt wanted msg t.wrQ (usart0ServeWrite t msg wanted).1.wrQ (usart0ServeWrite t msg wanted).2 ∧
    (usart0ServeWrite t msg wanted).1.rdQ = t.rdQ := by
  unfold usart0ServeWrite
  split
  · rename_i container rest line
    split
    · rename_i kind
      refine ⟨.met line kind rfl ?_,rfl⟩
      split <;> rfl
    · exact ⟨.saved rfl,rfl⟩
  · exact ⟨.saved rfl,rfl⟩

theorem Served.counts {interrupt wanted : Cmd} {queue queue' : List Msg} {answer : Msg} (p : Pid)
    (served : Served interrupt wanted msg queue queue' answer) (call : Rw msg.cmd) (token : ¬ Rw wanted) :
    waiting p queue' + finalTo p msg.client answer = waiting p queue + addressed p msg := by
  cases served with
  | saved hold =>
    rw [waitingSnoc,waitsRw p call,finalTo,if_neg (fun both => both.1 hold)]
    exact Nat.add_zero _
  | met line kind final client =>
    rw [line,waitingCons,waitsOther p (kind ▸ token),Nat.zero_add]
    simp [finalTo,addressed,final]

theorem Served.releases {interrupt wanted : Cmd} {queue queue' : List Msg} {answer : Msg} (p : Pid)
    (served : Served interrupt wanted msg queue queue' answer) (same : msg.cmd = interrupt) (token : ¬ Rw interrupt)
    (call : Rw wanted) :
    waiting p queue' + finalTo p answer.client answer = waiting p queue := by
  cases served with
  | saved hold =>
    rw [waitingSnoc,waitsOther p (same ▸ token),finalTo,if_neg (fun both => both.1 hold)]
    rfl
  | met line kind final client =>
    rw [line,waitingCons,waitsRw p (kind ▸ call),client,if_pos same]
    simp [finalTo,addressed,final,Nat.add_comm]

theorem printCharWaiting (real : p ≠ 0) (t : Tty) (c : Int) :
    deviceWaiting p (.ttyUsart0 (usart0PrintChar t c)) = deviceWaiting p (.ttyUsart0 t) := by
  obtain ⟨served,reads⟩ := usart0ServeWriteServed t ⟨.writec,0,0,0,c,none,.ttyUsart0⟩ .wrInterrupt
  have moved := served.counts p (.inr rfl) (by decide)
  have nobody : addressed p ⟨.writec,0,0,0,c,none,.ttyUsart0⟩ = 0 := if_neg (fun h => real h.symm)
  have nothing : ∀ last, finalTo p 0 last = 0 := fun last => if_neg (fun h => real h.2.symm)
  rw [nobody,nothing] at moved
  unfold deviceWaiting usart0PrintChar
  dsimp only
  rw [reads]
  omega

theorem replyCharWaiting (p : Pid) (t : Tty) (c : Int) :
    deviceWaiting p (.ttyUsart0 (usartReplyChar t c).1) + ((usartReplyChar t c).2.map (addressed p)).sum =
      deviceWaiting p (.ttyUsart0 t) := by
  obtain ⟨served,writes⟩ := usartServeReadServed t ⟨.rdInterrupt,0,c,0,0,none,.ttyUsart0⟩ .readc
  have moved := served.releases p rfl (by decide) (.inl rfl)
  unfold deviceWaiting usartReplyChar
  dsimp only
  rw [writes]
  unfold finalTo at moved
  split
  · rename_i real
    simp only [real,true_and,ne_eq,not_false_eq_true] at moved
    simp only [addressed,List.map_cons,List.map_nil,List.sum_cons,List.sum_nil]
    omega
  · rename_i held
    simp only [held,false_and,if_false] at moved
    simp only [List.map_nil,List.sum_nil]
    omega

theorem replyCharsWaiting (p : Pid) (chars : List Int) (t : Tty) :
    deviceWaiting p (.ttyUsart0 (replyChars t chars).1) + ((replyChars t chars).2.map (addressed p)).sum =
      deviceWaiting p (.ttyUsart0 t) := by
  induction chars generalizing t with
  | nil => rfl
  | cons c rest ih =>
    have first := replyCharWaiting p t c
    have others := ih (usartReplyChar t c).1
    simp only [replyChars,List.map_append,List.sum_append]
    omega

theorem ttyLineWaiting (real : p ≠ 0) {t t' : Tty} {c : Int} {replies : List Msg}
    (ok : ttyLine t c = some (t',replies)) :
    deviceWaiting p (.ttyUsart0 t') + (replies.map (addressed p)).sum = deviceWaiting p (.ttyUsart0 t) := by
  have flushed : ∀ t : Tty, deviceWaiting p (.ttyUsart0 (ttyFlush t).1) + ((ttyFlush t).2.map (addressed p)).sum =
      deviceWaiting p (.ttyUsart0 t) := fun t => replyCharsWaiting p t.tbuf t
  have stored : ∀ t' : Tty, ttyStore t c = some t' → deviceWaiting p (.ttyUsart0 t') = deviceWaiting p (.ttyUsart0 t) := by
    intro t' ok
    unfold ttyStore at ok
    split at ok <;> try contradiction
    cases Option.some.inj ok
    rfl
  unfold ttyLine at ok
  split at ok
  · split at ok
    · cases Option.some.inj ok
      exact replyCharWaiting p t eof
    · have same := Option.some.inj ok
      have moved := flushed (usart0PrintChar t 10)
      rw [same,printCharWaiting real] at moved
      exact moved
  split at ok
  · cases Option.some.inj ok
    exact printCharWaiting real { t with tbuf := [] } 10
  split at ok
  · cases Option.some.inj ok
    rfl
  split at ok
  · obtain ⟨next,kept,same⟩ := Option.map_eq_some_iff.mp ok
    have moved := flushed next
    rw [same,stored next kept] at moved
    exact moved
  · obtain ⟨next,kept,same⟩ := Option.map_eq_some_iff.mp ok
    cases same
    exact stored t' kept

theorem rwWaiting (real : p ≠ 0) (call : Rw msg.cmd) (only : RwOnly dv)
    (ok : askDevice rx msg dv = some (dv',front ++ [last])) (again : ∀ m ∈ front, m.cmd = .repeat_) :
    deviceWaiting p dv' + sentCount p (unblocked front) + finalTo p msg.client last =
      deviceWaiting p dv + addressed p msg ∧ RwOnly dv' := by
  rw [sentCountUnblocked real again]
  cases dv with
  | pipedev nodes =>
    obtain ⟨after,rfl,turn⟩ := deviceTurn ok
    obtain ⟨i,node,index,there,rfl,replies⟩ := pipedevRw turn call
    obtain ⟨passed,left⟩ := pdRwWaiting (p := p) call (only i node there) replies.symm
    have moved := nodesWaiting there p (some (pdRw node msg).1)
    have old : nodeWaiting p (some node) = waiting p node.msgs := rfl
    have new : nodeWaiting p (some (pdRw node msg).1) = waiting p (pdRw node msg).1.msgs := rfl
    exact ⟨by omega,rwOnlySet only there (fun new h => by cases Option.some.inj h; exact left)⟩
  | memfile nodes =>
    obtain ⟨after,rfl,turn⟩ := deviceTurn ok
    generalize replies : front ++ [last] = out at turn
    have single : ∃ m, out = [m] ∧ m.cmd = msg.cmd := by cases memfileTurn turn <;> exact ⟨_,rfl,rfl⟩
    obtain ⟨m,rfl,kind⟩ := single
    obtain ⟨rfl,rfl⟩ := lastOfOne replies.symm
    have other : last.cmd ≠ .hold := by
      rw [kind]
      rcases call with h | h <;> simp [h]
    refine ⟨?_,trivial⟩
    unfold finalTo addressed deviceWaiting
    simp [other]
  | ttyUsart0 t =>
    rcases call with h | h
    · obtain ⟨served,writes⟩ := usartServeReadServed t msg .rdInterrupt
      have moved := served.counts p (.inl h) (by decide)
      simp only [askDevice,ttyUsart0,h,Option.map_some,Option.some.injEq,Prod.mk.injEq] at ok
      obtain ⟨rfl,single⟩ := ok
      obtain ⟨rfl,rfl⟩ := lastOfOne single
      refine ⟨?_,trivial⟩
      simp only [deviceWaiting,writes,List.map_nil,List.sum_nil]
      omega
    · obtain ⟨served,reads⟩ := usart0ServeWriteServed t msg .wrInterrupt
      have moved := served.counts p (.inr h) (by decide)
      simp only [askDevice,ttyUsart0,h,Option.map_some,Option.some.injEq,Prod.mk.injEq] at ok
      obtain ⟨rfl,single⟩ := ok
      obtain ⟨rfl,rfl⟩ := lastOfOne single
      refine ⟨?_,trivial⟩
      simp only [deviceWaiting,reads,List.map_nil,List.sum_nil]
      omega

theorem interruptWaiting (real : p ≠ 0) {t : Tty} (call : msg.cmd = .rdInterrupt ∨ msg.cmd = .wrInterrupt)
    (ok : askDevice rx msg (.ttyUsart0 t) = some (dv',front ++ [last])) (again : ∀ m ∈ front, m.cmd = .repeat_) :
    deviceWaiting p dv' + sentCount p (unblocked front) + finalTo p last.client last =
      deviceWaiting p (.ttyUsart0 t) ∧ RwOnly dv' := by
  rw [sentCountUnblocked real again]
  obtain ⟨after,rfl,turn⟩ := deviceTurn ok
  refine ⟨?_,trivial⟩
  rcases call with h | h
  · unfold ttyUsart0 at turn
    rw [h] at turn
    dsimp only at turn
    split at turn
    · simp only [bind,Option.bind_eq_some_iff] at turn
      obtain ⟨⟨next,out⟩,line,single⟩ := turn
      obtain ⟨rfl,replies⟩ := Prod.mk.inj (Option.some.inj single)
      obtain ⟨rfl,ended⟩ := List.append_inj' replies rfl
      obtain ⟨rfl,-⟩ := List.cons.inj ended
      have held : finalTo p msg.client { msg with w0 := rx, cmd := .hold } = 0 := if_neg (by simp)
      have moved := ttyLineWaiting real line
      dsimp only
      rw [held]
      exact moved
    · obtain ⟨served,writes⟩ := usartServeReadServed t { msg with cmd := .rdInterrupt, w0 := rx } .readc
      have moved := served.releases p rfl (by decide) (.inl rfl)
      have replies := Option.some.inj turn
      obtain ⟨rfl,single⟩ := Prod.mk.inj replies
      obtain ⟨rfl,rfl⟩ := lastOfOne single
      simp only [deviceWaiting,writes,List.map_nil,List.sum_nil]
      omega
  · obtain ⟨served,reads⟩ := usart0ServeWriteServed t msg .writec
    have moved := served.releases p h (by decide) (.inr rfl)
    simp only [ttyUsart0,h,Option.some.injEq,Prod.mk.injEq] at turn
    obtain ⟨rfl,single⟩ := turn
    obtain ⟨rfl,rfl⟩ := lastOfOne single
    simp only [deviceWaiting,reads,List.map_nil,List.sum_nil]
    omega

end

end Avros.Vfs
