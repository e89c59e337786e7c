import Avros.PipeFifo
import Avros.PipeLine
import Avros.SharedFile
import Avros.VfsWaiting

/-! A pipe behind VFS is a line of callers, in every run in which one of its ends stays open. -/
namespace Avros.Vfs
open Run

/-! What the drivers are asked in the course of a request. Either VFS releases inodes, or it
makes, links, grabs and looks up: no request does both. -/

def Says {σ : Type} (Q : Cmd → Prop) (log : List (Event σ)) : Prop :=
  ∀ drv pid msg, .asked drv pid msg ∈ log → Q msg.cmd

section
variable {σ : Type} {D : Drivers σ} {Q : Cmd → Prop} {x y : Tx σ} {client pid : Pid}

theorem Says.exchange {log : List (Event σ)} (told : Says Q log) {msg : Msg} (call : Q msg.cmd) (drv : σ)
    (front : List Msg) : Says Q (log ++ .asked drv pid msg :: unblocked front) := by
  intro drv' pid' msg' member
  rcases List.mem_append.mp member with old | new
  · exact told drv' pid' msg' old
  · rcases List.mem_cons.mp new with same | sent
    · cases same
      exact call
    · obtain ⟨m,-,same⟩ := List.mem_map.mp sent
      contradiction

theorem sendrecSays (told : Says Q x.log) (call : Q x.msg.cmd) (ok : sendrec D x pid = some y) : Says Q y.log := by
  obtain ⟨drv,m,-,rfl⟩ := sendrecSource ok
  exact told.exchange call x.drv []

def OnlyReleases (log : List (Event σ)) : Prop := Says (· = .inodeRelease) log
def NoReleases (log : List (Event σ)) : Prop := Says (· ≠ .inodeRelease) log

theorem doCloseOnlyReleases (told : OnlyReleases x.log) (ok : doClose D client x = some y) : OnlyReleases y.log := by
  rcases doCloseCases ok with ⟨-,rfl⟩ | ⟨t,fp,-,-,-,outcome⟩
  · exact told
  rcases outcome with ⟨-,rfl⟩ | ⟨f,-,-,⟨-,rfl⟩ | ⟨-,-,rfl⟩ | ⟨-,-,pid,-,asked⟩⟩
  · exact told
  · exact told
  · exact told
  · obtain ⟨drv,front,last,-,-,-,rfl⟩ := sendrecRepeatSource asked
    have after : OnlyReleases
        (x.log ++ .asked x.drv pid { x.msg with cmd := .inodeRelease, w0 := f.ino } :: unblocked front) :=
      told.exchange rfl x.drv front
    exact after

theorem closeAllOnlyReleases {is : List Nat} (told : OnlyReleases x.log) (ok : closeAll D client is x = some y) :
    OnlyReleases y.log := by
  induction is generalizing x with
  | nil =>
    cases Option.some.inj ok
    exact told
  | cons i rest ih =>
    simp only [closeAll,bind,Option.bind_eq_some_iff] at ok
    obtain ⟨z,closed,ok⟩ := ok
    exact ih (doCloseOnlyReleases (x := reply x i) told closed) ok

theorem vfsRemovetaskOnlyReleases (told : OnlyReleases x.log) (ok : vfsRemovetask D x = some y) : OnlyReleases y.log := by
  rcases vfsRemovetaskCases ok with ⟨-,rfl⟩ | ⟨t,z,-,closed,rfl⟩
  · exact told
  · exact closeAllOnlyReleases (y := z) told closed

theorem vfsAddnewtaskOnlyReleases {kmalloc : Bool} (told : OnlyReleases x.log) (ok : vfsAddnewtask D kmalloc x = some y) :
    OnlyReleases y.log := by
  cases vfsAddnewtaskAdds ok with
  | first nobody => exact told
  | @orphan z removed =>
    refine vfsRemovetaskOnlyReleases (y := z) ?_ removed
    exact told
  | child found => exact told
  | full => exact told

theorem doPipeNoReleases (told : NoReleases x.log) (ok : doPipe D client x = some y) : NoReleases y.log := by
  obtain ⟨pid,made,-,node,outcome⟩ := doPipeCases ok
  have afterNode : NoReleases made.log :=
    sendrecSays (x := { x with msg := { x.msg with cmd := .mknod } }) told (by simp) node
  rcases outcome with ⟨-,rfl⟩ | ⟨once,-,grab,outcome⟩
  · exact afterNode
  have afterOnce : NoReleases once.log :=
    sendrecSays (x := { made with msg := { made.msg with cmd := .inodeGrab, w0 := made.msg.w0 } }) afterNode (by simp) grab
  rcases outcome with ⟨-,rfl⟩ | ⟨twice,-,again,outcome⟩
  · exact afterOnce
  have afterTwice : NoReleases twice.log :=
    sendrecSays (x := { once with msg := { once.msg with cmd := .inodeGrab, w0 := made.msg.w0 } }) afterOnce (by simp) again
  rcases outcome with ⟨-,rfl⟩ | ⟨first,-,-,outcome⟩
  · exact afterTwice
  rcases outcome with ⟨-,rfl⟩ | ⟨fdi,s,second,-,-,⟨-,rfl⟩ | ⟨fdo,s',-,rfl⟩⟩
  · exact afterTwice
  · exact afterTwice
  · exact afterTwice

theorem doOpenNoReleases (told : NoReleases x.log) (ok : doOpen D client x = some y) : NoReleases y.log := by
  rcases doOpenCases ok with rfl | ⟨t,fd,fp,f,pid,z,-,-,-,-,-,asked,outcome⟩
  · exact told
  have after : NoReleases z.log := sendrecSays
    (x := { x with
      vfs := putFilp x.vfs fp { f with dev := x.msg.w0, ino := x.msg.w1, pos := 0 }
      msg := { x.msg with cmd := .inodeGrab, w0 := x.msg.w1 } }) told (by simp) asked
  rcases outcome with ⟨-,rfl⟩ | ⟨-,rfl⟩
  · exact after
  · exact after

theorem lookupsNoReleases : Lookups D (fun x => NoReleases x.log) := by
  intro x y dev ino name pid told _ asked
  have after : NoReleases y.log := sendrecSays
    (x := { x with msg := { x.msg with cmd := .getDirentry, w1 := ino, name := name } }) told (by simp) asked
  exact after

theorem doMknodNoReleases {kmalloc : Nat → Bool} (call : x.msg.cmd = .mknod) (told : NoReleases x.log)
    (ok : doMknod D client kmalloc x = some y) : NoReleases y.log := by
  obtain ⟨dev,dirIno,found,kept,same,outcome⟩ := doMknodCases lookupsNoReleases told ok
  rcases outcome with ⟨-,rfl⟩ | ⟨pid,made,linked,-,-,asked,joined,outcome⟩
  · exact kept
  have first : NoReleases made.log := sendrecSays (Q := (· ≠ .inodeRelease)) kept (by simp [same,call]) asked
  have after : NoReleases linked.log := sendrecSays
    (x := { made with msg := { made.msg with cmd := .link, name := x.msg.name, w1 := made.msg.w0, w0 := dirIno } })
    first (by simp) joined
  rcases outcome with ⟨-,rfl⟩ | ⟨-,rfl⟩
  · exact after
  · exact after

theorem processSays {r : Request} (own : Own r.msg.cmd) (same : x.msg = r.msg) (none : x.log = [])
    (ok : process D r x = some y) : OnlyReleases y.log ∨ NoReleases y.log := by
  obtain ⟨notMkdev,notRead,notWrite,notReadc,notWritec⟩ := own
  have silent : ∀ Q, Says Q x.log := fun Q drv pid msg member => by simp [none] at member
  unfold process at ok
  split at ok
  case h_1 => exact .inl (vfsAddnewtaskOnlyReleases (silent _) ok)
  case h_2 => exact .inl (vfsRemovetaskOnlyReleases (silent _) ok)
  case h_3 call => exact absurd call notMkdev
  case h_4 call => exact .inr (doMknodNoReleases (by rw [same]; exact call) (silent _) ok)
  case h_5 =>
    rcases doDupCases ok with rfl | ⟨t,fp,fd,f,-,-,-,-,-,-,rfl⟩
    · exact .inr (silent _)
    · exact .inr (silent _)
  case h_6 => exact .inr (doPipeNoReleases (silent _) ok)
  case h_7 =>
    obtain ⟨found,a,b,c,kept,-,rfl⟩ := doStatCases lookupsNoReleases (silent _) ok
    exact .inr kept
  case h_8 => exact .inr (doOpenNoReleases (silent _) ok)
  case h_9 => exact .inl (doCloseOnlyReleases (silent _) ok)
  case h_10 call => exact absurd call notRead
  case h_11 call => exact absurd call notWrite
  case h_12 call => exact absurd call notReadc
  case h_13 call => exact absurd call notWritec
  case h_14 =>
    cases Option.some.inj ok
    exact .inr (silent _)
  case h_15 =>
    cases Option.some.inj ok
    exact .inr (silent _)
end

/-! The node of the pipe, and what an exchange on VFS's own account makes of it. -/

def pipeNode (d : Devices) (pid : Pid) (ino : Int) : Option PdNode :=
  match d.task pid with
  | some (.pipedev nodes) => (nodeAt nodes ino).join
  | _ => none

theorem pipeNodeSome {d : Devices} {pid : Pid} {ino : Int} {node : PdNode} :
    pipeNode d pid ino = some node ↔ ∃ nodes, d.task pid = some (.pipedev nodes) ∧ nodeAt nodes ino = some (some node) := by
  unfold pipeNode
  constructor
  · intro found
    split at found <;> try contradiction
    rename_i nodes task
    exact ⟨nodes,task,Option.join_eq_some_iff.mp found⟩
  · rintro ⟨nodes,task,found⟩
    simp only [task,found,Option.join_some]

theorem pipeNodeSame {d d' : Devices} {pid : Pid} (same : d'.task pid = d.task pid) (ino : Int) :
    pipeNode d' pid ino = pipeNode d pid ino := by
  unfold pipeNode
  rw [same]

inductive Serviced (old : Option PdNode) (msg : Msg) (replies : List Msg) : Option PdNode → Prop where
  | same : Serviced old msg replies old
  | made {new : Option PdNode} (call : msg.cmd ≠ .inodeRelease) (none : old = none) : Serviced old msg replies new
  | counted {node node' : PdNode} (call : msg.cmd ≠ .inodeRelease) (there : old = some node) (msgs : node'.msgs = node.msgs)
      (count : node'.refcnt = node.refcnt ∨ node'.refcnt = toChar (node.refcnt + 1)) : Serviced old msg replies (some node')
  | released {node : PdNode} (call : msg.cmd = .inodeRelease) (there : old = some node)
      (answers : replies = (pdRelease node msg).2) : Serviced old msg replies (pdRelease node msg).1

theorem turnServiced {nodes after : PdNodes} {msg : Msg} {replies : List Msg} (turn : PdTurn nodes msg after replies)
    (service : Service msg.cmd) (ino : Int) :
    Serviced (nodeAt nodes ino).join msg replies (nodeAt after ino).join ∧
      (msg.cmd = .inodeRelease → msg.w0 ≠ ino → (nodeAt after ino).join = (nodeAt nodes ino).join) := by
  have mine : ∀ {i : Nat} {entry : Option PdNode}, nodes[i]? = some entry → ino = i → (nodeAt nodes ino).join = entry := by
    rintro i entry found rfl
    rw [nodeAtNat,found,Option.join_some]
  cases turn with
  | @made i call first empty =>
    refine ⟨?_,fun release => by simp [call] at release⟩
    rw [nodeAtSet empty]
    split
    · exact .made (by simp [call]) (mine empty (by assumption))
    · exact .same
  | missingLink call => exact ⟨.same,fun _ _ => rfl⟩
  | @linked i node call index found =>
    refine ⟨?_,fun release => by simp [call] at release⟩
    rw [nodeAtSet found]
    split
    · exact .counted (by simp [call]) (mine found (by assumption)) rfl (.inl rfl)
    · exact .same
  | unlinked call => simp [Service,call] at service
  | missing call => exact ⟨.same,fun _ _ => rfl⟩
  | @grabbed i node call index found =>
    refine ⟨?_,fun release => by simp [call] at release⟩
    rw [nodeAtSet found]
    split
    · exact .counted (by simp [call]) (mine found (by assumption)) rfl (.inr rfl)
    · exact .same
  | @released i node call index found =>
    rw [nodeAtSet found]
    split
    · rename_i same
      exact ⟨.released call (mine found same) rfl,fun _ other => absurd (index.trans same.symm) other⟩
    · exact ⟨.same,fun _ _ => rfl⟩
  | passed call => rcases call with call | call <;> simp [Service,call] at service
  | ignored call => exact ⟨.same,fun _ _ => rfl⟩

theorem askServiced {d d' : Devices} {p pid : Pid} {msg : Msg} {replies : List Msg}
    (ok : drivers.ask d p msg = some (d',replies)) (service : Service msg.cmd) (ino : Int) :
    Serviced (pipeNode d pid ino) msg replies (pipeNode d' pid ino) ∧
      (msg.cmd = .inodeRelease → ¬ (p = pid ∧ msg.w0 = ino) → pipeNode d' pid ino = pipeNode d pid ino) := by
  obtain ⟨dv,dv',task,turn,rfl⟩ := askSource ok
  by_cases same : p = pid
  · subst same
    have after : (putDevice d p dv').task p = some dv' := putSelf d p dv'
    cases dv with
    | pipedev nodes =>
      obtain ⟨new,rfl,took⟩ := deviceTurn turn
      obtain ⟨serviced,others⟩ := turnServiced (pipedevTurn took) service ino
      simp only [pipeNode,task,after]
      exact ⟨serviced,fun release other => others release (fun here => other ⟨trivial,here⟩)⟩
    | memfile nodes =>
      obtain ⟨new,rfl,-⟩ := deviceTurn turn
      simp only [pipeNode,task,after]
      exact ⟨.same,fun _ _ => trivial⟩
    | ttyUsart0 t =>
      obtain ⟨new,rfl,-⟩ := deviceTurn turn
      simp only [pipeNode,task,after]
      exact ⟨.same,fun _ _ => trivial⟩
  · have kept := pipeNodeSame (putOther d (Ne.symm same) dv') ino
    rw [kept]
    exact ⟨.same,fun _ _ => rfl⟩

def flushed (msgs : List Msg) : List (Pid × Int) := (msgs.map pdFlushed).filterMap heard

/- What a request leaves of a node that held these messages and counted these references. -/
inductive Leaves (msgs : List Msg) (refcnt : Int) (log : List (Event Devices)) : Option PdNode → Prop where
  | kept {node : PdNode} (same : node.msgs = msgs) (many : refcnt ≤ node.refcnt ∨ 1 < node.refcnt ∨ node.refcnt < 0) :
      Leaves msgs refcnt log (some node)
  | ended {node : PdNode} (one : node.refcnt = 1) (none : node.msgs = []) (told : (flushed msgs).Sublist (sends log)) :
      Leaves msgs refcnt log (some node)
  | gone {entry : Option PdNode} (unused : ∀ node, entry = some node → node.refcnt ≤ 0) : Leaves msgs refcnt log entry

theorem sendsAppend {σ : Type} (a b : List (Event σ)) : sends (a ++ b) = sends a ++ sends b := List.filterMap_append

section
variable {start : System Devices} {d : Devices} {log : List (Event Devices)} {pid : Pid} {ino : Int} {node : PdNode}

theorem Proper.calmNode {s : Tables} {msg : Msg} (proper : Proper s d pid msg) (there : pipeNode d pid ino = some node) :
    0 ≤ node.refcnt ∧ node.refcnt ≤ 127 := by
  obtain ⟨dv,Z,F,task,calm,-⟩ := proper.calm
  obtain ⟨nodes,same,found⟩ := pipeNodeSome.mp there
  cases Option.some.inj (task.symm.trans same)
  have quiet := calm ino node found
  exact ⟨quiet.low,quiet.high⟩

theorem Talk.grown (talk : Talk start log d) (spares : NoReleases log) (there : pipeNode start.drv pid ino = some node) :
    ∃ node', pipeNode d pid ino = some node' ∧ node'.msgs = node.msgs ∧
      (node.refcnt ≤ node'.refcnt ∨ node'.refcnt < 0) := by
  induction talk with
  | quiet => exact ⟨node,there,rfl,.inl (Int.le_refl _)⟩
  | @asked log mid after p msg front last before proper turn again ih =>
    obtain ⟨m,here,same,count⟩ := ih (fun drv pid msg member => spares drv pid msg (List.mem_append_left _ member))
    have call : msg.cmd ≠ .inodeRelease := spares mid p msg (List.mem_append_right _ List.mem_cons_self)
    by_cases other : p = pid
    · subst other
      obtain ⟨low,high⟩ := proper.calmNode here
      have grows : node.refcnt ≤ toChar (m.refcnt + 1) ∨ toChar (m.refcnt + 1) < 0 := by
        unfold toChar
        omega
      have serviced : Serviced (pipeNode mid p ino) msg (front ++ [last]) (pipeNode after p ino) :=
        (askServiced turn proper.service ino).1
      rw [here] at serviced
      generalize pipeNode after p ino = entry at serviced ⊢
      cases serviced with
      | same => exact ⟨m,rfl,same,count⟩
      | made _ none => contradiction
      | @counted old node' _ found msgs more =>
        cases Option.some.inj found
        refine ⟨node',rfl,msgs.trans same,?_⟩
        rcases more with more | more
        · rw [more]
          exact count
        · rw [more]
          exact grows
      | released release => exact absurd release call
    · obtain ⟨dv,dv',-,-,rfl⟩ := askSource turn
      rw [pipeNodeSame (putOther mid (Ne.symm other) dv') ino]
      exact ⟨m,here,same,count⟩

theorem Talk.shrunk (talk : Talk start log d) (only : OnlyReleases log) (there : pipeNode start.drv pid ino = some node) :
    Leaves node.msgs node.refcnt log (pipeNode d pid ino) := by
  induction talk with
  | quiet =>
    rw [there]
    exact .kept rfl (.inl (Int.le_refl _))
  | @asked log mid after p msg front last before proper turn again ih =>
    have leaves := ih (fun drv pid msg member => only drv pid msg (List.mem_append_left _ member))
    have call : msg.cmd = .inodeRelease := only mid p msg (List.mem_append_right _ List.mem_cons_self)
    have longer : ∀ {told : List (Pid × Int)}, told.Sublist (sends log) →
        told.Sublist (sends (log ++ .asked mid p msg :: unblocked front)) := by
      intro told sub
      rw [sendsAppend]
      exact sub.trans (List.sublist_append_left _ _)
    have unmoved : pipeNode after pid ino = pipeNode mid pid ino → Leaves node.msgs node.refcnt
        (log ++ .asked mid p msg :: unblocked front) (pipeNode after pid ino) := by
      intro same
      rw [same]
      generalize pipeNode mid pid ino = entry at leaves ⊢
      cases leaves with
      | kept same many => exact .kept same many
      | ended one none told => exact .ended one none (longer told)
      | gone unused => exact .gone unused
    by_cases here : p = pid ∧ msg.w0 = ino
    · obtain ⟨rfl,rfl⟩ := here
      have serviced : Serviced (pipeNode mid p msg.w0) msg (front ++ [last]) (pipeNode after p msg.w0) :=
        (askServiced turn proper.service msg.w0).1
      cases at_ : pipeNode mid p msg.w0 with
      | none =>
        rw [at_] at serviced
        generalize pipeNode after p msg.w0 = entry at serviced ⊢
        cases serviced with
        | same => exact .gone (fun _ same => by cases same)
        | made other => exact absurd call other
        | counted other => exact absurd call other
        | released _ found => contradiction
      | some m =>
        obtain ⟨low,high⟩ := proper.calmNode at_
        have used : 0 < m.refcnt := by
          obtain ⟨dv,Z,F,task,-,held⟩ := proper.calm
          obtain ⟨nodes,same,found⟩ := pipeNodeSome.mp at_
          cases Option.some.inj (task.symm.trans same)
          obtain ⟨m',found',positive⟩ := held call
          cases Option.some.inj (Option.some.inj (found.symm.trans found'))
          exact positive
        rw [at_] at leaves serviced
        have less : toChar (m.refcnt - 1) = m.refcnt - 1 := toCharSmall (by omega) (by omega)
        generalize pipeNode after p msg.w0 = entry at serviced unmoved ⊢
        cases serviced with
        | same => exact unmoved at_.symm
        | made other => exact absurd call other
        | counted other => exact absurd call other
        | released _ found answers =>
          cases Option.some.inj found
          by_cases two : m.refcnt = 2
          · have one : toChar (m.refcnt - 1) = 1 := by omega
            have whole : m.msgs = node.msgs := by
              cases leaves with
              | kept same => exact same
              | ended one => omega
              | gone unused => exact absurd (unused m rfl) (by omega)
            simp only [pdRelease,if_pos one] at answers ⊢
            obtain ⟨same,-⟩ := List.append_inj' answers rfl
            refine .ended one rfl ?_
            rw [sendsAppend]
            refine List.Sublist.trans ?_ (List.sublist_append_right _ _)
            change (flushed node.msgs).Sublist (sends (unblocked front))
            rw [sendsUnblocked again,same,whole]
            exact List.Sublist.refl _
          · have notOne : ¬ toChar (m.refcnt - 1) = 1 := by omega
            by_cases last : m.refcnt = 1
            · have zero : toChar (m.refcnt - 1) = 0 := by omega
              simp only [pdRelease,zero]
              refine .gone ?_
              intro k same
              split at same
              · cases Option.some.inj same
                contradiction
              · split at same
                · contradiction
                · split at same
                  · cases Option.some.inj same
                    exact Int.le_refl _
                  · contradiction
            · have many : toChar (m.refcnt - 1) ≠ 0 := by omega
              simp only [pdRelease,if_neg notOne,if_pos many]
              cases leaves with
              | kept same => exact .kept same (.inr (.inl (by dsimp only; omega)))
              | ended one => omega
              | gone unused => exact absurd (unused m rfl) (by omega)
    · exact unmoved ((askServiced turn proper.service ino).2 call here)
end

/-! Reads and writes of the node are turns of the line. -/

def caller (m : Msg) : Pid × Option Int := (m.client,if m.cmd = .readc then none else some m.w2)

def Calls (m : Msg) : Prop := Rw m.cmd ∧ m.client ≠ 0

theorem pdRwTurn {node : PdNode} {m : Msg} {n : Nat} (calls : Calls m) (only : ∀ k ∈ node.msgs, Calls k)
    (plain : node.links = 0) (count : node.refcnt = n) :
    (pdRw node m).1.msgs.map caller =
      ((⟨n,node.msgs.map caller⟩ : Conduit).turn (.call (caller m).1 (caller m).2)).1.callers ∧
    (pdRw node m).2.filterMap heard = ((⟨n,node.msgs.map caller⟩ : Conduit).turn (.call (caller m).1 (caller m).2)).2 ∧
    ((⟨n,node.msgs.map caller⟩ : Conduit).turn (.call (caller m).1 (caller m).2)).1.ends = n ∧
    (∀ k ∈ (pdRw node m).1.msgs, Calls k) ∧ (pdRw node m).1.refcnt = node.refcnt := by
  obtain ⟨kind,real⟩ := calls
  have same : caller m = ((caller m).1,(caller m).2) := rfl
  cases line : node.msgs with
  | nil =>
    by_cases few : n ≤ 1
    · have spent : node.refcnt ≤ 1 ∧ node.links = 0 := ⟨by omega,plain⟩
      have cmd : m.cmd ≠ .hold := by rcases kind with kind | kind <;> simp [kind]
      simp [pdRw,line,spent.1,plain,Conduit.turn,few,heard,cmd,real,caller]
    · have open_ : ¬ (node.refcnt ≤ 1 ∧ node.links = 0) := by omega
      have many : ¬ node.refcnt ≤ 1 := by omega
      simp [pdRw,line,many,Conduit.turn,few,heard,pdSave,Pairing.meet,caller,Calls,kind,real]
  | cons c rest =>
    obtain ⟨other,there⟩ := only c (by rw [line]; exact List.mem_cons_self)
    have later : ∀ k ∈ rest, Calls k := fun k member => only k (by rw [line]; exact List.mem_cons_of_mem _ member)
    have joined : ∀ k, k ∈ rest ∨ k = m → Calls k := by
      rintro k (old | rfl)
      · exact later k old
      · exact ⟨kind,real⟩
    rcases kind with kind | kind <;> rcases other with other | other <;>
      simp [pdRw,line,kind,other,Conduit.turn,heard,pdSave,Pairing.meet,writes,caller,Calls,Rw,real,there,across]
    all_goals first
      | exact joined
      | exact later

theorem pdRwAnswers (node : PdNode) {m : Msg} (kind : Rw m.cmd) :
    ∃ front last, (pdRw node m).2 = front ++ [last] ∧ (∀ k ∈ front, k.cmd = .repeat_) ∧ last.cmd ≠ .repeat_ := by
  have plain : m.cmd ≠ .repeat_ := by rcases kind with kind | kind <;> simp [kind]
  unfold pdRw
  split
  · split
    · exact ⟨[],_,rfl,by simp,plain⟩
    · exact ⟨[],_,rfl,by simp,by simp⟩
  · split
    · exact ⟨[],_,rfl,by simp,by simp⟩
    · refine ⟨[_],_,rfl,by simp,?_⟩
      dsimp only
      split <;> exact plain

theorem repeatLoopEnds {σ : Type} {x : Tx σ} {front : List Msg} {last : Msg} (again : ∀ k ∈ front, k.cmd = .repeat_)
    (stop : last.cmd ≠ .repeat_) : ∃ y, repeatLoop true x (front ++ [last]) = some y := by
  induction front generalizing x with
  | nil => exact ⟨{ x with msg := last },by simp [repeatLoop,stop]⟩
  | cons k rest ih =>
    have others := fun k member => again k (List.mem_cons_of_mem _ member)
    rw [List.cons_append]
    simp only [repeatLoop,if_pos (again k List.mem_cons_self),if_true]
    split
    · exact ih others
    · exact ih others

/-! The watcher. -/

-- The READC or WRITEC that a request is, if its descriptor leads to the pipe.
def callOn (dev ino : Int) (s : Tables) (r : Request) : Option (Option Int) := do
  let t ← vfsFindbypid s r.client
  let v ← descriptor t r.msg.w0.toNat
  let f ← s.filp[v.toNat]?
  if r.msg.w0 < 0 ∨ v < 0 ∨ f.dev ≠ dev ∨ f.ino ≠ ino then none else
    match r.msg.cmd with
    | .readc => some none
    | .writec => some (some r.msg.w2)
    | _ => none

/- What is asked of the requests of a run: one end of the pipe stays open. -/
structure Piping (dev ino : Int) (s : System Devices) (i : Input) : Prop where
  sparing : Sparing s i
  real : i.request.client ≠ 0
  open_ : ∀ s' out, served s i = some (s',out) → Bounded 127 s'.vfs ∧ 0 < openEntries s'.vfs dev ino

def Unnamed (dev ino : Int) (d n : Int) : Prop := d = dev ∧ n = ino

/- The node of the pipe is the line. -/
structure Conducts (dev ino : Int) (pid : Pid) (s : System Devices) (c : Conduit) : Prop where
  counted : Counted s.vfs
  few : Bounded 127 s.vfs
  settled : Settled (fun _ _ => 0) (Unnamed dev ino) s
  there : device s.vfs dev = some pid
  ends : openEntries s.vfs dev ino = c.ends
  open_ : 0 < c.ends
  line : ∃ node, pipeNode s.drv pid ino = some node ∧ node.msgs.map caller = c.callers ∧ ∀ k ∈ node.msgs, Calls k

section
variable {s s' : System Devices} {i : Input} {out : List (Event Devices)} {dev ino : Int} {pid : Pid} {c : Conduit}
  {byte : Option Int} {node : PdNode}

theorem settledNode (counted : Counted s.vfs) (few : Bounded 127 s.vfs)
    (settled : Settled (fun _ _ => 0) (Unnamed dev ino) s) (there : device s.vfs dev = some pid) (at_ : pipeNode s.drv pid ino = some node) :
    node.links = 0 ∧ node.refcnt = openEntries s.vfs dev ino ∧ (node.refcnt ≤ 1 → node.msgs = []) := by
  obtain ⟨nodes,task,found⟩ := pipeNodeSome.mp at_
  obtain ⟨counts,calm⟩ := settled.at there task
  have quiet := calm ino node found
  have plain := quiet.unnamed ⟨rfl,rfl⟩
  obtain ⟨n,rfl,-,entry⟩ := nodeAtIndex found
  have count := counts.at entry
  rw [← openHolders counted few]
  exact ⟨plain,count,fun less => quiet.empty less plain⟩

theorem Conducts.kept (conducts : Conducts dev ino pid s c) (piping : Piping dev ino s i)
    (taken : served s i = some (s',out)) :
    Counted s'.vfs ∧ Bounded 127 s'.vfs ∧ Settled (fun _ _ => 0) (Unnamed dev ino) s' ∧ device s'.vfs dev = some pid ∧
      0 < openEntries s'.vfs dev ino := by
  obtain ⟨few',open_⟩ := piping.open_ s' out taken
  have wide : ∀ {t : Tables}, Bounded 127 t → Bounded 255 t := fun few fp => Nat.le_trans (few fp) (by decide)
  have used : ∀ d n, Unnamed dev ino d n → holders s.vfs d n ≠ 0 := by
    rintro d n ⟨rfl,rfl⟩
    rw [openHolders conducts.counted conducts.few,conducts.ends]
    exact Nat.ne_of_gt conducts.open_
  obtain ⟨-,stays,settled⟩ := servedExact conducts.counted piping.sparing used conducts.settled taken (wide few')
  exact ⟨servedCounted conducts.counted piping.sparing.index (wide conducts.few) taken,few',settled,
    stays dev pid conducts.there,open_⟩

theorem callOnSource {s : Tables} {r : Request} (through : callOn dev ino s r = some byte) :
    ∃ t v f, vfsFindbypid s r.client = some t ∧ descriptor t r.msg.w0.toNat = some v ∧ s.filp[v.toNat]? = some f ∧
      0 ≤ r.msg.w0 ∧ 0 ≤ v ∧ f.dev = dev ∧ f.ino = ino ∧
      (r.msg.cmd = .readc ∧ byte = none ∨ r.msg.cmd = .writec ∧ byte = some r.msg.w2) := by
  simp only [callOn,bind,Option.bind_eq_some_iff] at through
  obtain ⟨t,found,v,held,f,entry,through⟩ := through
  split at through <;> try contradiction
  rename_i good
  simp only [not_or,Int.not_lt,not_not,ne_eq] at good
  refine ⟨t,v,f,found,held,entry,good.1,good.2.1,good.2.2.1,good.2.2.2,?_⟩
  split at through <;> try contradiction
  · exact .inl ⟨by assumption,(Option.some.inj through).symm⟩
  · exact .inr ⟨by assumption,(Option.some.inj through).symm⟩

theorem callOnMade {s : Tables} {r : Request} {t : VfsTask} {v : Int} {f : Filp} (found : vfsFindbypid s r.client = some t)
    (held : descriptor t r.msg.w0.toNat = some v) (entry : s.filp[v.toNat]? = some f) (given : 0 ≤ r.msg.w0) (real : 0 ≤ v)
    (call : Rw r.msg.cmd) : ∃ byte, callOn f.dev f.ino s r = some byte := by
  have good : ¬ (r.msg.w0 < 0 ∨ v < 0 ∨ f.dev ≠ f.dev ∨ f.ino ≠ f.ino) := by omega
  simp only [callOn,found,held,entry,bind,Option.bind_some,if_neg good]
  rcases call with call | call
  · exact ⟨none,by rw [call]⟩
  · exact ⟨some r.msg.w2,by rw [call]⟩

theorem Conducts.serves (conducts : Conducts dev ino pid s c) (through : callOn dev ino s.vfs i.request = some byte) :
    ∃ s' out, served s i = some (s',out) := by
  obtain ⟨t,v,f,found,held,entry,given,real,rfl,rfl,kind⟩ := callOnSource through
  obtain ⟨node,at_,-,-⟩ := conducts.line
  obtain ⟨nodes,task,there⟩ := pipeNodeSome.mp at_
  have call : Rw i.request.msg.cmd := kind.imp And.left And.left
  let m : Msg := { i.request.msg with client := i.request.client, w0 := f.ino, w1 := f.pos }
  have calls : Rw m.cmd := call
  obtain ⟨front,last,answers,again,stop⟩ := pdRwAnswers node calls
  have turn : pipedev nodes m = some (nodes.set f.ino.toNat (some (pdRw node m).1),(pdRw node m).2) := by
    rcases calls with calls | calls <;> simp only [pipedev,calls] <;> rw [show m.w0 = f.ino from rfl,there] <;> rfl
  have asked : drivers.ask { s.drv with rx := i.rx } pid m =
      some (putDevice { s.drv with rx := i.rx } pid (.pipedev (nodes.set f.ino.toNat (some (pdRw node m).1))),
        front ++ [last]) := by
    simp only [drivers,task,bind,Option.bind_some,askDevice,turn,Option.map_some,answers]
  have ends : ∃ z, sendrecRepeat drivers true ⟨s.vfs,{ s.drv with rx := i.rx },m,[]⟩ pid = some z := by
    obtain ⟨z,loops⟩ := repeatLoopEnds (x := ⟨s.vfs,putDevice { s.drv with rx := i.rx } pid
      (.pipedev (nodes.set f.ino.toNat (some (pdRw node m).1))),m,[.asked { s.drv with rx := i.rx } pid m]⟩) again stop
    exact ⟨z,by simpa only [sendrecRepeat,asked,bind,Option.bind_some,List.nil_append] using loops⟩
  obtain ⟨z,ends⟩ := ends
  have ran : doRw drivers i.request.client
      ⟨s.vfs,{ s.drv with rx := i.rx },{ i.request.msg with client := i.request.client },[]⟩ =
      some (withVfs z (putFilp z.vfs v.toNat { f with pos := f.pos + z.msg.w1 })) := by
    simp only [doRw,if_neg (Int.not_lt.mpr given),found,held,if_neg (Int.not_lt.mpr real),entry,conducts.there,bind,
      Option.bind_some]
    rw [show sendrecRepeat drivers true ⟨s.vfs,{ s.drv with rx := i.rx },
      { i.request.msg with client := i.request.client, w0 := f.ino, w1 := f.pos },[]⟩ pid = some z from ends]
    rfl
  have processed : process drivers i.request (received s i) =
      some (withVfs z (putFilp z.vfs v.toNat { f with pos := f.pos + z.msg.w1 })) := by
    rcases call with call | call <;> simpa only [process,call,received] using ran
  exact ⟨_,_,servedProcess processed⟩

theorem Conducts.called (conducts : Conducts dev ino pid s c) (piping : Piping dev ino s i)
    (through : callOn dev ino s.vfs i.request = some byte) (taken : served s i = some (s',out)) :
    Conducts dev ino pid s' (c.turn (.call i.request.client byte)).1 ∧
      sends out = (c.turn (.call i.request.client byte)).2 := by
  obtain ⟨t,v,f,found,held,entry,given,real,rfl,rfl,kind⟩ := callOnSource through
  obtain ⟨node,at_,callers,only⟩ := conducts.line
  obtain ⟨plain,count,-⟩ := settledNode conducts.counted conducts.few conducts.settled conducts.there at_
  obtain ⟨nodes,task,there⟩ := pipeNodeSome.mp at_
  obtain ⟨counted,few,settled,there',open_⟩ := conducts.kept piping taken
  have call : i.request.msg.cmd = .readc ∨ i.request.msg.cmd = .writec := kind.imp And.left And.left
  obtain ⟨after,replies,turn,task',told⟩ := rwThroughVfs (s := { s with drv := { s.drv with rx := i.rx } }) call piping.real
    given found held real entry conducts.there task taken
  obtain ⟨n,node',index,here,rfl,rfl⟩ := pipedevRw turn call
  have index : f.ino = n := index
  rw [index,nodeAtNat] at there
  cases Option.some.inj (Option.some.inj (there.symm.trans here))
  have number : node.refcnt = c.ends := count.trans (congrArg Nat.cast conducts.ends)
  let m : Msg := { i.request.msg with client := i.request.client, w0 := f.ino, w1 := f.pos }
  have named : caller m = (i.request.client,byte) := by
    rcases kind with ⟨kind,rfl⟩ | ⟨kind,rfl⟩ <;> simp [caller,m,kind]
  have line := pdRwTurn (m := m) ⟨call,piping.real⟩ only plain number
  rw [callers,named] at line
  obtain ⟨moved,answers,same,calls,kept⟩ := line
  have new : pipeNode s'.drv pid f.ino = some (pdRw node m).1 :=
    pipeNodeSome.mpr ⟨_,task',(nodeAtSet here f.ino).trans (if_pos index)⟩
  obtain ⟨-,count',-⟩ := settledNode counted few settled there' new
  have ends : openEntries s'.vfs f.dev f.ino = c.ends := by
    have both : (openEntries s'.vfs f.dev f.ino : Int) = c.ends := by
      rw [← count',kept,number]
    exact Int.ofNat.inj both
  exact ⟨⟨counted,few,settled,there',ends.trans same.symm,same.symm ▸ conducts.open_,_,new,moved,calls⟩,told.trans answers⟩

theorem Conducts.leaves (conducts : Conducts dev ino pid s c) (piping : Piping dev ino s i)
    (elsewhere : callOn dev ino s.vfs i.request = none) (at_ : pipeNode s.drv pid ino = some node) {y : Tx Devices}
    (processed : process drivers i.request (received s i) = some y) (few' : Bounded 255 y.vfs) :
    Leaves node.msgs node.refcnt y.log (pipeNode y.drv pid ino) := by
  have unmoved : pipeNode y.drv pid ino = pipeNode s.drv pid ino →
      Leaves node.msgs node.refcnt y.log (pipeNode y.drv pid ino) := by
    intro same
    rw [same,at_]
    exact .kept rfl (.inl (Int.le_refl _))
  have others : ∀ {p : Pid} {dv : Device}, p ≠ pid → y.drv = putDevice (received s i).drv p dv →
      pipeNode y.drv pid ino = pipeNode s.drv pid ino := by
    intro p dv other same
    rw [same]
    exact pipeNodeSame (putOther (received s i).drv (Ne.symm other) dv) ino
  obtain ⟨nodes,task,found⟩ := pipeNodeSome.mp at_
  by_cases own : Own i.request.msg.cmd
  · have begun : Settled (fun _ _ => 0) (Unnamed dev ino) ⟨(received s i).vfs,(received s i).drv⟩ :=
      ⟨conducts.settled.distinct,conducts.settled.unused,conducts.settled.known,conducts.settled.kept,conducts.settled.piped⟩
    have agrees : Agrees ⟨(received s i).vfs,(received s i).drv⟩ (fun _ _ => 0) (Unnamed dev ino) (received s i) :=
      ⟨begun,.quiet,rfl⟩
    have used : ∀ d n, Unnamed dev ino d n → holders (received s i).vfs d n + 0 ≠ 0 := by
      rintro d n ⟨rfl,rfl⟩
      change holders s.vfs d n ≠ 0
      rw [openHolders conducts.counted conducts.few,conducts.ends]
      exact Nat.ne_of_gt conducts.open_
    obtain ⟨extra',-,after,-⟩ := processAgrees own conducts.counted
      (fun fp => Nat.le_trans (conducts.few fp) (by decide)) rfl piping.sparing.index (fun _ _ => Nat.zero_le _) used agrees processed few'
    have start : pipeNode (received s i).drv pid ino = some node := at_
    rcases processSays own rfl rfl processed with only | spares
    · exact after.talk.shrunk only start
    · obtain ⟨node',same,msgs,more⟩ := after.talk.grown spares start
      rw [same]
      exact .kept msgs (more.imp_right .inr)
  refine unmoved ?_
  have kinds : i.request.msg.cmd = .mkdev ∨ (i.request.msg.cmd = .rdInterrupt ∨ i.request.msg.cmd = .wrInterrupt) ∨
      Rw i.request.msg.cmd := by
    unfold Own at own
    unfold Rw
    grind
  rcases kinds with call | call | call
  · simp only [process,call] at processed
    cases Option.some.inj processed
    unfold doMkdev
    split
    · rfl
    · have new : i.request.newtask ≠ pid := by
        rintro rfl
        obtain ⟨-,slot,real⟩ := deviceSlot conducts.there
        exact piping.sparing.fresh real (List.mem_of_getElem? slot)
      exact pipeNodeSame (putOther (received s i).drv (Ne.symm new) _) ino
  · have interrupt : doInt drivers (received s i) = some y := by
      rcases call with h | h <;> simpa only [process,h] using processed
    unfold doInt at interrupt
    split at interrupt <;> try contradiction
    obtain ⟨drv,front,last,asked,-,-,rfl⟩ := sendrecRepeatSource interrupt
    obtain ⟨dv,dv',there,turn,rfl⟩ := askSource asked
    by_cases same : (received s i).msg.client = pid
    · rw [same] at there ⊢
      cases Option.some.inj (there.symm.trans task)
      obtain ⟨after,rfl,took⟩ := deviceTurn turn
      have idle : pipedev nodes (received s i).msg = some (nodes,[(received s i).msg]) := by
        have kind : (received s i).msg.cmd = .rdInterrupt ∨ (received s i).msg.cmd = .wrInterrupt := call
        rcases kind with kind | kind <;> simp only [pipedev,kind]
      obtain ⟨still,-⟩ := Prod.mk.inj (Option.some.inj (took.symm.trans idle))
      rw [still,at_]
      exact pipeNodeSome.mpr ⟨nodes,putSelf _ pid _,found⟩
    · exact others same rfl
  · have rw_ : doRw drivers i.request.client { received s i with
        msg := { i.request.msg with client := i.request.client } } = some y := by
      rcases call with h | h <;> simpa only [process,h,received] using processed
    rcases doRwCases rw_ with rfl | ⟨t,v,f,p,z,given,known,held,real,entry,there,asked,rfl⟩
    · rfl
    obtain ⟨drv,front,last,turn,-,-,rfl⟩ := sendrecRepeatSource asked
    obtain ⟨dv,dv',mine,turn,rfl⟩ := askSource turn
    by_cases same : p = pid
    · subst same
      cases Option.some.inj (mine.symm.trans task)
      obtain ⟨after,rfl,took⟩ := deviceTurn turn
      obtain ⟨n,node',index,here,rfl,-⟩ := pipedevRw took call
      have other : ino ≠ n := by
        intro same
        have onto : f.ino = ino := (show f.ino = n from index).trans same.symm
        have onto' : f.dev = dev := conducts.settled.distinct _ _ _ there conducts.there
        obtain ⟨byte,through⟩ := callOnMade known held entry given real call
        rw [onto,onto'] at through
        have none := through.symm.trans elsewhere
        contradiction
      rw [at_]
      refine pipeNodeSome.mpr ⟨_,putSelf _ p _,?_⟩
      rw [nodeAtSet here,if_neg other]
      exact found
    · exact others same rfl

theorem flushedCallers {msgs : List Msg} (only : ∀ k ∈ msgs, Calls k) :
    flushed msgs = (msgs.map caller).map (fun c => (c.1,eof)) := by
  induction msgs with
  | nil => rfl
  | cons m rest ih =>
    have real := (only m List.mem_cons_self).2
    have later := ih (fun k member => only k (List.mem_cons_of_mem _ member))
    have first : heard (pdFlushed m) = some (m.client,eof) := by simp [heard,pdFlushed,real]
    simp only [flushed,List.map_cons,List.filterMap_cons,first] at later ⊢
    rw [later]
    rfl

theorem Conducts.changed (conducts : Conducts dev ino pid s c) (piping : Piping dev ino s i)
    (elsewhere : callOn dev ino s.vfs i.request = none) (taken : served s i = some (s',out)) :
    Conducts dev ino pid s' (c.turn (.ends (openEntries s'.vfs dev ino))).1 ∧
      (c.turn (.ends (openEntries s'.vfs dev ino))).2.Sublist (sends out) := by
  obtain ⟨node,at_,callers,only⟩ := conducts.line
  obtain ⟨plain,count,empty⟩ := settledNode conducts.counted conducts.few conducts.settled conducts.there at_
  obtain ⟨counted,few,settled,there',open_⟩ := conducts.kept piping taken
  obtain ⟨y,processed,rfl,rfl⟩ := servedSource taken
  have leaves := conducts.leaves piping elsewhere at_ processed (fun fp => Nat.le_trans (few fp) (by decide))
  have number : node.refcnt = c.ends := count.trans (congrArg Nat.cast conducts.ends)
  have heard_ : (sends y.log).Sublist (sends (finish i.request y)) := by
    unfold finish
    split
    · rw [sendsAppend]
      exact List.sublist_append_left _ _
    · exact List.Sublist.refl _
  -- The node that is left counts the open ends.
  have left : ∀ {node'}, pipeNode y.drv pid ino = some node' → node'.refcnt = openEntries y.vfs dev ino :=
    fun here => (settledNode counted few settled there' here).2.1
  have present : ∃ node', pipeNode y.drv pid ino = some node' := by
    obtain ⟨dv,task,counts,calm⟩ := settled.kept dev pid there'
    have used : holders y.vfs dev ino + 0 ≠ 0 := by
      rw [openHolders counted few]
      exact Nat.ne_of_gt open_
    have held := heldCounted counts used
    cases dv with
    | pipedev nodes =>
      obtain ⟨node',found,-⟩ := held
      exact ⟨node',pipeNodeSome.mpr ⟨nodes,task,found⟩⟩
    | memfile nodes => exact absurd ⟨rfl,rfl⟩ (calm ino)
    | ttyUsart0 t => exact absurd ⟨rfl,rfl⟩ (calm ino)
  obtain ⟨node',here⟩ := present
  have count' := left here
  rw [here] at leaves
  have open' : 0 < openEntries y.vfs dev ino := open_
  by_cases last : openEntries y.vfs dev ino ≤ 1 ∧ 1 < c.ends
  · simp only [Conduit.turn,if_pos last]
    cases leaves with
    | kept same many => omega
    | ended one none told =>
      refine ⟨⟨counted,few,settled,there',rfl,open_,node',here,by rw [none]; rfl,by simp [none]⟩,?_⟩
      rw [← callers,← flushedCallers only]
      exact told.trans heard_
    | gone unused => exact absurd (unused node' rfl) (by omega)
  · simp only [Conduit.turn,if_neg last]
    have same : node'.msgs = node.msgs := by
      cases leaves with
      | kept same many => exact same
      | ended one none told => rw [none,empty (by omega)]
      | gone unused => exact absurd (unused node' rfl) (by omega)
    exact ⟨⟨counted,few,settled,there',rfl,open_,node',here,by rw [same,callers],by rw [same]; exact only⟩,
      List.nil_sublist _⟩

end

end Avros.Vfs
