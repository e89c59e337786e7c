import Avros.MemFileTransfer
import Avros.Run
import Avros.VfsExchanges
import Avros.VfsOpenFiles

/-! An entry of `filp` on a file of memfile, shared by whatever descriptors lead to it. To all
the tasks together it is one tape: bytes, a size and a position that every call moves. What
else goes on, on other files and devices, is not seen on it. -/
namespace Avros.Vfs
open Run

structure Tape where
  bytes : List Int
  size : Int
  pos : Nat
  deriving DecidableEq, Repr

-- A call through the entry, `some b` to write b, and what was answered to whom.
structure Transfer where
  client : Pid
  call : Option Int
  told : List (Pid × Int)

def Tape.turn (t : Tape) : Option Int → Tape × Int
  | none => if 127 ≤ t.pos ∨ t.size ≤ t.pos then (t,eof) else ({ t with pos := t.pos + 1 },t.bytes.getD t.pos 0)
  | some b =>
    if 127 ≤ t.pos then (t,eof) else (⟨t.bytes.set t.pos (toChar b),(t.pos + 1 : Nat),t.pos + 1⟩,b)

def tape : Step Tape (Pid × Option Int) Transfer := fun t i =>
  some ((t.turn i.2).1,[⟨i.1,i.2,[(i.1,(t.turn i.2).2)]⟩])

section
variable {t t' : Tape} {history : List Transfer}

theorem readTurn {top : Nat} (size : t.size = (top : Int)) (few : top ≤ 127) (below : t.pos ≤ top) :
    t.turn none = ({ t with pos := min (t.pos + 1) top },if t.pos < top then t.bytes.getD t.pos 0 else eof) := by
  by_cases inside : t.pos < top
  · have open_ : ¬ (127 ≤ t.pos ∨ t.size ≤ t.pos) := by omega
    rw [Tape.turn,if_neg open_,if_pos inside,Nat.min_eq_left inside]
  · have ended : 127 ≤ t.pos ∨ t.size ≤ t.pos := by omega
    have same : min (t.pos + 1) top = t.pos := by omega
    rw [Tape.turn,if_pos ended,if_neg inside,same]

theorem snocAt {α : Type} {l : List α} {last e : α} {k : Nat} (entry : (l ++ [last])[k]? = some e) :
    l[k]? = some e ∨ k = l.length ∧ e = last := by
  rcases Nat.lt_trichotomy k l.length with inside | rfl | beyond
  · exact .inl ((List.getElem?_append_left inside).symm.trans entry)
  · rw [List.getElem?_append_right (Nat.le_refl _),Nat.sub_self] at entry
    exact .inr ⟨rfl,(Option.some.inj entry).symm⟩
  · have none : (l ++ [last])[k]? = none := by
      rw [List.getElem?_eq_none_iff,List.length_append,List.length_singleton]
      omega
    rw [none] at entry
    contradiction

/- Readers of a tape get its bytes one after the other, whoever asks. -/
theorem tapeRead {top : Nat} (run : Reaches tape (fun _ _ => True) (· = t) t' history)
    (reads : ∀ e ∈ history, e.call = none) (size : t.size = (top : Int)) (few : top ≤ 127) (below : t.pos ≤ top) :
    t' = { t with pos := min (t.pos + history.length) top } ∧
    ∀ (k : Nat) e, history[k]? = some e →
      e.told = [(e.client,if t.pos + k < top then t.bytes.getD (t.pos + k) 0 else eof)] := by
  induction run with
  | start same =>
    subst same
    exact ⟨by simp [Nat.min_eq_left below],by simp⟩
  | @next u history i u' out before _ taken ih =>
    cases Option.some.inj taken
    obtain ⟨rfl,told⟩ := ih (fun e member => reads e (List.mem_append_left _ member))
    have call : i.2 = none := reads _ (List.mem_append_right _ List.mem_cons_self)
    have turn := readTurn (t := { t with pos := min (t.pos + history.length) top }) size few (Nat.min_le_right _ _)
    rw [call,turn]
    refine ⟨?_,?_⟩
    · simp only [List.length_append,List.length_singleton,Tape.mk.injEq,true_and]
      omega
    · intro k e entry
      rcases snocAt entry with old | ⟨rfl,rfl⟩
      · exact told k e old
      · by_cases inside : t.pos + history.length < top
        · simp [inside,Nat.min_eq_left (Nat.le_of_lt inside)]
        · simp [inside]

theorem writeTurn (b : Int) (below : t.pos ≤ 127) :
    (t.turn (some b)).1.pos = min (t.pos + 1) 127 ∧ (t.turn (some b)).2 = (if t.pos < 127 then b else eof) ∧
    (t.turn (some b)).1.bytes = if t.pos < 127 then t.bytes.set t.pos (toChar b) else t.bytes := by
  by_cases room : t.pos < 127
  · rw [Tape.turn,if_neg (Nat.not_le.mpr room),if_pos room,if_pos room]
    exact ⟨(Nat.min_eq_left room).symm,rfl,rfl⟩
  · rw [Tape.turn,if_pos (Nat.not_lt.mp room),if_neg room,if_neg room]
    have full : t.pos = min (t.pos + 1) 127 := by omega
    exact ⟨full,rfl,rfl⟩

/- Writers to a tape append in the order of their calls, up to 127 bytes. -/
theorem tapeWritten (run : Reaches tape (fun _ _ => True) (· = t) t' history)
    (writes : ∀ e ∈ history, e.call ≠ none) (below : t.pos ≤ 127) (array : t.bytes.length = 128) :
    t'.pos = min (t.pos + history.length) 127 ∧ t'.bytes.length = 128 ∧
    (∀ j < t.pos, t'.bytes[j]? = t.bytes[j]?) ∧
    ∀ (k : Nat) e b, history[k]? = some e → e.call = some b →
      e.told = [(e.client,if t.pos + k < 127 then b else eof)] ∧
      (t.pos + k < 127 → t'.bytes[t.pos + k]? = some (toChar b)) := by
  induction run with
  | start same =>
    subst same
    exact ⟨by simp [below],array,fun _ _ => rfl,by simp⟩
  | @next u history i u' out before _ taken ih =>
    cases Option.some.inj taken
    obtain ⟨pos,length,front,told⟩ := ih (fun e member => writes e (List.mem_append_left _ member))
    have wrote : i.2 ≠ none := writes _ (List.mem_append_right _ List.mem_cons_self)
    obtain ⟨b,call⟩ := Option.ne_none_iff_exists'.mp wrote
    obtain ⟨moved,answer,bytes⟩ := writeTurn (t := u) b (by omega)
    rw [call]
    have away : ∀ j, j ≠ u.pos → (u.turn (some b)).1.bytes[j]? = u.bytes[j]? := by
      intro j other
      rw [bytes]
      split
      · exact List.getElem?_set_ne other.symm
      · rfl
    refine ⟨?_,?_,?_,?_⟩
    · rw [moved,pos,List.length_append,List.length_singleton]
      omega
    · rw [bytes]
      split <;> simp [length]
    · intro j before
      rw [away j (by omega)]
      exact front j before
    · intro k e d entry wrote
      rcases snocAt entry with old | ⟨rfl,rfl⟩
      · obtain ⟨was,stored⟩ := told k e d old wrote
        refine ⟨was,fun inside => ?_⟩
        have earlier := (List.getElem?_eq_some_iff.mp old).1
        rw [away (t.pos + k) (by omega)]
        exact stored inside
      · cases Option.some.inj wrote
        by_cases room : t.pos + history.length < 127
        · have here : u.pos = t.pos + history.length := by omega
          refine ⟨by simp [answer,here,room],fun _ => ?_⟩
          rw [bytes,here,if_pos room]
          exact List.getElem?_set_self (by omega)
        · have full : ¬ u.pos < 127 := by omega
          exact ⟨by simp [answer,full,room],fun inside => absurd inside room⟩
end

def nodeOf (d : Devices) (pid : Pid) (ino : Int) : Option MfNode :=
  match d.task pid with
  | some (.memfile nodes) => (nodeAt nodes ino).join
  | _ => none

theorem nodeOfSome {d : Devices} {pid : Pid} {ino : Int} {n : MfNode} :
    nodeOf d pid ino = some n ↔ ∃ nodes, d.task pid = some (.memfile nodes) ∧ nodeAt nodes ino = some (some n) := by
  unfold nodeOf
  constructor
  · intro found
    split at found <;> try contradiction
    rename_i nodes task
    exact ⟨nodes,task,Option.join_eq_some_iff.mp found⟩
  · rintro ⟨nodes,task,found⟩
    simp only [task,found,Option.join_some]

theorem turnNode {nodes after : MfNodes} {msg : Msg} {replies : List Msg} {ino : Int} {n : MfNode}
    (turn : MfTurn nodes msg after replies) (there : nodeAt nodes ino = some (some n)) (linked : n.links ≠ 0)
    (safe : msg.cmd ≠ .unlink ∧ (msg.cmd = .link → msg.w1 ≠ ino)) :
    ∃ m, nodeAt after ino = some (some m) ∧ m.links = n.links ∧
      (msg.cmd = .writec ∧ msg.w0 = ino ∨ m.file = n.file ∧ m.size = n.size) := by
  have kept : ∃ m, nodeAt nodes ino = some (some m) ∧ m.links = n.links ∧
      (msg.cmd = .writec ∧ msg.w0 = ino ∨ m.file = n.file ∧ m.size = n.size) := ⟨n,there,rfl,.inr ⟨rfl,rfl⟩⟩
  have mine : ∀ {i : Nat} {node : MfNode}, nodes[i]? = some (some node) → ino = i → node = n := by
    rintro i node found rfl
    rw [nodeAtNat,found] at there
    exact Option.some.inj (Option.some.inj there)
  cases turn with
  | @made i call empty =>
    refine ⟨n,?_,rfl,.inr ⟨rfl,rfl⟩⟩
    rw [nodeAtSet empty,if_neg]
    · exact there
    · rintro rfl
      rw [nodeAtNat,empty] at there
      cases there
  | missingLink | missing | told => exact kept
  | @linked i node call index found =>
    refine ⟨n,?_,rfl,.inr ⟨rfl,rfl⟩⟩
    rw [nodeAtSet found,if_neg]
    · exact there
    · rintro rfl
      exact safe.2 call index
  | unlinked call => exact absurd call safe.1
  | @grabbed i node call index found =>
    rw [nodeAtSet found]
    split
    · cases mine found (by assumption)
      exact ⟨_,rfl,rfl,.inr ⟨rfl,rfl⟩⟩
    · exact kept
  | @released i node call index found =>
    rw [nodeAtSet found]
    split
    · cases mine found (by assumption)
      have stays : mfUnref { n with refcnt := toChar (n.refcnt - 1) } = some { n with refcnt := toChar (n.refcnt - 1) } :=
        if_pos (.inr linked)
      exact ⟨_,congrArg some stays,rfl,.inr ⟨rfl,rfl⟩⟩
    · exact kept
  | @written i node file size call index found =>
    rw [nodeAtSet found]
    split
    · rename_i same
      cases mine found same
      exact ⟨_,rfl,rfl,.inl ⟨call,index.trans same.symm⟩⟩
    · exact kept

section
variable {d d' : Devices} {p pid : Pid} {msg : Msg} {replies : List Msg} {ino : Int} {n : MfNode}

theorem askNode (ok : drivers.ask d p msg = some (d',replies)) (there : nodeOf d pid ino = some n) (linked : n.links ≠ 0)
    (safe : p = pid → msg.cmd ≠ .unlink ∧ (msg.cmd = .link → msg.w1 ≠ ino)) :
    ∃ m, nodeOf d' pid ino = some m ∧ m.links = n.links ∧
      (p = pid ∧ msg.cmd = .writec ∧ msg.w0 = ino ∨ m.file = n.file ∧ m.size = n.size) := by
  obtain ⟨nodes,task,found⟩ := nodeOfSome.mp there
  obtain ⟨dv,dv',mine,turn,rfl⟩ := askSource ok
  by_cases same : p = pid
  · subst same
    cases Option.some.inj (mine.symm.trans task)
    obtain ⟨after,rfl,took⟩ := deviceTurn turn
    obtain ⟨m,still,links,text⟩ := turnNode (memfileTurn took) found linked (safe rfl)
    exact ⟨m,nodeOfSome.mpr ⟨after,putSelf d p _,still⟩,links,text.imp_left (fun wrote => ⟨rfl,wrote⟩)⟩
  · exact ⟨n,nodeOfSome.mpr ⟨nodes,(putOther d (Ne.symm same) dv').trans task,found⟩,rfl,.inr ⟨rfl,rfl⟩⟩

theorem askMknod {m : Msg} (ok : drivers.ask d pid msg = some (d',[m])) (call : msg.cmd = .mknod)
    (there : nodeOf d pid ino = some n) : m.w0 ≠ ino := by
  obtain ⟨nodes,task,found⟩ := nodeOfSome.mp there
  obtain ⟨dv,dv',mine,turn,rfl⟩ := askSource ok
  cases Option.some.inj (mine.symm.trans task)
  obtain ⟨after,rfl,took⟩ := deviceTurn turn
  simp only [memfile,call,Option.some.injEq,Prod.mk.injEq,List.cons.injEq,and_true] at took
  obtain ⟨-,rfl⟩ := took
  obtain ⟨j,rfl,-,at_⟩ := nodeAtIndex found
  change (mfCreateNode nodes false).2 ≠ j
  unfold mfCreateNode
  split
  · exact (by omega : (-1 : Int) ≠ j)
  · rename_i i empty
    intro same
    have number : i = j := Int.ofNat.inj same
    subst number
    rw [firstEmpty empty] at at_
    cases at_
end

def Stores (pid : Pid) (ino links : Int) (file : List Int) (size : Int) (d : Devices) : Prop :=
  ∃ n, nodeOf d pid ino = some n ∧ n.links = links ∧ n.file = file ∧ n.size = size

theorem Stores.ask {d d' : Devices} {p pid : Pid} {msg : Msg} {replies : List Msg} {ino links size : Int} {file : List Int}
    (held : Stores pid ino links file size d) (named : links ≠ 0)
    (safe : p = pid → msg.cmd ≠ .unlink ∧ (msg.cmd = .link → msg.w1 ≠ ino))
    (unwritten : p = pid → msg.cmd = .writec → msg.w0 ≠ ino)
    (ok : drivers.ask d p msg = some (d',replies)) : Stores pid ino links file size d' := by
  obtain ⟨n,there,rfl,rfl,rfl⟩ := held
  obtain ⟨m,still,same,text⟩ := askNode ok there named safe
  obtain ⟨bytes,long⟩ := text.resolve_left (fun wrote => unwritten wrote.1 wrote.2.1 wrote.2.2)
  exact ⟨m,still,same,bytes,long⟩

-- The READC or WRITEC that a request is, if its descriptor leads to the entry fp.
def callThrough (fp : Nat) (s : Tables) (r : Request) : Option (Option Int) := do
  let t ← vfsFindbypid s r.client
  let v ← descriptor t r.msg.w0.toNat
  if r.msg.w0 < 0 ∨ v ≠ fp then none else
    match r.msg.cmd with
    | .readc => some none
    | .writec => some (some r.msg.w2)
    | _ => none

def watched (fp : Nat) : Step (System Devices) Input Transfer := fun s i => do
  let (s',out) ← served s i
  some (s',match callThrough fp s.vfs i.request with
    | some call => [⟨i.request.client,call,sends out⟩]
    | none => [])

/- What is asked of the requests of a run. Some task has the file open, nobody writes to it
through another entry, and createtask() does not answer with memfile's own task. -/
structure Sharing (fp : Nat) (pid : Pid) (ino : Int) (s : System Devices) (i : Input) : Prop where
  counting : Counting 255 s i.request
  real : i.request.client ≠ 0
  used : ¬ Unreferenced s.vfs fp
  alone : ∀ k f b, callThrough k s.vfs i.request = some (some b) → s.vfs.filp[k]? = some f →
    device s.vfs f.dev = some pid → f.ino = ino → k = fp
  fresh : i.request.msg.cmd = .mkdev → i.request.newtask ≠ pid

/- The entry fp is on the node ino of memfile, and the two together are the tape. -/
structure Plays (fp : Nat) (pid : Pid) (dev ino links : Int) (s : System Devices) (t : Tape) : Prop where
  counted : Counted s.vfs
  there : device s.vfs dev = some pid
  entry : ∃ f, s.vfs.filp[fp]? = some f ∧ f.dev = dev ∧ f.ino = ino ∧ f.pos = (t.pos : Int)
  node : Stores pid ino links t.bytes t.size s.drv

section
variable {s s' : System Devices} {i : Input} {out : List (Event Devices)} {fp : Nat} {pid : Pid} {dev ino links : Int}
  {t : Tape} {call : Option Int}

theorem callThroughSource {s : Tables} {r : Request} (through : callThrough fp s r = some call) :
    ∃ (u : VfsTask) (fd : Nat), r.msg.w0 = fd ∧ vfsFindbypid s r.client = some u ∧ descriptor u fd = some (fp : Int) ∧
      (r.msg.cmd = .readc ∧ call = none ∨ r.msg.cmd = .writec ∧ call = some r.msg.w2) := by
  simp only [callThrough,bind,Option.bind_eq_some_iff] at through
  obtain ⟨u,found,v,held,through⟩ := through
  split at through <;> try contradiction
  rename_i given
  obtain ⟨low,rfl⟩ : 0 ≤ r.msg.w0 ∧ v = fp := by
    simp only [not_or,Int.not_lt,not_not] at given
    exact given
  refine ⟨u,r.msg.w0.toNat,(Int.toNat_of_nonneg low).symm,found,held,?_⟩
  split at through <;> try contradiction
  · exact .inl ⟨by assumption,(Option.some.inj through).symm⟩
  · exact .inr ⟨by assumption,(Option.some.inj through).symm⟩

theorem callThroughOnly {s : Tables} {r : Request} {k : Nat} {other : Option Int} (through : callThrough fp s r = some call)
    (again : callThrough k s r = some other) : k = fp := by
  obtain ⟨u,fd,named,found,held,-⟩ := callThroughSource through
  obtain ⟨v,fd',named',found',held',-⟩ := callThroughSource again
  cases Option.some.inj (found.symm.trans found')
  obtain rfl : fd = fd' := Int.ofNat.inj (named.symm.trans named')
  exact Int.ofNat.inj (Option.some.inj (held'.symm.trans held))

theorem callThroughMade {s : Tables} {r : Request} {u : VfsTask} {v : Int} (found : vfsFindbypid s r.client = some u)
    (given : 0 ≤ r.msg.w0) (held : descriptor u r.msg.w0.toNat = some v) (real : 0 ≤ v) :
    callThrough v.toNat s r = match r.msg.cmd with
      | .readc => some none
      | .writec => some (some r.msg.w2)
      | _ => none := by
  have open_ : ¬ (r.msg.w0 < 0 ∨ v ≠ (v.toNat : Int)) := by omega
  simp only [callThrough,found,held,bind,Option.bind_some,if_neg open_]

theorem Moves.through {s : Tables} {r : Request} (shaped : Shaped s) (moves : Moves s r fp) :
    ∃ call, callThrough fp s r = some call := by
  obtain ⟨kind,n,named,u,found,held⟩ := moves
  have inside : n < maxFd := foundWidth shaped found ▸ (List.getElem?_eq_some_iff.mp held).1
  have same : r.msg.w0.toNat = n := by rw [named,Int.toNat_natCast]
  have made := callThroughMade (r := r) found (by omega)
    (by rw [same,descriptorInside (foundWidth shaped found) inside,held]) (Int.natCast_nonneg fp)
  rw [Int.toNat_natCast] at made
  rcases kind with kind | kind <;> exact ⟨_,by rw [made,kind]⟩

theorem transferSource {s : Tables} {r : Request} {p : Pid} {msg : Msg} (goes : transfer s r = some (p,msg)) :
    ∃ u v f, 0 ≤ r.msg.w0 ∧ vfsFindbypid s r.client = some u ∧ descriptor u r.msg.w0.toNat = some v ∧ 0 ≤ v ∧
      s.filp[v.toNat]? = some f ∧ device s f.dev = some p ∧
      msg = { r.msg with client := r.client, w0 := f.ino, w1 := f.pos } := by
  unfold transfer at goes
  split at goes <;> try contradiction
  rename_i given
  simp only [bind,Option.bind_eq_some_iff] at goes
  obtain ⟨u,found,v,held,goes⟩ := goes
  split at goes <;> try contradiction
  rename_i real
  simp only [Option.bind_eq_some_iff] at goes
  obtain ⟨f,entry,q,there,last⟩ := goes
  obtain ⟨rfl,rfl⟩ := Prod.mk.inj (Option.some.inj last)
  exact ⟨u,v,f,Int.not_lt.mp given,found,held,Int.not_lt.mp real,entry,there,rfl⟩

theorem storesExchanges {size : Int} {file : List Int} (named : links ≠ 0) (sharing : Sharing fp pid ino s i)
    (elsewhere : callThrough fp s.vfs i.request = none) (held : Stores pid ino links file size (received s i).drv) :
    Exchanges drivers s.vfs (received s i).drv i.request (Stores pid ino links file size) where
  starts call d driver stores := by
    obtain ⟨n,there,rest⟩ := stores
    obtain ⟨nodes,task,found⟩ := nodeOfSome.mp there
    exact ⟨n,nodeOfSome.mpr ⟨nodes,(putOther d (Ne.symm (sharing.fresh call)) _).trans task,found⟩,rest⟩
  plain d p msg d' replies stores call ok := by
    have other : msg.cmd ≠ .unlink ∧ msg.cmd ≠ .link ∧ msg.cmd ≠ .writec := by
      rcases call with h | h | h | h | h | h <;> simp [h]
    exact stores.ask named (fun _ => ⟨other.1,fun link => absurd link other.2.1⟩)
      (fun _ write => absurd write other.2.2) ok
  links d p msg d' made next d'' replies stores call first link onto second := by
    have new : p = pid → made.w0 ≠ ino := by
      rintro rfl
      obtain ⟨n,there,-⟩ := stores
      exact askMknod first call there
    have after : Stores pid ino links file size d' :=
      stores.ask named (fun _ => ⟨by simp [call],fun link => by simp [call] at link⟩)
        (fun _ write => by simp [call] at write) first
    exact after.ask named (fun here => ⟨by simp [link],fun _ => onto ▸ new here⟩)
      (fun _ write => by simp [link] at write) second
  transfers call p msg d' replies goes ok := by
    obtain ⟨u,v,g,given,found,at_,real,other,registered,same⟩ := transferSource goes
    have kind : msg.cmd = i.request.msg.cmd := by rw [same]
    have plain : msg.cmd ≠ .unlink ∧ msg.cmd ≠ .link := by
      rcases call with h | h <;> simp [kind,h]
    refine held.ask named (fun _ => ⟨plain.1,fun link => absurd link plain.2⟩) ?_ ok
    rintro rfl write onto
    have onto : g.ino = ino := by simpa only [same] using onto
    have through : callThrough v.toNat s.vfs i.request = some (some i.request.msg.w2) :=
      (callThroughMade found given at_ real).trans (by rw [← kind,write])
    have mine := sharing.alone _ g _ through other registered onto
    rw [mine,elsewhere] at through
    contradiction

theorem Plays.still (plays : Plays fp pid dev ino links s t) (named : links ≠ 0) (sharing : Sharing fp pid ino s i)
    (elsewhere : callThrough fp s.vfs i.request = none) (taken : served s i = some (s',out)) :
    Plays fp pid dev ino links s' t := by
  obtain ⟨y,processed,rfl,-⟩ := servedSource taken
  obtain ⟨f,entry,rfl,rfl,pos⟩ := plays.entry
  have counted := processCounted (x := received s i) plays.counted sharing.counting.small rfl
    (closeInside sharing.counting.index) processed
  have counts : f.refcnt ≠ 0 := fun zero =>
    sharing.used ((plays.counted.unreferenced sharing.counting.small entry).mp zero)
  have inside : fp < y.vfs.filp.length := by
    rw [counted.shaped.slots,← plays.counted.shaped.slots]
    exact (List.getElem?_eq_some_iff.mp entry).1
  have here := List.getElem?_eq_getElem inside
  obtain ⟨sameDev,sameIno,unmoved⟩ := processEntry (x := received s i) rfl plays.counted.shaped sharing.counting.index entry
    counts processed _ here
  have pos' : (y.vfs.filp[fp]).pos = f.pos := by
    refine unmoved.resolve_right (fun moves => ?_)
    obtain ⟨call,through⟩ := moves.through plays.counted.shaped
    have none := through.symm.trans elsewhere
    contradiction
  refine ⟨counted,processDevice (x := received s i) plays.there processed,⟨_,here,sameDev,sameIno,pos'.trans pos⟩,?_⟩
  have held : Stores pid f.ino links t.bytes t.size (received s i).drv := plays.node
  exact (storesExchanges named sharing elsewhere held).process rfl held processed

/- A call through the entry is a turn of the tape, and its client is told what the tape says. -/
theorem Plays.turned (plays : Plays fp pid dev ino links s t) (named : links ≠ 0) (sharing : Sharing fp pid ino s i)
    (through : callThrough fp s.vfs i.request = some call) :
    ∃ s' out, served s i = some (s',out) ∧ Plays fp pid dev ino links s' (t.turn call).1 ∧
      sends out = [(i.request.client,(t.turn call).2)] := by
  obtain ⟨u,fd,named',found,held,kind⟩ := callThroughSource through
  obtain ⟨f,entry,rfl,rfl,pos⟩ := plays.entry
  obtain ⟨n,node,rfl,bytes,size⟩ := plays.node
  obtain ⟨nodes,task,at_⟩ := nodeOfSome.mp node
  have stands : position s.vfs i.request.client fd = some (f.dev,f.ino,(t.pos : Int)) := by
    simp only [position,found,held,if_neg (Int.not_lt.mpr (Int.natCast_nonneg fp)),Int.toNat_natCast,entry,pos,bind,
      Option.bind_some]
  have stored : fileOf s f.dev f.ino = some (t.bytes,t.size) := by
    rw [fileOfNode plays.there task at_,bytes,size]
  have transfer : i.request.msg.cmd = .readc ∨ i.request.msg.cmd = .writec := kind.imp And.left And.left
  have outcome : ∃ s' out, served s i = some (s',out) ∧ Outcome s' out i.request.client fd f.dev f.ino
      (t.turn call).2 (t.turn call).1.pos (t.turn call).1.bytes (t.turn call).1.size := by
    rcases kind with ⟨read,rfl⟩ | ⟨write,rfl⟩
    · have asks : Asks i i.request.client fd .readc i.request.msg.w2 := ⟨rfl,read,named',rfl⟩
      by_cases ended : 127 ≤ t.pos ∨ t.size ≤ t.pos
      · rw [Tape.turn,if_pos ended]
        have stop : 127 ≤ (t.pos : Int) ∨ t.size ≤ t.pos := by omega
        exact readEnded sharing.real asks stands stored stop
      · rw [Tape.turn,if_neg ended]
        have inside : (t.pos : Int) < 127 ∧ t.pos < t.size := by omega
        exact readServed sharing.real asks stands stored (Int.natCast_nonneg _) inside
    · have asks : Asks i i.request.client fd .writec i.request.msg.w2 := ⟨rfl,write,named',rfl⟩
      by_cases full : 127 ≤ t.pos
      · rw [Tape.turn,if_pos full]
        exact writeRefused sharing.real asks stands stored (Int.ofNat_le.mpr full)
      · rw [Tape.turn,if_neg full]
        exact writeServed sharing.real asks stands stored (Int.natCast_nonneg _) (Int.ofNat_lt.mpr (Nat.not_le.mp full))
  obtain ⟨s',out,taken,outcome⟩ := outcome
  refine ⟨s',out,taken,?_,outcome.told⟩
  obtain ⟨y,processed,rfl,-⟩ := servedSource taken
  have device : device y.vfs f.dev = some pid := processDevice (x := received s i) plays.there processed
  refine ⟨processCounted (x := received s i) plays.counted sharing.counting.small rfl (closeInside sharing.counting.index)
    processed,device,?_,?_⟩
  · obtain ⟨v,k,g,found',held',real,entry',sameDev,sameIno,moved⟩ := positionEntry outcome.position
    have tasks : y.vfs.taskQ = s.vfs.taskQ := rwTasks (x := received s i) transfer processed
    have same : vfsFindbypid y.vfs i.request.client = some u := by
      unfold vfsFindbypid at found ⊢
      rw [tasks]
      exact found
    cases Option.some.inj (same.symm.trans found')
    cases Option.some.inj (held.symm.trans held')
    rw [Int.toNat_natCast] at entry'
    exact ⟨g,entry',sameDev,sameIno,moved⟩
  · obtain ⟨p,nodes',m,registered,task',at',bytes',size'⟩ := fileNode outcome.file
    cases Option.some.inj (device.symm.trans registered)
    have rw : doRw drivers i.request.client
        { received s i with msg := { i.request.msg with client := i.request.client } } = some y := by
      rcases transfer with kind | kind <;> simpa only [process,kind,received] using processed
    have linked : ∃ m', nodeOf y.drv pid f.ino = some m' ∧ m'.links = n.links := by
      rcases doRwCases rw with rfl | ⟨w,v,g,p,z,-,-,-,-,-,-,asked,rfl⟩
      · exact ⟨n,node,rfl⟩
      · obtain ⟨d,front,last,answer,-,-,rfl⟩ := sendrecRepeatSource asked
        have plain : i.request.msg.cmd ≠ .unlink ∧ i.request.msg.cmd ≠ .link := by
          rcases transfer with kind | kind <;> simp [kind]
        obtain ⟨m',still,same,-⟩ := askNode answer node named (fun _ => ⟨plain.1,fun kind => absurd kind plain.2⟩)
        exact ⟨m',still,same⟩
    obtain ⟨m',still,same⟩ := linked
    have here : nodeOf y.drv pid f.ino = some m := nodeOfSome.mpr ⟨nodes',task',at'⟩
    cases Option.some.inj (here.symm.trans still)
    exact ⟨m,still,same,bytes',size'⟩

theorem watchedTape (named : links ≠ 0) (plays : Plays fp pid dev ino links s t) :
    Simulates (watched fp) (Sharing fp pid ino) (· = s) tape (fun _ _ => True) (· = t) (Plays fp pid dev ino links) Eq := by
  refine ⟨?_,rfl,?_⟩
  · rintro _ rfl
    exact ⟨t,rfl,plays⟩
  · rintro u a i u' shown history _ holds rfl sharing taken run
    simp only [watched,bind,Option.bind_eq_some_iff] at taken
    obtain ⟨⟨after,out⟩,ran,last⟩ := taken
    obtain ⟨rfl,rfl⟩ := Prod.mk.inj (Option.some.inj last)
    cases through : callThrough fp u.vfs i.request with
    | none =>
      refine ⟨a,[],holds.still named sharing through ran,rfl,?_⟩
      rw [List.append_nil]
      exact run
    | some call =>
      obtain ⟨v,told,ran',holds',answer⟩ := holds.turned named sharing through
      obtain ⟨rfl,rfl⟩ := Prod.mk.inj (Option.some.inj (ran.symm.trans ran'))
      refine ⟨(a.turn call).1,_,holds',rfl,?_⟩
      rw [answer]
      exact run.next (i := (i.request.client,call)) trivial rfl
/-- Tasks that share an open file, in any order of steps, whatever else the system does. -/
theorem sharedFile {history : List (Event Devices)} {log : List Transfer} {f : Filp} {nodes : MfNodes} {m : MfNode} {n : Nat}
    (run : Reaches served (fun s i => Counting 255 s i.request) Started s history) (entry : s.vfs.filp[fp]? = some f)
    (pos : f.pos = n) (there : device s.vfs f.dev = some pid) (task : s.drv.task pid = some (.memfile nodes))
    (node : nodeAt nodes f.ino = some (some m)) (named : m.links ≠ 0)
    (later : Reaches (watched fp) (Sharing fp pid f.ino) (· = s) s' log) :
    ∃ t, Reaches tape (fun _ _ => True) (· = ⟨m.file,m.size,n⟩) t log ∧ Plays fp pid f.dev f.ino m.links s' t ∧
      (∀ top : Nat, (∀ e ∈ log, e.call = none) → m.size = top → top ≤ 127 → n ≤ top →
        ∀ (k : Nat) e, log[k]? = some e → e.told = [(e.client,if n + k < top then m.file.getD (n + k) 0 else eof)]) ∧
      ((∀ e ∈ log, e.call ≠ none) → n ≤ 127 → m.file.length = 128 →
        ∀ (k : Nat) e b, log[k]? = some e → e.call = some b →
          e.told = [(e.client,if n + k < 127 then b else eof)] ∧
          (n + k < 127 → t.bytes[n + k]? = some (toChar b))) ∧
      ∀ i call, Sharing fp pid f.ino s' i → callThrough fp s'.vfs i.request = some call →
        ∃ s'' out, served s' i = some (s'',out) := by
  have counted : Counted s.vfs := run.stateInvariant (P := fun s => Counted s.vfs) (fun _ start => startedCounted start)
    (fun _ i _ _ held counting taken => vfsCounted (D := drivers) (s := { vfs := _, drv := { task := _, rx := i.rx } }) held
      counting.small (closeInside counting.index) taken)
  have plays : Plays fp pid f.dev f.ino m.links s ⟨m.file,m.size,n⟩ :=
    ⟨counted,there,⟨f,entry,rfl,rfl,pos⟩,m,nodeOfSome.mpr ⟨nodes,task,node⟩,rfl,rfl,rfl⟩
  obtain ⟨t,_,played,holds,rfl⟩ := (watchedTape named plays).reaches later
  refine ⟨t,played,holds,?_,?_,?_⟩
  · intro top reads size few below
    exact (tapeRead played reads size few below).2
  · intro writes below array
    exact (tapeWritten played writes below array).2.2.2
  · intro i call sharing through
    obtain ⟨s'',out,taken,-⟩ := holds.turned named sharing through
    exact ⟨s'',out,taken⟩
end

-- A task and its child write to the file that the task has opened.
theorem sharedFileOfTwo : ∃ s s' history log t,
    Reaches served (fun s i => Counting 255 s i.request) Started s history ∧
    Reaches (watched 0) (Sharing 0 2 1) (· = s) s' log ∧ log.map Transfer.client = [0x10,0x11] ∧
    Plays 0 2 1 1 1 s' t ∧ t.bytes[0]? = some 65 ∧ t.bytes[1]? = some 66 := by
  have start : Reaches served (fun s i => Counting 255 s i.request) Started (vfsInit drivers 1 noDevices) [] :=
    .start ⟨1,by decide,rfl⟩
  have added := start.next (i := demoInput 2 (demoMsg .addtask 0x10 0 0)) ⟨by decide,fewTasks (by decide) (by decide)⟩ rfl
  have disk := added.next (i := ⟨⟨2,{ demoMsg .mkdev 0 0 0 with driver := .memfile },2,fun _ => true⟩,0⟩)
    ⟨by decide,fewTasks (by decide) (by decide)⟩ rfl
  have named := disk.next (i := demoInput 0x10 { demoMsg .mknod 0 0 0 with name := some ['a'] })
    ⟨by decide,fewTasks (by decide) (by decide)⟩ rfl
  have opened := named.next (i := demoInput 0x10 (demoMsg .open_ 1 1 0)) ⟨by decide,fewTasks (by decide) (by decide)⟩ rfl
  have forked := opened.next (i := demoInput 2 (demoMsg .addtask 0x11 0x10 0))
    ⟨by decide,fewTasks (by decide) (by decide)⟩ rfl
  have here : ∀ {s history}, Reaches served (fun s i => Counting 255 s i.request) Started s history →
      Reaches (watched 0) (Sharing 0 2 1) (· = s) s [] := fun _ => .start rfl
  have first := (here forked).next (i := demoInput 0x10 (demoMsg .writec 0 0 65))
    ⟨⟨by decide,fewTasks (by decide) (by decide)⟩,by decide,fun none => none _ List.mem_cons_self List.mem_cons_self,
      fun _ _ _ through _ _ _ => callThroughOnly rfl through,nofun⟩ rfl
  have second := first.next (i := demoInput 0x11 (demoMsg .writec 0 0 66))
    ⟨⟨by decide,fewTasks (by decide) (by decide)⟩,by decide,fun none => none _ List.mem_cons_self List.mem_cons_self,
      fun _ _ _ through _ _ _ => callThroughOnly rfl through,nofun⟩ rfl
  obtain ⟨t,-,plays,-,written,-⟩ := sharedFile (f := ⟨1,1,2,0⟩) (n := 0)
    (m := { mfNewNode false with refcnt := 1, links := 1 }) forked rfl rfl rfl rfl rfl (by decide) second
  have calls : ∀ e ∈ [(⟨0x10,some 65,[(0x10,65)]⟩ : Transfer),⟨0x11,some 66,[(0x11,66)]⟩], e.call ≠ none := by simp
  have each := written calls (by decide) List.length_replicate
  exact ⟨_,_,_,_,t,forked,second,rfl,plays,(each 0 _ 65 rfl rfl).2 (by decide),(each 1 _ 66 rfl rfl).2 (by decide)⟩

end Avros.Vfs
