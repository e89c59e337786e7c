import Avros.Vfs

/-! `drivers/pipe.c`. One message from VFS is one turn of the driver's loop. A turn
answers with the messages it sends back, the last one from the send() that closes the
turn and the ones before it from sendrec() with VFS_REPEAT: VFS acknowledges those, the
acknowledgement overwrites a container that is freed next. A turn without a result
leaves the node table or follows a NULL node. kmalloc succeeds. -/
namespace Avros.Vfs

def pdMaxNodes : Nat := 8

structure PdNode where
  refcnt : Int
  links : Int
  msgs : List Msg
  deriving DecidableEq, Repr

abbrev PdNodes := List (Option PdNode)

def pdFindEmptyNode (nodes : PdNodes) : Option Nat := nodes.findIdx? (·.isNone)

-- `nodes[ino]`, where the index is inside the table; the entry may be NULL.
def nodeAt {α : Type} (nodes : List (Option α)) (ino : Int) : Option (Option α) :=
  if ino < 0 then none else nodes[ino.toNat]?

def pdFlushed (m : Msg) : Msg := { m with w2 := eof, w1 := 0, cmd := .repeat_ }

def pdRelease (node : PdNode) (msg : Msg) : Option PdNode × List Msg :=
  let node := { node with refcnt := toChar (node.refcnt - 1) }
  if node.refcnt = 1 then (some { node with msgs := [] },node.msgs.map pdFlushed ++ [msg])
  else if node.refcnt ≠ 0 then (some node,[msg])
  else if node.links ≠ 0 then (some node,[msg])
  else (none,[msg])

def pdUnlink (node : PdNode) (msg : Msg) : Option PdNode × List Msg :=
  let node := { node with links := toChar (node.links - 1) }
  if node.refcnt ≠ 0 ∨ node.links ≠ 0 then (some node,[msg]) else (none,[msg])

def pdSave (node : PdNode) (msg : Msg) : PdNode × List Msg :=
  ({ node with msgs := node.msgs ++ [msg] },[{ msg with cmd := .hold, w1 := 0 }])

/- The first container alone decides: a request of its kind joins the queue, one of the
other kind meets it and the data goes from the writer to the reader. -/
def pdRw (node : PdNode) (msg : Msg) : PdNode × List Msg :=
  match node.msgs with
  | [] =>
    if node.refcnt ≤ 1 ∧ node.links = 0 then (node,[{ msg with w2 := eof, w1 := 0 }])
    else pdSave node msg
  | container::rest =>
    if container.cmd = msg.cmd then pdSave node msg
    else
      let served := if container.cmd = .readc then { container with w2 := msg.w2 } else container
      let answer := if container.cmd = .writec then { msg with w2 := container.w2 } else msg
      ({ node with msgs := rest },[{ served with cmd := .repeat_, w1 := 0 },{ answer with w1 := 0 }])

def pipedev (nodes : PdNodes) (msg : Msg) : Option (PdNodes × List Msg) :=
  match msg.cmd with
  | .mknod => do
    let ino ← pdFindEmptyNode nodes
    some (nodes.set ino (some ⟨0,0,[]⟩),[{ msg with w0 := ino }])
  | .link => do
    match ← nodeAt nodes msg.w1 with
    | none => some (nodes,[{ msg with w1 := -1 }])
    | some node => some (nodes.set msg.w1.toNat (some { node with links := toChar (node.links + 1) }),[msg])
  | .unlink => do
    match ← nodeAt nodes msg.w1 with
    | none => some (nodes,[{ msg with w1 := -1 }])
    | some node => some (nodes.set msg.w1.toNat (pdUnlink node msg).1,(pdUnlink node msg).2)
  | .inodeGrab => do
    match ← nodeAt nodes msg.w0 with
    | none => some (nodes,[{ msg with w0 := -1 }])
    | some node => some (nodes.set msg.w0.toNat (some { node with refcnt := toChar (node.refcnt + 1) }),[msg])
  | .inodeRelease => do
    match ← nodeAt nodes msg.w0 with
    | none => some (nodes,[{ msg with w0 := -1 }])
    | some node => some (nodes.set msg.w0.toNat (pdRelease node msg).1,(pdRelease node msg).2)
  | .writec => do
    match ← nodeAt nodes msg.w0 with
    | none => none
    | some node => some (nodes.set msg.w0.toNat (some (pdRw node msg).1),(pdRw node msg).2)
  | .readc => do
    match ← nodeAt nodes msg.w0 with
    | none => none
    | some node => some (nodes.set msg.w0.toNat (some (pdRw node msg).1),(pdRw node msg).2)
  | _ => some (nodes,[msg])

def pipedevStart : PdNodes := List.replicate pdMaxNodes none

/- Everything a turn can do. -/
inductive PdTurn (nodes : PdNodes) (msg : Msg) : PdNodes → List Msg → Prop where
  | made {i : Nat} (call : msg.cmd = .mknod) (first : pdFindEmptyNode nodes = some i)
      (empty : nodes[i]? = some none) :
      PdTurn nodes msg (nodes.set i (some ⟨0,0,[]⟩)) [{ msg with w0 := i }]
  | missingLink (call : msg.cmd = .link ∨ msg.cmd = .unlink) (absent : nodeAt nodes msg.w1 = some none) :
      PdTurn nodes msg nodes [{ msg with w1 := -1 }]
  | linked {i : Nat} {node : PdNode} (call : msg.cmd = .link) (index : msg.w1 = i)
      (there : nodes[i]? = some (some node)) :
      PdTurn nodes msg (nodes.set i (some { node with links := toChar (node.links + 1) })) [msg]
  | unlinked {i : Nat} {node : PdNode} (call : msg.cmd = .unlink) (index : msg.w1 = i)
      (there : nodes[i]? = some (some node)) :
      PdTurn nodes msg (nodes.set i (pdUnlink node msg).1) [msg]
  | missing (call : msg.cmd = .inodeGrab ∨ msg.cmd = .inodeRelease) (absent : nodeAt nodes msg.w0 = some none) :
      PdTurn nodes msg nodes [{ msg with w0 := -1 }]
  | grabbed {i : Nat} {node : PdNode} (call : msg.cmd = .inodeGrab) (index : msg.w0 = i)
      (there : nodes[i]? = some (some node)) :
      PdTurn nodes msg (nodes.set i (some { node with refcnt := toChar (node.refcnt + 1) })) [msg]
  | released {i : Nat} {node : PdNode} (call : msg.cmd = .inodeRelease) (index : msg.w0 = i)
      (there : nodes[i]? = some (some node)) :
      PdTurn nodes msg (nodes.set i (pdRelease node msg).1) (pdRelease node msg).2
  | passed {i : Nat} {node : PdNode} (call : msg.cmd = .readc ∨ msg.cmd = .writec) (index : msg.w0 = i)
      (there : nodes[i]? = some (some node)) :
      PdTurn nodes msg (nodes.set i (some (pdRw node msg).1)) (pdRw node msg).2
  | ignored (call : msg.cmd ≠ .readc ∧ msg.cmd ≠ .writec ∧ msg.cmd ≠ .inodeGrab ∧ msg.cmd ≠ .inodeRelease ∧
      msg.cmd ≠ .mknod ∧ msg.cmd ≠ .link) : PdTurn nodes msg nodes [msg]

theorem nodeAtSome {α : Type} {nodes : List (Option α)} {ino : Int} {entry : Option α}
    (found : nodeAt nodes ino = some entry) : ino = (ino.toNat : Int) ∧ nodes[ino.toNat]? = some entry := by
  unfold nodeAt at found
  split at found <;> try contradiction
  exact ⟨by omega,found⟩

theorem nodeLooked {α β : Type} {nodes : List (Option α)} {ino : Int} {next : Option α → Option β} {out : β}
    (ok : (nodeAt nodes ino >>= next) = some out) :
    (nodeAt nodes ino = some none ∧ next none = some out) ∨
    ∃ node, ino = (ino.toNat : Int) ∧ nodes[ino.toNat]? = some (some node) ∧ next (some node) = some out := by
  obtain ⟨entry,found,ok⟩ := Option.bind_eq_some_iff.mp ok
  cases entry with
  | none => exact .inl ⟨found,ok⟩
  | some node =>
    obtain ⟨index,there⟩ := nodeAtSome found
    exact .inr ⟨node,index,there,ok⟩

theorem nodeAtIndex {α : Type} {nodes : List (Option α)} {ino : Int} {entry : Option α}
    (found : nodeAt nodes ino = some entry) : ∃ i : Nat, ino = i ∧ ino.toNat = i ∧ nodes[i]? = some entry := by
  obtain ⟨index,there⟩ := nodeAtSome found
  exact ⟨ino.toNat,index,rfl,there⟩

theorem nodeAtNat {α : Type} (nodes : List (Option α)) (i : Nat) : nodeAt nodes i = nodes[i]? := by
  unfold nodeAt
  rw [if_neg (by omega),Int.toNat_natCast]

theorem firstEmpty {α : Type} {nodes : List (Option α)} {i : Nat}
    (found : nodes.findIdx? (·.isNone) = some i) : nodes[i]? = some none := by
  obtain ⟨inside,empty,-⟩ := List.findIdx?_eq_some_iff_getElem.mp found
  rw [List.getElem?_eq_getElem inside]
  exact congrArg some (Option.isNone_iff_eq_none.mp empty)

theorem pdUnlinkReply (node : PdNode) (msg : Msg) : (pdUnlink node msg).2 = [msg] := by
  unfold pdUnlink
  dsimp only
  split <;> rfl

theorem pipedevTurn {nodes after : PdNodes} {msg : Msg} {replies : List Msg}
    (ok : pipedev nodes msg = some (after,replies)) : PdTurn nodes msg after replies := by
  unfold pipedev at ok
  split at ok
  case h_1 call =>
    simp only [bind,Option.bind_eq_some_iff] at ok
    obtain ⟨i,found,last⟩ := ok
    cases Option.some.inj last
    exact .made call found (firstEmpty found)
  case h_8 =>
    cases Option.some.inj ok
    refine .ignored ⟨?_,?_,?_,?_,?_,?_⟩ <;> assumption
  case h_2 call =>
    obtain ⟨absent,ok⟩ | ⟨node,index,there,ok⟩ := nodeLooked ok
    · cases Option.some.inj ok
      exact .missingLink (Or.inl call) absent
    · cases Option.some.inj ok
      exact .linked call index there
  case h_3 call =>
    obtain ⟨absent,ok⟩ | ⟨node,index,there,ok⟩ := nodeLooked ok
    · cases Option.some.inj ok
      exact .missingLink (Or.inr call) absent
    · cases Option.some.inj ok
      rw [pdUnlinkReply]
      exact .unlinked call index there
  case h_4 call =>
    obtain ⟨absent,ok⟩ | ⟨node,index,there,ok⟩ := nodeLooked ok
    · cases Option.some.inj ok
      exact .missing (Or.inl call) absent
    · cases Option.some.inj ok
      exact .grabbed call index there
  case h_5 call =>
    obtain ⟨absent,ok⟩ | ⟨node,index,there,ok⟩ := nodeLooked ok
    · cases Option.some.inj ok
      exact .missing (Or.inr call) absent
    · cases Option.some.inj ok
      exact .released call index there
  case h_6 call =>
    obtain ⟨-,ok⟩ | ⟨node,index,there,ok⟩ := nodeLooked ok
    · cases ok
    cases Option.some.inj ok
    exact .passed (Or.inr call) index there
  case h_7 call =>
    obtain ⟨-,ok⟩ | ⟨node,index,there,ok⟩ := nodeLooked ok
    · cases ok
    cases Option.some.inj ok
    exact .passed (Or.inl call) index there

theorem setNode {α : Type} {nodes : List (Option α)} {i j : Nat} {old entry found : Option α}
    (there : nodes[i]? = some old) (at_ : (nodes.set i entry)[j]? = some found) :
    (j = i ∧ entry = found) ∨ (j ≠ i ∧ nodes[j]? = some found) := by
  by_cases same : j = i
  · subst same
    rw [List.getElem?_set_self (List.getElem?_eq_some_iff.mp there).1] at at_
    exact Or.inl ⟨rfl,Option.some.inj at_⟩
  · rw [List.getElem?_set_ne (fun h => same h.symm)] at at_
    exact Or.inr ⟨same,at_⟩

theorem PdTurn.freed {nodes after : PdNodes} {msg : Msg} {replies : List Msg} {i : Nat} {node : PdNode}
    (turn : PdTurn nodes msg after replies) (there : nodes[i]? = some (some node))
    (gone : after[i]? = some none) :
    msg.cmd = .unlink ∨ (msg.cmd = .inodeRelease ∧ msg.w0 = i ∧ (pdRelease node msg).1 = none) := by
  have kept : nodes[i]? ≠ some none := by rw [there]; simp
  cases turn with
  | made call first empty =>
    rcases setNode empty gone with ⟨rfl,same⟩ | ⟨-,old⟩
    · contradiction
    · exact absurd old kept
  | missingLink call => exact absurd gone kept
  | missing call => exact absurd gone kept
  | ignored call => exact absurd gone kept
  | unlinked call => exact Or.inl call
  | linked call index held =>
    rcases setNode held gone with ⟨rfl,same⟩ | ⟨-,old⟩
    · contradiction
    · exact absurd old kept
  | grabbed call index held =>
    rcases setNode held gone with ⟨rfl,same⟩ | ⟨-,old⟩
    · contradiction
    · exact absurd old kept
  | passed call index held =>
    rcases setNode held gone with ⟨rfl,same⟩ | ⟨-,old⟩
    · contradiction
    · exact absurd old kept
  | released call index held =>
    rcases setNode held gone with ⟨rfl,same⟩ | ⟨-,old⟩
    · rw [there] at held
      cases Option.some.inj (Option.some.inj held)
      exact Or.inr ⟨call,index,same⟩
    · exact absurd old kept

theorem pipedevRw {nodes after : PdNodes} {msg : Msg} {replies : List Msg}
    (ok : pipedev nodes msg = some (after,replies)) (call : msg.cmd = .readc ∨ msg.cmd = .writec) :
    ∃ (i : Nat) (node : PdNode), msg.w0 = i ∧ nodes[i]? = some (some node) ∧
      after = nodes.set i (some (pdRw node msg).1) ∧ replies = (pdRw node msg).2 := by
  cases pipedevTurn ok with
  | passed _ index there => exact ⟨_,_,index,there,rfl,rfl⟩
  | made other => rcases call with h | h <;> simp [h] at other
  | missingLink other => rcases call with h | h <;> simp [h] at other
  | linked other => rcases call with h | h <;> simp [h] at other
  | unlinked other => rcases call with h | h <;> simp [h] at other
  | missing other => rcases call with h | h <;> simp [h] at other
  | grabbed other => rcases call with h | h <;> simp [h] at other
  | released other => rcases call with h | h <;> simp [h] at other
  | ignored other => rcases call with h | h <;> simp [h] at other

end Avros.Vfs
