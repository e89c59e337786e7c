import Avros.PipeDevice

/-! `drivers/ramdisk.c`. A node's bytes are either a file or a table of directory
entries, eight bytes each: six of the name, then the inode number, low byte first. The
word behind them is the file's size or the number of entries. -/
namespace Avros.Vfs

def mfMaxNodes : Nat := 8
def mfMaxEntries : Nat := 16
def mfNameLen : Nat := 6
def mfEntrySize : Nat := 8

structure MfNode where
  refcnt : Int
  links : Int
  dir : Bool
  file : List Int
  size : Int
  deriving DecidableEq, Repr

abbrev MfNodes := List (Option MfNode)

def toInt16 (v : Int) : Int := (v + 32768) % 65536 - 32768

def entryIno (file : List Int) (i : Nat) : Int :=
  toInt16 (file.getD (mfEntrySize * i + mfNameLen) 0 % 256 +
    256 * (file.getD (mfEntrySize * i + mfNameLen + 1) 0 % 256))

def setEntryIno (file : List Int) (i : Nat) (ino : Int) : List Int :=
  (file.set (mfEntrySize * i + mfNameLen) (toChar ino)).set (mfEntrySize * i + mfNameLen + 1)
    (toChar (ino / 256))

def setBytes (file : List Int) (start : Nat) : List Int → List Int
  | [] => file
  | b::rest => setBytes (file.set start b) (start + 1) rest

def charByte (c : Char) : Int := toChar c.toNat

-- strncpy(entry.name, name, 6): cut or padded to six bytes.
def strncpyName (name : List Char) : List Int :=
  (name.map charByte ++ List.replicate mfNameLen 0).take mfNameLen

def mfNewNode (dir : Bool) : MfNode :=
  let file := List.replicate (mfMaxEntries * mfEntrySize) 0
  ⟨0,0,dir,if dir then (List.range mfMaxEntries).foldl (fun f i => setEntryIno f i (-1)) file else file,0⟩

def mfCreateNode (nodes : MfNodes) (dir : Bool) : MfNodes × Int :=
  match nodes.findIdx? (·.isNone) with
  | none => (nodes,-1)
  | some ino => (nodes.set ino (some (mfNewNode dir)),ino)

def mfLink (node : MfNode) (name : List Char) (ino : Int) : MfNode × Int :=
  match (List.range mfMaxEntries).find? (fun i => entryIno node.file i = -1) with
  | none => (node,-1)
  | some i =>
    ({ node with
        file := setBytes (setEntryIno node.file i ino) (mfEntrySize * i) (strncpyName name)
        size := toInt16 (node.size + 1) },i)

/- strcmp() of the bytes from some entry on with a name: it stops at the first
difference, and has no answer if it runs off the node. -/
def sameName : List Int → List Int → Option Bool
  | [],_ => none
  | b::_,[] => some (b = 0)
  | b::bytes,c::name => if b = c then sameName bytes name else some false

def entryBytes (node : MfNode) (i : Nat) : List Int :=
  node.file.drop (mfEntrySize * i) ++ [toChar node.size,toChar (node.size / 256)]

def mfGetDirentry (node : MfNode) (name : List Char) : Option Int :=
  search (List.range mfMaxEntries)
where
  search : List Nat → Option Int
  | [] => some (-1)
  | i::rest =>
    if entryIno node.file i = -1 then search rest else do
      if ← sameName (entryBytes node i) (name.map charByte) then
        some (entryIno node.file i)
      else search rest

def mfUnref (node : MfNode) : Option MfNode :=
  if node.refcnt ≠ 0 ∨ node.links ≠ 0 then some node else none

def memfile (nodes : MfNodes) (msg : Msg) : Option (MfNodes × List Msg) :=
  match msg.cmd with
  | .mknod =>
    let made := mfCreateNode nodes false
    some (made.1,[{ msg with w0 := made.2 }])
  | .link => do
    match ← nodeAt nodes msg.w1 with
    | none => some (nodes,[{ msg with w1 := -1 }])
    | some node => some (nodes.set msg.w1.toNat (some { node with links := toChar (node.links + 1) }),[msg])
  | .unlink => do
    match ← nodeAt nodes msg.w1 with
    | none => some (nodes,[{ msg with w1 := -1 }])
    | some node =>
      some (nodes.set msg.w1.toNat (mfUnref { node with links := toChar (node.links - 1) }),[msg])
  | .inodeGrab => do
    match ← nodeAt nodes msg.w0 with
    | none => some (nodes,[{ msg with w0 := -1 }])
    | some node => some (nodes.set msg.w0.toNat (some { node with refcnt := toChar (node.refcnt + 1) }),[msg])
  | .inodeRelease => do
    match ← nodeAt nodes msg.w0 with
    | none => some (nodes,[{ msg with w0 := -1 }])
    | some node =>
      some (nodes.set msg.w0.toNat (mfUnref { node with refcnt := toChar (node.refcnt - 1) }),[msg])
  | .writec =>
    if msg.w1 ≥ 127 then some (nodes,[{ msg with w2 := eof, w1 := 0 }]) else do
      match ← nodeAt nodes msg.w0 with
      | none => none
      | some node =>
        if msg.w1 < 0 then none else
          some (nodes.set msg.w0.toNat (some { node with
            file := node.file.set msg.w1.toNat (toChar msg.w2), size := msg.w1 + 1 }),
            [{ msg with w1 := 1 }])
  | .readc =>
    if msg.w1 ≥ 127 then some (nodes,[{ msg with w2 := eof, w1 := 0 }]) else do
      match ← nodeAt nodes msg.w0 with
      | none => none
      | some node =>
        if msg.w1 ≥ node.size then some (nodes,[{ msg with w2 := eof, w1 := 0 }])
        else if msg.w1 < 0 then none
        else some (nodes,[{ msg with w2 := node.file.getD msg.w1.toNat 0, w1 := 1 }])
  | .getDirentry => do
    match ← nodeAt nodes msg.w1 with
    | none => none
    | some node =>
      if node.dir then do
        let ino ← mfGetDirentry node (msg.name.getD [])
        some (nodes,[{ msg with w1 := ino }])
      else some (nodes,[{ msg with w1 := -1 }])
  | _ => some (nodes,[msg])

-- The root directory is node 0: it has an entry "." for itself and one link.
def memfileStart : MfNodes :=
  (List.replicate mfMaxNodes none).set 0 (some { (mfLink (mfNewNode true) ['.'] 0).1 with links := 1 })

/- Everything a turn can do. `written` stands for the one way to change a file. -/
inductive MfTurn (nodes : MfNodes) (msg : Msg) : MfNodes → List Msg → Prop where
  | made {i : Nat} (call : msg.cmd = .mknod) (empty : nodes[i]? = some none) :
      MfTurn nodes msg (nodes.set i (some (mfNewNode false))) [{ msg with w0 := i }]
  | missingLink (call : msg.cmd = .link ∨ msg.cmd = .unlink) (absent : nodeAt nodes msg.w1 = some none) :
      MfTurn nodes msg nodes [{ msg with w1 := -1 }]
  | linked {i : Nat} {node : MfNode} (call : msg.cmd = .link) (index : msg.w1 = i)
      (there : nodes[i]? = some (some node)) :
      MfTurn nodes msg (nodes.set i (some { node with links := toChar (node.links + 1) })) [msg]
  | unlinked {i : Nat} {node : MfNode} (call : msg.cmd = .unlink) (index : msg.w1 = i)
      (there : nodes[i]? = some (some node)) :
      MfTurn nodes msg (nodes.set i (mfUnref { node with links := toChar (node.links - 1) })) [msg]
  | missing (call : msg.cmd = .inodeGrab ∨ msg.cmd = .inodeRelease) (absent : nodeAt nodes msg.w0 = some none) :
      MfTurn nodes msg nodes [{ msg with w0 := -1 }]
  | grabbed {i : Nat} {node : MfNode} (call : msg.cmd = .inodeGrab) (index : msg.w0 = i)
      (there : nodes[i]? = some (some node)) :
      MfTurn nodes msg (nodes.set i (some { node with refcnt := toChar (node.refcnt + 1) })) [msg]
  | released {i : Nat} {node : MfNode} (call : msg.cmd = .inodeRelease) (index : msg.w0 = i)
      (there : nodes[i]? = some (some node)) :
      MfTurn nodes msg (nodes.set i (mfUnref { node with refcnt := toChar (node.refcnt - 1) })) [msg]
  | written {i : Nat} {node : MfNode} {file : List Int} {size : Int} (call : msg.cmd = .writec)
      (index : msg.w0 = i) (there : nodes[i]? = some (some node)) :
      MfTurn nodes msg (nodes.set i (some { node with file := file, size := size })) [{ msg with w1 := 1 }]
  | told {a b c : Int} (call : msg.cmd ≠ .inodeGrab ∧ msg.cmd ≠ .inodeRelease) :
      MfTurn nodes msg nodes [{ msg with w0 := a, w1 := b, w2 := c }]

theorem memfileTurn {nodes after : MfNodes} {msg : Msg} {replies : List Msg}
    (ok : memfile nodes msg = some (after,replies)) : MfTurn nodes msg after replies := by
  have told : ∀ (m : Msg), m.cmd = msg.cmd → m.client = msg.client → m.name = msg.name →
      m.driver = msg.driver → msg.cmd ≠ .inodeGrab ∧ msg.cmd ≠ .inodeRelease →
      MfTurn nodes msg nodes [m] := by
    rintro ⟨cmd,client,a,b,c,name,driver⟩ rfl rfl rfl rfl call
    exact .told call
  unfold memfile at ok
  split at ok
  case h_1 call =>
    dsimp only at ok
    cases Option.some.inj ok
    unfold mfCreateNode
    split
    · exact told _ rfl rfl rfl rfl (by simp [call])
    · rename_i i found
      exact .made call (firstEmpty found)
  case h_2 call =>
    obtain ⟨absent,ok⟩ | ⟨node,index,there,ok⟩ := nodeLooked ok
    · cases Option.some.inj ok
      exact .missingLink (Or.inl call) absent
    · cases Option.some.inj ok
      exact .linked call index there
  case h_3 call =>
    obtain ⟨absent,ok⟩ | ⟨node,index,there,ok⟩ := nodeLooked ok
    · cases Option.some.inj ok
      exact .missingLink (Or.inr call) absent
    · cases Option.some.inj ok
      exact .unlinked call index there
  case h_4 call =>
    obtain ⟨absent,ok⟩ | ⟨node,index,there,ok⟩ := nodeLooked ok
    · cases Option.some.inj ok
      exact .missing (Or.inl call) absent
    · cases Option.some.inj ok
      exact .grabbed call index there
  case h_5 call =>
    obtain ⟨absent,ok⟩ | ⟨node,index,there,ok⟩ := nodeLooked ok
    · cases Option.some.inj ok
      exact .missing (Or.inr call) absent
    · cases Option.some.inj ok
      exact .released call index there
  case h_6 call =>
    split at ok
    · cases Option.some.inj ok
      exact told _ rfl rfl rfl rfl (by simp [call])
    obtain ⟨-,ok⟩ | ⟨node,index,there,ok⟩ := nodeLooked ok
    · cases ok
    dsimp only at ok
    split at ok <;> try contradiction
    cases Option.some.inj ok
    exact .written call index there
  case h_7 call =>
    have other : msg.cmd ≠ .inodeGrab ∧ msg.cmd ≠ .inodeRelease := by simp [call]
    split at ok
    · cases Option.some.inj ok
      exact told _ rfl rfl rfl rfl other
    obtain ⟨-,ok⟩ | ⟨node,-,-,ok⟩ := nodeLooked ok
    · cases ok
    dsimp only at ok
    split at ok
    · cases Option.some.inj ok
      exact told _ rfl rfl rfl rfl other
    split at ok <;> try contradiction
    cases Option.some.inj ok
    exact told _ rfl rfl rfl rfl other
  case h_8 call =>
    have other : msg.cmd ≠ .inodeGrab ∧ msg.cmd ≠ .inodeRelease := by simp [call]
    obtain ⟨-,ok⟩ | ⟨node,-,-,ok⟩ := nodeLooked ok
    · cases ok
    dsimp only at ok
    split at ok
    · obtain ⟨ino,-,last⟩ := Option.bind_eq_some_iff.mp ok
      cases Option.some.inj last
      exact told _ rfl rfl rfl rfl other
    · cases Option.some.inj ok
      exact told _ rfl rfl rfl rfl other
  case h_9 =>
    cases Option.some.inj ok
    refine told _ rfl rfl rfl rfl ⟨?_,?_⟩ <;> assumption

end Avros.Vfs
