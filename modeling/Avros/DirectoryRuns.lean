import Avros.Directory
import Avros.VfsExchanges
import Avros.VfsLifetimes

/-! The directories of memfile while VFS runs. A MKNOD makes plain files only, a LINK
names what a MKNOD has just made, and a RELEASE finds the root's link: what is left to
change a directory is a WRITEC. -/
namespace Avros.Vfs

def rootEntries : List (List Int × Int) := [(['.'].map charByte,0)]

structure Rooted (nodes : MfNodes) : Prop where
  root : ∃ node, nodes[0]? = some (some node) ∧ Directory node rootEntries ∧ node.links = 1
  files : ∀ (i : Nat) node, nodes[i]? = some (some node) → node.dir = true → i = 0

def Directories (drv : Devices) : Prop := ∀ pid nodes, drv.task pid = some (.memfile nodes) → Rooted nodes

theorem memfileStartRooted : Rooted memfileStart := by
  refine ⟨⟨_,rfl,⟨rfl,by decide,by decide,by decide,by decide⟩,rfl⟩,?_⟩
  intro i node found dir
  by_cases first : i = 0
  · exact first
  · rw [memfileStart,List.getElem?_set_ne (fun h => first h.symm)] at found
    cases List.eq_of_mem_replicate (List.mem_of_getElem? found)

section
variable {nodes after : MfNodes} {msg : Msg} {replies : List Msg} {i : Nat} {old new : MfNode}

theorem Rooted.file (rooted : Rooted nodes) {entry : Option MfNode} (inside : i ≠ 0)
    (plain : ∀ node, entry = some node → node.dir = false) : Rooted (nodes.set i entry) := by
  obtain ⟨root,there,held,linked⟩ := rooted.root
  refine ⟨⟨root,by rw [List.getElem?_set_ne inside,there],held,linked⟩,?_⟩
  intro j node found dir
  by_cases same : j = i
  · subst same
    rw [List.getElem?_set_self'] at found
    cases entry with
    | none => cases h : nodes[j]? <;> simp [h] at found
    | some new =>
      have own : new = node := by
        cases h : nodes[j]? with
        | none => simp [h] at found
        | some old => simpa [h] using found
      have notDir := plain new rfl
      rw [own,dir] at notDir
      contradiction
  · rw [List.getElem?_set_ne (fun h => same h.symm)] at found
    exact rooted.files j node found dir

theorem Rooted.counted (rooted : Rooted nodes) (there : nodes[i]? = some (some old)) (dir : new.dir = old.dir)
    (file : new.file = old.file) (size : new.size = old.size) (links : i = 0 → new.links = old.links) :
    Rooted (nodes.set i (some new)) := by
  by_cases first : i = 0
  · subst first
    obtain ⟨root,found,held,linked⟩ := rooted.root
    rw [there] at found
    cases Option.some.inj (Option.some.inj found)
    have inside := (List.getElem?_eq_some_iff.mp there).1
    refine ⟨⟨new,List.getElem?_set_self inside,?_,(links rfl).trans linked⟩,?_⟩
    · exact ⟨dir.trans held.dir,file.trans held.file,size.trans held.size,held.room,held.numbers⟩
    · intro j node found isDir
      by_cases same : j = 0
      · exact same
      · rw [List.getElem?_set_ne (fun h => same h.symm)] at found
        exact rooted.files j node found isDir
  · refine rooted.file first ?_
    rintro node ⟨⟩
    cases isDir : new.dir with
    | false => rfl
    | true => exact absurd (rooted.files i old there (dir ▸ isDir)) first

theorem Rooted.released (rooted : Rooted nodes) (there : nodes[i]? = some (some old)) (refcnt : Int) :
    Rooted (nodes.set i (mfUnref { old with refcnt := refcnt })) := by
  unfold mfUnref
  split
  · exact rooted.counted there rfl rfl rfl (fun _ => rfl)
  · rename_i unused
    by_cases first : i = 0
    · subst first
      obtain ⟨root,found,-,linked⟩ := rooted.root
      rw [there] at found
      cases Option.some.inj (Option.some.inj found)
      exact absurd (Or.inr (by rw [linked]; decide)) unused
    · exact rooted.file first (by simp)

theorem Rooted.empty (rooted : Rooted nodes) (free : nodes[i]? = some none) : i ≠ 0 := by
  rintro rfl
  obtain ⟨root,there,-⟩ := rooted.root
  rw [free] at there
  cases Option.some.inj there

theorem Rooted.plain (rooted : Rooted nodes) (call : Plain msg.cmd) (ok : memfile nodes msg = some (after,replies)) :
    Rooted after := by
  unfold Plain at call
  cases memfileTurn ok with
  | made other free => exact rooted.file (rooted.empty free) (by rintro node ⟨⟩; rfl)
  | missingLink => exact rooted
  | linked other => simp [other] at call
  | unlinked other => simp [other] at call
  | missing => exact rooted
  | grabbed other index there => exact rooted.counted there rfl rfl rfl (fun _ => rfl)
  | released other index there => exact rooted.released there _
  | written other => simp [other] at call
  | told => exact rooted

theorem mknodMakes (call : msg.cmd = .mknod) {made : Msg} (ok : memfile nodes msg = some (after,[made])) :
    (∃ i : Nat, nodes[i]? = some none ∧ after = nodes.set i (some (mfNewNode false)) ∧ made.w0 = i) ∨
    (after = nodes ∧ made.w0 = -1) := by
  unfold memfile at ok
  rw [call] at ok
  dsimp only at ok
  obtain ⟨rfl,told⟩ := Prod.mk.inj (Option.some.inj ok)
  have answer : (mfCreateNode nodes false).2 = made.w0 := congrArg Msg.w0 (List.cons.inj told).1
  rw [← answer]
  unfold mfCreateNode
  split
  · exact Or.inr ⟨rfl,rfl⟩
  · rename_i i found
    exact Or.inl ⟨i,firstEmpty found,rfl,rfl⟩

theorem Rooted.links (rooted : Rooted nodes) (call : msg.cmd = .mknod) {made next : Msg} {last : MfNodes}
    (first : memfile nodes msg = some (after,[made])) (link : next.cmd = .link) (named : next.w1 = made.w0)
    (second : memfile after next = some (last,replies)) : Rooted last := by
  have held : Rooted after := rooted.plain (by simp [Plain,call]) first
  rcases mknodMakes call first with ⟨i,free,made_,answer⟩ | ⟨-,answer⟩
  · have other := rooted.empty free
    have inside := (List.getElem?_eq_some_iff.mp free).1
    cases memfileTurn second with
    | linked _ index there =>
      have same : i = _ := Int.ofNat.inj ((answer.symm.trans named.symm).trans index)
      subst same
      refine held.counted there rfl rfl rfl (fun zero => absurd zero other)
    | made call' => simp [link] at call'
    | missingLink => exact held
    | unlinked call' => simp [link] at call'
    | missing => exact held
    | grabbed call' => simp [link] at call'
    | released call' => simp [link] at call'
    | written call' => simp [link] at call'
    | told => exact held
  · unfold memfile nodeAt at second
    rw [link] at second
    simp [named,answer] at second

theorem Rooted.transfers (rooted : Rooted nodes) (call : msg.cmd = .readc ∨ msg.cmd = .writec)
    (spared : msg.cmd = .writec → ∀ node, nodeAt nodes msg.w0 = some (some node) → msg.w1 < 127 → node.dir = false)
    (ok : memfile nodes msg = some (after,replies)) : Rooted after := by
  rcases call with read | write
  · unfold memfile at ok
    rw [read] at ok
    dsimp only at ok
    split at ok
    · obtain ⟨rfl,-⟩ := Prod.mk.inj (Option.some.inj ok)
      exact rooted
    simp only [bind,Option.bind_eq_some_iff] at ok
    obtain ⟨entry,found,ok⟩ := ok
    split at ok <;> try contradiction
    split at ok
    · obtain ⟨rfl,-⟩ := Prod.mk.inj (Option.some.inj ok)
      exact rooted
    split at ok <;> try contradiction
    obtain ⟨rfl,-⟩ := Prod.mk.inj (Option.some.inj ok)
    exact rooted
  · unfold memfile at ok
    rw [write] at ok
    dsimp only at ok
    split at ok
    · obtain ⟨rfl,-⟩ := Prod.mk.inj (Option.some.inj ok)
      exact rooted
    rename_i below
    simp only [bind,Option.bind_eq_some_iff] at ok
    obtain ⟨entry,found,ok⟩ := ok
    split at ok <;> try contradiction
    rename_i node
    split at ok <;> try contradiction
    obtain ⟨rfl,-⟩ := Prod.mk.inj (Option.some.inj ok)
    have plain := spared write node found (Int.not_le.mp below)
    obtain ⟨root,there,held,-⟩ := rooted.root
    refine rooted.file ?_ (by rintro new ⟨⟩; exact plain)
    intro first
    have same := (nodeAtSome found).2
    rw [first,there] at same
    cases Option.some.inj (Option.some.inj same)
    rw [held.dir] at plain
    contradiction

end

/-! The device tasks. -/

theorem askMemfile {drv drv' : Devices} {pid q : Pid} {msg : Msg} {replies : List Msg} {nodes : MfNodes}
    (ok : drivers.ask drv pid msg = some (drv',replies)) (task : drv'.task q = some (.memfile nodes)) :
    (q ≠ pid ∧ drv.task q = some (.memfile nodes)) ∨
    (q = pid ∧ ∃ before, drv.task pid = some (.memfile before) ∧ memfile before msg = some (nodes,replies)) := by
  obtain ⟨d,d',there,turn,rfl⟩ := askSource ok
  by_cases same : q = pid
  · subst same
    rw [putSelf] at task
    cases Option.some.inj task
    cases d with
    | pipedev _ => simp [askDevice] at turn
    | ttyUsart0 _ => simp [askDevice] at turn
    | memfile before =>
      obtain ⟨after,made,turned⟩ := deviceTurn turn
      cases made
      exact Or.inr ⟨rfl,before,there,turned⟩
  · rw [putOther drv same] at task
    exact Or.inl ⟨same,task⟩

/- Does a request leave the directories alone? It does unless it is a WRITEC that memfile
takes and that leads to a directory. -/
def SparesDirectories (s : System Devices) (i : Input) : Prop :=
  i.request.msg.cmd = .writec → ∀ pid msg nodes node, transfer s.vfs i.request = some (pid,msg) →
    s.drv.task pid = some (.memfile nodes) → nodeAt nodes msg.w0 = some (some node) → msg.w1 < 127 → node.dir = false

theorem transferCall {s : Tables} {r : Request} {pid : Pid} {msg : Msg} (goes : transfer s r = some (pid,msg)) :
    msg.cmd = r.msg.cmd := by
  unfold transfer at goes
  split at goes <;> try contradiction
  simp only [bind,Option.bind_eq_some_iff] at goes
  obtain ⟨t,-,fp,-,goes⟩ := goes
  split at goes <;> try contradiction
  simp only [Option.bind_eq_some_iff] at goes
  obtain ⟨f,-,q,-,last⟩ := goes
  obtain ⟨-,rfl⟩ := Prod.mk.inj (Option.some.inj last)
  rfl

theorem directoriesExchanges {s : System Devices} {i : Input} (held : Directories s.drv) (spares : SparesDirectories s i) :
    Exchanges drivers s.vfs { s.drv with rx := i.rx } i.request Directories where
  starts _ drv driver held q nodes task := by
    by_cases same : q = i.request.newtask
    · subst same
      have own := (putSelf drv i.request.newtask (startDevice driver)).symm.trans task
      cases driver with
      | pipedev => cases Option.some.inj own
      | ttyUsart0 => cases Option.some.inj own
      | memfile =>
        cases Option.some.inj own
        exact memfileStartRooted
    · exact held q nodes ((putOther drv same (startDevice driver)).symm.trans task)
  plain drv pid msg drv' replies held call ok q nodes task := by
    rcases askMemfile ok task with ⟨-,old⟩ | ⟨-,before,there,turn⟩
    · exact held q nodes old
    · exact (held pid before there).plain call turn
  links drv pid msg drv' made next drv'' replies held call first link named second q nodes task := by
    rcases askMemfile second task with ⟨other,old⟩ | ⟨-,before,there,turn⟩
    · rcases askMemfile first old with ⟨-,older⟩ | ⟨same,-⟩
      · exact held q nodes older
      · exact absurd same other
    · rcases askMemfile first there with ⟨other,-⟩ | ⟨-,older,there',made'⟩
      · exact absurd rfl other
      · exact (held pid older there').links call made' link named turn
  transfers call pid msg drv' replies goes ok q nodes task := by
    rcases askMemfile ok task with ⟨-,old⟩ | ⟨-,before,there,turn⟩
    · exact held q nodes old
    · have same := transferCall goes
      refine (held pid before there).transfers (by rw [same]; exact call) ?_ turn
      intro write node found below
      exact spares (same ▸ write) pid msg before node goes there found below

theorem servedDirectories {s s' : System Devices} {i : Input} {out : List (Event Devices)} (held : Directories s.drv)
    (spares : SparesDirectories s i) (taken : served s i = some (s',out)) : Directories s'.drv := by
  obtain ⟨y,processed,rfl,-⟩ := servedSource taken
  exact (directoriesExchanges held spares).process rfl held processed

/- A directory whose entries lead to nodes and are counted. -/
structure WellFormed (nodes : MfNodes) (node : MfNode) : Prop where
  entries : ∀ e, e < mfMaxEntries → entryIno node.file e = -1 ∨ ∃ n, nodeAt nodes (entryIno node.file e) = some (some n)
  counted : node.size = (List.range mfMaxEntries).countP (fun e => entryIno node.file e ≠ -1)

theorem Rooted.wellFormed {nodes : MfNodes} (rooted : Rooted nodes) {i : Nat} {node : MfNode}
    (there : nodes[i]? = some (some node)) (dir : node.dir = true) : WellFormed nodes node := by
  obtain ⟨root,found,held,-⟩ := rooted.root
  obtain rfl := rooted.files i node there dir
  rw [there] at found
  cases Option.some.inj (Option.some.inj found)
  have entry := directoryEntry held
  refine ⟨?_,?_⟩
  · intro e inside
    cases e with
    | zero =>
      rw [entry 0 inside]
      exact Or.inr ⟨node,there⟩
    | succ e =>
      rw [entry _ inside]
      exact Or.inl rfl
  · rw [held.size]
    have same : (List.range mfMaxEntries).countP (fun e => decide (entryIno node.file e ≠ -1)) =
        (List.range mfMaxEntries).countP (fun e => decide (((rootEntries.map Prod.snd)[e]?).getD (-1) ≠ -1)) := by
      refine List.countP_congr ?_
      intro e member
      rw [entry e (List.mem_range.mp member)]
    rw [same]
    decide

theorem Rooted.dot {nodes : MfNodes} (rooted : Rooted nodes) :
    ∃ root, nodes[0]? = some (some root) ∧ root.dir = true ∧ mfGetDirentry root ['.'] = some 0 := by
  obtain ⟨root,found,held,-⟩ := rooted.root
  refine ⟨root,found,held.dir,?_⟩
  rw [looked held (by decide)]
  decide

theorem directoriesWellFormed {s : System Devices} {history : List (Event Devices)}
    (run : Run.Reaches served SparesDirectories Started s history) (pid : Pid) {nodes : MfNodes}
    (there : s.drv.task pid = some (.memfile nodes)) :
    (∀ (i : Nat) node, nodes[i]? = some (some node) → node.dir = true → WellFormed nodes node) ∧
    ∃ root, nodes[0]? = some (some root) ∧ root.dir = true ∧ mfGetDirentry root ['.'] = some 0 := by
  have held : Directories s.drv := run.stateInvariant (P := fun s => Directories s.drv)
    (by
      rintro s ⟨newtask,-,rfl⟩ q nodes task
      by_cases same : q = newtask
      · subst same
        cases (putSelf noDevices q (startDevice .pipedev)).symm.trans task
      · cases (putOther noDevices same (startDevice .pipedev)).symm.trans task)
    (fun _ _ _ _ held spares taken => servedDirectories held spares taken)
  have rooted := held pid nodes there
  exact ⟨fun i node found dir => rooted.wellFormed found dir,rooted.dot⟩

def mkdevMemfile : Input := ⟨⟨0x10,{ demoMsg .mkdev 0 0 0 with driver := .memfile },2,fun _ => true⟩,0⟩

theorem sparesOther {s : System Devices} {i : Input} (other : i.request.msg.cmd ≠ .writec) : SparesDirectories s i :=
  fun call => absurd call other

-- A file is made, opened and written.
theorem directoriesWellFormedBesideFile : ∃ s history nodes, Run.Reaches served SparesDirectories Started s history ∧
    s.drv.task 2 = some (.memfile nodes) ∧ nodes[1]? ≠ some none ∧
    ∃ root, nodes[0]? = some (some root) ∧ root.dir = true ∧ mfGetDirentry root ['.'] = some 0 := by
  have start : Run.Reaches served SparesDirectories Started (vfsInit drivers 1 noDevices) [] := .start ⟨1,by decide,rfl⟩
  have device := start.next (i := mkdevMemfile) (sparesOther (by decide)) rfl
  have added := device.next (i := demoInput 2 (demoMsg .addtask 0x10 0 0)) (sparesOther (by decide)) rfl
  have made := added.next (i := demoInput 0x10 { demoMsg .mknod 0 0 0 with name := some ['a'] }) (sparesOther (by decide)) rfl
  have opened := made.next (i := demoInput 0x10 (demoMsg .open_ 1 1 0)) (sparesOther (by decide)) rfl
  have written := opened.next (i := demoInput 0x10 (demoMsg .writec 0 0 97))
    (by
      rintro - pid msg nodes node goes there found -
      obtain ⟨rfl,rfl⟩ := Prod.mk.inj (Option.some.inj goes)
      cases Option.some.inj there
      cases Option.some.inj (Option.some.inj found)
      rfl) rfl
  exact ⟨_,_,_,written,rfl,by decide,(directoriesWellFormed written 2 rfl).2⟩

/- OPEN and WRITEC take a directory for a file: the name in its first entry goes, and its
size is taken for the number of its entries. -/
theorem rootOverwritten : ∃ s history nodes root, Run.Reaches served (fun _ _ => True) Started s history ∧
    s.drv.task 2 = some (.memfile nodes) ∧ nodes[0]? = some (some root) ∧ root.dir = true ∧
    mfGetDirentry root ['.'] = some (-1) ∧ ¬ WellFormed nodes root := by
  have start : Run.Reaches served (fun _ _ => True) Started (vfsInit drivers 1 noDevices) [] := .start ⟨1,by decide,rfl⟩
  have device := start.next (i := mkdevMemfile) trivial rfl
  have added := device.next (i := demoInput 2 (demoMsg .addtask 0x10 0 0)) trivial rfl
  have opened := added.next (i := demoInput 0x10 (demoMsg .open_ 1 0 0)) trivial rfl
  have once := opened.next (i := demoInput 0x10 (demoMsg .writec 0 0 97)) trivial rfl
  have twice := once.next (i := demoInput 0x10 (demoMsg .writec 0 0 97)) trivial rfl
  refine ⟨_,_,_,_,twice,rfl,rfl,rfl,by decide +kernel,?_⟩
  intro formed
  exact absurd formed.counted (by decide +kernel)

end Avros.Vfs
