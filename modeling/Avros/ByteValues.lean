import Avros.MemFileTransfer
import Avros.TtyLine
import Mathlib.Data.List.Induction

/-! Data and the end of the file share one `int`. memfile's `file` and the terminal's
`tbuf` are arrays of `char`: of the byte values 0 to 255 the lower half comes back as it
went in, the upper half negative, and 255 as EOF. -/
namespace Avros.Vfs

def IsByte (b : Int) : Prop := 0 ≤ b ∧ b ≤ 255

theorem toCharByte {b : Int} (byte : IsByte b) : (toChar b = b ↔ b < 128) ∧ (toChar b = eof ↔ b = 255) := by
  unfold IsByte at byte
  unfold toChar eof
  omega

/-! What is committed, byte by byte: `none` is an end-of-file keystroke. -/

def commits (line : List Int) (b : Int) : List (Option Int) :=
  if b = 0x04 then if line = [] then [none] else line.map some
  else if b = 0x03 then []
  else if b = 0x08 then []
  else if b = 13 ∨ b = 10 then (line ++ [b]).map some
  else []

def commitAll (s : List Int × List (Option Int)) (b : Int) : List Int × List (Option Int) :=
  ((typeInto s.1 b).1,s.2 ++ commits s.1 b)

def committed (bytes : List Int) : List (Option Int) := (bytes.foldl commitAll ([],[])).2

def shown : Option Int → Int
  | none => eof
  | some b => toChar b

section
variable {bytes line : List Int} {b : Int}

theorem commitsShown (line : List Int) (b : Int) : (typeInto line b).2 = (commits line b).map shown := by
  have same : ∀ l : List Int, (l.map some).map shown = l.map toChar := by
    intro l
    rw [List.map_map]
    rfl
  unfold typeInto commits
  split
  · split
    · rfl
    · exact (same line).symm
  split
  · rfl
  split
  · rfl
  split
  · exact (same (line ++ [b])).symm
  · rfl

theorem commitLine (bytes : List Int) : (bytes.foldl commitAll ([],[])).1 = uncommitted bytes := by
  induction bytes using List.reverseRecOn with
  | nil => rfl
  | append_singleton bytes b ih => rw [List.foldl_append,uncommittedSnoc,← ih]; rfl

theorem committedSnoc (bytes : List Int) (b : Int) :
    committed (bytes ++ [b]) = committed bytes ++ commits (uncommitted bytes) b := by
  rw [← commitLine]
  simp [committed,commitAll]

theorem editedShown (bytes : List Int) : edited bytes = (committed bytes).map shown := by
  induction bytes using List.reverseRecOn with
  | nil => rfl
  | append_singleton bytes b ih => rw [editedSnoc,committedSnoc,commitsShown,ih,List.map_append]

theorem typeIntoTyped {c : Int} (member : c ∈ (typeInto line b).1 ∨ some c ∈ commits line b) : c ∈ line ∨ c = b := by
  unfold typeInto commits at member
  split at member
  · split at member <;> simp_all
  split at member
  · simp_all
  split at member
  · exact .inl (List.dropLast_subset line (by simpa using member))
  split at member
  · simpa using member
  · simpa using member

theorem committedTyped {c : Int} (member : c ∈ uncommitted bytes ∨ some c ∈ committed bytes) : c ∈ bytes := by
  induction bytes using List.reverseRecOn with
  | nil => simp [uncommitted,committed] at member
  | append_singleton bytes b ih =>
    rw [uncommittedSnoc,committedSnoc,List.mem_append] at member
    have new : some c ∈ committed bytes ∨ (c ∈ uncommitted bytes ∨ c = b) := by
      rcases member with line | old | commit
      · exact .inr (typeIntoTyped (.inl line))
      · exact .inl old
      · exact .inr (typeIntoTyped (.inr commit))
    rw [List.mem_append,List.mem_singleton]
    rcases new with old | line | rfl
    · exact .inl (ih (.inr old))
    · exact .inl (ih (.inl line))
    · exact .inr rfl

end

-- UDR0 is a byte.
def TypesBytes (t : Tty) (i : TtyInput) : Prop := FromClients t i ∧ (i.msg.cmd = .rdInterrupt → IsByte i.rx)

theorem typedBytes {t : Tty} {history : List TtyEvent} (run : Run.Reaches ttyTurn TypesBytes (· = ttyStart) t history) :
    ∀ b ∈ typed history, IsByte b := by
  refine run.invariant (P := fun _ history => ∀ b ∈ typed history, IsByte b) (fun _ _ => by simp [typed]) ?_
  intro t history i t' out held legal taken b member
  simp only [ttyTurn,bind,Option.bind_eq_some_iff] at taken
  obtain ⟨⟨after,replies⟩,-,last⟩ := taken
  obtain ⟨rfl,rfl⟩ := Prod.mk.inj (Option.some.inj last)
  rw [typedAppend,turnTyped] at member
  rcases List.mem_append.mp member with old | new
  · exact held b old
  · unfold ttyArrivals at new
    split at new
    case h_3 call =>
      have own : b = i.rx := by simpa [typed,List.filterMap_map,Function.comp_def] using new
      exact own ▸ legal.2 call
    all_goals simp [typed] at new

theorem lineReturned {t : Tty} {history : List TtyEvent} (run : Run.Reaches ttyTurn TypesBytes (· = ttyStart) t history)
    {k : Nat} {client : Pid} {a : Int} (told : (ttyAnswered .readc history)[k]? = some (client,a)) :
    ∃ e, (committed (typed history))[k]? = some e ∧ (∀ b, e = some b → (a = b ↔ b < 128)) ∧
      (a = eof ↔ e = none ∨ e = some 255) := by
  have lined := (disciplined (run.weaken (fun _ _ legal => legal.1) (fun _ start => start))).2
  rw [lined.told,List.getElem?_zipWith_eq_some] at told
  obtain ⟨reader,token,-,at_,pair⟩ := told
  rw [List.getElem?_map,editedShown,List.getElem?_map,Option.map_map,Option.map_eq_some_iff] at at_
  obtain ⟨e,entry,rfl⟩ := at_
  obtain ⟨-,rfl⟩ := Prod.mk.inj pair
  refine ⟨e,entry,?_,?_⟩
  all_goals
    cases e with
    | none => simp [shown,charToken]
    | some b =>
      have byte := typedBytes run b (committedTyped (.inr (List.mem_of_getElem? entry)))
      obtain ⟨same,ends⟩ := toCharByte byte
      simpa [shown,charToken] using by assumption

/-! A file of memfile, as the bytes that were written to it. -/

section
variable {s : System Devices} {i : Input} {client : Pid} {fd pos : Nat} {dev ino size : Int} {stored : List Int}

theorem byteStored {b : Int} (real : client ≠ 0) (asks : Asks i client fd .writec b)
    (at_ : position s.vfs client fd = some (dev,ino,(pos : Int)))
    (there : fileOf s dev ino = some (stored.map toChar,size)) (room : pos < 127) :
    ∃ s' out, served s i = some (s',out) ∧
      fileOf s' dev ino = some ((stored.set pos b).map toChar,((pos + 1 : Nat) : Int)) := by
  obtain ⟨s',out,taken,outcome⟩ := writeServed real asks at_ there (Int.natCast_nonneg pos) (by omega)
  refine ⟨s',out,taken,?_⟩
  rw [outcome.file,Int.toNat_natCast,List.map_set]
  rfl

theorem fileReturned {x : Int} (real : client ≠ 0) (asks : Asks i client fd .readc x)
    (at_ : position s.vfs client fd = some (dev,ino,(pos : Int)))
    (there : fileOf s dev ino = some (stored.map toChar,size)) (array : stored.length = mfMaxEntries * mfEntrySize)
    (bytes : ∀ b ∈ stored, IsByte b) :
    ∃ s' out a, served s i = some (s',out) ∧ sends out = [(client,a)] ∧
      (∀ b, pos < 127 → (pos : Int) < size → stored[pos]? = some b → (a = b ↔ b < 128)) ∧
      (a = eof ↔ 127 ≤ pos ∨ size ≤ pos ∨ stored[pos]? = some 255) := by
  by_cases inside : (pos : Int) < 127 ∧ (pos : Int) < size
  · obtain ⟨s',out,taken,outcome⟩ := readServed real asks at_ there (Int.natCast_nonneg pos) inside
    have within : pos < stored.length := by
      rw [array,mfMaxEntries,mfEntrySize]
      omega
    have entry : stored[pos]? = some stored[pos] := List.getElem?_eq_getElem within
    obtain ⟨same,ends⟩ := toCharByte (bytes _ (List.getElem_mem within))
    have read : (stored.map toChar).getD ((pos : Int).toNat) 0 = toChar stored[pos] := by
      rw [Int.toNat_natCast,List.getD_eq_getElem?_getD,List.getElem?_map,entry]
      rfl
    refine ⟨s',out,_,taken,outcome.told,?_,?_⟩
    · intro b _ _ there
      rw [entry] at there
      cases Option.some.inj there
      rw [read]
      exact same
    · rw [read,ends,entry,Option.some.injEq]
      omega
  · obtain ⟨s',out,taken,outcome⟩ := readEnded real asks at_ there (by omega)
    refine ⟨s',out,eof,taken,outcome.told,fun b low short => absurd ⟨by omega,short⟩ inside,?_⟩
    have ended : 127 ≤ pos ∨ size ≤ pos := by omega
    simp only [true_iff]
    rcases ended with full | short
    · exact .inl full
    · exact .inr (.inl short)

end

-- A pipe passes the whole int on, and answers EOF of its own accord when the other end is closed.
theorem pdRwEof {node : PdNode} {m a : Msg} (kinds : ∀ q ∈ node.msgs, q.cmd = .readc ∨ q.cmd = .writec)
    (call : m.cmd = .readc ∨ m.cmd = .writec) (data : ∀ q ∈ m::node.msgs, q.cmd = .writec → q.w2 ≠ eof)
    (told : a ∈ (pdRw node m).2) (answer : a.cmd ≠ .hold) (ends : a.w2 = eof) :
    node.msgs = [] ∧ node.refcnt ≤ 1 ∧ node.links = 0 := by
  unfold pdRw at told
  split at told
  · rename_i empty
    split at told
    · rename_i closed
      exact ⟨empty,closed⟩
    · simp only [pdSave,List.mem_singleton] at told
      rw [told] at answer
      contradiction
  rename_i container rest queue
  have first := kinds container (queue ▸ List.mem_cons_self)
  have written := data container (List.mem_cons_of_mem _ (queue ▸ List.mem_cons_self))
  have own := data m List.mem_cons_self
  split at told
  · simp only [pdSave,List.mem_singleton] at told
    rw [told] at answer
    contradiction
  rename_i other
  -- Of the two that meet one writes, and both are told its data.
  rcases first with read | write
  · have writes : m.cmd = .writec := call.resolve_left (fun h => other (read.trans h.symm))
    simp only [read,if_true,if_neg (by decide : ¬ Cmd.readc = .writec),List.mem_cons,List.not_mem_nil,or_false] at told
    rcases told with rfl | rfl <;> exact absurd ends (own writes)
  · simp only [write,if_true,if_neg (by decide : ¬ Cmd.writec = .readc),List.mem_cons,List.not_mem_nil,or_false] at told
    rcases told with rfl | rfl <;> exact absurd ends (written write)

/-- A byte comes back as itself exactly if it is below 128, and is taken for EOF exactly if it
is 255: from a file, from a line, and never from a pipe. -/
theorem bytesReturned (s : System Devices) (t : Tty) (node : PdNode) :
    (∀ client fd dev ino (pos : Nat) size (stored : List Int), client ≠ 0 →
      position s.vfs client fd = some (dev,ino,(pos : Int)) → fileOf s dev ino = some (stored.map toChar,size) →
      stored.length = mfMaxEntries * mfEntrySize → (∀ b ∈ stored, IsByte b) →
      (∀ i b, Asks i client fd .writec b → pos < 127 → ∃ s' out, served s i = some (s',out) ∧
        fileOf s' dev ino = some ((stored.set pos b).map toChar,((pos + 1 : Nat) : Int))) ∧
      ∀ i x, Asks i client fd .readc x → ∃ s' out a, served s i = some (s',out) ∧ sends out = [(client,a)] ∧
        (∀ b, pos < 127 → (pos : Int) < size → stored[pos]? = some b → (a = b ↔ b < 128)) ∧
        (a = eof ↔ 127 ≤ pos ∨ size ≤ pos ∨ stored[pos]? = some 255)) ∧
    (∀ history, Run.Reaches ttyTurn TypesBytes (· = ttyStart) t history →
      ∀ (k : Nat) client a, (ttyAnswered .readc history)[k]? = some (client,a) →
        ∃ e, (committed (typed history))[k]? = some e ∧ (∀ b, e = some b → (a = b ↔ b < 128)) ∧
          (a = eof ↔ e = none ∨ e = some 255)) ∧
    ∀ m, (∀ q ∈ node.msgs, q.cmd = .readc ∨ q.cmd = .writec) → m.cmd = .readc ∨ m.cmd = .writec →
      (∀ q ∈ m::node.msgs, q.cmd = .writec → IsByte q.w2) → ∀ a ∈ (pdRw node m).2, a.cmd ≠ .hold → a.w2 = eof →
        node.msgs = [] ∧ node.refcnt ≤ 1 ∧ node.links = 0 := by
  refine ⟨?_,?_,?_⟩
  · intro client fd dev ino pos size stored real at_ there array bytes
    exact ⟨fun i b asks room => byteStored real asks at_ there room,
      fun i x asks => fileReturned real asks at_ there array bytes⟩
  · exact fun history run k client a told => lineReturned run told
  · intro m kinds call data a told answer ends
    refine pdRwEof kinds call ?_ told answer ends
    intro q member write same
    have byte := (data q member write).1
    rw [same] at byte
    exact absurd byte (by decide)

def demoFile (stored : List Int) : System Devices :=
  ⟨⟨[1,2,0,0,0,0],0,⟨1,1,1,0⟩::List.replicate 15 ⟨0,0,0,0⟩,[⟨0x10,[0,-1,-1,-1,-1,-1,-1,-1],1,0,1,0⟩],0⟩,
    putDevice noDevices 2 (.memfile (memfileStart.set 1 (some ⟨1,1,false,stored.map toChar,1⟩)))⟩

theorem bytesReturnedHigh : ∃ s' out a, served (demoFile ((List.replicate 128 0).set 0 200))
    (demoInput 0x10 (demoMsg .readc 0 0 0)) = some (s',out) ∧ sends out = [(0x10,a)] ∧ a ≠ 200 ∧ a ≠ eof := by
  have bytes : ∀ b ∈ (List.replicate 128 (0 : Int)).set 0 200, IsByte b := by
    intro b member
    unfold IsByte
    rcases List.mem_or_eq_of_mem_set member with old | rfl
    · rw [List.eq_of_mem_replicate old]
      decide
    · decide
  obtain ⟨s',out,a,taken,told,same,ends⟩ := ((bytesReturned (demoFile ((List.replicate 128 0).set 0 200)) ttyStart ⟨0,0,[]⟩).1
    0x10 0 1 1 0 1 ((List.replicate 128 0).set 0 200) (by decide) rfl rfl
    (by rw [List.length_set,List.length_replicate]; rfl) bytes).2
    (demoInput 0x10 (demoMsg .readc 0 0 0)) 0 ⟨rfl,rfl,rfl,rfl⟩
  have first : ((List.replicate 128 (0 : Int)).set 0 200)[0]? = some 200 := rfl
  refine ⟨s',out,a,taken,told,?_,?_⟩
  · have back := same 200 (by decide) (by decide) first
    omega
  · rw [first] at ends
    intro eof_
    simpa using ends.mp eof_

/- 255 is written to a file and read back; 255 is typed, and a newline. Both readers are
told EOF, and more data follows. -/
theorem byteTakenForEof :
    (∃ a out writes b d out' reads e, served demoDisk (demoInput 0x10 (demoMsg .open_ 1 1 0)) = some (a,out) ∧
      Transcript .writec 0x10 0 1 1 a writes b ∧ writes.map Moved.data = [255,65] ∧
      served b (demoInput 0x10 (demoMsg .open_ 1 1 0)) = some (d,out') ∧
      Transcript .readc 0x10 1 1 1 d reads e ∧ reads.map Moved.told = [[(0x10,eof)],[(0x10,65)]]) ∧
    ∃ t history, Run.Reaches ttyTurn TypesBytes (· = ttyStart) t history ∧ typed history = [255,10] ∧
      ttyAnswered .readc history = [(0x10,eof),(0x10,10)] := by
  constructor
  · exact ⟨_,_,_,_,_,_,_,_,rfl,.right 255 rfl (.right 65 rfl (.done _)),rfl,rfl,.right 0 rfl (.right 0 rfl (.done _)),rfl⟩
  · have start : Run.Reaches ttyTurn TypesBytes (· = ttyStart) ttyStart [] := .start rfl
    have waits := start.next (i := ⟨⟨.readc,0x10,0,0,0,none,.ttyUsart0⟩,0⟩) ⟨by simp [FromClients],by simp⟩ rfl
    have both := waits.next (i := ⟨⟨.readc,0x10,0,0,0,none,.ttyUsart0⟩,0⟩) ⟨by simp [FromClients],by simp⟩ rfl
    have key := both.next (i := ⟨⟨.rdInterrupt,0x20,0,0,0,none,.ttyUsart0⟩,255⟩)
      ⟨by simp [FromClients],fun _ => ⟨by decide,by decide⟩⟩ rfl
    exact ⟨_,_,key.next (i := ⟨⟨.rdInterrupt,0x20,0,0,0,none,.ttyUsart0⟩,10⟩)
      ⟨by simp [FromClients],fun _ => ⟨by decide,by decide⟩⟩ rfl,rfl,rfl⟩

end Avros.Vfs
