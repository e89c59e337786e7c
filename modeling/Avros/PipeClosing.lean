import Avros.VfsDrivers

/-! A pipe that has lost an end keeps nobody waiting. `grabs` counts, for each node, the
GRABs that no RELEASE has matched since the node was made; the driver keeps that count
in a `char`, which is exact up to 127. -/
namespace Avros.Vfs

structure PipeState where
  nodes : PdNodes
  grabs : Nat → Nat

def countGrabs (s : PipeState) (m : Msg) : Nat → Nat :=
  match m.cmd with
  | .mknod => (pdFindEmptyNode s.nodes).elim s.grabs (fun i => Function.update s.grabs i 0)
  | .inodeGrab => Function.update s.grabs m.w0.toNat (s.grabs m.w0.toNat + 1)
  | .inodeRelease => Function.update s.grabs m.w0.toNat (s.grabs m.w0.toNat - 1)
  | _ => s.grabs

def pipeServe : Run.Step PipeState Msg (Msg × List Msg) := fun s m => do
  let (after,replies) ← pipedev s.nodes m
  some (⟨after,countGrabs s m⟩,[(m,replies)])

/- What VFS sends to its pipes: no LINK or UNLINK, and a RELEASE only for a GRAB. -/
structure Sendable (s : PipeState) (m : Msg) : Prop where
  unlinked : m.cmd ≠ .link ∧ m.cmd ≠ .unlink
  matched : m.cmd = .inodeRelease → 0 < s.grabs m.w0.toNat

-- The count of the node a GRAB names still fits in the driver's `char`.
structure Fitting (s : PipeState) (m : Msg) : Prop where
  sendable : Sendable s m
  fits : m.cmd = .inodeGrab → s.grabs m.w0.toNat < 127

def FreshPipes (s : PipeState) : Prop := s.nodes = pipedevStart ∧ ∀ i, s.grabs i = 0

structure Quiescent (grabs : Nat) (node : PdNode) : Prop where
  count : node.refcnt = grabs
  range : grabs ≤ 127
  links : node.links = 0
  empty : grabs ≤ 1 → node.msgs = []

def Closing (s : PipeState) : Prop :=
  ∀ (i : Nat) (node : PdNode), s.nodes[i]? = some (some node) → Quiescent (s.grabs i) node

theorem Quiescent.grabbed {grabs : Nat} {node : PdNode} (held : Quiescent grabs node) (fits : grabs < 127) :
    Quiescent (grabs + 1) { node with refcnt := toChar (node.refcnt + 1) } where
  count := by rw [held.count]; exact toCharSmall (by omega) (by omega)
  range := fits
  links := held.links
  empty few := held.empty (by omega)

/- A RELEASE flushes the queue on the way to one reference, and only then can the next
one free the node. -/
theorem Quiescent.released {grabs : Nat} {node : PdNode} (held : Quiescent grabs node) (matched : 0 < grabs)
    (msg : Msg) :
    (grabs = 2 ∧ pdRelease node msg =
      (some { node with refcnt := 1, msgs := [] },node.msgs.map pdFlushed ++ [msg])) ∨
    (2 < grabs ∧ pdRelease node msg = (some { node with refcnt := (grabs - 1 : Nat) },[msg])) ∨
    (grabs = 1 ∧ node.msgs = [] ∧ pdRelease node msg = (none,[msg])) := by
  have range := held.range
  have count : toChar (node.refcnt - 1) = ((grabs - 1 : Nat) : Int) := by
    rw [held.count,toCharSmall (by omega) (by omega)]
    omega
  unfold pdRelease
  dsimp only
  rw [count,held.links]
  by_cases two : grabs = 2
  · subst two
    exact Or.inl ⟨rfl,rfl⟩
  by_cases last : grabs = 1
  · subst last
    exact Or.inr (Or.inr ⟨rfl,held.empty (by omega),rfl⟩)
  refine Or.inr (Or.inl ⟨by omega,?_⟩)
  rw [if_neg (by omega),if_pos (by omega)]

theorem Quiescent.passed {grabs : Nat} {node : PdNode} (held : Quiescent grabs node) (msg : Msg) :
    Quiescent grabs (pdRw node msg).1 := by
  unfold pdRw
  split
  · rename_i none
    split
    · exact held
    · rename_i several
      have more : 1 < grabs := by
        have count := held.count
        have links := held.links
        omega
      exact ⟨held.count,held.range,held.links,fun few => absurd few (by omega)⟩
  · rename_i container rest line
    have more : 1 < grabs := by
      refine Nat.lt_of_not_le ?_
      intro few
      rw [held.empty few] at line
      contradiction
    split
    · exact ⟨held.count,held.range,held.links,fun few => absurd few (by omega)⟩
    · exact ⟨held.count,held.range,held.links,fun few => absurd few (by omega)⟩

theorem pipeServeClosing {s : PipeState} {m : Msg} {after : PdNodes} {replies : List Msg} (held : Closing s)
    (fitting : Fitting s m) (ok : pipedev s.nodes m = some (after,replies)) :
    Closing ⟨after,countGrabs s m⟩ := by
  intro j node found
  cases pipedevTurn ok with
  | @made i call index empty =>
    simp only [countGrabs,call,index,Option.elim_some]
    rcases setNode empty found with ⟨rfl,same⟩ | ⟨other,old⟩
    · cases Option.some.inj same
      rw [Function.update_self]
      exact ⟨rfl,by omega,rfl,fun _ => rfl⟩
    · rw [Function.update_of_ne other]
      exact held j node old
  | missingLink call =>
    rcases call with call | call
    · exact absurd call fitting.sendable.unlinked.1
    · exact absurd call fitting.sendable.unlinked.2
  | linked call => exact absurd call fitting.sendable.unlinked.1
  | unlinked call => exact absurd call fitting.sendable.unlinked.2
  | missing call absent =>
    obtain ⟨-,empty⟩ := nodeAtSome absent
    have other : j ≠ m.w0.toNat := by
      rintro rfl
      rw [empty] at found
      cases Option.some.inj found
    rcases call with call | call <;>
      simpa only [countGrabs,call,Function.update_of_ne other] using held j node found
  | @grabbed i old call index there =>
    have same : m.w0.toNat = i := by omega
    simp only [countGrabs,call,same]
    rcases setNode there found with ⟨rfl,entry⟩ | ⟨other,kept⟩
    · cases Option.some.inj entry
      rw [Function.update_self]
      exact (held j old there).grabbed (same ▸ fitting.fits call)
    · rw [Function.update_of_ne other]
      exact held j node kept
  | @released i old call index there =>
    have same : m.w0.toNat = i := by omega
    simp only [countGrabs,call,same]
    rcases setNode there found with ⟨rfl,entry⟩ | ⟨other,kept⟩
    · have quiet := held j old there
      rw [Function.update_self]
      rcases quiet.released (same ▸ fitting.sendable.matched call) m with
        ⟨two,result⟩ | ⟨more,result⟩ | ⟨-,-,result⟩
      · rw [result] at entry
        cases Option.some.inj entry
        exact ⟨by rw [two]; rfl,by omega,quiet.links,fun _ => rfl⟩
      · rw [result] at entry
        cases Option.some.inj entry
        have range := quiet.range
        exact ⟨rfl,by omega,quiet.links,fun few => absurd few (by omega)⟩
      · rw [result] at entry
        contradiction
    · rw [Function.update_of_ne other]
      exact held j node kept
  | @passed i old call index there =>
    have grabs : countGrabs s m = s.grabs := by
      rcases call with call | call <;> simp only [countGrabs,call]
    rw [grabs]
    rcases setNode there found with ⟨rfl,entry⟩ | ⟨other,kept⟩
    · cases Option.some.inj entry
      exact (held j old there).passed m
    · exact held j node kept
  | ignored call =>
    obtain ⟨-,-,grab,release,make,-⟩ := call
    have grabs : countGrabs s m = s.grabs := by
      unfold countGrabs
      split <;> first | contradiction | rfl
    rw [grabs]
    exact held j node found

theorem noWaitersOnHalfClosedPipe {s : PipeState} {history : List (Msg × List Msg)}
    (run : Run.Reaches pipeServe Fitting FreshPipes s history) :
    (∀ (i : Nat) (node : PdNode), s.nodes[i]? = some (some node) → node.refcnt ≤ 1 → node.links = 0 →
      node.msgs = []) ∧
    ∀ m after replies, Fitting s m → pipedev s.nodes m = some (after,replies) →
      ∀ (i : Nat) (node : PdNode), s.nodes[i]? = some (some node) →
        (∀ node' : PdNode, m.cmd = .inodeRelease → m.w0 = i → after[i]? = some (some node') →
          node'.refcnt = 1 → node'.msgs = [] ∧ replies = node.msgs.map pdFlushed ++ [m]) ∧
        (after[i]? = some none → node.msgs = []) := by
  have held : Closing s := run.stateInvariant (P := Closing)
    (by
      rintro s ⟨fresh,-⟩ i node found
      rw [fresh] at found
      have none := List.eq_of_mem_replicate (List.mem_of_getElem? found)
      contradiction)
    (by
      intro s m s' out held fitting taken
      simp only [pipeServe,bind,Option.bind_eq_some_iff] at taken
      obtain ⟨⟨after,replies⟩,ok,last⟩ := taken
      obtain ⟨rfl,-⟩ := Prod.mk.inj (Option.some.inj last)
      exact pipeServeClosing held fitting ok)
  refine ⟨?_,?_⟩
  · intro i node found few links
    have quiet := held i node found
    have count := quiet.count
    exact quiet.empty (by omega)
  intro m after replies fitting ok i node found
  refine ⟨?_,?_⟩
  · intro node' call index new one
    have result : pipedev s.nodes m =
        some (s.nodes.set i (pdRelease node m).1,(pdRelease node m).2) := by
      simp only [pipedev,call,index,nodeAtNat,found,bind,Option.bind_some,Int.toNat_natCast]
    rw [result] at ok
    obtain ⟨rfl,rfl⟩ := Prod.mk.inj (Option.some.inj ok)
    have matched := fitting.sendable.matched call
    rw [index,Int.toNat_natCast] at matched
    rw [List.getElem?_set_self (List.getElem?_eq_some_iff.mp found).1] at new
    rcases (held i node found).released matched m with ⟨-,result⟩ | ⟨more,result⟩ | ⟨-,-,result⟩
    · rw [result] at new ⊢
      cases Option.some.inj (Option.some.inj new)
      exact ⟨rfl,rfl⟩
    · rw [result] at new
      cases Option.some.inj (Option.some.inj new)
      have : ((s.grabs i - 1 : Nat) : Int) = 1 := one
      omega
    · rw [result] at new
      cases Option.some.inj new
  · intro gone
    rcases (pipedevTurn ok).freed found gone with call | ⟨call,index,none⟩
    · exact absurd call fitting.sendable.unlinked.2
    have matched := fitting.sendable.matched call
    rw [index,Int.toNat_natCast] at matched
    rcases (held i node found).released matched m with ⟨-,result⟩ | ⟨-,result⟩ | ⟨-,empty,-⟩
    · rw [result] at none
      contradiction
    · rw [result] at none
      contradiction
    · exact empty

def pipeMsg (cmd : Cmd) (client : Pid) : Msg := ⟨cmd,client,0,0,0,none,.pipedev⟩

-- A reader waits, one end is closed, and the reader is told.
theorem halfClosedPipeTellsReader : ∃ s history, Run.Reaches pipeServe Fitting FreshPipes s history ∧
    s.nodes[0]? = some (some ⟨2,0,[pipeMsg .readc 0x11]⟩) ∧
    ∃ after replies, pipedev s.nodes (pipeMsg .inodeRelease 0x10) = some (after,replies) ∧
      after[0]? = some (some ⟨1,0,[]⟩) ∧
      replies = [pdFlushed (pipeMsg .readc 0x11),pipeMsg .inodeRelease 0x10] := by
  have start : Run.Reaches pipeServe Fitting FreshPipes ⟨pipedevStart,fun _ => 0⟩ [] := .start ⟨rfl,fun _ => rfl⟩
  have made := start.next (i := pipeMsg .mknod 0x10) ⟨⟨by decide,by simp [pipeMsg]⟩,by simp [pipeMsg]⟩ rfl
  have once := made.next (i := pipeMsg .inodeGrab 0x10) ⟨⟨by decide,by simp [pipeMsg]⟩,fun _ => by decide⟩ rfl
  have twice := once.next (i := pipeMsg .inodeGrab 0x10) ⟨⟨by decide,by simp [pipeMsg]⟩,fun _ => by decide⟩ rfl
  have waits := twice.next (i := pipeMsg .readc 0x11) ⟨⟨by decide,by simp [pipeMsg]⟩,by simp [pipeMsg]⟩ rfl
  obtain ⟨-,law⟩ := noWaitersOnHalfClosedPipe waits
  have told := (law (pipeMsg .inodeRelease 0x10) _ _ ⟨⟨by decide,fun _ => by decide⟩,by simp [pipeMsg]⟩ rfl 0 _ rfl).1
    ⟨1,0,[]⟩ rfl rfl rfl rfl
  exact ⟨_,_,waits,rfl,_,_,rfl,rfl,told.2⟩

end Avros.Vfs
