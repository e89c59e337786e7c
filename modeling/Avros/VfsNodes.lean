import Avros.VfsRefcount

/-! What an exchange with VFS does to a driver's inodes: how many references each node
counts, and whether anybody can be left waiting in it. A terminal has no inodes. -/
namespace Avros.Vfs

-- The driver counts `k n` references to its node `n`, and none to nodes it does not have.
def TableCounts {α : Type} (refcnt : α → Int) (nodes : List (Option α)) (k : Int → Nat) : Prop :=
  ∀ n, (∃ node, nodeAt nodes n = some (some node) ∧ refcnt node = k n) ∨
    ((∀ node, nodeAt nodes n ≠ some (some node)) ∧ k n = 0)

def NodeCounts (k : Int → Nat) : Device → Prop
  | .pipedev nodes => TableCounts PdNode.refcnt nodes k
  | .memfile nodes => TableCounts MfNode.refcnt nodes k
  | .ttyUsart0 _ => True

/- Nobody waits in a pipe with less than two references and no name. `Z` are pipes that
have no name, `F` those that may have neither a name nor a reference yet. -/
structure Calm (Z F : Int → Prop) (n : Int) (node : PdNode) : Prop where
  low : 0 ≤ node.refcnt
  high : node.refcnt ≤ 127
  empty : node.refcnt ≤ 1 → node.links = 0 → node.msgs = []
  unnamed : Z n → node.links = 0
  used : node.refcnt = 0 → node.links = 0 → F n

def CalmPipes (Z F : Int → Prop) : Device → Prop
  | .pipedev nodes => ∀ (n : Int) (node : PdNode), nodeAt nodes n = some (some node) → Calm Z F n node
  | _ => ∀ n, ¬ Z n

def Present (n : Int) : Device → Prop
  | .pipedev nodes => ∃ node, nodeAt nodes n = some (some node)
  | .memfile nodes => ∃ node, nodeAt nodes n = some (some node)
  | .ttyUsart0 _ => True

-- The same, with a reference where it is a pipe.
def Held (n : Int) : Device → Prop
  | .pipedev nodes => ∃ node, nodeAt nodes n = some (some node) ∧ 0 < node.refcnt
  | .memfile nodes => ∃ node, nodeAt nodes n = some (some node)
  | .ttyUsart0 _ => True

theorem Held.present {n : Int} {dv : Device} (held : Held n dv) : Present n dv := by
  cases dv with
  | pipedev nodes => exact ⟨held.choose,held.choose_spec.1⟩
  | memfile nodes => exact held
  | ttyUsart0 t => exact trivial

def unit (n j : Int) : Nat := if j = n then 1 else 0

section
variable {α : Type} {refcnt : α → Int} {nodes : List (Option α)} {k k' : Int → Nat}

theorem nodeAtSet {i : Nat} {old entry : Option α} (there : nodes[i]? = some old) (n : Int) :
    nodeAt (nodes.set i entry) n = if n = i then some entry else nodeAt nodes n := by
  have inside := (List.getElem?_eq_some_iff.mp there).1
  unfold nodeAt
  by_cases same : n = i
  · subst same
    simp [inside]
  · by_cases negative : n < 0
    · simp [negative,same]
    · have other : i ≠ n.toNat := by omega
      simp only [if_neg negative,if_neg same,List.getElem?_set_ne other]

theorem TableCounts.set (held : TableCounts refcnt nodes k) {i : Nat} {old entry : Option α}
    (there : nodes[i]? = some old)
    (new : (∃ node, entry = some node ∧ refcnt node = k' i) ∨ (entry = none ∧ k' i = 0))
    (others : ∀ n : Int, n ≠ i → k' n = k n) : TableCounts refcnt (nodes.set i entry) k' := by
  intro n
  rw [nodeAtSet there]
  by_cases same : n = i
  · subst same
    simp only [if_true]
    rcases new with ⟨node,rfl,count⟩ | ⟨rfl,zero⟩
    · exact Or.inl ⟨node,rfl,count⟩
    · exact Or.inr ⟨by simp,zero⟩
  · rw [if_neg same,others n same]
    exact held n

theorem TableCounts.at (held : TableCounts refcnt nodes k) {i : Nat} {node : α}
    (there : nodes[i]? = some (some node)) : refcnt node = k i := by
  rcases held i with ⟨found,at_,count⟩ | ⟨absent,-⟩
  · rw [nodeAtNat,there] at at_
    cases Option.some.inj (Option.some.inj at_)
    exact count
  · exact absurd (by rw [nodeAtNat,there]) (absent node)

theorem TableCounts.kept (held : TableCounts refcnt nodes k) {i : Nat} {node new : α}
    (there : nodes[i]? = some (some node)) (same : refcnt new = refcnt node) :
    TableCounts refcnt (nodes.set i (some new)) k :=
  held.set there (Or.inl ⟨new,rfl,same.trans (held.at there)⟩) (fun _ _ => rfl)

theorem TableCounts.absent (held : TableCounts refcnt nodes k) {i : Nat}
    (there : nodes[i]? = some none) : k i = 0 := by
  rcases held i with ⟨found,at_,-⟩ | ⟨-,zero⟩
  · rw [nodeAtNat,there] at at_
    cases Option.some.inj at_
  · exact zero

end

theorem unitSelf (n : Int) : unit n n = 1 := if_pos rfl
theorem unitOther {n j : Int} (other : j ≠ n) : unit n j = 0 := if_neg other

section
variable {Z F F' : Int → Prop}

theorem calmSet {nodes : PdNodes} (held : CalmPipes Z F (.pipedev nodes)) {i : Nat} {old entry : Option PdNode}
    (there : nodes[i]? = some old) (new : ∀ node, entry = some node → Calm Z F' i node)
    (others : ∀ n : Int, n ≠ i → F n → F' n) : CalmPipes Z F' (.pipedev (nodes.set i entry)) := by
  intro n node found
  rw [nodeAtSet there] at found
  split at found
  · rename_i same
    rw [same]
    exact new node (Option.some.inj found)
  · rename_i other
    have calm := held n node found
    exact ⟨calm.low,calm.high,calm.empty,calm.unnamed,fun zero plain => others n other (calm.used zero plain)⟩

theorem Calm.passed {n : Int} {node : PdNode} (calm : Calm Z F n node) (msg : Msg) :
    Calm Z F n (pdRw node msg).1 ∧ (pdRw node msg).1.refcnt = node.refcnt := by
  have kept : ∀ msgs, ¬ (node.refcnt ≤ 1 ∧ node.links = 0) → Calm Z F n { node with msgs := msgs } :=
    fun msgs several => ⟨calm.low,calm.high,fun few plain => absurd ⟨few,plain⟩ several,calm.unnamed,calm.used⟩
  unfold pdRw
  split
  · split
    · exact ⟨calm,rfl⟩
    · rename_i several
      exact ⟨kept _ several,rfl⟩
  · rename_i container rest line
    have several : ¬ (node.refcnt ≤ 1 ∧ node.links = 0) := by
      rintro ⟨few,plain⟩
      rw [calm.empty few plain] at line
      contradiction
    split
    · exact ⟨kept _ several,rfl⟩
    · exact ⟨kept _ several,rfl⟩

theorem Calm.released {n : Int} {node : PdNode} {k : Nat} (calm : Calm Z F n node)
    (count : node.refcnt = (k + 1 : Nat)) (msg : Msg) :
    (∃ left, (pdRelease node msg).1 = some left ∧ left.refcnt = k ∧ Calm Z F n left) ∨
    ((pdRelease node msg).1 = none ∧ k = 0 ∧ node.msgs = []) := by
  have high := calm.high
  have less : toChar (node.refcnt - 1) = k := by
    rw [count,toCharSmall (by omega) (by omega)]
    omega
  unfold pdRelease
  dsimp only
  rw [less]
  split
  · rename_i one
    exact Or.inl ⟨_,rfl,one.symm ▸ rfl,⟨by dsimp only; omega,by dsimp only; omega,fun _ _ => rfl,calm.unnamed,
      fun zero => by dsimp only at zero; omega⟩⟩
  rename_i notOne
  split
  · rename_i several
    exact Or.inl ⟨_,rfl,rfl,⟨by dsimp only; omega,by dsimp only; omega,fun few => by dsimp only at few; omega,
      calm.unnamed,fun zero => absurd zero several⟩⟩
  rename_i zero
  have none : k = 0 := by omega
  subst none
  split
  · rename_i named
    exact Or.inl ⟨_,rfl,rfl,⟨by simp,by simp,fun _ plain => absurd plain named,calm.unnamed,
      fun _ plain => absurd plain named⟩⟩
  · rename_i plain
    exact Or.inr ⟨rfl,rfl,calm.empty (by omega) (by simpa using plain)⟩

end

section
variable {rx : Int} {msg : Msg} {dv dv' : Device} {replies : List Msg} {k : Int → Nat} {Z F : Int → Prop}

theorem TableCounts.grabbed {α : Type} {refcnt : α → Int} {nodes : List (Option α)}
    (held : TableCounts refcnt nodes k) {i : Nat} {node : α} (new : α) (there : nodes[i]? = some (some node))
    (more : refcnt new = toChar (refcnt node + 1)) (fits : k i < 127) :
    refcnt new = refcnt node + 1 ∧
      TableCounts refcnt (nodes.set i (some new)) (fun n => k n + unit i n) := by
  have count := held.at there
  have next : refcnt new = refcnt node + 1 := by
    rw [more,count]
    exact toCharSmall (by omega) (by omega)
  refine ⟨next,held.set there (Or.inl ⟨new,rfl,?_⟩) ?_⟩
  · rw [next,count,unitSelf]
    rfl
  · intro n apart
    rw [unitOther apart,Nat.add_zero]

theorem grabDevice (call : msg.cmd = .inodeGrab) (counts : NodeCounts k dv) (calm : CalmPipes Z F dv)
    (fits : k msg.w0 < 127) (ok : askDevice rx msg dv = some (dv',replies)) :
    ∃ last, replies = [last] ∧
      ((last.w0 < 0 ∧ dv' = dv ∧ ∀ nodes, dv = .pipedev nodes → ¬ Present msg.w0 dv) ∨
      (0 ≤ last.w0 ∧ NodeCounts (fun n => k n + unit msg.w0 n) dv' ∧ CalmPipes Z F dv')) := by
  cases dv with
  | pipedev nodes =>
    simp only [askDevice,pipedev,call,bind,Option.map_eq_some_iff,Option.bind_eq_some_iff] at ok
    obtain ⟨⟨after,out⟩,⟨entry,found,turn⟩,same⟩ := ok
    cases same
    obtain ⟨i,index,natural,there⟩ := nodeAtIndex found
    rw [natural] at turn
    rw [index] at fits found ⊢
    split at turn <;> cases Option.some.inj turn
    · refine ⟨_,rfl,Or.inl ⟨by simp,rfl,?_⟩⟩
      rintro - - ⟨node,present⟩
      rw [found] at present
      cases Option.some.inj present
    rename_i node
    have calmNode := calm i node found
    obtain ⟨more,counts⟩ := counts.grabbed { node with refcnt := toChar (node.refcnt + 1) } there rfl fits
    have high := counts.at (List.getElem?_set_self (List.getElem?_eq_some_iff.mp there).1)
    rw [unitSelf] at high
    refine ⟨_,rfl,Or.inr ⟨by omega,counts,calmSet calm there ?_ (fun _ _ held => held)⟩⟩
    intro new same
    cases Option.some.inj same
    have low := calmNode.low
    exact ⟨by omega,by omega,fun few => calmNode.empty (by omega),calmNode.unnamed,fun zero => by omega⟩
  | memfile nodes =>
    simp only [askDevice,memfile,call,bind,Option.map_eq_some_iff,Option.bind_eq_some_iff] at ok
    obtain ⟨⟨after,out⟩,⟨entry,found,turn⟩,same⟩ := ok
    cases same
    obtain ⟨i,index,natural,there⟩ := nodeAtIndex found
    rw [natural] at turn
    rw [index] at fits ⊢
    split at turn <;> cases Option.some.inj turn
    · exact ⟨_,rfl,Or.inl ⟨by simp,rfl,by simp⟩⟩
    rename_i node
    obtain ⟨-,counts⟩ := counts.grabbed { node with refcnt := toChar (node.refcnt + 1) } there rfl fits
    exact ⟨_,rfl,Or.inr ⟨by omega,counts,calm⟩⟩
  | ttyUsart0 t =>
    simp only [askDevice,ttyUsart0,call,Option.map_some,Option.some.injEq,Prod.mk.injEq] at ok
    obtain ⟨rfl,rfl⟩ := ok
    refine ⟨msg,rfl,?_⟩
    by_cases negative : msg.w0 < 0
    · exact Or.inl ⟨negative,rfl,by simp⟩
    · exact Or.inr ⟨by omega,trivial,calm⟩

theorem releaseDevice (call : msg.cmd = .inodeRelease) (counts : NodeCounts k dv) (calm : CalmPipes Z F dv)
    (some_ : 0 < k msg.w0) (fits : k msg.w0 ≤ 127) (ok : askDevice rx msg dv = some (dv',replies)) :
    NodeCounts (fun n => k n - unit msg.w0 n) dv' ∧ CalmPipes Z F dv' := by
  have less : ∀ i : Nat, ∀ n : Int, n ≠ i → k n - unit i n = k n := by
    intro i n apart
    rw [unitOther apart,Nat.sub_zero]
  cases dv with
  | pipedev nodes =>
    simp only [askDevice,pipedev,call,bind,Option.map_eq_some_iff,Option.bind_eq_some_iff] at ok
    obtain ⟨⟨after,out⟩,⟨entry,found,turn⟩,same⟩ := ok
    cases same
    obtain ⟨i,index,natural,there⟩ := nodeAtIndex found
    rw [natural] at turn
    rw [index] at some_ fits found ⊢
    split at turn <;> cases Option.some.inj turn
    · have zero := counts.absent there
      omega
    rename_i node
    have calmNode := calm i node found
    have count : node.refcnt = ((k i - 1 + 1 : Nat) : Int) := by
      rw [counts.at there]
      omega
    refine ⟨counts.set there ?_ (less _),calmSet calm there ?_ (fun _ _ held => held)⟩
    · rw [unitSelf]
      rcases calmNode.released count msg with ⟨left,result,remains,-⟩ | ⟨result,zero,-⟩
      · exact Or.inl ⟨left,result,remains⟩
      · exact Or.inr ⟨result,zero⟩
    · intro new same
      rcases calmNode.released count msg with ⟨left,result,-,calmLeft⟩ | ⟨result,-,-⟩
      · rw [result] at same
        cases Option.some.inj same
        exact calmLeft
      · rw [result] at same
        contradiction
  | memfile nodes =>
    simp only [askDevice,memfile,call,bind,Option.map_eq_some_iff,Option.bind_eq_some_iff] at ok
    obtain ⟨⟨after,out⟩,⟨entry,found,turn⟩,same⟩ := ok
    cases same
    obtain ⟨i,index,natural,there⟩ := nodeAtIndex found
    rw [natural] at turn
    rw [index] at some_ fits ⊢
    split at turn <;> cases Option.some.inj turn
    · have zero := counts.absent there
      omega
    rename_i node
    have count : toChar (node.refcnt - 1) = ((k i - 1 : Nat) : Int) := by
      rw [counts.at there,toCharSmall (by omega) (by omega)]
      omega
    refine ⟨counts.set there ?_ (less _),calm⟩
    rw [unitSelf]
    unfold mfUnref
    dsimp only
    split
    · exact Or.inl ⟨_,rfl,count⟩
    · rename_i unused
      refine Or.inr ⟨rfl,?_⟩
      have zero : toChar (node.refcnt - 1) = 0 := by
        by_cases zero : toChar (node.refcnt - 1) = 0
        · exact zero
        · exact absurd (Or.inl zero) unused
      omega
  | ttyUsart0 t =>
    simp only [askDevice,ttyUsart0,call,Option.map_some,Option.some.injEq,Prod.mk.injEq] at ok
    obtain ⟨rfl,rfl⟩ := ok
    exact ⟨trivial,calm⟩

def Fresh (k : Int → Nat) (n : Int) : Device → Prop
  | .pipedev nodes => k n = 0 ∧ nodeAt nodes n = some (some ⟨0,0,[]⟩)
  | _ => True

theorem makeDevice (call : msg.cmd = .mknod) (counts : NodeCounts k dv) (calm : CalmPipes Z F dv)
    (ok : askDevice rx msg dv = some (dv',replies)) :
    ∃ last, replies = [last] ∧ NodeCounts k dv' ∧ CalmPipes Z (fun n => F n ∨ n = last.w0) dv' ∧
      Fresh k last.w0 dv' := by
  cases dv with
  | pipedev nodes =>
    obtain ⟨after,rfl,turn⟩ := deviceTurn ok
    simp only [pipedev,call,bind,Option.bind_eq_some_iff] at turn
    obtain ⟨i,found,last⟩ := turn
    cases Option.some.inj last
    have empty := firstEmpty found
    have zero := counts.absent empty
    refine ⟨_,rfl,counts.set empty (Or.inl ⟨_,rfl,?_⟩) (fun _ _ => rfl),
      calmSet calm empty ?_ (fun _ _ held => Or.inl held),zero,?_⟩
    · rw [zero]
      rfl
    · intro new same
      cases Option.some.inj same
      exact ⟨by simp,by simp,fun _ _ => rfl,fun _ => rfl,fun _ _ => Or.inr rfl⟩
    · rw [nodeAtSet empty,if_pos rfl]
  | memfile nodes =>
    simp only [askDevice,memfile,call,Option.map_some,Option.some.injEq,Prod.mk.injEq] at ok
    obtain ⟨rfl,rfl⟩ := ok
    refine ⟨_,rfl,?_,calm,trivial⟩
    unfold mfCreateNode
    split
    · exact counts
    · rename_i i found
      have empty := firstEmpty found
      refine counts.set empty (Or.inl ⟨_,rfl,?_⟩) (fun _ _ => rfl)
      rw [counts.absent empty]
      rfl
  | ttyUsart0 t =>
    simp only [askDevice,ttyUsart0,call,Option.map_some,Option.some.injEq,Prod.mk.injEq] at ok
    obtain ⟨rfl,rfl⟩ := ok
    exact ⟨msg,rfl,trivial,calm,trivial⟩

theorem linkDevice (call : msg.cmd = .link) (counts : NodeCounts k dv) (calm : CalmPipes Z F dv)
    (fresh : Fresh k msg.w1 dv) (apart : Z msg.w1 → k msg.w1 ≠ 0) (ok : askDevice rx msg dv = some (dv',replies)) :
    NodeCounts k dv' ∧ CalmPipes Z (fun n => F n ∧ n ≠ msg.w1) dv' := by
  cases dv with
  | pipedev nodes =>
    simp only [askDevice,pipedev,call,bind,Option.map_eq_some_iff,Option.bind_eq_some_iff] at ok
    obtain ⟨⟨after,out⟩,⟨entry,found,turn⟩,same⟩ := ok
    cases same
    obtain ⟨zero,new⟩ := fresh
    rw [found] at new
    cases Option.some.inj new
    obtain ⟨i,index,natural,there⟩ := nodeAtIndex found
    rw [natural] at turn
    cases Option.some.inj turn
    refine ⟨counts.kept there rfl,calmSet calm there ?_ ?_⟩
    · intro node same
      cases Option.some.inj same
      exact ⟨by simp,by simp,fun _ _ => rfl,fun inZ => absurd zero (apart (index ▸ inZ)),fun _ plain => by
        simp [toChar] at plain⟩
    · intro n other held
      exact ⟨held,by omega⟩
  | memfile nodes =>
    simp only [askDevice,memfile,call,bind,Option.map_eq_some_iff,Option.bind_eq_some_iff] at ok
    obtain ⟨⟨after,out⟩,⟨entry,found,turn⟩,same⟩ := ok
    cases same
    obtain ⟨i,index,natural,there⟩ := nodeAtIndex found
    rw [natural] at turn
    split at turn <;> cases Option.some.inj turn
    · exact ⟨counts,calm⟩
    · exact ⟨counts.kept there rfl,calm⟩
  | ttyUsart0 t =>
    simp only [askDevice,ttyUsart0,call,Option.map_some,Option.some.injEq,Prod.mk.injEq] at ok
    obtain ⟨rfl,rfl⟩ := ok
    exact ⟨trivial,calm⟩

theorem otherDevice (call : msg.cmd ≠ .inodeGrab ∧ msg.cmd ≠ .inodeRelease ∧ msg.cmd ≠ .unlink ∧
      msg.cmd ≠ .mknod ∧ msg.cmd ≠ .link)
    (counts : NodeCounts k dv) (calm : CalmPipes Z F dv) (ok : askDevice rx msg dv = some (dv',replies)) :
    NodeCounts k dv' ∧ CalmPipes Z F dv' := by
  obtain ⟨notGrab,notRelease,notUnlink,notMknod,notLink⟩ := call
  cases dv with
  | pipedev nodes =>
    obtain ⟨after,rfl,turn⟩ := deviceTurn ok
    cases pipedevTurn turn with
    | made other => exact absurd other notMknod
    | missingLink other absent => exact ⟨counts,calm⟩
    | linked other => exact absurd other notLink
    | unlinked other => exact absurd other notUnlink
    | missing other => exact ⟨counts,calm⟩
    | grabbed other => exact absurd other notGrab
    | released other => exact absurd other notRelease
    | passed other index there =>
      obtain ⟨new,same⟩ := (calm _ _ (by rw [nodeAtNat]; exact there)).passed msg
      refine ⟨counts.kept there same,calmSet calm there ?_ (fun _ _ held => held)⟩
      intro node entry
      cases Option.some.inj entry
      exact new
    | ignored other => exact ⟨counts,calm⟩
  | memfile nodes =>
    obtain ⟨after,rfl,turn⟩ := deviceTurn ok
    refine ⟨?_,calm⟩
    cases memfileTurn turn with
    | made other => exact absurd other notMknod
    | missingLink other absent => exact counts
    | linked other => exact absurd other notLink
    | unlinked other => exact absurd other notUnlink
    | missing other => exact counts
    | grabbed other => exact absurd other notGrab
    | released other => exact absurd other notRelease
    | written other index there => exact counts.kept there rfl
    | told other => exact counts
  | ttyUsart0 t =>
    obtain ⟨after,rfl,turn⟩ := deviceTurn ok
    exact ⟨trivial,calm⟩

end

end Avros.Vfs
